import ThreeAddress.Proofs.Lowering.Supply
import ThreeAddress.Proofs.Program.Bounds

namespace ThreeAddress.Control

open Checked Code Lowering

variable {env : Env} {exit : Option Label} {s s' : State} {o : Outline} {D E : Set Temp}

theorem Covers.earlier {W : Temp → Prop} {new : List Instr} {ts : List Temp} (h : Covers W env s')
    (e : Emission s s' new ts) : Covers W env s := by
  obtain ⟨declared, hb, -⟩ := e.bound_eq
  exact ⟨h.receiver, fun d hd ↦ h.bound d (hb ▸ List.mem_append_right declared hd)⟩

theorem Covers.mono {W V : Temp → Prop} (h : Covers W env s) (hw : ∀ t, W t → V t) :
    Covers V env s := ⟨fun t ht ↦ hw t (h.receiver t ht), fun d hd ↦ hw d.2 (h.bound d hd)⟩

theorem carries_of_supplies {α : Type} {x : Lower α} {res : α → List Temp} {a : α}
    {new : List Instr} {ts : List Temp} (hx : Supplies env.receiver.toList x res)
    (h : x s = .ok a s') (e : Emission s s' new ts) (hc : Covers (· ∈ D) env s') :
    Carries exit D new ({t | t ∈ res a} ∪ D) := by
  obtain ⟨code, e', hs⟩ := hx h
  obtain rfl := e.code_unique e'
  exact (hs D (fun t ht ↦ hc.receiver t (Option.mem_toList.mp ht)) hc.bound).exits

theorem SegmentOf.carries {segment : Segment} (h : SegmentOf env s segment s')
    (hc : Covers (· ∈ D) env s') :
    Carries exit D segment.code ({t | t ∈ [segment.value]} ∪ D) := by
  obtain ⟨e, he⟩ := h.source
  have hx : Supplies env.receiver.toList (e.lower env) fun t ↦ [t] :=
    e.tracks Supplies.tracking fun _ ↦ Option.mem_toList.mpr
  have hcarries : Carries exit D segment.code _ := carries_of_supplies hx he h.emission hc
  exact hcarries

theorem LeafOf.carries {code : List Instr} (h : LeafOf env s code s') (hc : Covers (· ∈ D) env s') :
    Carries exit D code D := by
  obtain ⟨x, hx, ha⟩ := h.source
  have hcarries : Carries exit D code _ :=
    carries_of_supplies (hx.tracks Supplies.tracking Supplies.copy) ha h.emission hc
  exact hcarries.weaken Set.subset_union_right

theorem GuardOf.carries {guard : Option Segment} {e : Each} (h : GuardOf env e.leave s guard s')
    (hc : Covers (· ∈ D) env s') : Carries (some e.leave) D (e.guardCode guard) D := by
  cases h with
  | absent => exact .nil subset_rfl
  | @present _ _ guard hg ej =>
    have htest : Carries (some e.leave) D guard.code _ := hg.carries (hc.earlier ej)
    have hjump : Carries (some e.leave) ({t | t ∈ [guard.value]} ∪ D)
      [.jumpIfZero guard.value e.leave] _ := .leaveUnless (.inl List.mem_cons_self)
    exact (htest.append Set.subset_union_right hjump).weaken Set.subset_union_right

/-- The temporaries that hold values whenever a loop over an array starts another round. -/
def Each.ready (e : Each) (D : Set Temp) : Set Temp :=
  {t | t ∈ [e.word, e.one, e.cursor, e.length, e.index]} ∪ D

theorem Each.head_carries (e : Each) {array : Segment} (ha : Carries none D array.code
    ({t | t ∈ [array.value]} ∪ D)) :
    Carries none D (array.code ++ e.setup array.value) (e.ready D) := by
  have hsetup : Carries none ({t | t ∈ [array.value]} ∪ D) (e.setup array.value) _ :=
    .line (by simp [ArrayLoop.setup, Instr.isPlain]) (by simp [ArrayLoop.setup, Supplied, available,
      Instr.reads, Instr.dst?, Instr.label?, Instr.target?])
  refine (ha.append Set.subset_union_right hsetup).weaken ?_
  exact Set.union_subset_union_right _ Set.subset_union_right

theorem Each.round_carries (e : Each) {guard body : List Instr}
    (hg : Carries (some e.leave) (e.ready D) guard (e.ready D))
    (hb : Carries (some e.leave) (e.ready D) body (e.ready D)) :
    Carries (some e.leave) (e.ready D) (e.test ++ (e.fetch ++ (guard ++ (e.advance ++ body))))
      (e.ready D) := by
  have hin : ∀ t ∈ [e.word, e.one, e.cursor, e.length, e.index], t ∈ e.ready D := by
    simp +contextual [Each.ready]
  simp only [List.forall_mem_cons] at hin
  have htest : Carries (some e.leave) (e.ready D) e.test (e.ready D) := by
    have hline : Carries (some e.leave) (e.ready D) [.binary e.more .less e.index e.length,
        .binary e.nextIndex .add e.index e.one, .copy e.index e.nextIndex] _ :=
      .line (by simp [Instr.isPlain]) (by simp [Supplied, available, Instr.reads, Instr.dst?,
        Instr.label?, Instr.target?, hin])
    refine (hline.append Set.subset_union_right (.leaveUnless (.inl ?_))).weaken
      Set.subset_union_right
    simp [Instr.dst?]
  have hfetch : Carries (some e.leave) (e.ready D) e.fetch _ :=
    .line (by simp [ArrayLoop.fetch, Instr.isPlain]) (by simp [ArrayLoop.fetch, Supplied, available,
      Instr.reads, Instr.dst?, Instr.label?, Instr.target?, hin])
  have hadvance : Carries (some e.leave) (e.ready D) e.advance _ :=
    .line (by simp [Each.advance, Instr.isPlain]) (by simp [Each.advance, Supplied, available,
      Instr.reads, Instr.dst?, Instr.label?, Instr.target?, hin])
  have hrest := (hadvance.weaken Set.subset_union_right).append subset_rfl hb
  have hlater := (hfetch.weaken Set.subset_union_right).append subset_rfl
    (hg.append subset_rfl hrest)
  exact htest.append subset_rfl hlater

theorem round_carries {s₁ s₂ s₃ : State} {test : Segment} {leave : Label} {body : Outline}
    {new later : List Instr} (ht : SegmentOf env s test s₁)
    (ej : Emission s₁ s₂ new []) (hb : LaidOut env (some leave) s₂ body s₃)
    (el : Emission s₃ s' later []) (hc : Covers (· ∈ D) env s')
    (ih : ∀ E, Covers (· ∈ E) env s₃ → Carries (some leave) E body.flatten E) :
    Carries (some leave) D (test.code ++ .jumpIfZero test.value leave :: body.flatten) D := by
  have hc₃ := hc.earlier el
  have htest : Carries (some leave) D test.code _ :=
    ht.carries ((hc₃.earlier hb.emission).earlier ej)
  have hjump : Carries (some leave) ({t | t ∈ [test.value]} ∪ D)
    [.jumpIfZero test.value leave] _ := .leaveUnless (.inl List.mem_cons_self)
  have hbody := ih ({t | t ∈ [test.value]} ∪ D) (hc₃.mono fun t ht ↦ .inr ht)
  exact (htest.append Set.subset_union_right (hjump.append subset_rfl hbody)).weaken
    Set.subset_union_right

/-- A statement needs the values of variables only, and so does the code behind it. -/
theorem LaidOut.carries (h : LaidOut env exit s o s') (hc : Covers (· ∈ D) env s') :
    Carries exit D o.flatten D := by
  induction h generalizing D with
  | skip => exact .nil subset_rfl
  | leaf h => exact h.carries hc
  | seq _ hr ihf ihr => exact (ihf (hc.earlier hr.emission)).append subset_rfl (ihr hc)
  | when ht ej hd hb ed ihb =>
    have hc₃ := hc.earlier ed
    have hc₁ := (hc₃.earlier hb.emission).earlier ej
    exact .when (ht.carries hc₁) Set.subset_union_right (.inl List.mem_cons_self) (ihb hc₃)
  | choose ht ej _ _ hy eo hn ed ihy ihn =>
    have hc₅ := hc.earlier ed
    have hc₃ := (hc₅.earlier hn.emission).earlier eo
    have hc₁ := (hc₃.earlier hy.emission).earlier ej
    exact .choose (ht.carries hc₁) Set.subset_union_right (.inl List.mem_cons_self) (ihy hc₃)
      (ihn hc₅)
  | whileLoop ea _ ht ej _ hb el ihb =>
    have hround := round_carries ht ej hb el hc fun E ↦ ihb
    simpa [Outline.flatten] using Carries.loop hround subset_rfl
  | forLoop ea _ _ hu ec ht ej _ hb el ihu ihb =>
    have hround := round_carries ht ej hb el hc fun E ↦ ihb
    have hc₅ := (hc.earlier el).earlier hb.emission
    have hupdate := ihu (((hc₅.earlier ej).earlier ht.emission).earlier ec)
    simpa [Outline.flatten] using Carries.loopFrom hupdate hround subset_rfl
  | @forEach exit _ _ _ _ _ _ _ _ e _ _ _ _ ed _ _ ha es _ _ hg en hb el ihb =>
    have hc₆ := hc.earlier el
    have hc₄ := (hc₆.earlier hb.emission).earlier en
    have hready (t : Temp) (ht : t ∈ D) : t ∈ e.ready D := .inr ht
    have hround := e.round_carries (hg.carries (hc₄.mono hready)) (ihb (hc₆.mono hready))
    have hhead := e.head_carries (ha.carries ((hc₄.earlier hg.emission).earlier es))
    have hloop : Carries exit (e.ready D) (.label e.again :: _) _ := .loop hround subset_rfl
    simpa [Outline.flatten] using (hhead.exits.append hready hloop).weaken hready
  | ret => exact .ret (by simp)
  | @retValue exit _ _ _ value hv e =>
    have hvalue : Carries exit D value.code _ := hv.carries (hc.earlier e)
    exact hvalue.append Set.subset_union_right (.ret fun t ht ↦ .inl (by simpa using ht.symm))
  | leave => exact .leave

end ThreeAddress.Control

namespace ThreeAddress.Lowering

open Checked Code Control

variable {symbols : SymbolTable} {m : MethodDef} {f : Function} {g : Generator} {s' : State}

theorem lowerMethod_supplied (h : lowerMethod symbols m { generator := g } = .ok f s') :
    ∃ notes, Supplied notes {t | t ∈ s'.bound.map Prod.snd} f.body.toList := by
  obtain ⟨symbol, receiver, s₁, s₂, -, hopen, hb, hcode, -, hbound⟩ := lowerMethod_ok h
  obtain ⟨o, ho, -⟩ := (Stmt.outlineAll_refines none m.body).ok hb
  have hl := Stmt.laidOutAll none m.body ho
  have hbody : f.body.toList = o.flatten := by
    rw [hcode, hl.emission.code_eq, hopen.code_eq, List.nil_append]
  have hvars (t : Temp) (ht : t ∈ s₁.bound.map Prod.snd) : t ∈ s₂.bound.map Prod.snd := by
    obtain ⟨declared, hd, -⟩ := hl.emission.bound_eq
    rw [hd, List.map_append]
    exact List.mem_append_right _ ht
  have hcovers : Covers (· ∈ {t | t ∈ s₂.bound.map Prod.snd}) ⟨symbols, receiver⟩ s₂ := by
    refine ⟨fun t ht ↦ hvars t ?_, fun d hd ↦ List.mem_map_of_mem hd⟩
    rw [hopen.bound_temps, List.mem_reverse]
    exact hopen.receiver_mem t ht
  rw [hbody, hbound]
  exact (hl.carries hcovers).supplied hl.emission.labels_nodup

end ThreeAddress.Lowering

namespace ThreeAddress.Checked

open Code Lowering

/-- On no path does a function read a temporary that has not been written on it, unless it is a
parameter or belongs to a variable. -/
theorem CheckedUnit.lower_defined_before_use {u : CheckedUnit} {p : Code.Program}
    (h : u.lower = .ok (.ok p)) :
    List.Forall₂ (fun m f ↦ ∃ g s, lowerMethod u.symbols m { generator := g } = .ok f s ∧
        ∀ passed i rest t, Path f.body.toList passed (i :: rest) → t ∈ i.reads → t ∉ f.params →
          t ∉ s.bound.map Prod.snd → ∃ j ∈ passed, j.dst? = some t)
      (methodsOf u.program.classes) p.functions := by
  refine (u.lower_functions h).imp fun m f hm ↦ ?_
  obtain ⟨g, s, hm⟩ := hm
  obtain ⟨notes, hs⟩ := lowerMethod_supplied hm
  refine ⟨g, s, hm, fun passed i rest t hp ht _ hvar ↦ ?_⟩
  exact (hs.read_written hp ht).resolve_left hvar

/-- The tour has a loop over an array, a loop that fills one, and a result that two branches write.
-/
theorem tourUnit_defined_before_use :
    tourUnit.lower = .ok (.ok tourProgram) ∧
    List.Forall₂ (fun m f ↦ ∃ g s, lowerMethod tourUnit.symbols m { generator := g } = .ok f s ∧
        ∀ passed i rest t, Path f.body.toList passed (i :: rest) → t ∈ i.reads → t ∉ f.params →
          t ∉ s.bound.map Prod.snd → ∃ j ∈ passed, j.dst? = some t)
      (methodsOf tourUnit.program.classes) tourProgram.functions := by
  have h : tourUnit.lower = .ok (.ok tourProgram) := by decide +kernel
  exact ⟨h, CheckedUnit.lower_defined_before_use h⟩

end ThreeAddress.Checked
