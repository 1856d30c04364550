import ThreeAddress.Proofs.Control.Inventory

namespace ThreeAddress.Checked

open Code Control Lowering Machine

variable {env : Env} {known : List Mark} {span : Span}

theorem var_hasOffset {symbols : SymbolTable} {v : VarId} {symbol : VariableSymbol}
    (h : symbols.var? v = some symbol) (ho : symbol.offset = .minValue) :
    symbols.HasOffset .minValue :=
  .inr ⟨symbol, Array.mem_of_getElem? h, ho⟩

theorem method_hasOffset {symbols : SymbolTable} {m : MethodId} {symbol : MethodSymbol}
    (h : symbols.method? m = some symbol) (ho : symbol.offset = .minValue) :
    symbols.HasOffset .minValue :=
  .inl ⟨symbol, Array.mem_of_getElem? h, ho⟩

theorem lookUp_surveys {α β : Type} {found : Option α} {kind : DefectKind} {f : α → Lower β}
    {accesses : List (Happening Access)} {rest : β → List Temp}
    (hf : ∀ a, found = some a → Surveys env known (f a) accesses rest) :
    Surveys env known (lookUp found kind span >>= f) accesses rest := by
  cases found with
  | none =>
    intro s b s' h
    obtain ⟨a, s₁, ha, -⟩ := bind_ok_iff.mp h
    cases ha
  | some a =>
    show Surveys env known (pure a >>= f) accesses rest
    rw [pure_bind]
    exact hf a rfl

def inTurn {α β : Type} (x : Lower α) (y : Lower β) : Lower (α × β) := do
  let a ← x
  let b ← y
  return (a, b)

theorem inTurn_ok {α β : Type} {x : Lower α} {y : Lower β} {s s' : State} {r : α × β}
    (h : inTurn x y s = .ok r s') : ∃ t, x s = .ok r.1 t ∧ y t = .ok r.2 s' := by
  obtain ⟨a, t, ha, h⟩ := bind_ok_iff.mp h
  obtain ⟨b, t', hb, h⟩ := bind_ok_iff.mp h
  obtain ⟨rfl, rfl⟩ := pure_ok_iff.mp h
  exact ⟨t, ha, hb⟩

theorem inTurn_surveys {α β : Type} {x : Lower α} {y : Lower β}
    {accesses₁ accesses₂ : List (Happening Access)} {res : α → List Temp} {rest : β → List Temp}
    (hx : Surveys env known x accesses₁ res) (hy : ∀ known, Surveys env known y accesses₂ rest) :
    Surveys env known (inTurn x y) (accesses₁ ++ accesses₂) fun r ↦ res r.1 ++ rest r.2 :=
  hx.bind fun a ↦ (hy _).andThen fun b ↦ .pure (a, b) (by simp +contextual [or_imp])

/-- Each access of the expression has its site, whatever is known before. -/
def Covered (env : Env) (e : Expr) : Prop :=
  ∀ known, Surveys env known (e.lower env) e.accesses fun t ↦ [t]

/-- An access whose two operands come right in front of it. -/
theorem operands_enter {α β γ : Type} {x : Lower α} {y : Lower β} {f : α → β → Lower γ}
    {Q : α → β → State → γ → State → Site → Prop} {access : Access}
    {accesses₁ accesses₂ accesses₃ : List (Happening Access)} {left : α → List Temp}
    {right : β → List Temp} {rest : γ → List Temp} (hx : Surveys env known x accesses₁ left)
    (hy : ∀ known, Surveys env known y accesses₂ right)
    (hf : ∀ a b, Enters env ((left a ++ right b).map .temp ++ known) (f a b) (Q a b) accesses₃ rest)
    (hQ : ∀ ⦃s a t b s₁ c s' site⦄, x s = .ok a t → y t = .ok b s₁ → f a b s₁ = .ok c s' →
      Q a b s₁ c s' site → Stands env s s' s₁.bound.length access site) :
    Surveys env known (x >>= fun a ↦ y >>= fun b ↦ f a b)
      (accesses₁ ++ accesses₂ ++ .made access :: accesses₃) rest := by
  have h : Surveys env known (inTurn x y >>= fun r ↦ f r.1 r.2)
      (accesses₁ ++ accesses₂ ++ .made access :: accesses₃) rest := by
    refine (inTurn_surveys hx hy).enter (fun r ↦ hf r.1 r.2) ?_
    intro s r s₁ c s' site hr hc hq
    obtain ⟨t, ha, hb⟩ := inTurn_ok hr
    exact hQ ha hb hc hq
  simpa only [inTurn, bind_assoc, pure_bind] using h

theorem indexed_surveys {array index : Expr} (ha : Covered env array) (hi : Covered env index) :
    Surveys env known (do
      let a ← array.lower env
      let i ← index.lower env
      let address ← checkedAddress a i
      load address 0) (array.accesses ++ index.accesses ++ [.made (.read array index)])
        fun t ↦ [t] := by
  refine operands_enter (ha known) hi (fun _ _ ↦ Enters.read (by simp) (by simp)) ?_
  rintro s a t i s₁ r s' site ha hi hread rfl
  obtain ⟨address, s₂, hc, hl⟩ := bind_ok_iff.mp hread
  exact .read (.refl s) ha hi rfl hc hl (.refl s')

theorem indexed_surveys_target {array index : Expr} (value : Temp) (ha : Covered env array)
    (hi : Covered env index) :
    Surveys env known (do
      let a ← array.lower env
      let i ← index.lower env
      let address ← checkedAddress a i
      append (.store value address 0)) (array.accesses ++ index.accesses ++
        [.made (.write array index)]) := by
  refine operands_enter (ha known) hi (fun _ _ ↦ Enters.write value (by simp) (by simp)) ?_
  rintro s a t i s₁ r s' site ha hi hwrite rfl
  obtain ⟨address, s₂, hc, hw⟩ := bind_ok_iff.mp hwrite
  exact .write (.refl s) ha hi rfl hc hw (.refl s')

theorem defaultIndex_surveys {array index fallback : Expr} (ha : Covered env array)
    (hi : Covered env index) (hd : Covered env fallback) :
    Surveys env known (do
      let a ← array.lower env
      let i ← index.lower env
      let d ← fallback.lower env
      readOr a i d) (array.accesses ++ (index.accesses ++ fallback.accesses) ++
        [.made (.readOr array index fallback)]) fun t ↦ [t] := by
  have h : Surveys env known
      (inTurn (array.lower env) (inTurn (index.lower env) (fallback.lower env)) >>= fun r ↦
        readOr r.1 r.2.1 r.2.2) (array.accesses ++ (index.accesses ++ fallback.accesses) ++
        [.made (.readOr array index fallback)]) fun t ↦ [t] := by
    refine (inTurn_surveys (ha known) fun known ↦ inTurn_surveys (hi known) hd).enter
      (fun r ↦ Enters.readOr r.2.2 (by simp) (by simp)) ?_
    rintro s r s₁ b s' site hr hread rfl
    obtain ⟨t, ha, hr⟩ := inTurn_ok hr
    obtain ⟨t', hi, hd⟩ := inTurn_ok hr
    exact .readOr (.refl s) ha hi hd rfl hread (.refl s')
  simpa only [inTurn, bind_assoc, pure_bind] using h

theorem newSameArray_surveys {element count : Expr} (he : Covered env element)
    (hc : Covered env count) :
    Surveys env known (do
      let t ← element.lower env
      let n ← count.lower env
      fillArray env t n element.type span) (element.accesses ++ count.accesses ++
        [.made (.fill element count)]) fun t ↦ [t] := by
  refine operands_enter (he known) hc (fun _ _ ↦ Enters.fillArray (by simp)) ?_
  rintro s e t n s₁ a s' site he hc hfill rfl
  exact .fill (.refl s) he hc rfl hfill (.refl s')

mutual

theorem Expr.surveys {known : List Mark} : (e : Expr) →
    Surveys env known (e.lower env) e.accesses fun t ↦ [t]
  | .mk (.literal l) _ _ _ => .literal l
  | .mk .null _ _ _ => .constant 0
  | .mk .this _ _ _ => .findReceiver
  | .mk .readInteger _ _ _ => (Surveys.callRoutine _).before fun _ ↦ .demand (by simp +contextual)
  | .mk .readLine _ _ _ => (Surveys.callRoutine _).before fun _ ↦ .demand (by simp +contextual)
  | .mk (.ident owner symbol) _ .memberVar span => by
    rw [Expr.lower]
    refine (Expr.surveysOwner owner).andThen fun object ↦ ?_
    rw [Env.findVar_eq]
    exact lookUp_surveys fun member hm ↦ .load object (var_hasOffset hm)
  | .mk (.ident _ symbol) _ .localVar _ => .findTemp symbol
  | .mk (.ident _ symbol) _ .paramVar _ => .findTemp symbol
  | .mk (.ident _ symbol) _ .notLValue _ => .findTemp symbol
  | .mk (.ident _ _) _ .arrayElement _ => .reject _ _
  | .mk (.indexed array index) _ _ _ =>
    indexed_surveys (fun _ ↦ array.surveys) fun _ ↦ index.surveys
  | .mk (.call c) _ _ _ => (c.surveys).andThen fun _ ↦ .demand (by simp +contextual)
  | .mk (.arrayLength array) _ _ _ => array.surveys.andThen fun a ↦ .loadLength a
  | .mk (.binary op left right) _ _ _ =>
    left.surveys.bind fun l ↦ right.surveys.andThen fun r ↦ .applyOp op _ _ l (by simp)
  | .mk (.unary _ operand) _ _ _ => operand.surveys.andThen fun t ↦
    .compute (fun _ ↦ rfl) (fun _ ↦ rfl) (fun _ ↦ rfl) (fun _ ↦ rfl) (by simp [Instr.offset?])
  | .mk (.newClass c) _ _ _ => by
    rw [Expr.lower, Env.findClass_eq]
    exact lookUp_surveys fun symbol _ ↦ (Surveys.call (fun _ ↦ rfl) (fun _ ↦ rfl) (fun _ ↦ rfl)
      (fun _ ↦ rfl) fun _ ↦ rfl).before fun _ ↦ .demand (by simp +contextual)
  | .mk (.newArray _ length) _ _ _ => length.surveys.andThen fun n ↦
    .compute (fun _ ↦ rfl) (fun _ ↦ rfl) (fun _ ↦ rfl) (fun _ ↦ rfl) (by simp [Instr.offset?])
  | .mk (.instanceOf object c) _ _ _ => by
    rw [Expr.lower, Env.findClass_eq]
    exact object.surveys.andThen fun t ↦ lookUp_surveys fun symbol _ ↦
      .compute (fun _ ↦ rfl) (fun _ ↦ rfl) (fun _ ↦ rfl) (fun _ ↦ rfl) (by simp [Instr.offset?])
  | .mk (.cast object c) _ _ _ => by
    rw [Expr.lower, Env.findClass_eq]
    refine object.surveys.andThen fun t ↦ lookUp_surveys fun symbol _ ↦ ?_
    split
    · exact (Surveys.append rfl rfl rfl (by simp [Instr.target?]) (by simp [Instr.offset?])).before
        fun _ ↦ .pure t (by simp)
    · exact .pure t (by simp)
  | .mk (.shallowCopy source) _ _ _ => by
    rw [Expr.lower]
    split
    · exact source.surveys.andThen fun t ↦ .cloneObject t _
    · exact .reject _ _
  | .mk (.newSameArray element count) _ _ _ =>
    newSameArray_surveys (fun _ ↦ element.surveys) fun _ ↦ count.surveys
  | .mk (.defaultIndex array index fallback) _ _ _ =>
    defaultIndex_surveys (fun _ ↦ array.surveys) (fun _ ↦ index.surveys) fun _ ↦ fallback.surveys
  | .mk (.varBinding symbol) _ _ _ => .declare symbol

theorem Expr.surveysOwner {known : List Mark} {span : Span} : (owner : Option Expr) →
    Surveys env known (Expr.lowerOwner env span owner) (Expr.accessesOption owner) fun t ↦ [t]
  | some owner => owner.surveys
  | none => .findReceiver

theorem Call.surveys {known : List Mark} {span : Span} : (c : Call) →
    Surveys env known (c.lower env span) c.accesses Option.toList
  | .mk receiver method args => by
    rw [Call.lower, Env.findMethod_eq]
    exact lookUp_surveys fun symbol hm ↦ (Expr.surveysOption receiver).bind fun r ↦
      (Expr.surveysAll args).andThen fun ts ↦ .callMethod r ts (method_hasOffset hm)

theorem Expr.surveysOption {known : List Mark} : (e : Option Expr) →
    Surveys env known (Expr.lowerOption env e) (Expr.accessesOption e) Option.toList
  | some e => e.surveys.andThen fun t ↦ .pure (some t) (by simp)
  | none => .pure none (by simp)

theorem Expr.surveysAll {known : List Mark} : (es : List Expr) →
    Surveys env known (Expr.lowerAll env es) (Expr.accessesAll es) fun ts ↦ ts
  | [] => .pure [] (by simp)
  | e :: es => e.surveys.bind fun t ↦ (Expr.surveysAll es).andThen fun ts ↦
    .pure (t :: ts) (by simp +contextual)

end

def eachTail (env : Env) (guard : Option Expr) (body : Stmt) (loop : ArrayLoop) : Lower Unit := do
  Expr.lowerGuard env loop.leave guard
  let _ ← loop.advance
  body.lower env (some loop.leave)
  closeLoop loop.again loop.leave

theorem lower_forEach (exit : Option Label) (v : VarId) (array : Expr) (guard : Option Expr)
    (body : Stmt) (span : Span) :
    (Stmt.mk (.forEach v array guard body) span).lower env exit =
      (declare v >>= fun element ↦ array.lower env >>= fun a ↦
        openEach element a >>= eachTail env guard body) := by
  rw [Stmt.lower]
  rfl

/-- Neither the guard nor the body of a loop writes the temporaries of the loop, and they jump to
labels of their own and out of the loop. -/
theorem each_alone {e : Each} {array : Temp} {guard : Option Segment} {o : Outline}
    {s s₁ s₂ s₃ s₄ : State} {head : List Instr} (hs : Situated env s)
    (ha : array.index ≤ s.temps) (hel : e.element.index ≤ s.temps)
    (eh : Emission s s₁ head e.temps)
    (hg : GuardOf env e.leave s₁ guard s₂) (en : Emission s₂ s₃ e.advance [e.nextCursor])
    (hb : LaidOut env (some e.leave) s₃ o s₄) : e.Alone array (e.guardCode guard) o.flatten := by
  have hle := hg.emission.temps_le
  have hlast := en.issued List.mem_cons_self
  have hadvance : Ascending s₁.temps [e.nextCursor] s₃.temps := ⟨hle.trans_lt hlast.1, hlast.2⟩
  have hasc : Ascending s.temps e.scratch s₃.temps := eh.ascending.append hadvance
  have hnew (t : Temp) (ht : t ∈ e.scratch) : s.temps < t.index := (hasc.mem ht).1
  have hmem (t : Temp) : t ∈ e.scratch ↔ t ∈ e.temps ∨ t = e.nextCursor := by
    simp [Each.scratch, ArrayLoop.temps]
    tauto
  -- all that the guard and the body know was there before the loop or was issued for them
  have hc₁ : Covers (· ∉ e.scratch) env s₁ := by
    refine ⟨fun t ht hm ↦ ?_, fun d hd hm ↦ ?_⟩
    · have := hnew t hm
      have := hs.receiver_le t ht
      omega
    · obtain ⟨declared, hbound, hi⟩ := eh.bound_eq
      rw [hbound] at hd
      rcases List.mem_append.mp hd with hd | hd
      · rcases (hmem d.2).mp hm with hm | hm
        · exact (hi d hd).2 hm
        · have := (hi d hd).1.2
          have := hlast.1
          rw [hm] at *
          omega
      · have := hnew d.2 hm
        have := hs.bound_le d hd
        omega
  have hguard : LeavesOut (· ∉ e.scratch) s₁ [] s₂ := by
    intro t ht
    refine iff_of_true (fun hm ↦ ?_) List.not_mem_nil
    rcases (hmem t).mp hm with hm | rfl
    · have := (eh.issued hm).2
      have := ht.1
      omega
    · have := ht.2
      have := hlast.1
      omega
  obtain ⟨hwithin, hc₂⟩ := hg.footprint.fits hc₁ hguard
  have hnext : LeavesOut (· ∉ e.scratch) s₂ [e.nextCursor] s₃ := by
    intro t ht
    rw [not_iff_not, hmem, List.mem_singleton]
    refine or_iff_right fun hm ↦ ?_
    have := (eh.issued hm).2
    have := ht.1
    omega
  obtain ⟨-, hc₃⟩ := (Footprint.of_emission en).fits hc₂ hnext
  have hs₃ := situated_later (situated_later (situated_later hs eh) hg.emission) en
  have hwrites := hb.spares (fun t ht ↦ (hasc.mem ht).2) hc₃ ⟨hs₃.receiver_le, hs₃.bound_le⟩
  have hgwrites : Writes (· ∉ e.scratch) (e.guardCode guard) := by
    cases guard with
    | none => exact .nil
    | some g => simpa [Each.guardCode, Instr.dst?] using Writes.of_mentions (hwithin g rfl).mentions
  refine ⟨⟨_, _, hasc⟩, fun hm ↦ ?_, fun hm ↦ ?_, fun i hi t ht hd ↦ hgwrites i hi t hd ht,
    fun i hi t ht hd ↦ hwrites i hi t hd ht, ?_, ?_⟩
  · have := hnew _ hm
    omega
  · have := hnew _ hm
    omega
  · intro l hl
    exact (hg.closed.placed l hl).imp_right fun h ↦ (Option.some.inj h).symm
  · intro l hl
    exact (hb.closed.placed l hl).imp_right fun h ↦ (Option.some.inj h).symm

theorem eachTail_ok {loop : ArrayLoop} {guard : Option Expr} {body : Stmt} {s s' : State} {u : Unit}
    (h : eachTail env guard body loop s = .ok u s') :
    ∃ next segment o s₁ s₂ s₃, GuardOf env loop.leave s segment s₁ ∧
      Emission s₁ s₂ (Each.advance { loop with nextCursor := next }) [next] ∧
      LaidOut env (some loop.leave) s₂ o s₃ ∧
      Emission s₃ s' (Each.close { loop with nextCursor := next }) [] := by
  simp only [eachTail, bind_ok_iff] at h
  obtain ⟨_, s₁, hg, next, s₂, hn, _, s₃, hb, hc⟩ := h
  obtain ⟨segment, hsegment, -⟩ := (Expr.segmentGuard_refines loop.leave guard).ok hg
  obtain ⟨o, ho, -⟩ := (body.outline_refines (some loop.leave)).ok hb
  exact ⟨next, segment, o, s₁, s₂, s₃, segmentGuard_ok hsegment, advance_ok hn,
    Stmt.laidOut _ body ho, closeLoop_ok hc⟩

theorem Expr.surveysGuard {l : Label} (guard : Option Expr) (h : .label l ∈ known) :
    Surveys env known (Expr.lowerGuard env l guard) (Expr.accessesOption guard) := by
  cases guard with
  | none => exact .pure () (by simp)
  | some guard => exact guard.surveys.andThen fun t ↦ .jumpIfZero t (List.mem_append_right _ h)

def CoveredStmt (env : Env) (body : Stmt) : Prop :=
  ∀ known l, .label l ∈ known → Surveys env known (body.lower env (some l)) body.accesses

theorem closeLoop_surveys {again : Label} (leave : Label) (h : .label again ∈ known) :
    Surveys env known (closeLoop again leave) [] :=
  (Surveys.jump h).before fun _ ↦ .place leave

theorem advance_surveys (loop : ArrayLoop) : Surveys env known loop.advance [] :=
  (Surveys.operate _ _ (by simp) (by simp)).before fun next ↦ (Surveys.copy _ _).before fun _ ↦
    .pure next (by simp)

theorem eachTail_surveys {loop : ArrayLoop} {guard : Option Expr} {body : Stmt}
    (hb : CoveredStmt env body) (hagain : .label loop.again ∈ known)
    (hleave : .label loop.leave ∈ known) :
    Surveys env known (eachTail env guard body loop)
      (Expr.accessesOption guard ++ body.accesses) :=
  (Expr.surveysGuard guard hleave).bind fun _ ↦ (advance_surveys loop).before fun _ ↦
    (hb _ _ (by simpa using hleave)).andThen fun _ ↦ closeLoop_surveys _ (by simpa using hagain)

/-- The code of a loop over an array, from behind the array, guards the access to the element. -/
theorem each_guarded {e : Each} {array : Temp} {guard : Option Segment} {o : Outline}
    {s s₁ s₂ s₃ s₄ s' : State} (hs : Situated env s) (ha : array.index ≤ s.temps)
    (hel : e.element.index ≤ s.temps) (hagain : IssuedLabel s e.again s₁)
    (hleave : IssuedLabel s e.leave s₁)
    (eh : Emission s s₁ (e.head array) e.temps) (hg : GuardOf env e.leave s₁ guard s₂)
    (en : Emission s₂ s₃ e.advance [e.nextCursor])
    (hb : LaidOut env (some e.leave) s₃ o s₄) (ec : Emission s₄ s' e.close []) :
    Emission s₁ s' (e.guardCode guard ++ e.onward o.flatten) [] ∧
      Site.GuardedBy ⟨s.code.length, s.code.length + 10, array, .stored, false⟩
        (e.block array (e.guardCode guard) o.flatten) ∧
      Housed s.code.length (e.block array (e.guardCode guard) o.flatten) s s'
        (e.block array (e.guardCode guard) o.flatten) := by
  have erest := en.weaken.trans (hb.emission.trans ec)
  refine ⟨hg.emission.trans erest, Site.guardedBy_each (each_alone hs ha hel eh hg en hb),
    .whole fun l hl ↦ ?_⟩
  have hmem : l = e.again ∨ l ∈ labels (e.guardCode guard) ∨ l ∈ labels o.flatten ∨
    l = e.leave := by
    simpa [Each.block, Each.access, Each.onward, Each.close, ArrayLoop.setup, ArrayLoop.test,
      ArrayLoop.fetch, Each.advance, Instr.label?] using hl
  rcases hmem with rfl | hl | hl | rfl
  · exact hagain.widen (.refl s) (hg.emission.trans erest)
  · exact (hg.closed.issued l hl).widen eh erest
  · exact (hb.closed.issued l hl).widen (eh.trans (hg.emission.trans en)) ec
  · exact hleave.widen (.refl s) (hg.emission.trans erest)

/-- The first access of a loop over an array is to the element; those of the guard and of the body
follow. -/
theorem each_enters {element array : Temp} {guard : Option Expr} {body : Stmt}
    (hel : .temp element ∈ known) (ha : .temp array ∈ known) (hb : CoveredStmt env body) :
    Enters env known (openEach element array >>= eachTail env guard body)
      (fun s _ s' site ↦ site = ⟨s.code.length, s.code.length + 10, array, .stored, false⟩ ∧
        ∃ loop t, openEach element array s = .ok loop t ∧ Leads t s')
      (Expr.accessesOption guard ++ body.accesses) := by
  intro s u s' h hs hold
  obtain ⟨loop, s₁, hhead, htail⟩ := bind_ok_iff.mp h
  obtain ⟨helement, eh, hagain, hleave⟩ := openEach_ok hhead
  have hold₁ : ∀ k ∈ Mark.label loop.again :: .label loop.leave :: known, k.Old s₁ := by
    simp only [List.forall_mem_cons]
    exact ⟨hagain.2, hleave.2, fun k hk ↦ (hold k hk).later eh⟩
  obtain ⟨new, sites, et, v, p, -⟩ := eachTail_surveys hb List.mem_cons_self
    (List.mem_cons_of_mem _ List.mem_cons_self) htail (situated_later hs eh) hold₁
  have hlead : Survey env.symbols known s s' (loop.head array ++ new) sites := by
    refine .lead ⟨rfl, ?_, ?_⟩ ?_ v eh et hold ?_
    · simp [ArrayLoop.head, ArrayLoop.setup, ArrayLoop.test, ArrayLoop.fetch, Instr.offset?]
    · simp [ArrayLoop.head, ArrayLoop.setup, ArrayLoop.test, ArrayLoop.fetch, Instr.divides]
    · intro l hl
      obtain rfl : l = loop.leave := by
        simpa [ArrayLoop.head, ArrayLoop.setup, ArrayLoop.test, ArrayLoop.fetch, Instr.target?]
          using hl
      exact .inr hleave
    · intro l hl
      simp only [List.mem_cons, Mark.label.injEq] at hl
      rcases hl with rfl | rfl | hl
      · exact .inr hagain
      · exact .inr hleave
      · exact .inl hl
  obtain ⟨next, segment, o, s₂, s₃, s₄, hg, en, ho, ec⟩ := eachTail_ok htail
  obtain ⟨et', hguarded, hhoused⟩ := each_guarded (e := { loop with nextCursor := next }) hs
    (hold _ ha) (helement ▸ hold _ hel) hagain hleave eh hg en ho ec
  obtain rfl := et.code_unique et'
  have hbound : s₁.bound = s.bound := Bindless.of_mechanical (.openEach element array) hhead
  rw [hbound] at p
  refine ⟨_, _, sites, eh.weaken.trans et, hlead.cons hguarded ?_ fun later hl ↦ ?_,
    ⟨rfl, loop, s₁, hhead, ⟨_, et⟩⟩, Stands.accounts p ⟨_, eh.weaken⟩ (.refl s'), by simp⟩
  · simpa [Each.block, Each.access, ArrayLoop.head] using hhoused
  · have hw := (v.window et hl).1
    rw [eh.code_eq, List.length_append] at hw
    simp only [ArrayLoop.head, ArrayLoop.setup, ArrayLoop.test, ArrayLoop.fetch, List.length_append,
      List.length_cons, List.length_nil] at hw
    show s.code.length + 10 < later.place
    omega

theorem forEach_surveys {exit : Option Label} {v : VarId} {array : Expr} {guard : Option Expr}
    {body : Stmt} (hb : CoveredStmt env body) :
    Surveys env known ((Stmt.mk (.forEach v array guard body) span).lower env exit)
      (.declared v :: array.accesses ++
        .made (.forEach array) :: (Expr.accessesOption guard ++ body.accesses)) := by
  rw [lower_forEach]
  refine operands_enter (Surveys.declare v) (fun _ ↦ array.surveys)
    (fun _ _ ↦ each_enters (by simp) (by simp) hb) ?_
  rintro s element t a s₁ u s' site hd ha - ⟨rfl, loop, t', hopen, hend⟩
  exact .forEach ⟨_, (declare_ok hd).1⟩ ha rfl hopen hend

theorem Expr.surveysEffects (e : Expr) :
    Surveys env known (e.lowerEffects env) e.accesses := by
  obtain ⟨kind, type, lvalue, span⟩ := e
  unfold Expr.lowerEffects
  split
  · rename_i c hc
    obtain rfl : kind = .call c := hc
    exact c.surveys.andThen fun _ ↦ .pure () (by simp)
  · exact (Expr.surveys _).andThen fun _ ↦ .pure () (by simp)

theorem Expr.surveysTarget (target : Expr) (t : Temp) :
    Surveys env known (target.lowerTarget env t) target.accessesTarget := by
  unfold Expr.lowerTarget Expr.accessesTarget
  generalize target.lvalue = lvalue, target.kind = kind
  split
  · exact indexed_surveys_target t (fun _ ↦ Expr.surveys _) fun _ ↦ Expr.surveys _
  · refine (Expr.surveysOwner _).andThen fun object ↦ ?_
    rw [Env.findVar_eq]
    exact lookUp_surveys fun member hm ↦ .store t object (var_hasOffset hm)
  · exact (Surveys.findTemp _).before fun place ↦ .copy place t
  · exact (Surveys.findTemp _).before fun place ↦ .copy place t
  · exact (Surveys.declare _).andThen fun place ↦ .copy place t
  · exact .reject _ _

theorem print_surveys (t : Temp) (r : Routine) :
    Surveys env known (do pass t; let _ ← callRoutine r) [] := by
  refine .plain ((Bindless.step _).bind fun _ ↦ (Bindless.attempt _).bind fun _ ↦ .pure ())
    fun s _ s' h ↦ ?_
  obtain ⟨_, s₁, hp, h⟩ := bind_ok_iff.mp h
  obtain ⟨d, s₂, hc, h⟩ := bind_ok_iff.mp h
  obtain ⟨-, rfl⟩ := pure_ok_iff.mp h
  refine ⟨_, _, (pass_ok hp).trans (callRoutine_ok hc).1, ⟨rfl, ?_, ?_⟩, ?_, by simp⟩
  · simp [Instr.offset?]
  · simp [Instr.divides]
  · simp [Instr.target?]

theorem Expr.surveysPrint (e : Expr) : Surveys env known (e.lowerPrint env) e.accesses := by
  unfold Expr.lowerPrint
  refine e.surveys.andThen fun t ↦ ?_
  split
  · exact .reject _ _
  · exact print_surveys t _

theorem Expr.surveysPrints : (args : List Expr) →
    Surveys env known (args.forM (·.lowerPrint env)) (args.flatMap Expr.accesses)
  | [] => .pure () (by simp)
  | e :: es => e.surveysPrint.bind fun _ ↦ Expr.surveysPrints es

mutual

/-- Each access of a statement has its site. A loop around the statement is left at a label that is
known. -/
theorem Stmt.surveys {known : List Mark} {exit : Option Label} (hk : ∀ l ∈ exit, .label l ∈ known) :
    (stmt : Stmt) → Surveys env known (stmt.lower env exit) stmt.accesses
  | .mk (.varDef symbol) _ => (Surveys.declare symbol).andThen fun _ ↦ .pure () (by simp)
  | .mk (.block statements) _ => Stmt.surveysAll hk statements
  | .mk (.exec e) _ => e.surveysEffects
  | .mk (.assign target source) _ => source.surveys.bind fun t ↦ target.surveysTarget t
  | .mk (.cond condition thenBranch (some elseBranch)) _ => by
    refine condition.surveys.bind fun t ↦ .freshLabel fun done ↦ .freshLabel fun otherwise ↦
      (Surveys.jumpIfZero t (by simp)).before fun _ ↦ (thenBranch.surveys ?_).bind fun _ ↦
      (Surveys.jump (by simp)).before fun _ ↦ (Surveys.place _).before fun _ ↦
      (elseBranch.surveys ?_).andThen fun _ ↦ .place _
    all_goals exact fun l hl ↦ by simp [hk l hl]
  | .mk (.cond condition thenBranch none) _ => by
    refine condition.surveys.bind fun t ↦ .freshLabel fun done ↦
      (Surveys.jumpIfZero t (by simp)).before fun _ ↦ (thenBranch.surveys ?_).bind fun _ ↦ .place _
    exact fun l hl ↦ by simp [hk l hl]
  | .mk (.whileLoop condition body) _ => by
    refine .freshLabel fun again ↦ (Surveys.place _).before fun _ ↦ condition.surveys.bind fun t ↦
      .freshLabel fun leave ↦ (Surveys.jumpIfZero t (by simp)).before fun _ ↦
      (body.surveys ?_).andThen fun _ ↦ closeLoop_surveys _ (by simp)
    simp
  | .mk (.forLoop init condition update body) _ => by
    refine (Stmt.surveysOption hk init).bind fun _ ↦ .freshLabel fun test ↦ .freshLabel fun again ↦
      (Surveys.jump (by simp)).before fun _ ↦ (Surveys.place _).before fun _ ↦
      (Stmt.surveysOption ?_ update).bind fun _ ↦ (Surveys.place _).before fun _ ↦
      condition.surveys.bind fun t ↦ .freshLabel fun leave ↦
      (Surveys.jumpIfZero t (by simp)).before fun _ ↦ (body.surveys ?_).andThen fun _ ↦
      closeLoop_surveys _ (by simp)
    · exact fun l hl ↦ by simp [hk l hl]
    · simp
  | .mk (.forEach v array guard body) _ =>
    forEach_surveys fun _ l hl ↦ body.surveys (by simpa using hl)
  | .mk (.ret value) _ => (Expr.surveysOption value).andThen fun t ↦
    .append rfl rfl rfl (by simp [Instr.target?]) (by simp [Instr.offset?])
  | .mk .leave _ => by
    cases exit with
    | none => exact .reject _ _
    | some l => exact .jump (hk l rfl)
  | .mk (.print args) _ => Expr.surveysPrints args
  | .mk (.guarded alternatives last) _ => (Branch.surveysAll hk alternatives).bind fun _ ↦
    last.surveys hk _

theorem Stmt.surveysOption {known : List Mark} {exit : Option Label}
    (hk : ∀ l ∈ exit, .label l ∈ known) : (stmt : Option Stmt) →
    Surveys env known (Stmt.lowerOption env exit stmt) (Stmt.accessesOption stmt)
  | none => .pure () (by simp)
  | some stmt => stmt.surveys hk

theorem Stmt.surveysAll {known : List Mark} {exit : Option Label}
    (hk : ∀ l ∈ exit, .label l ∈ known) : (statements : List Stmt) →
    Surveys env known (Stmt.lowerAll env exit statements) (Stmt.accessesAll statements)
  | [] => .pure () (by simp)
  | stmt :: rest => (stmt.surveys hk).bind fun _ ↦ Stmt.surveysAll hk rest

theorem Branch.surveys {known : List Mark} {exit : Option Label}
    (hk : ∀ l ∈ exit, .label l ∈ known) : (b : Branch) → (stem : String) →
    Surveys env known (b.lower env exit stem) b.accesses
  | .mk guard body, _ => by
    refine guard.surveys.bind fun t ↦ .freshLabel fun skip ↦
      (Surveys.jumpIfZero t (by simp)).before fun _ ↦ (body.surveys ?_).andThen fun _ ↦ .place _
    exact fun l hl ↦ by simp [hk l hl]

theorem Branch.surveysAll {known : List Mark} {exit : Option Label}
    (hk : ∀ l ∈ exit, .label l ∈ known) : (branches : List Branch) →
    Surveys env known (Branch.lowerAll env exit branches) (Branch.accessesAll branches)
  | [] => .pure () (by simp)
  | b :: rest => (b.surveys hk _).bind fun _ ↦ Branch.surveysAll hk rest

end

end ThreeAddress.Checked
