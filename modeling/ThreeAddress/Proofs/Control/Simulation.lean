import ThreeAddress.Proofs.Control.Execution
import ThreeAddress.Proofs.Control.Footprint
import ThreeAddress.Proofs.Machine.Embedding
import ThreeAddress.Proofs.Machine.Fragment

namespace ThreeAddress.Control

open Code Lowering Machine

variable {ι : Type} {P : Platform ι} {W : Temp → Prop} {listing : List Instr}

theorem suffix_of_append {code rest : List Instr} (h : code ++ rest <:+ listing) :
    rest <:+ listing := (List.suffix_append code rest).trans h

theorem suffix_of_cons {i : Instr} {rest : List Instr} (h : i :: rest <:+ listing) :
    rest <:+ listing := (List.suffix_cons i rest).trans h

/-- Where a run from `start` gets to in a listing: to `rest` for a normal end, and to the label of
`exit` for a jump. Only temporaries in `W` and `own` have changed. -/
def Lands (P : Platform ι) (listing : List Instr) (W : Temp → Prop) (own : List Temp)
    (exit : Option Label) (start rest : List Instr) (τ : Store ι) : Outcome ι → Prop
  | .normal σ => ∃ τ', Reaches P listing (.running start τ) (.running rest τ') ∧ Agree W σ τ' ∧
      Spares (fun t ↦ W t ∨ t ∈ own) τ τ'
  | .broke σ => ∃ l ∈ exit, ∃ found τ', behind l listing = some found ∧
      Reaches P listing (.running start τ) (.running found τ') ∧ Agree W σ τ' ∧
      Spares (fun t ↦ W t ∨ t ∈ own) τ τ'
  | .ended e w => Reaches P listing (.running start τ) (.ended e w)

variable {own own' : List Temp} {exit : Option Label} {l : Label}
variable {start mid rest rest' : List Instr}
variable {σ σ₁ σ₂ τ τ₁ : Store ι} {out : Outcome ι} {w : World ι}

namespace Lands

theorem after (hr : Reaches P listing (.running start τ) (.running mid τ₁))
    (hs : Spares (fun t ↦ W t ∨ t ∈ own) τ τ₁) (h : Lands P listing W own exit mid rest τ₁ out) :
    Lands P listing W own exit start rest τ out := by
  cases out with
  | normal σ =>
    obtain ⟨τ', hr', ha, hs'⟩ := h
    exact ⟨τ', hr.trans hr', ha, hs.trans hs'⟩
  | broke σ =>
    obtain ⟨l, hl, found, τ', hb, hr', ha, hs'⟩ := h
    exact ⟨l, hl, found, τ', hb, hr.trans hr', ha, hs.trans hs'⟩
  | ended e w => exact hr.trans h

theorem before (h : Lands P listing W own exit start rest τ out)
    (hr : ∀ τ' : Store ι, Reaches P listing (.running rest τ') (.running rest' τ')) :
    Lands P listing W own exit start rest' τ out := by
  cases out with
  | normal σ =>
    obtain ⟨τ', hr', ha, hs⟩ := h
    exact ⟨τ', hr'.trans (hr τ'), ha, hs⟩
  | broke σ => exact h
  | ended e w => exact h

theorem mono (h : Lands P listing W own exit start rest τ out) (ho : ∀ t ∈ own, t ∈ own') :
    Lands P listing W own' exit start rest τ out := by
  have hv (t : Temp) (ht : W t ∨ t ∈ own) : W t ∨ t ∈ own' := ht.imp_right (ho t)
  cases out with
  | normal σ =>
    obtain ⟨τ', hr, ha, hs⟩ := h
    exact ⟨τ', hr, ha, hs.mono hv⟩
  | broke σ =>
    obtain ⟨l, hl, found, τ', hb, hr, ha, hs⟩ := h
    exact ⟨l, hl, found, τ', hb, hr, ha, hs.mono hv⟩
  | ended e w => exact h

theorem abrupt (h : Lands P listing W own exit start rest τ out) (ho : out.Abrupt) :
    Lands P listing W own exit start rest' τ out := by
  cases out with
  | normal σ => exact ho.elim
  | broke σ => exact h
  | ended e w => exact h

theorem ofLoop (h : Lands P listing W own (some l) start rest τ out) (ho : out.Abrupt)
    (hl : behind l listing = some rest') : Lands P listing W own exit start rest' τ out.ofLoop := by
  cases out with
  | normal σ => exact ho.elim
  | broke σ =>
    obtain ⟨_, hm, found, τ', hb, hr, ha, hs⟩ := h
    cases hm
    cases hb.symm.trans hl
    exact ⟨τ', hr, ha, hs⟩
  | ended e w => exact h

end Lands

section segment

variable {code : List Instr} {test : Segment}

theorem RunsThrough.placed (h : RunsThrough P code σ σ₁) (hp : Placed W listing code rest)
    (ha : Agree W σ τ) : ∃ τ₁, Reaches P listing (.running (code ++ rest) τ) (.running rest τ₁) ∧
      Agree W σ₁ τ₁ ∧ Spares (fun t ↦ W t ∨ t ∈ own) τ τ₁ := by
  obtain ⟨-, τ₁, hr, ha₁, hs⟩ := hp.reaches ha h
  exact ⟨τ₁, hr, ha₁, hs.mono fun t ht ↦ .inl ht⟩

theorem RunsThrough.holds (h : RunsThrough P test.code σ σ₁) (hv : σ₁.regs test.value ≠ 0)
    (ht : test.Within W) (hd : (labels listing).Nodup)
    (hp : test.code ++ .jumpIfZero test.value l :: rest <:+ listing) (ha : Agree W σ τ) :
    ∃ τ₁, Reaches P listing (.running (test.code ++ .jumpIfZero test.value l :: rest) τ)
        (.running rest τ₁) ∧ Agree W σ₁ τ₁ ∧ Spares (fun t ↦ W t ∨ t ∈ own) τ τ₁ := by
  obtain ⟨τ₁, hr, ha₁, hs⟩ := h.placed ⟨hd, hp, ht.mentions⟩ ha
  have hτ : τ₁.regs test.value ≠ 0 := by rwa [ha₁.regs_eq _ ht.value]
  exact ⟨τ₁, hr.trans (.next (if_neg hτ) (.refl _)), ha₁, hs⟩

theorem RunsThrough.fails {found : List Instr} (h : RunsThrough P test.code σ σ₁)
    (hv : σ₁.regs test.value = 0) (ht : test.Within W) (hd : (labels listing).Nodup)
    (hp : test.code ++ .jumpIfZero test.value l :: rest <:+ listing)
    (hl : behind l listing = some found) (ha : Agree W σ τ) :
    ∃ τ₁, Reaches P listing (.running (test.code ++ .jumpIfZero test.value l :: rest) τ)
        (.running found τ₁) ∧ Agree W σ₁ τ₁ ∧ Spares (fun t ↦ W t ∨ t ∈ own) τ τ₁ := by
  obtain ⟨τ₁, hr, ha₁, hs⟩ := h.placed ⟨hd, hp, ht.mentions⟩ ha
  have hτ : τ₁.regs test.value = 0 := by rwa [ha₁.regs_eq _ ht.value]
  exact ⟨τ₁, hr.trans (.jump (if_pos hτ) hl (.refl _)), ha₁, hs⟩

end segment

-- as with flattening, the equations are built once
attribute [local simp] Outline.scratch

/-- The flattened outline runs, wherever it stands in the listing, as the outline executes. -/
def Simulated (P : Platform ι) (listing : List Instr) (W : Temp → Prop) (o : Outline) (σ : Store ι)
    (out : Outcome ι) : Prop :=
  ∀ ⦃exit rest τ⦄, o.Fits W exit → o.flatten ++ rest <:+ listing →
    (∀ l ∈ exit, (behind l listing).isSome) → Agree W σ τ →
    Lands P listing W o.scratch exit (o.flatten ++ rest) rest τ out

namespace Simulated

variable {code : List Instr} {first second update body yes no : Outline} {test : Segment}
variable {done otherwise : Label}

theorem skip : Simulated P listing W .skip σ (.normal σ) :=
  fun _ _ τ _ _ _ ha ↦ ⟨τ, .refl _, ha, .refl _ τ⟩

theorem leaf (hd : (labels listing).Nodup) (h : RunsThrough P code σ σ₁) :
    Simulated P listing W (.leaf code) σ (.normal σ₁) :=
  fun _ _ _ hf hp _ ha ↦ h.placed ⟨hd, hp, hf⟩ ha

theorem leafHalts (hd : (labels listing).Nodup) (h : HaltsIn P code σ w) :
    Simulated P listing W (.leaf code) σ (.ended .halted w) :=
  fun _ _ _ hf hp _ ha ↦ Placed.halts ⟨hd, hp, hf⟩ ha h

theorem seq (hf : Simulated P listing W first σ (.normal σ₁))
    (hr : Simulated P listing W second σ₁ out) :
    Simulated P listing W (.seq first second) σ out := by
  intro exit rest τ hfit hp he ha
  rw [Outline.flatten, List.append_assoc] at hp ⊢
  obtain ⟨τ₁, hr₁, ha₁, hs₁⟩ := hf hfit.1 hp he ha
  refine .after hr₁ (hs₁.mono ?_) ((hr hfit.2 (suffix_of_append hp) he ha₁).mono ?_)
  · simp only [Outline.scratch, List.mem_append]
    tauto
  · simp +contextual [Outline.scratch]

theorem seqAbrupt (hf : Simulated P listing W first σ out) (ho : out.Abrupt) :
    Simulated P listing W (.seq first second) σ out := by
  intro exit rest τ hfit hp he ha
  rw [Outline.flatten, List.append_assoc] at hp ⊢
  refine ((hf hfit.1 hp he ha).abrupt ho).mono ?_
  simp +contextual [Outline.scratch]

theorem whenHolds (hd : (labels listing).Nodup) (ht : RunsThrough P test.code σ σ₁)
    (hv : σ₁.regs test.value ≠ 0) (hb : Simulated P listing W body σ₁ out) :
    Simulated P listing W (.when test done body) σ out := by
  intro exit rest τ hfit hp he ha
  simp only [Outline.flatten, List.append_assoc, List.cons_append, List.nil_append] at hp ⊢
  obtain ⟨τ₁, hr, ha₁, hs⟩ := ht.holds hv hfit.1 hd hp ha
  have hbody := hb hfit.2 (suffix_of_cons (suffix_of_append hp)) he ha₁
  exact (hbody.after hr hs).before fun _ ↦ .next rfl (.refl _)

theorem whenFails (hd : (labels listing).Nodup) (ht : RunsThrough P test.code σ σ₁)
    (hv : σ₁.regs test.value = 0) :
    Simulated P listing W (.when test done body) σ (.normal σ₁) := by
  intro exit rest τ hfit hp he ha
  simp only [Outline.flatten, List.append_assoc, List.cons_append, List.nil_append] at hp ⊢
  have hdone : behind done listing = some rest :=
    behind_eq_some hd (suffix_of_append (suffix_of_cons (suffix_of_append hp)))
  exact ht.fails hv hfit.1 hd hp hdone ha

theorem whenHalts (hd : (labels listing).Nodup) (ht : HaltsIn P test.code σ w) :
    Simulated P listing W (.when test done body) σ (.ended .halted w) := by
  intro exit rest τ hfit hp he ha
  rw [Outline.flatten, List.append_assoc] at hp ⊢
  exact Placed.halts ⟨hd, hp, hfit.1.mentions⟩ ha ht

theorem chooseYes (hd : (labels listing).Nodup) (ht : RunsThrough P test.code σ σ₁)
    (hv : σ₁.regs test.value ≠ 0) (hy : Simulated P listing W yes σ₁ out) :
    Simulated P listing W (.choose test otherwise done yes no) σ out := by
  intro exit rest τ hfit hp he ha
  simp only [Outline.flatten, List.append_assoc, List.cons_append, List.nil_append] at hp ⊢
  have hyes := suffix_of_cons (suffix_of_append hp)
  have hdone : behind done listing = some rest :=
    behind_eq_some hd (suffix_of_append (suffix_of_cons (suffix_of_cons (suffix_of_append hyes))))
  obtain ⟨τ₁, hr, ha₁, hs⟩ := ht.holds hv hfit.1 hd hp ha
  have hbranch := (hy hfit.2.1 hyes he ha₁).before fun _ ↦ .jump rfl hdone (.refl _)
  exact (hbranch.mono (by simp +contextual [Outline.scratch])).after hr hs

theorem chooseNo (hd : (labels listing).Nodup) (ht : RunsThrough P test.code σ σ₁)
    (hv : σ₁.regs test.value = 0) (hn : Simulated P listing W no σ₁ out) :
    Simulated P listing W (.choose test otherwise done yes no) σ out := by
  intro exit rest τ hfit hp he ha
  simp only [Outline.flatten, List.append_assoc, List.cons_append, List.nil_append] at hp ⊢
  have hlabel := suffix_of_cons (suffix_of_append (suffix_of_cons (suffix_of_append hp)))
  have hotherwise := behind_eq_some hd hlabel
  obtain ⟨τ₁, hr, ha₁, hs⟩ := ht.fails hv hfit.1 hd hp hotherwise ha
  have hbranch := (hn hfit.2.2 (suffix_of_cons hlabel) he ha₁).before fun _ ↦ .next rfl (.refl _)
  exact (hbranch.mono (by simp +contextual [Outline.scratch])).after hr hs

theorem chooseHalts (hd : (labels listing).Nodup) (ht : HaltsIn P test.code σ w) :
    Simulated P listing W (.choose test otherwise done yes no) σ (.ended .halted w) := by
  intro exit rest τ hfit hp he ha
  rw [Outline.flatten, List.append_assoc] at hp ⊢
  exact Placed.halts ⟨hd, hp, hfit.1.mentions⟩ ha ht

theorem ret : Simulated P listing W (.ret none) σ (.ended (.returned none) σ.world) := by
  intro exit rest τ hfit hp he ha
  rw [← ha.world_eq]
  exact .stop rfl

theorem retValue {value : Segment} (hd : (labels listing).Nodup)
    (hv : RunsThrough P value.code σ σ₁) : Simulated P listing W (.ret (some value)) σ
      (.ended (.returned (some (σ₁.regs value.value))) σ₁.world) := by
  intro exit rest τ hfit hp he ha
  rw [Outline.flatten, List.append_assoc] at hp ⊢
  obtain ⟨-, τ₁, hr, ha₁, -⟩ := Placed.reaches ⟨hd, hp, hfit.mentions⟩ ha hv
  rw [← ha₁.world_eq, ← ha₁.regs_eq _ hfit.value]
  exact hr.trans (.stop rfl)

theorem retHalts {value : Segment} (hd : (labels listing).Nodup) (hv : HaltsIn P value.code σ w) :
    Simulated P listing W (.ret (some value)) σ (.ended .halted w) := by
  intro exit rest τ hfit hp he ha
  rw [Outline.flatten, List.append_assoc] at hp ⊢
  exact Placed.halts ⟨hd, hp, hfit.mentions⟩ ha hv

theorem leave : Simulated P listing W (.leave l) σ (.broke σ) := by
  intro exit rest τ hfit hp he ha
  obtain ⟨found, hl⟩ := Option.isSome_iff_exists.mp (he l hfit)
  exact ⟨l, hfit, found, τ, hl, .jump rfl hl (.refl _), ha, .refl _ τ⟩

end Simulated

def turnCode (test : Segment) (body : Outline) (again leave : Label) (rest : List Instr) :
    List Instr :=
  test.code ++ .jumpIfZero test.value leave ::
    (body.flatten ++ .jump again :: .label leave :: rest)

/-- A loop in a listing. The update stands behind the label `again`, and from what is `next` to it
the test is reached. -/
structure LoopIn (P : Platform ι) (listing : List Instr) (W : Temp → Prop) (exit : Option Label)
    (test : Segment) (update body : Outline) (again leave : Label) (next rest : List Instr) :
    Prop where
  test_within : test.Within W
  update_fits : update.Fits W exit
  body_fits : body.Fits W (some leave)
  suffix : turnCode test body again leave rest <:+ listing
  again_eq : behind again listing = some (update.flatten ++ next)
  next_test : ∀ τ, Reaches P listing (.running next τ)
    (.running (turnCode test body again leave rest) τ)
  exits : ∀ l ∈ exit, (behind l listing).isSome

def SimulatedTurns (P : Platform ι) (listing : List Instr) (W : Temp → Prop) (test : Segment)
    (update body : Outline) (σ : Store ι) (out : Outcome ι) : Prop :=
  ∀ ⦃exit again leave next rest τ⦄,
    LoopIn P listing W exit test update body again leave next rest → Agree W σ τ →
    Lands P listing W (update.scratch ++ body.scratch) exit
      (turnCode test body again leave rest) rest τ out

section turns

variable {update body : Outline} {test : Segment} {again leave check : Label} {next : List Instr}
variable {σ₃ : Store ι}

namespace LoopIn

theorem leave_eq (h : LoopIn P listing W exit test update body again leave next rest)
    (hd : (labels listing).Nodup) : behind leave listing = some rest :=
  behind_eq_some hd
    (suffix_of_cons (suffix_of_append (suffix_of_cons (suffix_of_append h.suffix))))

theorem body_lands (h : LoopIn P listing W exit test update body again leave next rest)
    (hd : (labels listing).Nodup) (ht : RunsThrough P test.code σ σ₁)
    (hv : σ₁.regs test.value ≠ 0) (hb : Simulated P listing W body σ₁ out) (ha : Agree W σ τ) :
    Lands P listing W (update.scratch ++ body.scratch) (some leave)
      (turnCode test body again leave rest) (.jump again :: .label leave :: rest) τ out := by
  obtain ⟨τ₁, hr, ha₁, hs⟩ := ht.holds hv h.test_within hd h.suffix ha
  have hleave : ∀ l ∈ some leave, (behind l listing).isSome := by
    simp [h.leave_eq hd]
  have hbody := hb h.body_fits (suffix_of_cons (suffix_of_append h.suffix)) hleave ha₁
  exact (hbody.mono (by simp +contextual)).after hr hs

theorem update_lands (h : LoopIn P listing W exit test update body again leave next rest)
    (hd : (labels listing).Nodup) (ht : RunsThrough P test.code σ σ₁)
    (hv : σ₁.regs test.value ≠ 0) (hb : Simulated P listing W body σ₁ (.normal σ₂))
    (hu : Simulated P listing W update σ₂ out) (ha : Agree W σ τ) :
    Lands P listing W (update.scratch ++ body.scratch) exit
      (turnCode test body again leave rest) next τ out := by
  obtain ⟨τ₂, hr, ha₂, hs⟩ := h.body_lands hd ht hv hb ha
  have hupdate := hu h.update_fits (suffix_of_cons (suffix_of_behind h.again_eq)) h.exits ha₂
  exact (hupdate.mono (by simp +contextual)).after
    (hr.trans (.jump rfl h.again_eq (.refl _))) hs

end LoopIn

namespace SimulatedTurns

theorem another (hd : (labels listing).Nodup) (ht : RunsThrough P test.code σ σ₁)
    (hv : σ₁.regs test.value ≠ 0) (hb : Simulated P listing W body σ₁ (.normal σ₂))
    (hu : Simulated P listing W update σ₂ (.normal σ₃))
    (hl : SimulatedTurns P listing W test update body σ₃ out) :
    SimulatedTurns P listing W test update body σ out := by
  intro exit again leave next rest τ h ha
  obtain ⟨τ₃, hr, ha₃, hs⟩ := h.update_lands hd ht hv hb hu ha
  exact (hl h ha₃).after (hr.trans (h.next_test τ₃)) hs

theorem fail (hd : (labels listing).Nodup) (ht : RunsThrough P test.code σ σ₁)
    (hv : σ₁.regs test.value = 0) :
    SimulatedTurns P listing W test update body σ (.normal σ₁) := by
  intro exit again leave next rest τ h ha
  exact ht.fails hv h.test_within hd h.suffix (h.leave_eq hd) ha

theorem abrupt (hd : (labels listing).Nodup) (ht : RunsThrough P test.code σ σ₁)
    (hv : σ₁.regs test.value ≠ 0) (hb : Simulated P listing W body σ₁ out) (ho : out.Abrupt) :
    SimulatedTurns P listing W test update body σ out.ofLoop := by
  intro exit again leave next rest τ h ha
  exact (h.body_lands hd ht hv hb ha).ofLoop ho (h.leave_eq hd)

theorem updateAbrupt (hd : (labels listing).Nodup) (ht : RunsThrough P test.code σ σ₁)
    (hv : σ₁.regs test.value ≠ 0) (hb : Simulated P listing W body σ₁ (.normal σ₂))
    (hu : Simulated P listing W update σ₂ out) (ho : out.Abrupt) :
    SimulatedTurns P listing W test update body σ out := by
  intro exit again leave next rest τ h ha
  exact (h.update_lands hd ht hv hb hu ha).abrupt ho

theorem halt (hd : (labels listing).Nodup) (ht : HaltsIn P test.code σ w) :
    SimulatedTurns P listing W test update body σ (.ended .halted w) := by
  intro exit again leave next rest τ h ha
  exact Placed.halts ⟨hd, h.suffix, h.test_within.mentions⟩ ha ht

end SimulatedTurns

theorem Simulated.whileLoop (hd : (labels listing).Nodup)
    (h : SimulatedTurns P listing W test .skip body σ out) :
    Simulated P listing W (.whileLoop again leave test body) σ out := by
  intro exit rest τ hfit hp he ha
  simp only [Outline.flatten, List.append_assoc, List.cons_append, List.nil_append] at hp ⊢
  have hl : LoopIn P listing W exit test .skip body again leave
      (turnCode test body again leave rest) rest :=
    ⟨hfit.1, trivial, hfit.2, suffix_of_cons hp, behind_eq_some hd hp, fun _ ↦ .refl _, he⟩
  exact (h hl ha).after (.next rfl (.refl _)) (.refl _ τ)

theorem Simulated.forLoop (hd : (labels listing).Nodup)
    (h : SimulatedTurns P listing W test update body σ out) :
    Simulated P listing W (.forLoop check again leave test update body) σ out := by
  intro exit rest τ hfit hp he ha
  simp only [Outline.flatten, List.append_assoc, List.cons_append, List.nil_append] at hp ⊢
  have hagain := suffix_of_cons hp
  have hcheck := suffix_of_append (suffix_of_cons hagain)
  have hl : LoopIn P listing W exit test update body again leave
      (.label check :: turnCode test body again leave rest) rest :=
    ⟨hfit.2.1, hfit.1, hfit.2.2, suffix_of_cons hcheck, behind_eq_some hd hagain,
      fun _ ↦ .next rfl (.refl _), he⟩
  exact (h hl ha).after (.jump rfl (behind_eq_some hd hcheck) (.refl _)) (.refl _ τ)

end turns

end ThreeAddress.Control
