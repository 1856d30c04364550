import ThreeAddress.Proofs.Program.Independence
import ThreeAddress.Proofs.Program.Survey

namespace ThreeAddress.Code

/-- Some instruction reads or writes memory at the offset. -/
def Program.HasOffset (p : Program) (offset : Int32) : Prop :=
  ∃ f ∈ p.functions, ∃ i ∈ f.body.toList, i.offset? = some offset

/-- Where a text cannot be made, that is due to an offset. -/
def FailsIff {α : Type} (x : Except Fault α) (bad : Prop) : Prop :=
  ∀ fault, x = .error fault ↔ fault = .negation ∧ bad

namespace FailsIff

variable {α β : Type} {x : Except Fault α} {bad : Prop}

theorem ok (a : α) (h : ¬ bad) : FailsIff (.ok a) bad := by
  intro fault
  simp [h]

theorem andThen (f : α → β) (h : FailsIff x bad) : FailsIff (x >>= fun a ↦ .ok (f a)) bad := by
  intro fault
  rw [← h fault]
  cases x with
  | error e => simp [bind, Except.bind]
  | ok a => simp [bind, Except.bind]

theorem mapM {f : α → Except Fault β} {bad : α → Prop} (h : ∀ a, FailsIff (f a) (bad a))
    (as : List α) : FailsIff (as.mapM f) (∃ a ∈ as, bad a) := by
  induction as with
  | nil => exact .ok [] (by simp)
  | cons a as ih =>
    intro fault
    rw [List.mapM_cons]
    cases ha : f a with
    | error e =>
      obtain ⟨rfl, hbad⟩ := (h a e).mp ha
      refine ⟨fun he ↦ ?_, fun he ↦ ?_⟩
      · cases he
        exact ⟨rfl, a, List.mem_cons_self, hbad⟩
      · rw [he.1]
        rfl
    | ok b =>
      have hgood : ¬ bad a := fun hbad ↦ by
        have he := (h a .negation).mpr ⟨rfl, hbad⟩
        rw [ha] at he
        cases he
      have hrest := ih.andThen (b :: ·) fault
      simp only [List.exists_mem_cons_iff, hgood, false_or]
      exact hrest

end FailsIff

theorem address_failsIff (base : Temp) (offset : Int32) :
    FailsIff (address base offset) (offset = .minValue) := by
  unfold address
  have hmin : Int32.minValue.toInt < 0 := by decide
  split
  · split
    · rename_i h
      intro fault
      simp [h, eq_comm]
    · rename_i h
      exact .ok _ h
  · rename_i h
    refine .ok _ fun he ↦ h ?_
    rwa [he]

theorem Instr.text_failsIff (i : Instr) : FailsIff i.text (i.offset? = some .minValue) := by
  cases i with
  | load dst base offset =>
    rw [Instr.text, Instr.offset?, Option.some.injEq]
    exact (address_failsIff base offset).andThen _
  | store src base offset =>
    rw [Instr.text, Instr.offset?, Option.some.injEq]
    exact (address_failsIff base offset).andThen _
  | ret value => cases value <;> exact .ok _ (by simp [Instr.offset?])
  | _ => exact .ok _ (by simp [Instr.offset?])

theorem Function.text_failsIff (f : Function) :
    FailsIff f.text (∃ i ∈ f.body.toList, i.offset? = some .minValue) :=
  (FailsIff.mapM (fun i ↦ i.text_failsIff.andThen _) f.body.toList).andThen _

theorem Program.text_failsIff (p : Program) : FailsIff p.text (p.HasOffset .minValue) :=
  (FailsIff.mapM Function.text_failsIff p.functions).andThen _

end ThreeAddress.Code

namespace ThreeAddress.Checked

open Code Control Lowering

theorem CheckedUnit.hasOffset_of_lower {u : CheckedUnit} {p : Code.Program}
    (h : u.lower = .ok (.ok p)) (hp : p.HasOffset .minValue) : u.symbols.HasOffset .minValue := by
  obtain ⟨f, hf, i, hi, ho⟩ := hp
  obtain ⟨m, g, s, hm⟩ := CheckedUnit.lower_of_mem h hf
  obtain ⟨symbol, receiver, s₁, s₂, sites, -, -, hs⟩ := lowerMethod_survey hm
  exact hs.survey.offsets i hi ho

/-- Whatever the unit, lowering comes to an end without a fault. A program that results can be shown
unless it holds the one offset that has no opposite, and that offset is then in the table. -/
theorem CheckedUnit.lower_faultless (u : CheckedUnit) :
    ∃ r, u.lower = .ok r ∧ ∀ p, r = .ok p →
      (∀ fault, p.text = .error fault ↔ fault = .negation ∧ p.HasOffset .minValue) ∧
      (p.HasOffset .minValue → u.symbols.HasOffset .minValue) := by
  obtain ⟨done, hd⟩ := lowerClasses_ok u.symbols u.program.classes
  have hl : u.lower = .ok done.outcome := by
    rw [CheckedUnit.lower, hd]
    rfl
  refine ⟨done.outcome, hl, fun p hp ↦ ⟨p.text_failsIff, fun ho ↦ ?_⟩⟩
  exact CheckedUnit.hasOffset_of_lower (hp ▸ hl) ho

/-- Sets a field that lies as far below its object as an offset can reach. -/
def farUnit : CheckedUnit where
  program := ⟨[⟨"Main", ⟨0⟩, [{
    name := "clear"
    method := ⟨0⟩
    body :=
      let object : Expr := .mk (.ident none ⟨0⟩) (.object ⟨0⟩) .paramVar {}
      [.mk (.assign (.mk (.ident (some object) ⟨1⟩) .int .memberVar {})
        (.mk (.literal (.int 0)) .int .notLValue {})) {}]
    span := {} }], {}⟩]⟩
  symbols := {
    methods := #[⟨"clear", ⟨0⟩, "Main.clear", 0, .void, true, none, [⟨0⟩]⟩]
    vars := #[⟨"object", .param, .object ⟨0⟩, 0⟩, ⟨"far", .field, .int, .minValue⟩] }

def farProgram : Code.Program where
  functions := [{
    name := "Main.clear"
    params := [⟨1⟩]
    body := #[.constant ⟨2⟩ 0, .store ⟨2⟩ ⟨1⟩ .minValue] }]

theorem farUnit_lowered_not_shown :
    farUnit.lower = .ok (.ok farProgram) ∧ farProgram.text = .error .negation ∧
      farUnit.symbols.HasOffset .minValue := by
  have hl : farUnit.lower = .ok (.ok farProgram) := by decide +kernel
  have ho : farProgram.HasOffset .minValue := by simp [farProgram, Program.HasOffset, Instr.offset?]
  obtain ⟨r, hr, h⟩ := farUnit.lower_faultless
  obtain rfl : Except.ok farProgram = r := Except.ok.inj (hl.symm.trans hr)
  obtain ⟨htext, htable⟩ := h farProgram rfl
  exact ⟨hl, (htext .negation).mpr ⟨rfl, ho⟩, htable ho⟩

end ThreeAddress.Checked
