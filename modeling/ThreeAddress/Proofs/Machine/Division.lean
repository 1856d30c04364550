import ThreeAddress.Proofs.Machine.Pending
import ThreeAddress.Proofs.Machine.Realise

namespace ThreeAddress.Code

def Instr.divides : Instr → Bool
  | .binary _ .divide _ _ | .binary _ .modulo _ _ => true
  | _ => false

end ThreeAddress.Code

namespace ThreeAddress.Lowering.Guard

open Code

/-- The guard tests the right operand of an instruction, and its own temporaries come later. -/
structure Protects (g : Guard) (i : Instr) : Prop where
  right : ∃ dst op left, i = .binary dst op left g.divisor
  ascending : ∃ n m, Ascending n g.temps m ∧ g.divisor.index ≤ n

def alarm (g : Guard) : List Instr :=
  [.param g.message, .call none Routine.printString.name, .call none Routine.halt.name]

theorem code_eq (g : Guard) :
    g.code = g.test ++ .jumpIfZero g.isZero g.nonzero :: (g.alarm ++ [.label g.nonzero]) := rfl

end ThreeAddress.Lowering.Guard

namespace ThreeAddress.Machine

open Code Lowering

variable {ι : Type} {P : Platform ι} {listing before code rest c : List Instr} {g : Guard}
variable {i : Instr}
variable {σ σ' σ₀ : Store ι} {w : World ι} {e : Ending}

/-- What the test of a guard finds out. -/
structure Tested (P : Platform ι) (g : Guard) (σ σ' : Store ι) : Prop where
  params : σ'.params = σ.params
  world : σ'.world = σ.world
  divisor : σ'.regs g.divisor = σ.regs g.divisor
  message : σ'.regs g.message = P.stringAt divisionMessage
  isZero : σ'.regs g.isZero = truth (σ.regs g.divisor = 0)

theorem exec_guardTest (hg : g.Protects i) (σ : Store ι) :
    ∃ σ', exec P σ g.test = .next σ' ∧ Tested P g σ σ' := by
  obtain ⟨n, m, hts, hd⟩ := hg.ascending
  simp only [Guard.temps, Ascending] at hts
  refine ⟨_, rfl, rfl, rfl, ?_, ?_, ?_⟩
  · simp (disch := omega) only [Store.set, update_of_index_ne]
  · simp (disch := omega) only [Store.set, Function.update_self, update_of_index_ne]
  · simp (disch := omega) only [Store.set, Function.update_self, update_of_index_ne, binary]

theorem exec_alarm (hm : σ.regs g.message = P.stringAt divisionMessage) (hp : σ.params = []) :
    ∃ w, exec P σ g.alarm = .stop .halted w ∧
      Eval.guardDivisor P 0 σ.world = .error .halted w := by
  unfold Eval.guardDivisor
  rw [if_pos rfl]
  have hparam : effect P σ (.param g.message) =
      .next { σ with params := [P.stringAt divisionMessage] } := by simp [effect, hp, hm]
  rw [Guard.alarm, exec_cons hparam]
  cases hr : P.serve (.call Routine.printString.name) [P.stringAt divisionMessage] σ.world with
  | halted w =>
    have hprint : Eval.routine P .printString [P.stringAt divisionMessage] σ.world =
        .error .halted w := by simp [Eval.routine, Eval.request, hr]
    refine ⟨w, ?_, Eval.bind_of_error hprint⟩
    simp [exec, effect, hr, Store.receive]
  | returned v w₁ =>
    obtain ⟨w, hw⟩ := P.halts [] w₁
    have hprint : Eval.routine P .printString [P.stringAt divisionMessage] σ.world = .ok v w₁ := by
      simp [Eval.routine, Eval.request, hr]
    have hhalt : Eval.routine P .halt [] w₁ = .error .halted w := by
      simp [Eval.routine, Eval.request, hw]
    refine ⟨w, ?_, ?_⟩
    · simp [exec, effect, hr, hw, Store.receive]
    · rw [Eval.bind_of_ok hprint, Eval.bind_of_error hhalt]

/-- Nothing gets past the call that halts. -/
theorem exec_alarm_ne_next : exec P σ (g.alarm ++ rest) ≠ .next σ' := by
  intro h
  change exec P σ ([.param g.message, .call none Routine.printString.name] ++
    (.call none Routine.halt.name :: rest)) = .next σ' at h
  obtain ⟨σ₁, -, h⟩ := exec_append_next h
  obtain ⟨w, hw⟩ := P.halts σ₁.params σ₁.world
  simp [exec, effect, hw, Store.receive] at h

theorem exec_guard_zero (hg : g.Protects i) (hz : σ.regs g.divisor = 0) (hp : σ.params = []) :
    ∃ w, exec P σ g.code = .stop .halted w ∧ Eval.guardDivisor P 0 σ.world = .error .halted w := by
  obtain ⟨σ₁, he, ht⟩ := exec_guardTest (P := P) hg σ
  have hfall : effect P σ₁ (.jumpIfZero g.isZero g.nonzero) = .next σ₁ := by
    simp [effect, ht.isZero, hz, truth]
  obtain ⟨w, halarm, heval⟩ := exec_alarm (P := P) ht.message (ht.params.trans hp)
  refine ⟨w, ?_, ht.world ▸ heval⟩
  rw [g.code_eq, exec_append he, exec_cons hfall]
  exact exec_append_stop halarm _

/-- A division in a sealed block with its guard is reached only if the divisor is not zero. -/
theorem Sealed.divisor_ne_zero (hs : Sealed listing before (g.code ++ [i]) rest)
    (hg : g.Protects i) (h : Reaches P listing (.running listing σ₀) (.running (i :: rest) σ)) :
    σ.regs g.divisor ≠ 0 := by
  obtain ⟨dst, op, left, hi⟩ := hg.right
  have hd : (labels (g.code ++ [i])).Nodup := hs.labels_nodup
  let cut (d : List Instr) (σ₁ σ : Store ι) : Prop :=
    d = g.code ++ [i] ∧ σ = σ₁ ∨ d = [i] ∧ σ.regs g.divisor ≠ 0
  -- the one jump of the block is taken where the divisor is not zero, and leads to the division
  have hjump : ∀ ⦃done j d l d' σ₀ σ₁ σ⦄, cut (done ++ j :: d) σ₀ σ₁ → exec P σ₁ done = .next σ →
      effect P σ j = .jump l σ → .label l :: d' <:+ g.code ++ [i] → d' ≠ [] → cut d' σ₀ σ := by
    intro done j d l d' σ₀ σ₁ σ hcut he hj hl _
    obtain ⟨ht, -⟩ := target_of_jump hj
    rcases hcut with ⟨hcode, rfl⟩ | ⟨hcode, -⟩
    · have hblock : g.code ++ [i] = g.test ++ .jumpIfZero g.isZero g.nonzero ::
          (g.alarm ++ [.label g.nonzero, i]) := by simp [g.code_eq]
      rw [hblock] at hcode
      have hmem : l ∈ targets (done ++ j :: d) := by simp [ht]
      have hl' : l = g.nonzero := by
        rw [hcode, hi] at hmem
        exact List.mem_singleton.mp hmem
      subst hl'
      obtain ⟨rfl, rfl, -⟩ := source_unique (by simp [Guard.test, Instr.target?])
        (by simp [Guard.alarm, hi, Instr.target?]) hcode ht
      refine .inr ⟨?_, ?_⟩
      · have hbehind := behind_eq_some hd hl
        have hplace : .label g.nonzero :: [i] <:+ g.code ++ [i] :=
          ⟨g.test ++ .jumpIfZero g.isZero g.nonzero :: g.alarm, by simp [g.code_eq]⟩
        exact Option.some.inj (hbehind.symm.trans (behind_eq_some hd hplace))
      · obtain ⟨σ₂, he', ht⟩ := exec_guardTest (P := P) hg σ₁
        cases he.symm.trans he'
        have hzero : σ.regs g.isZero = 0 := by
          by_contra hne
          simp [effect, hne] at hj
        rw [ht.isZero, truth_eq_zero] at hzero
        rwa [ht.divisor]
    · have hmem : l ∈ targets (done ++ j :: d) := by simp [ht]
      rw [hcode, hi] at hmem
      cases hmem
  obtain ⟨σ₁, -, -, done, σ₂, hcut, he⟩ := hs.cuts cut (fun σ ↦ .inl ⟨rfl, rfl⟩) hjump h
    (List.suffix_append _ _) (List.cons_ne_nil _ _)
  rcases hcut with ⟨hdone, rfl⟩ | ⟨hdone, hne⟩
  · rw [List.append_cancel_right hdone, g.code_eq] at he
    rw [← List.singleton_append, ← List.append_assoc] at he
    obtain ⟨σ₃, -, he⟩ := exec_append_next he
    exact absurd he exec_alarm_ne_next
  · obtain rfl : done = [] := by simpa using hdone
    cases he
    exact hne

/-- No parameter waits where a guard begins, since none waits at its jump. -/
theorem settle_guard {front : List Instr} {n k : Nat}
    (hl : settle 0 (front ++ (g.code ++ rest)) = some k)
    (hn : settle 0 front = some n) : n = 0 := by
  have hsplit : front ++ (g.code ++ rest) = (front ++ g.test) ++ .jumpIfZero g.isZero g.nonzero ::
      (g.alarm ++ [.label g.nonzero] ++ rest) := by simp [g.code_eq]
  rw [hsplit] at hl
  obtain ⟨m, m', hm, hj, -⟩ := settle_split hl
  have htest : settle 0 (front ++ g.test) = some n := settle_trans hn rfl
  obtain rfl := Option.some.inj (htest.symm.trans hm)
  exact pending_target hj rfl

/-- What a guard does for the code behind it, which divides by the temporary that it tests. -/
structure Averts (P : Platform ι) (listing : List Instr) (σ₀ : Store ι) (g : Guard)
    (behind : List Instr) : Prop where
  nonzero : ∀ σ, Reaches P listing (.running listing σ₀) (.running behind σ) →
    σ.regs g.divisor ≠ 0
  halts : ∀ σ, Reaches P listing (.running listing σ₀) (.running (g.code ++ behind) σ) →
    σ.regs g.divisor = 0 → ∃ w, Eval.guardDivisor P 0 σ.world = .error .halted w ∧
      Reaches P listing (.running (g.code ++ behind) σ) (.ended .halted w) ∧
      ∀ σ', ¬ Reaches P listing (.running (g.code ++ behind) σ) (.running behind σ')

theorem Sealed.averts {regs : Registers} {k : Nat} (hs : Sealed listing before (g.code ++ [i]) rest)
    (hg : g.Protects i) (hl : settle 0 listing = some k) :
    Averts P listing ⟨regs, [], w⟩ g (i :: rest) where
  nonzero σ h := hs.divisor_ne_zero hg h
  halts σ h hz := by
    obtain ⟨front, hfront, hwait⟩ := h.params hl
    have hnone : σ.params = [] := List.length_eq_zero_iff.mp (settle_guard (hfront ▸ hl) hwait)
    obtain ⟨w, he, heval⟩ := exec_guard_zero (P := P) hg hz hnone
    refine ⟨w, heval, Reaches.of_exec_stop he _, fun σ' hr ↦ ?_⟩
    exact absurd (Reaches.of_exec_stop_lt he hr) (Nat.lt_irrefl _)

end ThreeAddress.Machine
