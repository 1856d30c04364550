import ThreeAddress.Proofs.Machine.Block

namespace ThreeAddress.Code

/-- How many parameters wait behind an instruction if `n` wait in front of it. At jumps and labels
none may wait. -/
def Instr.pending (n : Nat) : Instr → Option Nat
  | .param _ => some (n + 1)
  | .call _ _ | .callTemp _ _ => some 0
  | .jump _ | .jumpIfZero _ _ | .label _ => if n = 0 then some 0 else none
  | _ => some n

/-- How many parameters wait behind some code. -/
def settle (n : Nat) : List Instr → Option Nat
  | [] => some n
  | i :: code => (i.pending n).bind (settle · code)

variable {code before rest : List Instr} {i : Instr} {l : Label} {n k : Nat}

theorem settle_append (n : Nat) (code rest : List Instr) :
    settle n (code ++ rest) = (settle n code).bind (settle · rest) := by
  induction code generalizing n with
  | nil => rfl
  | cons i code ih =>
    rw [List.cons_append, settle, settle]
    cases i.pending n with
    | none => rfl
    | some m => exact ih m

theorem settle_trans {m : Nat} (h : settle n code = some k) (h' : settle k rest = some m) :
    settle n (code ++ rest) = some m := by
  rw [settle_append, h]
  exact h'

theorem settle_params (ts : List Temp) (n : Nat) :
    settle n (ts.map .param) = some (n + ts.length) := by
  induction ts generalizing n with
  | nil => rfl
  | cons t ts ih =>
    have h := ih (n + 1)
    rw [List.length_cons, Nat.add_comm ts.length, ← Nat.add_assoc]
    exact h

theorem settle_split (h : settle n (before ++ i :: rest) = some k) :
    ∃ m m', settle n before = some m ∧ i.pending m = some m' ∧
      settle n (before ++ [i]) = some m' := by
  rw [settle_append] at h
  obtain ⟨m, hm, h⟩ := Option.bind_eq_some_iff.mp h
  obtain ⟨m', hi, -⟩ := Option.bind_eq_some_iff.mp h
  refine ⟨m, m', hm, hi, settle_trans hm ?_⟩
  rw [settle, hi]
  rfl

theorem pending_target (h : i.pending n = some k) (ht : i.target? = some l) : n = 0 := by
  cases i <;> cases ht
  all_goals
    rw [Instr.pending] at h
    split at h
    · assumption
    · cases h

end ThreeAddress.Code

namespace ThreeAddress.Machine

open Code

variable {ι : Type} {P : Platform ι} {listing c : List Instr} {i : Instr} {σ σ' : Store ι}
variable {n k : Nat}

theorem effect_params (h : effect P σ i = .next σ') (hi : i.pending σ.params.length = some n) :
    σ'.params.length = n := by
  have hreceive {params : List Word} {dst : Option Temp} {reply : Reply ι}
      (h : σ.receive params dst reply = .next σ') : σ'.params = params := by
    cases reply with
    | halted w => cases h
    | returned v w =>
      cases h
      rfl
  cases i <;> simp only [effect, Instr.pending, Option.some.injEq] at h hi
  case call | callTemp => rw [hreceive h, ← hi, List.length_nil]
  case newArray | instanceOf | checkClass => rw [hreceive h, hi]
  case jump | ret => cases h
  case param =>
    cases h
    simpa using hi
  case jumpIfZero | checkBounds =>
    split at h <;> cases h
    grind
  case label =>
    cases h
    grind
  all_goals
    cases h
    exact hi

/-- The parameters that wait are those of the code in front. -/
theorem Reaches.params {regs : Registers} {w : World ι} (hl : settle 0 listing = some k)
    (h : Reaches P listing (.running listing ⟨regs, [], w⟩) (.running c σ)) :
    ∃ before, listing = before ++ c ∧ settle 0 before = some σ.params.length := by
  generalize hd : Config.running c σ = d at h
  induction h generalizing c σ with
  | refl =>
    cases hd
    exact ⟨[], rfl, rfl⟩
  | @tail b _ _ hs ih =>
    subst hd
    cases b with
    | ended e w => cases hs
    | running c₁ σ₁ =>
      obtain ⟨before, hlist, hbefore⟩ := ih rfl
      obtain ⟨i, d, rfl, ⟨he, rfl⟩ | ⟨l, he, hb⟩⟩ := step_running hs
      · obtain ⟨m, m', hm, hi, hsnoc⟩ := settle_split (hlist ▸ hl)
        obtain rfl := Option.some.inj (hbefore.symm.trans hm)
        refine ⟨before ++ [i], by rw [hlist, List.append_assoc]; rfl, ?_⟩
        rw [hsnoc, effect_params he hi]
      · obtain ⟨ht, rfl⟩ := target_of_jump he
        obtain ⟨front, hfront⟩ := suffix_of_behind hb
        -- none wait at the jump, and none wait at the label
        have hnone : σ.params.length = 0 := by
          obtain ⟨m, m', hm, hi, -⟩ := settle_split (hlist ▸ hl)
          obtain rfl := Option.some.inj (hbefore.symm.trans hm)
          exact pending_target hi ht
        refine ⟨front ++ [.label l], by rw [← hfront, List.append_assoc]; rfl, ?_⟩
        obtain ⟨m, m', -, hi, hsnoc⟩ := settle_split (hfront.symm ▸ hl)
        rw [Instr.pending] at hi
        split at hi
        · cases hi
          rw [hsnoc, hnone]
        · cases hi

end ThreeAddress.Machine
