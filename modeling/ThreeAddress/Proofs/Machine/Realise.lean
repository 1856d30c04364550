import ThreeAddress.Proofs.Lowering.Fragment
import ThreeAddress.Proofs.Machine.Evaluation

namespace ThreeAddress.Machine

open Checked Code Lowering

variable {ι α β : Type} {P : Platform ι} {n m : Nat} {regs regs₁ regs₂ : Registers} {t u : Temp}
variable {v : Word}

theorem update_of_index_ne (h : u.index ≠ t.index) : Function.update regs t v u = regs u :=
  Function.update_of_ne (fun hu ↦ h (congrArg Temp.index hu)) _ _

def Keeps (n : Nat) (regs regs' : Registers) : Prop := ∀ u : Temp, u.index ≤ n → regs' u = regs u

namespace Keeps

theorem refl (n : Nat) (regs : Registers) : Keeps n regs regs := fun _ _ ↦ rfl

theorem trans (h₁ : Keeps n regs regs₁) (h₂ : Keeps m regs₁ regs₂) (hn : n ≤ m) :
    Keeps n regs regs₂ := fun u hu ↦ (h₂ u (hu.trans hn)).trans (h₁ u hu)

theorem mono (h : Keeps m regs regs₁) (hn : n ≤ m) : Keeps n regs regs₁ :=
  fun u hu ↦ h u (hu.trans hn)

theorem update (h : Keeps n regs regs₁) (ht : n < t.index) :
    Keeps n regs (Function.update regs₁ t v) := by
  intro u hu
  rw [update_of_index_ne (by omega)]
  exact h u hu

end Keeps

variable {code code₁ code₂ listing start mid rest : List Instr} {w w' : World ι}
variable {x : Eval ι α} {f : α → Eval ι β} {Q : α → Registers → Prop} {R : β → Registers → Prop}
variable {a : α} {i : Instr} {l : Label}

theorem Eval.bind_of_ok (h : x w = .ok a w') : (x >>= f) w = f a w' := by
  show EStateM.bind x f w = f a w'
  rw [EStateM.bind, h]

theorem Eval.bind_of_error {e : Stop} (h : x w = .error e w') : (x >>= f) w = .error e w' := by
  show EStateM.bind x f w = .error e w'
  rw [EStateM.bind, h]

variable (P) in
/-- A run from one place in a listing ends where the evaluation halts. Otherwise it arrives at the
other place, and `Q` holds of the value and the registers. -/
def Arrives (listing start rest : List Instr) (n : Nat) (regs : Registers) (w : World ι)
    (x : Eval ι α) (Q : α → Registers → Prop) : Prop :=
  match x w with
  | .ok a w' => ∃ regs', Reaches P listing (.running start ⟨regs, [], w⟩)
      (.running rest ⟨regs', [], w'⟩) ∧ Keeps n regs regs' ∧ Q a regs'
  | .error .halted w' => Reaches P listing (.running start ⟨regs, [], w⟩) (.ended .halted w')
  | .error .undefined _ => False

namespace Arrives

theorem of_ok {regs' : Registers} (hx : x w = .ok a w')
    (h : Reaches P listing (.running start ⟨regs, [], w⟩) (.running rest ⟨regs', [], w'⟩))
    (hk : Keeps n regs regs') (hq : Q a regs') : Arrives P listing start rest n regs w x Q := by
  rw [Arrives, hx]
  exact ⟨regs', h, hk, hq⟩

theorem of_halted (hx : x w = .error .halted w')
    (h : Reaches P listing (.running start ⟨regs, [], w⟩) (.ended .halted w')) :
    Arrives P listing start rest n regs w x Q := by
  rw [Arrives, hx]
  exact h

/-- A run that gets to a place from where what is left of the evaluation is carried out. -/
theorem after {y : Eval ι α} {w₁ : World ι} (hy : y w = x w₁)
    (h : Reaches P listing (.running start ⟨regs, [], w⟩) (.running mid ⟨regs₁, [], w₁⟩))
    (hk : Keeps n regs regs₁) (hn : n ≤ m) (hx : Arrives P listing mid rest m regs₁ w₁ x Q) :
    Arrives P listing start rest n regs w y Q := by
  unfold Arrives at hx ⊢
  rw [hy]
  cases hr : x w₁ with
  | ok a w₂ =>
    rw [hr] at hx
    obtain ⟨regs₂, hreach, hk₂, hq⟩ := hx
    exact ⟨regs₂, h.trans hreach, hk.trans hk₂ hn, hq⟩
  | error e w₂ =>
    rw [hr] at hx
    cases e with
    | halted => exact h.trans hx
    | undefined => exact hx

theorem bind {k : Nat} (hx : Arrives P listing start mid k regs w x Q) (hn : n ≤ k) (hm : n ≤ m)
    (hf : ∀ a regs₁ w₁, Keeps k regs regs₁ → Q a regs₁ →
      Arrives P listing mid rest m regs₁ w₁ (f a) R) :
    Arrives P listing start rest n regs w (x >>= f) R := by
  unfold Arrives at hx
  cases hr : x w with
  | ok a w₁ =>
    rw [hr] at hx
    obtain ⟨regs₁, hreach, hk, hq⟩ := hx
    exact after (Eval.bind_of_ok hr) hreach (hk.mono hn) hm (hf a regs₁ w₁ hk hq)
  | error e w₁ =>
    rw [hr] at hx
    cases e with
    | halted => exact of_halted (Eval.bind_of_error hr) hx
    | undefined => exact hx.elim

theorem imp {Q' : α → Registers → Prop} (h : Arrives P listing start rest n regs w x Q)
    (hq : ∀ a regs', Keeps n regs regs' → Q a regs' → Q' a regs') :
    Arrives P listing start rest n regs w x Q' := by
  unfold Arrives at h ⊢
  cases hx : x w with
  | ok a w' =>
    rw [hx] at h
    obtain ⟨regs', hreach, hk, hQ⟩ := h
    exact ⟨regs', hreach, hk, hq a regs' hk hQ⟩
  | error e w' =>
    rw [hx] at h
    cases e with
    | halted => exact h
    | undefined => exact h

end Arrives

variable (P) in
/-- The code carries out the evaluation wherever it stands. -/
def Realises (n : Nat) (code : List Instr) (regs : Registers) (w : World ι) (x : Eval ι α)
    (Q : α → Registers → Prop) : Prop :=
  ∀ ⦃listing rest⦄, (labels listing).Nodup → code ++ rest <:+ listing →
    Arrives P listing (code ++ rest) rest n regs w x Q

def Holds (t : Temp) (v : Word) (regs : Registers) : Prop := regs t = v

namespace Realises

theorem bind (hx : Realises P n code₁ regs w x Q) (hn : n ≤ m)
    (hf : ∀ a regs₁ w₁, Keeps n regs regs₁ → Q a regs₁ →
      Realises P m code₂ regs₁ w₁ (f a) R) :
    Realises P n (code₁ ++ code₂) regs w (x >>= f) R := by
  intro listing rest hd hs
  rw [List.append_assoc] at hs ⊢
  refine (hx hd hs).bind le_rfl hn fun a regs₁ w₁ hk hq ↦ ?_
  exact hf a regs₁ w₁ hk hq hd (List.IsSuffix.trans (List.suffix_append _ _) hs)

theorem done (h : Q a regs) : Realises P n [] regs w (pure a) Q := fun _ _ _ _ ↦
  .of_ok rfl (.refl _) (.refl n regs) h

theorem imp {Q' : α → Registers → Prop} (h : Realises P n code regs w x Q)
    (hq : ∀ a regs', Keeps n regs regs' → Q a regs' → Q' a regs') :
    Realises P n code regs w x Q' := fun _ _ hd hs ↦ (h hd hs).imp hq

/-- Code that prepares registers and leaves the world alone may stand in front. -/
theorem prepared (code₁ : List Instr) (hk : Keeps n regs regs₁) (hn : n ≤ m)
    (he : exec P ⟨regs, [], w⟩ code₁ = .next ⟨regs₁, [], w⟩)
    (h : Realises P m code₂ regs₁ w x Q) : Realises P n (code₁ ++ code₂) regs w x Q := by
  intro listing rest hd hs
  rw [List.append_assoc] at hs ⊢
  exact .after rfl (.of_exec_next he _) hk hn
    (h hd (List.IsSuffix.trans (List.suffix_append _ _) hs))

theorem of_eq {y : Eval ι α} (hy : y w = x w) (h : Realises P n code regs w x Q) :
    Realises P n code regs w y Q := by
  intro listing rest hd hs
  have hx := h hd hs
  unfold Arrives at hx ⊢
  rwa [hy]

theorem map {g : α → β} (h : Realises P n code regs w x Q)
    (hg : ∀ a regs', Keeps n regs regs' → Q a regs' → R (g a) regs') :
    Realises P n code regs w (x >>= fun a ↦ pure (g a)) R := by
  have hb := h.bind le_rfl fun a regs₁ w₁ hk hq ↦ done (P := P) (n := n) (w := w₁)
    (hg a regs₁ hk hq)
  rwa [List.append_nil] at hb

theorem of_exec {regs' : Registers} (hx : x w = .ok a w')
    (he : exec P ⟨regs, [], w⟩ code = .next ⟨regs', [], w'⟩) (hk : Keeps n regs regs')
    (hq : Q a regs') : Realises P n code regs w x Q := fun _ rest _ _ ↦
  .of_ok hx (.of_exec_next he rest) hk hq

theorem of_exec_halted (hx : x w = .error .halted w')
    (he : exec P ⟨regs, [], w⟩ code = .stop .halted w') : Realises P n code regs w x Q :=
  fun _ rest _ _ ↦ .of_halted hx (.of_exec_stop he rest)

theorem assign {x : Eval ι Word} (ht : n < t.index) (hx : x w = .ok v w)
    (he : effect P ⟨regs, [], w⟩ i = .next ⟨Function.update regs t v, [], w⟩) :
    Realises P n [i] regs w x (Holds t) := by
  refine of_exec hx ?_ ((Keeps.refl n regs).update ht) (Function.update_self ..)
  simp only [exec, he]

theorem request (regs₁ : Registers) (ps : List Word) (dst : Option Temp) {service : Service}
    {args : List Word}
    (he : exec P ⟨regs, [], w⟩ code =
      (⟨regs₁, ps, w⟩ : Store ι).receive [] dst (P.serve service args w))
    (hk : Keeps n regs regs₁) (hd : ∀ t ∈ dst, n < t.index) :
    Realises P n code regs w (Eval.request P service args)
      fun v regs' ↦ ∀ t ∈ dst, Holds t v regs' := by
  cases hr : P.serve service args w with
  | returned v w' =>
    have hx : Eval.request P service args w = .ok v w' := by simp only [Eval.request, hr]
    rw [hr, Store.receive] at he
    refine of_exec hx he ?_ ?_
    · cases dst with
      | none => exact hk
      | some t => exact hk.update (hd t rfl)
    · rintro t ⟨⟩
      exact Function.update_self ..
  | halted w' =>
    have hx : Eval.request P service args w = .error .halted w' := by simp only [Eval.request, hr]
    rw [hr, Store.receive] at he
    exact of_exec_halted hx he

/-- Code on its own halts where the evaluation halts: a run that arrives at the end has not. -/
theorem halts_iff (h : Realises P n code regs w x Q) (hd : (labels code).Nodup) :
    Reaches P code (.running code ⟨regs, [], w⟩) (.ended .halted w') ↔ x w = .error .halted w' := by
  have hrun := h hd (by simp : code ++ [] <:+ code)
  rw [List.append_nil] at hrun
  unfold Arrives at hrun
  constructor
  · intro hw
    cases hx : x w with
    | ok a w₁ =>
      rw [hx] at hrun
      obtain ⟨regs', hend, -⟩ := hrun
      cases (hw.ended_unique (hend.trans .fellOff)).1
    | error stop w₁ =>
      rw [hx] at hrun
      cases stop with
      | halted => rw [(hw.ended_unique hrun).2]
      | undefined => exact hrun.elim
  · intro hx
    rwa [hx] at hrun

end Realises

theorem exec_singleton (σ : Store ι) (i : Instr) : exec P σ [i] = effect P σ i := by
  rw [exec]
  cases effect P σ i <;> rfl

theorem exec_params (regs : Registers) (w : World ι) (ts : List Temp) (ps : List Word) :
    exec P ⟨regs, ps, w⟩ (ts.map .param ++ code) = exec P ⟨regs, ps ++ ts.map regs, w⟩ code := by
  induction ts generalizing ps with
  | nil => simp
  | cons t ts ih => simp [exec, effect, ih]

end ThreeAddress.Machine
