import ThreeAddress.Proofs.Lowering.Mechanical
import Mathlib.Data.List.Forall2

namespace ThreeAddress.Lowering

open Checked Code

/-- The second state comes from the first by emitting code. -/
def Leads (s s' : State) : Prop := ∃ new, Emission s s' new []

namespace Leads

variable {s s₁ s' : State}

theorem refl (s : State) : Leads s s := ⟨[], .refl s⟩

theorem trans (h₁ : Leads s s₁) (h₂ : Leads s₁ s') : Leads s s' := by
  obtain ⟨new₁, e₁⟩ := h₁
  obtain ⟨new₂, e₂⟩ := h₂
  exact ⟨_, e₁.trans e₂⟩

/-- Of the states that lead to the same one, those with equally many bound variables bind them to
the same temporaries. -/
theorem bound_unique {s₂ : State} (h₁ : Leads s₁ s') (h₂ : Leads s₂ s')
    (h : s₁.bound.length = s₂.bound.length) : s₁.bound = s₂.bound := by
  obtain ⟨_, e₁⟩ := h₁
  obtain ⟨_, e₂⟩ := h₂
  obtain ⟨declared₁, hb₁, -⟩ := e₁.bound_eq
  obtain ⟨declared₂, hb₂, -⟩ := e₂.bound_eq
  exact (List.append_inj' (hb₁.symm.trans hb₂) h).2

end Leads

/-- What lowering does on its way: a variable gets its temporary, or a thing is made. -/
inductive Happening (α : Type) where
  | declared (v : VarId)
  | made (a : α)

variable {α β : Type}

def Happening.made? : Happening α → Option α
  | declared _ => none
  | made a => some a

def things (happenings : List (Happening α)) : List α := happenings.filterMap Happening.made?

/-- The things made match those of a list one by one. The numbers count the bound variables: before
the first, at each of the things, and behind the last. -/
inductive Accounts (R : Nat → α → β → Prop) : Nat → List (Happening α) → List β → Nat → Prop
  | done {n : Nat} : Accounts R n [] [] n
  | declared {v : VarId} {n m : Nat} {happenings : List (Happening α)} {bs : List β}
      (h : Accounts R (n + 1) happenings bs m) : Accounts R n (.declared v :: happenings) bs m
  | made {a : α} {b : β} {n m : Nat} {happenings : List (Happening α)} {bs : List β} (hr : R n a b)
      (h : Accounts R n happenings bs m) : Accounts R n (.made a :: happenings) (b :: bs) m

namespace Accounts

variable {R R' : Nat → α → β → Prop} {n k m : Nat} {a : α} {b : β}
variable {happenings happenings₁ happenings₂ : List (Happening α)} {bs bs₁ bs₂ : List β}

theorem idle (h : m = n) : Accounts R n [] [] m := h ▸ done

theorem single (h : R n a b) : Accounts R n [.made a] [b] n := .made h done

theorem append (h₁ : Accounts R n happenings₁ bs₁ k) (h₂ : Accounts R k happenings₂ bs₂ m) :
    Accounts R n (happenings₁ ++ happenings₂) (bs₁ ++ bs₂) m := by
  induction h₁ with
  | done => exact h₂
  | declared _ ih => exact .declared (ih h₂)
  | made hr _ ih => exact .made hr (ih h₂)

theorem imp (h : Accounts R n happenings bs m) (hr : ∀ n a b, R n a b → R' n a b) :
    Accounts R' n happenings bs m := by
  induction h with
  | done => exact .done
  | declared _ ih => exact .declared ih
  | made h _ ih => exact .made (hr _ _ _ h) ih

theorem forall₂_things (h : Accounts R n happenings bs m) :
    List.Forall₂ (fun a b ↦ ∃ k, R k a b) (things happenings) bs := by
  induction h with
  | done => exact .nil
  | declared _ ih => exact ih
  | made hr _ ih => exact .cons ⟨_, hr⟩ ih

end Accounts

end ThreeAddress.Lowering
