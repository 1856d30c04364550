import Mathlib.Data.Finset.Card
import Mathlib.Data.Nat.Find
import Mathlib.Logic.Relation
import ThreeAddress.Checked.Symbols

namespace ThreeAddress.Checked.SymbolTable

variable {s : SymbolTable} {c p a : ClassId} {j k n : Nat}

def Extends (s : SymbolTable) (c p : ClassId) : Prop :=
  ∃ symbol, s.class? c = some symbol ∧ symbol.parent = some p

/-- The parent links lead from one class to the other in any number of steps. -/
def Descends (s : SymbolTable) : ClassId → ClassId → Prop := Relation.ReflTransGen s.Extends

theorem parent?_eq_some_iff : s.parent? c = some p ↔ s.Extends c p := Option.bind_eq_some_iff

def ancestor? (s : SymbolTable) : Nat → ClassId → Option ClassId
  | 0, c => some c
  | k + 1, c => (s.parent? c).bind (s.ancestor? k)

theorem ancestor?_add (j k : Nat) (c : ClassId) :
    s.ancestor? (j + k) c = (s.ancestor? j c).bind (s.ancestor? k) := by
  induction j generalizing c with
  | zero => simp [ancestor?]
  | succ j ih =>
    rw [Nat.add_right_comm, ancestor?, ancestor?, Option.bind_assoc]
    congr
    funext p
    exact ih p

theorem descends_iff : s.Descends c a ↔ ∃ k, s.ancestor? k c = some a := by
  constructor
  · intro h
    induction h using Relation.ReflTransGen.head_induction_on with
    | refl => exact ⟨0, rfl⟩
    | head hp _ ih =>
      obtain ⟨k, hk⟩ := ih
      exact ⟨k + 1, by rw [ancestor?, parent?_eq_some_iff.mpr hp, Option.bind_some, hk]⟩
  · rintro ⟨k, hk⟩
    induction k generalizing c with
    | zero =>
      cases hk
      exact .refl
    | succ k ih =>
      obtain ⟨p, hp, hk⟩ := Option.bind_eq_some_iff.mp hk
      exact .head (parent?_eq_some_iff.mp hp) (ih hk)

theorem reaches_iff : s.reaches a n c = true ↔ ∃ k < n, s.ancestor? k c = some a := by
  induction n generalizing c with
  | zero => simp [reaches]
  | succ n ih =>
    rw [Nat.exists_lt_succ_left, reaches]
    by_cases h : c = a
    · simp [ancestor?, h]
    · cases hp : s.parent? c with
      | none => simp [ancestor?, h, hp]
      | some p => simp [ancestor?, h, hp, ih]

theorem index_lt_of_ancestor? (h : s.ancestor? (k + 1) c = some a) :
    c.index.toNat < s.classes.size := by
  obtain ⟨p, hp, -⟩ := Option.bind_eq_some_iff.mp h
  obtain ⟨symbol, hs, -⟩ := parent?_eq_some_iff.mp hp
  exact (Array.getElem?_eq_some_iff.mp hs).1

/-- On the shortest way to an ancestor no class is met twice: the way from its second place would be
a way from the first. -/
theorem ancestor?_ne_of_shortest (hk : s.ancestor? k c = some a)
    (hmin : ∀ m < k, s.ancestor? m c ≠ some a) (hij : j < n) (hn : n ≤ k) :
    s.ancestor? j c ≠ s.ancestor? n c := by
  intro h
  refine hmin (j + (k - n)) (by omega) ?_
  rw [ancestor?_add, h, ← ancestor?_add, Nat.add_sub_cancel' hn, hk]

/-- The shortest way has at most one step per class of the table, since every step starts at one. -/
theorem shortest_le (hk : s.ancestor? k c = some a) (hmin : ∀ m < k, s.ancestor? m c ≠ some a) :
    k ≤ s.classes.size := by
  let place (i : Nat) : Option Nat := (s.ancestor? i c).map (·.index.toNat)
  have hmaps : Set.MapsTo place (Finset.range k)
      ((Finset.range s.classes.size).map Function.Embedding.some) := by
    intro i hi
    have hik : i + (k - i - 1 + 1) = k := by
      have := Finset.mem_range.mp hi
      omega
    rw [← hik, ancestor?_add] at hk
    obtain ⟨d, hd, hrest⟩ := Option.bind_eq_some_iff.mp hk
    simpa [place, hd] using index_lt_of_ancestor? hrest
  have hinj : Set.InjOn place (Finset.range k) := by
    intro i hi j hj hij
    have heq : s.ancestor? i c = s.ancestor? j c := by
      refine Option.map_injective (fun d e h ↦ ?_) hij
      exact congrArg ClassId.mk (UInt64.toNat_inj.mp h)
    rcases lt_trichotomy i j with hlt | rfl | hlt
    · exact absurd heq (ancestor?_ne_of_shortest hk hmin hlt (Finset.mem_range.mp hj).le)
    · rfl
    · exact absurd heq.symm (ancestor?_ne_of_shortest hk hmin hlt (Finset.mem_range.mp hi).le)
  have hcard := Finset.card_le_card_of_injOn place hmaps hinj
  simpa using hcard

/-- A search that takes more steps than there are classes misses no ancestor. -/
theorem reaches_iff_descends (h : s.classes.size < n) :
    s.reaches a n c = true ↔ s.Descends c a := by
  rw [reaches_iff, descends_iff]
  constructor
  · rintro ⟨k, -, hk⟩
    exact ⟨k, hk⟩
  · intro hex
    have hle := shortest_le (Nat.find_spec hex) fun _ ↦ Nat.find_min hex
    exact ⟨Nat.find hex, by omega, Nat.find_spec hex⟩

theorem derives_iff : s.derives c a = true ↔ s.Descends c a :=
  reaches_iff_descends (Nat.lt_succ_self _)

/-- A class is found to derive from another exactly where the parent links lead from the one to the
other, in a table with cycles and links to nowhere, too. No search finds more, however long. -/
theorem derives_exact (s : SymbolTable) (c a : ClassId) :
    (s.derives c a = true ↔ Relation.ReflTransGen s.Extends c a) ∧
      ∀ steps, (s.reaches a steps c = true → s.derives c a = true) ∧
        (s.classes.size < steps → s.reaches a steps c = s.derives c a) := by
  refine ⟨derives_iff, fun steps ↦ ⟨fun h ↦ ?_, fun h ↦ ?_⟩⟩
  · obtain ⟨k, -, hk⟩ := reaches_iff.mp h
    exact derives_iff.mpr (descends_iff.mpr ⟨k, hk⟩)
  · rw [Bool.eq_iff_iff, reaches_iff_descends h, derives_iff]

/-- A chain through all classes that ends outside of the table takes every step there is. -/
example : let row (p : UInt64) : ClassSymbol := ⟨"", some ⟨p⟩, 4, "", ""⟩
    let s : SymbolTable := { classes := #[row 1, row 2, row 3] }
    s.derives ⟨0⟩ ⟨3⟩ = true ∧ s.reaches ⟨3⟩ 3 ⟨0⟩ = false := by decide

variable {x y : DataType}

/-- Null becomes any class, and a class becomes its parent. -/
inductive Widens (s : SymbolTable) : DataType → DataType → Prop
  | null (c : ClassId) : Widens s .null (.object c)
  | parent {c p : ClassId} (h : s.Extends c p) : Widens s (.object c) (.object p)

/-- The least preorder in which a type is below what it widens to. -/
def Below (s : SymbolTable) : DataType → DataType → Prop := Relation.ReflTransGen s.Widens

theorem Descends.below (h : s.Descends c p) : s.Below (.object c) (.object p) := by
  induction h with
  | refl => exact .refl
  | tail _ hp ih => exact ih.tail (.parent hp)

theorem Below.of_object (h : s.Below (.object c) y) : ∃ p, y = .object p ∧ s.Descends c p := by
  induction h with
  | refl => exact ⟨c, rfl, .refl⟩
  | tail _ hw ih =>
    obtain ⟨p, rfl, hp⟩ := ih
    cases hw with
    | parent h => exact ⟨_, rfl, hp.tail h⟩

theorem assignable_refl (x : DataType) : s.assignable x x = true := by
  cases x with
  | object c => exact derives_iff.mpr .refl
  | _ => simp [assignable]

theorem assignable_iff : s.assignable x y = true ↔ s.Below x y := by
  constructor
  · intro h
    unfold assignable at h
    split at h
    · exact .single (.null _)
    · exact (derives_iff.mp h).below
    · obtain rfl := of_decide_eq_true h
      exact .refl
  · intro h
    rcases Relation.ReflTransGen.cases_head h with rfl | ⟨z, hw, hz⟩
    · exact assignable_refl x
    · obtain ⟨c, rfl⟩ : ∃ c, z = .object c := by
        cases hw <;> exact ⟨_, rfl⟩
      obtain ⟨p, rfl, hp⟩ := Below.of_object hz
      cases hw with
      | null => rfl
      | parent hc => exact derives_iff.mpr (hp.head hc)

end ThreeAddress.Checked.SymbolTable
