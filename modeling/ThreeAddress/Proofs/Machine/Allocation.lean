import Mathlib.Data.Set.Lattice
import Mathlib.Order.CompletePartialOrder
import ThreeAddress.Proofs.Machine.Realise

namespace ThreeAddress.Machine

open Checked Code Lowering

variable {ι : Type}

def wordAt (base : Word) (i : Nat) : Word := base + .ofNat (4 * i)

def block (base : Word) (n : Nat) : Set Word := {a | ∃ i < n, wordAt base i = a}

/-- An account of the memory: the words in use, and a number of words for which there is room in any
case. Words in use can be written to without a change to the account. -/
structure Ledger (ι : Type) where
  used : World ι → Set Word
  room : World ι → Nat
  used_write : ∀ {w : World ι} {a : Word} (v : Word), a ∈ used w → used w ⊆ used (w.write a v)
  room_write : ∀ {w : World ι} {a : Word} (v : Word), a ∈ used w → room w ≤ room (w.write a v)

/-- Between two worlds a block of `n` different words was taken into use, none of which was in use
before, and no other word has changed. -/
structure Grants (L : Ledger ι) (w : World ι) (base : Word) (n : Nat) (w' : World ι) : Prop where
  distinct : ∀ i < n, ∀ j < n, wordAt base i = wordAt base j → i = j
  fresh : Disjoint (block base n) (L.used w)
  used_le : L.used w ⊆ L.used w'
  block_le : block base n ⊆ L.used w'
  room_le : L.room w ≤ L.room w' + n
  heap_eq : ∀ a ∉ block base n, w'.heap a = w.heap a

/-- The platform hands out new blocks, and it halts only where there is no room. In front of the
elements of an array there is a word with their number. -/
structure Allocates (P : Platform ι) (L : Ledger ι) : Prop where
  object_returned : ∀ {size p : Word} {n : Nat} {w w' : World ι}, 0 < n → size.toInt = 4 * n →
    P.serve (.call Routine.allocate.name) [size] w = .returned p w' → Grants L w p n w'
  object_halted : ∀ {size : Word} {n : Nat} {w w' : World ι}, 0 < n → size.toInt = 4 * n →
    P.serve (.call Routine.allocate.name) [size] w = .halted w' → L.room w < n
  array_returned : ∀ {count array : Word} {w w' : World ι}, 0 ≤ count →
    P.serve .newArray [count] w = .returned array w' →
    Grants L w (array + lengthOffset) (count.toInt.toNat + 1) w' ∧
      w'.heap (array + lengthOffset) = count
  array_halted : ∀ {count : Word} {w w' : World ι}, 0 ≤ count →
    P.serve .newArray [count] w = .halted w' → L.room w < count.toInt.toNat + 1

variable {P : Platform ι} {L : Ledger ι} {w w₁ w₂ w' : World ι} {a base o p : Word} {i n : Nat}

theorem wordAt_zero (base : Word) : wordAt base 0 = base := Int32.add_zero base

theorem wordAt_mem (base : Word) (h : i < n) : wordAt base i ∈ block base n := ⟨i, h, rfl⟩

theorem base_mem (base : Word) (h : 0 < n) : base ∈ block base n := ⟨0, h, wordAt_zero base⟩

@[simp] theorem block_zero (base : Word) : block base 0 = ∅ := by
  simp [block]

theorem elementAt_eq_wordAt (array : Word) (i : Nat) :
    Eval.elementAt array (.ofNat i) = wordAt (array + lengthOffset) (i + 1) := by
  simp only [Eval.elementAt, wordAt, lengthOffset, wordSize, Nat.mul_add, Int32.ofNat_add,
    Int32.ofNat_mul]
  have h4 : Int32.ofNat 4 = 4 := rfl
  grind

@[simp] theorem World.write_heap_self (w : World ι) (a v : Word) : (w.write a v).heap a = v :=
  Function.update_self ..

theorem World.write_heap_of_ne {b : Word} (h : b ≠ a) (w : World ι) (v : Word) :
    (w.write a v).heap b = w.heap b := Function.update_of_ne h ..

namespace Grants

theorem kept (h : Grants L w base n w') (ha : a ∈ L.used w) : w'.heap a = w.heap a :=
  h.heap_eq a fun hb ↦ Set.disjoint_left.mp h.fresh hb ha

theorem write (h : Grants L w base n w') (ha : a ∈ block base n) (v : Word) :
    Grants L w base n (w'.write a v) where
  distinct := h.distinct
  fresh := h.fresh
  used_le := h.used_le.trans (L.used_write v (h.block_le ha))
  block_le := h.block_le.trans (L.used_write v (h.block_le ha))
  room_le := h.room_le.trans (Nat.add_le_add_right (L.room_write v (h.block_le ha)) n)
  heap_eq b hb := by
    have hba : b ≠ a := fun hba ↦ hb (hba ▸ ha)
    rw [World.write_heap_of_ne hba]
    exact h.heap_eq b hb

theorem nothing (L : Ledger ι) (w : World ι) (base : Word) : Grants L w base 0 w where
  distinct := by simp
  fresh := by simp
  used_le := subset_rfl
  block_le := by simp
  room_le := le_rfl
  heap_eq _ _ := rfl

end Grants

/-- The block at `p` in one world holds a copy of the object at `o` in another: the table of the
class, and behind it the words of the object. -/
def IsCopy (P : Platform ι) (symbol : ClassSymbol) (n : Nat) (w : World ι) (o : Word) (w' : World ι)
    (p : Word) : Prop :=
  w'.heap (wordAt p 0) = P.tableAt symbol.vtable ∧
    ∀ i, 0 < i → i < n → w'.heap (wordAt p i) = w.heap (wordAt o i)

theorem IsCopy.keep {symbol : ClassSymbol} (h : IsCopy P symbol n w o w₁ p) (hn : 0 < n)
    (hk : ∀ a ∈ block p n, w₂.heap a = w₁.heap a) : IsCopy P symbol n w o w₂ p :=
  ⟨(hk _ (wordAt_mem p hn)).trans h.1,
    fun i h₀ hi ↦ (hk _ (wordAt_mem p hi)).trans (h.2 i h₀ hi)⟩

namespace Eval

/-- Copies words into a block that was handed out in the world `w`. The words to be copied are in
use, so that no write to the block changes them. -/
theorem copy_ok (is : List Nat) (hi : ∀ i ∈ is, i < n) (ho : block o n ⊆ L.used w)
    (hg : Grants L w p n w₁) :
    ∃ w₂, ((is.map fun i ↦ Int32.ofNat (4 * i)).forM fun offset ↦ do
        let field ← read (o + offset)
        write (p + offset) field) w₁ = .ok () w₂ ∧ Grants L w p n w₂ ∧
      (∀ i ∈ is, w₂.heap (wordAt p i) = w.heap (wordAt o i)) ∧
      ∀ i < n, i ∉ is → w₂.heap (wordAt p i) = w₁.heap (wordAt p i) := by
  induction is generalizing w₁ with
  | nil => exact ⟨w₁, rfl, hg, by simp, fun _ _ _ ↦ rfl⟩
  | cons k is ih =>
    obtain ⟨hk, his⟩ := List.forall_mem_cons.mp hi
    obtain ⟨w₂, hrun, hg₂, hcopied, hrest⟩ :=
      ih his (hg.write (wordAt_mem p hk) (w₁.heap (wordAt o k)))
    refine ⟨w₂, hrun, hg₂, ?_, ?_⟩
    · refine List.forall_mem_cons.mpr ⟨?_, hcopied⟩
      by_cases hmem : k ∈ is
      · exact hcopied k hmem
      · rw [hrest k hk hmem, World.write_heap_self]
        exact hg.kept (ho (wordAt_mem o hk))
    · intro i hin hmem
      obtain ⟨hne, hmem⟩ := not_or.mp (mt List.mem_cons.mpr hmem)
      rw [hrest i hin hmem, World.write_heap_of_ne]
      exact fun h ↦ hne (hg.distinct i hin k hk h)

theorem fieldOffsets_eq {size : Word} (hsize : size.toInt = 4 * n) :
    fieldOffsets size = ((List.range (n - 1)).map (· + 1)).map fun i ↦ Int32.ofNat (4 * i) := by
  have hlen : ((size.toInt - 1) / 4).toNat = n - 1 := by omega
  rw [fieldOffsets, hlen, List.map_map]
  rfl

variable {symbol : ClassSymbol}

/-- A copy is exact, and it is made in a new block. -/
theorem clone_ok (hA : Allocates P L) (hn : 0 < n) (hsize : symbol.size.toInt = 4 * n)
    (ho : block o n ⊆ L.used w)
    (hr : P.serve (.call Routine.allocate.name) [symbol.size] w = .returned p w₁) :
    ∃ w', clone P symbol o w = .ok p w' ∧ Grants L w p n w' ∧ IsCopy P symbol n w o w' p := by
  have hallocate : routine P .allocate [symbol.size] w = .ok p w₁ := by
    simp only [routine, request, hr]
  obtain ⟨w₂, hcopy, hg, hcopied, -⟩ := copy_ok ((List.range (n - 1)).map (· + 1))
    (by simp; omega) ho (hA.object_returned hn hsize hr)
  refine ⟨w₂.write (wordAt p 0) (P.tableAt symbol.vtable), ?_, hg.write (wordAt_mem p hn) _,
    World.write_heap_self .., fun i h₀ hi ↦ ?_⟩
  · rw [clone, bind_of_ok hallocate, fieldOffsets_eq hsize, bind_of_ok hcopy, wordAt_zero]
    rfl
  · rw [World.write_heap_of_ne fun h ↦ h₀.ne' (hg.distinct i hi 0 hn h)]
    exact hcopied i (List.mem_map.mpr ⟨i - 1, List.mem_range.mpr (by omega), by omega⟩)

theorem clone_halted (hr : P.serve (.call Routine.allocate.name) [symbol.size] w = .halted w') :
    clone P symbol o w = .error .halted w' := by
  have hallocate : routine P .allocate [symbol.size] w = .error .halted w' := by
    simp only [routine, request, hr]
  rw [clone, bind_of_error hallocate]

end Eval

end ThreeAddress.Machine
