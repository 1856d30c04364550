import ThreeAddress.Proofs.Control.Cursor

namespace ThreeAddress.Control

open Checked Code Lowering Machine

/-- An access to elements of an array: where the code begins that guards it, where the access itself
stands, the array, and what limits the index. Places are counted from the start of the listing. -/
structure Site where
  entry : Nat
  place : Nat
  base : Temp
  extent : Extent
  writes : Bool
deriving DecidableEq

/-- The instruction reads or writes the word at the address in a temporary. -/
inductive Via (pointer : Temp) : Bool → Instr → Prop
  | read (dst : Temp) : Via pointer false (.load dst pointer 0)
  | write (src : Temp) : Via pointer true (.store src pointer 0)

namespace Site

/-- The instruction at the place of the site is run only where its address is that of an element of
the array, which is what it was at the latest visit of the entry. -/
def InBounds (site : Site) (listing : List Instr) : Prop :=
  ∃ i rest pointer, listing.drop site.place = i :: rest ∧ Via pointer site.writes i ∧
    ∀ {ι : Type} (P : Platform ι),
      Addresses P listing (listing.drop site.entry) (i :: rest) site.base site.extent pointer

/-- Wherever the code is a sealed block that begins at the entry of the site, the access is in
bounds. -/
structure GuardedBy (site : Site) (code : List Instr) : Prop where
  entry_le : site.entry ≤ site.place
  place_lt : site.place < site.entry + code.length
  inBounds : ∀ ⦃listing before rest⦄, Sealed listing before code rest →
    before.length = site.entry → site.InBounds listing

variable {base pointer : Temp} {extent : Extent} {writes : Bool} {code tail : List Instr}
variable {i : Instr} {entry n m : Nat}

theorem guardedBy (front : List Instr) (hcode : code = front ++ i :: tail)
    (hi : Via pointer writes i)
    (h : ∀ {ι : Type} (P : Platform ι) ⦃listing before rest⦄, Sealed listing before code rest →
      Addresses P listing (code ++ rest) (i :: tail ++ rest) base extent pointer) :
    GuardedBy ⟨entry, entry + front.length, base, extent, writes⟩ code where
  entry_le := Nat.le_add_right _ _
  place_lt := by
    simp only [hcode, List.length_append, List.length_cons]
    omega
  inBounds := by
    rintro listing before rest hs rfl
    have hentry : listing.drop before.length = code ++ rest := by
      rw [hs.listing_eq, List.drop_left]
    have hplace : listing.drop (before.length + front.length) = i :: (tail ++ rest) := by
      rw [← List.drop_drop, hentry, hcode, List.append_assoc, List.drop_left, List.cons_append]
    refine ⟨i, tail ++ rest, pointer, hplace, hi, fun P ↦ ?_⟩
    show Addresses P listing (listing.drop before.length) _ _ _ _
    rw [hentry]
    exact h P hs

theorem guardedBy_checked {array index word offset address : Temp} (hi : Via address writes i)
    (hts : Ascending n [word, offset, address] m) (ha : array.index ≤ n) (hx : index.index ≤ n) :
    GuardedBy ⟨entry, entry + 4, array, .stored, writes⟩
      (.checkBounds array index :: addressCode array index word offset address ++ [i]) := by
  have hl : i.label? = none := by cases hi <;> rfl
  exact guardedBy (.checkBounds array index :: addressCode array index word offset address) rfl hi
    fun _ _ _ _ hs ↦ checked_addresses hts ha hx hl hs

theorem guardedBy_readOr {r : ReadOr} (hts : Ascending n r.temps m) (ha : r.array.index ≤ n)
    (hi : r.index.index ≤ n) :
    GuardedBy ⟨entry, entry + 13, r.array, .stored, false⟩ r.code :=
  guardedBy (r.test ++ .label r.useDefault :: .copy r.result r.fallback :: .jump r.done ::
    .label r.inBounds :: addressCode r.array r.index r.word r.offset r.address) rfl
      (.read r.element)
    fun _ _ _ _ hs ↦ readOr_addresses hts ha hi hs

theorem guardedBy_fill {f : Fill} {env : Env} {type : DataType} {element : Temp}
    (hts : Ascending n f.temps m) (hc : f.count.index ≤ n)
    (hs : Stored env type element f.store f.storeTemps f.stored) :
    GuardedBy ⟨entry, entry + (f.store.length + 7), f.array, .count f.count, true⟩ f.block := by
  have hlen : (f.start ++ .label f.fill :: f.turn).length = f.store.length + 7 := by
    simp [Fill.start, Fill.turn, Fill.test]
  rw [← hlen]
  refine guardedBy _ ?_ (.write f.stored) fun _ _ _ _ hsealed ↦ fill_addresses hts hc hs hsealed
  simp [Fill.block, f.loop_eq, Fill.access, Fill.advance]

theorem guardedBy_each {e : Each} {array : Temp} {guard body : List Instr}
    (ha : e.Alone array guard body) :
    GuardedBy ⟨entry, entry + 10, array, .stored, false⟩ (e.block array guard body) :=
  guardedBy (e.setup array ++ .label e.again :: e.test) rfl (.read e.current)
    fun _ _ _ _ hs ↦ each_addresses ha hs

end Site

end ThreeAddress.Control
