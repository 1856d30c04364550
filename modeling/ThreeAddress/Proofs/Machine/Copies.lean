import ThreeAddress.Proofs.Lowering.Closed
import ThreeAddress.Proofs.Lowering.Mention
import ThreeAddress.Proofs.Machine.Allocation
import ThreeAddress.Proofs.Machine.Expression

namespace ThreeAddress.Machine

open Checked Code Lowering

variable {ι : Type} {P : Platform ι} {L : Ledger ι} {w w₁ w₂ w' : World ι} {array count p : Word}
variable {k m n : Nat} {R : World ι → Word → Prop}

def arrayBlock (array count : Word) : Set Word :=
  block (array + lengthOffset) (count.toInt.toNat + 1)

def elementOf (w : World ι) (array : Word) (i : Nat) : Word :=
  w.heap (Eval.elementAt array (.ofNat i))

def storeAt (w : World ι) (array : Word) (i : Nat) (v : Word) : World ι :=
  w.write (Eval.elementAt array (.ofNat i)) v

/-- In the world `w'` there is an array that was not there in `w`. Its first `k` elements are
stored: `R` holds of them, and each has a block of `m` words that was not there either and that it
shares with no other. Nothing else is different from `w`. -/
structure Populated (L : Ledger ι) (R : World ι → Word → Prop) (m : Nat) (w : World ι)
    (array count : Word) (k : Nat) (w' : World ι) : Prop where
  distinct : ∀ i < count.toInt.toNat + 1, ∀ j < count.toInt.toNat + 1,
    wordAt (array + lengthOffset) i = wordAt (array + lengthOffset) j → i = j
  array_fresh : Disjoint (arrayBlock array count) (L.used w)
  length : w'.heap (array + lengthOffset) = count
  element : ∀ i < k, R w' (elementOf w' array i)
  fresh : ∀ i < k,
    Disjoint (block (elementOf w' array i) m) (L.used w ∪ arrayBlock array count)
  disjoint : ∀ i < k, ∀ j < k, i ≠ j →
    Disjoint (block (elementOf w' array i) m) (block (elementOf w' array j) m)
  used_le : L.used w ∪ arrayBlock array count ⊆ L.used w'
  block_le : ∀ i < k, block (elementOf w' array i) m ⊆ L.used w'
  room_le : L.room w ≤ L.room w' + (count.toInt.toNat + 1 + k * m)
  heap_eq : ∀ a ∉ arrayBlock array count, (∀ i < k, a ∉ block (elementOf w' array i) m) →
    w'.heap a = w.heap a

theorem elementAt_mem (array : Word) (h : k < count.toInt.toNat) :
    Eval.elementAt array (.ofNat k) ∈ arrayBlock array count := by
  rw [elementAt_eq_wordAt]
  exact wordAt_mem _ (Nat.succ_lt_succ h)

namespace Populated

theorem start (h : Grants L w (array + lengthOffset) (count.toInt.toNat + 1) w₁)
    (hl : w₁.heap (array + lengthOffset) = count) : Populated L R m w array count 0 w₁ where
  distinct := h.distinct
  array_fresh := h.fresh
  length := hl
  element := by simp
  fresh := by simp
  disjoint := by simp
  used_le := Set.union_subset h.used_le h.block_le
  block_le := by simp
  room_le := by simpa using h.room_le
  heap_eq a ha _ := h.heap_eq a ha

theorem kept {a : Word} (h : Populated L R m w array count k w') (ha : a ∈ L.used w) :
    w'.heap a = w.heap a := by
  refine h.heap_eq a (fun hb ↦ Set.disjoint_left.mp h.array_fresh hb ha) fun i hi hb ↦ ?_
  exact Set.disjoint_left.mp (h.fresh i hi) hb (.inl ha)

theorem elementAt_ne {i : Nat} (h : Populated L R m w array count k w')
    (hi : i < count.toInt.toNat) (hk : k < count.toInt.toNat) (hne : i ≠ k) :
    Eval.elementAt array (.ofNat i) ≠ Eval.elementAt array (.ofNat k) := by
  rw [elementAt_eq_wordAt, elementAt_eq_wordAt]
  intro he
  exact hne (Nat.succ.inj (h.distinct _ (Nat.succ_lt_succ hi) _ (Nat.succ_lt_succ hk) he))

theorem length_ne (h : Populated L R m w array count k w') (hk : k < count.toInt.toNat) :
    array + lengthOffset ≠ Eval.elementAt array (.ofNat k) := by
  rw [elementAt_eq_wordAt]
  intro he
  have h₀ := h.distinct 0 (Nat.succ_pos _) (k + 1) (Nat.succ_lt_succ hk) ((wordAt_zero _).trans he)
  omega

theorem store_kept {a : Word} (hg : Grants L w₁ p m w₂) (ha : a ∈ L.used w₁)
    (hne : a ≠ Eval.elementAt array (.ofNat k)) : (storeAt w₂ array k p).heap a = w₁.heap a :=
  (World.write_heap_of_ne hne ..).trans (hg.kept ha)

theorem elementOf_store {i : Nat} (h : Populated L R m w array count k w₁)
    (hk : k < count.toInt.toNat) (hg : Grants L w₁ p m w₂) (hi : i < k) :
    elementOf (storeAt w₂ array k p) array i = elementOf w₁ array i :=
  store_kept hg (h.used_le (.inr (elementAt_mem array (hi.trans hk))))
    (h.elementAt_ne (hi.trans hk) hk hi.ne)

/-- One more element. Its block is apart from all that was in use, the array and the other blocks.
-/
theorem store (h : Populated L R m w array count k w₁) (hk : k < count.toInt.toNat)
    (hg : Grants L w₁ p m w₂) (hp : R w₂ p)
    (hR : ∀ ⦃w₁ w₂ p⦄, R w₁ p → (∀ a ∈ block p m, w₂.heap a = w₁.heap a) → R w₂ p) :
    Populated L R m w array count (k + 1) (storeAt w₂ array k p) := by
  have hmem := elementAt_mem array hk
  have hin := hg.used_le (h.used_le (.inr hmem))
  have hwrite : L.used w₂ ⊆ L.used (storeAt w₂ array k p) := L.used_write p hin
  have hlast : elementOf (storeAt w₂ array k p) array k = p := World.write_heap_self ..
  have hfirst {i : Nat} (hi : i < k) := h.elementOf_store hk hg hi
  have happart : Disjoint (block p m) (L.used w ∪ arrayBlock array count) :=
    hg.fresh.mono_right h.used_le
  have hothers {i : Nat} (hi : i < k) : Disjoint (block p m) (block (elementOf w₁ array i) m) :=
    hg.fresh.mono_right (h.block_le i hi)
  constructor
  case distinct => exact h.distinct
  case array_fresh => exact h.array_fresh
  case length =>
    rw [store_kept hg (h.used_le (.inr (base_mem _ (Nat.succ_pos _)))) (h.length_ne hk), h.length]
  case element =>
    refine Nat.forall_lt_succ_right.mpr ⟨fun i hi ↦ ?_, ?_⟩
    · rw [hfirst hi]
      refine hR (h.element i hi) fun a ha ↦ store_kept hg (h.block_le i hi ha) ?_
      rintro rfl
      exact Set.disjoint_left.mp (h.fresh i hi) ha (.inr hmem)
    · rw [hlast]
      refine hR hp fun a ha ↦ World.write_heap_of_ne ?_ ..
      rintro rfl
      exact Set.disjoint_left.mp happart ha (.inr hmem)
  case fresh =>
    refine Nat.forall_lt_succ_right.mpr ⟨fun i hi ↦ ?_, ?_⟩
    · rw [hfirst hi]
      exact h.fresh i hi
    · rw [hlast]
      exact happart
  case disjoint =>
    refine Nat.forall_lt_succ_right.mpr ⟨fun i hi ↦ ?_, ?_⟩
    · refine Nat.forall_lt_succ_right.mpr ⟨fun j hj hne ↦ ?_, fun _ ↦ ?_⟩
      · rw [hfirst hi, hfirst hj]
        exact h.disjoint i hi j hj hne
      · rw [hfirst hi, hlast]
        exact (hothers hi).symm
    · refine Nat.forall_lt_succ_right.mpr ⟨fun j hj _ ↦ ?_, fun hne ↦ absurd rfl hne⟩
      rw [hfirst hj, hlast]
      exact hothers hj
  case used_le => exact h.used_le.trans (hg.used_le.trans hwrite)
  case block_le =>
    refine Nat.forall_lt_succ_right.mpr ⟨fun i hi ↦ ?_, ?_⟩
    · rw [hfirst hi]
      exact (h.block_le i hi).trans (hg.used_le.trans hwrite)
    · rw [hlast]
      exact hg.block_le.trans hwrite
  case room_le =>
    have hroom := h.room_le
    have hroom₁ := hg.room_le
    have hroom₂ : L.room w₂ ≤ L.room (storeAt w₂ array k p) := L.room_write p hin
    rw [Nat.succ_mul]
    omega
  case heap_eq =>
    intro a ha hb
    obtain ⟨hb, hlastb⟩ := Nat.forall_lt_succ_right.mp hb
    rw [hlast] at hlastb
    have hne : a ≠ Eval.elementAt array (.ofNat k) := fun he ↦ ha (he ▸ hmem)
    rw [storeAt, World.write_heap_of_ne hne, hg.heap_eq a hlastb]
    exact h.heap_eq a ha fun i hi ↦ hfirst hi ▸ hb i hi

end Populated

/-- An action that yields what is stored in an element. Wherever all that was in use in `w` is as it
was, it takes a new block of `m` words and then `R` holds, or it halts for want of room. -/
def Provides (L : Ledger ι) (R : World ι → Word → Prop) (Q : World ι → Prop) (m : Nat) (w : World ι)
    (x : Eval ι Word) : Prop :=
  ∀ ⦃w₁⦄, L.used w ⊆ L.used w₁ → (∀ a ∈ L.used w, w₁.heap a = w.heap a) →
    (∃ p w₂, x w₁ = .ok p w₂ ∧ Grants L w₁ p m w₂ ∧ R w₂ p) ∨
      ∃ w₂, x w₁ = .error .halted w₂ ∧ L.room w₁ < m ∧ Q w₂

variable {symbols : SymbolTable} {type : DataType} {value : Word} {Q : World ι → Prop}

theorem Populated.fill (h : Populated L R m w array count k w₁)
    (hx : Provides L R Q m w (Eval.cloneIfObject P symbols type value))
    (hR : ∀ ⦃w₁ w₂ p⦄, R w₁ p → (∀ a ∈ block p m, w₂.heap a = w₁.heap a) → R w₂ p)
    (hn : k + n = count.toInt.toNat) :
    (∃ w', Eval.fill P symbols type value array k n w₁ = .ok () w' ∧
        Populated L R m w array count count.toInt.toNat w') ∨
      ∃ w', Eval.fill P symbols type value array k n w₁ = .error .halted w' ∧
        L.room w < count.toInt.toNat + 1 + count.toInt.toNat * m ∧ Q w' := by
  induction n generalizing k w₁ with
  | zero =>
    obtain rfl : k = count.toInt.toNat := hn
    exact .inl ⟨w₁, rfl, h⟩
  | succ n ih =>
    have hk : k < count.toInt.toNat := by omega
    rcases hx (Set.subset_union_left.trans h.used_le) fun a ha ↦ h.kept ha with
      ⟨p, w₂, hp, hg, hRp⟩ | ⟨w₂, hp, hroom, hQ⟩
    · have hrun : Eval.fill P symbols type value array k (n + 1) w₁ =
          Eval.fill P symbols type value array (k + 1) n (storeAt w₂ array k p) := by
        rw [Eval.fill, Eval.bind_of_ok hp]
        rfl
      rw [hrun]
      exact ih (h.store hk hg hRp hR) (by omega)
    · refine .inr ⟨w₂, ?_, ?_, hQ⟩
      · rw [Eval.fill, Eval.bind_of_error hp]
      · have hle : (k + 1) * m ≤ count.toInt.toNat * m := Nat.mul_le_mul_right m hk
        have hleft := h.room_le
        rw [Nat.succ_mul] at hle
        omega

theorem provides_plain (hc : type.class? = none) :
    Provides L (fun _ p ↦ p = value) (fun _ ↦ False) 0 w
      (Eval.cloneIfObject P symbols type value) := by
  intro w₁ _ _
  refine .inl ⟨value, w₁, ?_, .nothing L w₁ value, rfl⟩
  rw [Eval.cloneIfObject, hc]
  rfl

theorem provides_object {c : ClassId} {symbol : ClassSymbol} (hA : Allocates P L)
    (hc : type.class? = some c) (hs : symbols.class? c = some symbol) (hm : 0 < m)
    (hsize : symbol.size.toInt = 4 * m) (ho : block value m ⊆ L.used w) :
    Provides L (IsCopy P symbol m w value)
      (fun w' ↦ ∃ w₁, P.serve (.call Routine.allocate.name) [symbol.size] w₁ = .halted w') m w
      (Eval.cloneIfObject P symbols type value) := by
  intro w₁ hused hheap
  have hclone : Eval.cloneIfObject P symbols type value w₁ = Eval.clone P symbol value w₁ := by
    simp only [Eval.cloneIfObject, hc, hs, Eval.known, pure_bind]
  rw [hclone]
  cases hr : P.serve (.call Routine.allocate.name) [symbol.size] w₁ with
  | returned p w₂ =>
    obtain ⟨w', hrun, hg, hcopy⟩ := Eval.clone_ok hA hm hsize (ho.trans hused) hr
    refine .inl ⟨p, w', hrun, hg, hcopy.1, fun i h₀ hi ↦ ?_⟩
    exact (hcopy.2 i h₀ hi).trans (hheap _ (ho (wordAt_mem value hi)))
  | halted w' =>
    exact .inr ⟨w', Eval.clone_halted hr, hA.object_halted hm hsize hr, w₁, hr⟩

/-- A new array in which a value, or a copy of it for each element, is stored. -/
def Eval.fillNew (P : Platform ι) (symbols : SymbolTable) (type : DataType) (value count : Word) :
    Eval ι Word := do
  let array ← request P .newArray [count]
  fill P symbols type value array 0 count.toInt.toNat
  return array

namespace Eval

theorem fillNew_halted (hr : P.serve .newArray [count] w = .halted w') :
    fillNew P symbols type value count w = .error .halted w' := by
  have hnew : request P .newArray [count] w = .error .halted w' := by simp only [request, hr]
  rw [fillNew, bind_of_error hnew]

theorem fillNew_eq (hr : P.serve .newArray [count] w = .returned array w₁) :
    fillNew P symbols type value count w =
      (fill P symbols type value array 0 count.toInt.toNat >>= fun _ ↦ pure array) w₁ := by
  have hnew : request P .newArray [count] w = .ok array w₁ := by simp only [request, hr]
  rw [fillNew, bind_of_ok hnew]

theorem fillNew_plain (hA : Allocates P L) (hcount : 0 ≤ count) (hc : type.class? = none)
    (hr : P.serve .newArray [count] w = .returned array w₁) :
    ∃ w', fillNew P symbols type value count w = .ok array w' ∧
      Grants L w (array + lengthOffset) (count.toInt.toNat + 1) w' ∧
      w'.heap (array + lengthOffset) = count ∧
      ∀ i < count.toInt.toNat, elementOf w' array i = value := by
  obtain ⟨hg, hlength⟩ := hA.array_returned hcount hr
  have hplain : Provides L (fun _ p ↦ p = value) (fun _ ↦ False) 0 w
      (cloneIfObject P symbols type value) := provides_plain hc
  obtain ⟨w', hrun, hp⟩ := ((Populated.start hg hlength).fill hplain (fun _ _ _ hp _ ↦ hp)
    (Nat.zero_add _)).resolve_right fun ⟨_, _, _, h⟩ ↦ h
  refine ⟨w', ?_, ?_, hp.length, hp.element⟩
  · rw [fillNew_eq hr, bind_of_ok hrun]
    rfl
  · exact ⟨hp.distinct, hp.array_fresh, Set.subset_union_left.trans hp.used_le,
      Set.subset_union_right.trans hp.used_le, by simpa using hp.room_le,
      fun a ha ↦ hp.heap_eq a ha (by simp)⟩

/-- Where the value is an object, each element is a copy of its own, unless there is no room for all
of them. -/
theorem fillNew_object {c : ClassId} {symbol : ClassSymbol} (hA : Allocates P L)
    (hcount : 0 ≤ count) (hc : type.class? = some c) (hs : symbols.class? c = some symbol)
    (hm : 0 < m) (hsize : symbol.size.toInt = 4 * m) (ho : block value m ⊆ L.used w)
    (hr : P.serve .newArray [count] w = .returned array w₁) :
    (∃ w', fillNew P symbols type value count w = .ok array w' ∧
        Populated L (IsCopy P symbol m w value) m w array count count.toInt.toNat w') ∨
      ∃ w', fillNew P symbols type value count w = .error .halted w' ∧
        L.room w < count.toInt.toNat + 1 + count.toInt.toNat * m ∧
        ∃ w₂, P.serve (.call Routine.allocate.name) [symbol.size] w₂ = .halted w' := by
  obtain ⟨hg, hlength⟩ := hA.array_returned hcount hr
  rcases (Populated.start hg hlength).fill (provides_object hA hc hs hm hsize ho)
    (fun _ _ _ hcopy hk ↦ hcopy.keep hm hk) (Nat.zero_add _) with
    ⟨w', hrun, hp⟩ | ⟨w', hrun, hroom, hhalt⟩
  · refine .inl ⟨w', ?_, hp⟩
    rw [fillNew_eq hr, bind_of_ok hrun]
    rfl
  · refine .inr ⟨w', ?_, hroom, hhalt⟩
    rw [fillNew_eq hr, bind_of_error hrun]

end Eval

theorem Populated.element_ne {i : Nat} (h : Populated L R m w array count k w') (hi : i < k)
    (hm : 0 < m) (hv : value ∈ L.used w) : elementOf w' array i ≠ value := by
  rintro rfl
  exact Set.disjoint_left.mp (h.fresh i hi) (base_mem _ hm) (.inl hv)

variable {code : List Instr} {regs : Registers} {t : Temp} {v : Word} {env : Env} {s s' : State}
variable {span : Span}

variable (P) in
/-- Wherever the code stands, with no parameter pending in front of it, a run from its start arrives
behind it with a value in a temporary. The temporaries up to `n` are then as before. -/
def Completes (n : Nat) (code : List Instr) (regs : Registers) (w : World ι) (t : Temp) (v : Word)
    (w' : World ι) : Prop :=
  ∀ before rest, (labels (before ++ (code ++ rest))).Nodup → ∃ regs',
    Reaches P (before ++ (code ++ rest)) (.running (code ++ rest) ⟨regs, [], w⟩)
      (.running rest ⟨regs', [], w'⟩) ∧ Keeps n regs regs' ∧ regs' t = v

variable (P) in
/-- Likewise, but the run ends within the code. -/
def Halts (code : List Instr) (regs : Registers) (w w' : World ι) : Prop :=
  ∀ before rest, (labels (before ++ (code ++ rest))).Nodup →
    Reaches P (before ++ (code ++ rest)) (.running (code ++ rest) ⟨regs, [], w⟩) (.ended .halted w')

theorem Realises.completes {x : Eval ι Word} (h : Realises P n code regs w x (Holds t))
    (hx : x w = .ok v w') : Completes P n code regs w t v w' := by
  intro before rest hd
  have ha := h hd (List.suffix_append before _)
  rwa [Arrives, hx] at ha

theorem Realises.halts {x : Eval ι Word} (h : Realises P n code regs w x (Holds t))
    (hx : x w = .error .halted w') : Halts P code regs w w' := by
  intro before rest hd
  have ha := h hd (List.suffix_append before _)
  rwa [Arrives, hx] at ha

end ThreeAddress.Machine

namespace ThreeAddress.Checked

open Code Lowering Machine

variable {ι : Type} {env : Env} {s s' : State} {t : Temp}

/-- Lowering an expression leaves the receiver and the variables with temporaries that were issued,
and its result is one of these. -/
theorem Expr.lower_situated {e : Expr} (hs : Situated env s) (h : e.lower env s = .ok t s') :
    Situated env s' ∧ t.index ≤ s'.temps ∧ s.temps ≤ s'.temps := by
  obtain ⟨hle, new, -, hW⟩ := e.touches (fun u hu ↦ Option.mem_toList.mpr hu) h
  obtain ⟨hbound, ht, -⟩ := hW (·.index ≤ s'.temps)
    (fun u hu ↦ (hs.receiver_le u (Option.mem_toList.mp hu)).trans hle)
    (fun d hd ↦ (hs.bound_le d hd).trans hle) fun u hu ↦ hu.2
  exact ⟨⟨fun u hu ↦ (hs.receiver_le u hu).trans hle, hbound⟩, by simpa using ht, hle⟩

variable (P : Platform ι) {type : DataType} {lvalue : LValue} {span : Span}

theorem Expr.lower_shallowCopy_ok {source : Expr} (hs : Situated env s)
    (h : (Expr.mk (.shallowCopy source) type lvalue span).lower env s = .ok t s') :
    ∃ c symbol o s₁ code, source.type.class? = some c ∧ env.symbols.class? c = some symbol ∧
      source.lower env s = .ok o s₁ ∧ s'.code = s₁.code ++ code ∧
      ∀ regs w, Realises P s₁.temps code regs w (Eval.clone P symbol (regs o)) (Holds t) := by
  rw [Expr.lower] at h
  cases hc : source.type.class? with
  | none =>
    rw [hc] at h
    cases h
  | some c =>
    rw [hc] at h
    obtain ⟨o, s₁, ho, hk⟩ := bind_ok_iff.mp h
    obtain ⟨k, hsymbol, rfl, rfl, hf, e⟩ := cloneObject_ok hk
    refine ⟨c, k.symbol, k.object, s₁, k.code, rfl, hsymbol, ho, e.code_eq, fun regs w ↦ ?_⟩
    exact .clone e.ascending (Expr.lower_situated hs ho).2.1 hf

/-- What an array that is filled with a value is lowered to: behind the code of its two operands,
code that makes and fills it and does not lead out of itself. -/
theorem Expr.lower_newSameArray_ok {value count : Expr} (hs : Situated env s)
    (h : (Expr.mk (.newSameArray value count) type lvalue span).lower env s = .ok t s') :
    ∃ v c s₁ s₂ code, value.lower env s = .ok v s₁ ∧ count.lower env s₁ = .ok c s₂ ∧
      s'.code = s₂.code ++ code ∧ (∀ l ∈ targets code, l ∈ labels code) ∧
      ∀ regs w, Realises P s₂.temps code regs w
        (Eval.fillNew P env.symbols value.type (regs v) (regs c)) (Holds t) := by
  rw [Expr.lower] at h
  simp only [bind_ok_iff] at h
  obtain ⟨v, s₁, hv, c, s₂, hc, hfill⟩ := h
  obtain ⟨hs₁, hvle, -⟩ := Expr.lower_situated hs hv
  obtain ⟨-, hcle, hle⟩ := Expr.lower_situated hs₁ hc
  obtain ⟨code, ts, e, -, hrun⟩ := (Yields.fillArray (P := P) (hvle.trans hle) hcle hfill).2
  refine ⟨v, c, s₁, s₂, code, hv, hc, e.code_eq, ?_, hrun⟩
  have hcloses : Closes none (fillArray env v c value.type value.span) := .fillArray v c value.type
  obtain ⟨new, us, e', hclosed⟩ := hcloses hfill
  obtain rfl : new = code := List.append_cancel_left (e'.code_eq.symm.trans e.code_eq)
  exact fun l hl ↦ (hclosed.placed l hl).resolve_right (by simp)

/-- The code of a shallow copy stands behind that of its operand, which is evaluated once. It takes
a new block of as many words as the class has, writes the table of the class and the words of the
object there and leaves all else alone. It halts only where the platform does, for want of room. -/
structure CopiesObject (L : Ledger ι) (env : Env) (source : Expr) (symbol : ClassSymbol) (s : State)
    (o : Temp) (s₁ : State) (code : List Instr) (t : Temp) (s' : State) : Prop where
  operand : source.lower env s = .ok o s₁
  code_eq : s'.code = s₁.code ++ code
  computes : source.BindingFree →
    Computes P env s s₁ (fun scope ↦ source.eval P env.symbols scope) fun regs ↦ regs o
  copies : ∀ {n : Nat} {regs : Registers} {w w₁ : World ι} {p : Word}, 0 < n →
    symbol.size.toInt = 4 * n → block (regs o) n ⊆ L.used w →
    P.serve (.call Routine.allocate.name) [symbol.size] w = .returned p w₁ →
    ∃ w', Completes P s₁.temps code regs w t p w' ∧ Grants L w p n w' ∧
      IsCopy P symbol n w (regs o) w' p
  halts : ∀ {n : Nat} {regs : Registers} {w w' : World ι}, 0 < n → symbol.size.toInt = 4 * n →
    P.serve (.call Routine.allocate.name) [symbol.size] w = .halted w' →
    Halts P code regs w w' ∧ L.room w < n

/-- The code of an array that is filled with a value stands behind that of its two operands, each of
which is evaluated once, and does not lead back to it. The array is new. Its elements are the value
or, where that is an object, copies of it in new blocks of their own; the object is none of them,
and it is left alone like all else. The code halts only where the platform does, for want of room.
-/
structure FillsArray (L : Ledger ι) (env : Env) (value count : Expr) (s : State) (v : Temp)
    (s₁ : State) (c : Temp) (s₂ : State) (code : List Instr) (t : Temp) (s' : State) : Prop where
  value_operand : value.lower env s = .ok v s₁
  count_operand : count.lower env s₁ = .ok c s₂
  code_eq : s'.code = s₂.code ++ code
  closed : ∀ l ∈ targets code, l ∈ labels code
  computes : value.BindingFree → count.BindingFree →
    Computes P env s s₂ (fun scope ↦ do
      let a ← value.eval P env.symbols scope
      let b ← count.eval P env.symbols scope
      return (a, b)) fun regs ↦ (regs v, regs c)
  values : ∀ {regs : Registers} {w w₁ : World ι} {array : Word}, 0 ≤ regs c →
    P.serve .newArray [regs c] w = .returned array w₁ → value.type.class? = none →
    ∃ w', Completes P s₂.temps code regs w t array w' ∧
      Grants L w (array + lengthOffset) ((regs c).toInt.toNat + 1) w' ∧
      w'.heap (array + lengthOffset) = regs c ∧
      ∀ i < (regs c).toInt.toNat, elementOf w' array i = regs v
  copies : ∀ {regs : Registers} {w w₁ : World ι} {array : Word} {k : ClassId} {symbol : ClassSymbol}
      {m : Nat}, 0 ≤ regs c → P.serve .newArray [regs c] w = .returned array w₁ →
    value.type.class? = some k → env.symbols.class? k = some symbol → 0 < m →
    symbol.size.toInt = 4 * m → block (regs v) m ⊆ L.used w →
    (∃ w', Completes P s₂.temps code regs w t array w' ∧
      Populated L (IsCopy P symbol m w (regs v)) m w array (regs c) (regs c).toInt.toNat w' ∧
      (∀ i < (regs c).toInt.toNat, elementOf w' array i ≠ regs v) ∧
      ∀ i < m, w'.heap (wordAt (regs v) i) = w.heap (wordAt (regs v) i)) ∨
    ∃ w', Halts P code regs w w' ∧
      L.room w < (regs c).toInt.toNat + 1 + (regs c).toInt.toNat * m ∧
      ∃ w₁, P.serve (.call Routine.allocate.name) [symbol.size] w₁ = .halted w'
  halts : ∀ {regs : Registers} {w w' : World ι}, 0 ≤ regs c →
    P.serve .newArray [regs c] w = .halted w' →
    Halts P code regs w w' ∧ L.room w < (regs c).toInt.toNat + 1

/-- Copies are exact and alias nothing. -/
theorem Expr.lower_copies_exact (L : Ledger ι) (hA : Allocates P L) (hs : Situated env s) :
    (∀ source, (Expr.mk (.shallowCopy source) type lvalue span).lower env s = .ok t s' →
      ∃ c symbol o s₁ code, source.type.class? = some c ∧ env.symbols.class? c = some symbol ∧
        CopiesObject P L env source symbol s o s₁ code t s') ∧
    ∀ value count, (Expr.mk (.newSameArray value count) type lvalue span).lower env s = .ok t s' →
      ∃ v s₁ c s₂ code, FillsArray P L env value count s v s₁ c s₂ code t s' := by
  constructor
  · intro source h
    obtain ⟨c, symbol, o, s₁, code, hc, hsymbol, ho, hcode, hrun⟩ :=
      Expr.lower_shallowCopy_ok P hs h
    refine ⟨c, symbol, o, s₁, code, hc, hsymbol, ho, hcode,
      fun hfree ↦ (source.delivers hfree hs ho).2, ?_, ?_⟩
    · intro n regs w w₁ p hn hsize hused hr
      obtain ⟨w', hclone, hcopy⟩ := Eval.clone_ok hA hn hsize hused hr
      exact ⟨w', (hrun regs w).completes hclone, hcopy⟩
    · intro n regs w w' hn hsize hr
      exact ⟨(hrun regs w).halts (Eval.clone_halted hr), hA.object_halted hn hsize hr⟩
  · intro value count h
    obtain ⟨v, c, s₁, s₂, code, hv, hc, hcode, hclosed, hrun⟩ := Expr.lower_newSameArray_ok P hs h
    refine ⟨v, s₁, c, s₂, code, hv, hc, hcode, hclosed, fun hfree hfree' ↦ ?_, ?_, ?_, ?_⟩
    · exact (value.delivers hfree hs hv).pair
        (count.delivers hfree' (Expr.lower_situated hs hv).1 hc) hs
    · intro regs w w₁ array hcount hr htype
      obtain ⟨w', hfill, hplain⟩ := Eval.fillNew_plain hA hcount htype hr
      exact ⟨w', (hrun regs w).completes hfill, hplain⟩
    · intro regs w w₁ array k symbol m hcount hr hk hsymbol hm hsize hused
      rcases Eval.fillNew_object hA hcount hk hsymbol hm hsize hused hr with
        ⟨w', hfill, hp⟩ | ⟨w', hfill, hroom, hhalt⟩
      · refine .inl ⟨w', (hrun regs w).completes hfill, hp, fun i hi ↦ ?_, fun i hi ↦ ?_⟩
        · exact hp.element_ne hi hm (hused (base_mem _ hm))
        · exact hp.kept (hused (wordAt_mem _ hi))
      · exact .inr ⟨w', (hrun regs w).halts hfill, hroom, hhalt⟩
    · intro regs w w' hcount hr
      exact ⟨(hrun regs w).halts (Eval.fillNew_halted hr), hA.array_halted hcount hr⟩

/-- Takes bytes from a shelf. The number of those taken before is the address of the first one. -/
def shelfTake (w : World Nat) (bytes : Nat) (found : World Nat → Reply Nat) : Reply Nat :=
  if w.io + bytes ≤ 0x1000 then found { w with io := w.io + bytes } else .halted w

def shelf : Platform Nat where
  serve service args w :=
    if service = .call Routine.halt.name then .halted w
    else if service = .call Routine.allocate.name then
      shelfTake w (args.headD 0).toInt.toNat (.returned (.ofNat w.io))
    else if service = .newArray then
      shelfTake w (4 * ((args.headD 0).toInt.toNat + 1)) fun w' ↦
        .returned (.ofNat w.io + wordSize) (w'.write (.ofNat w.io) (args.headD 0))
    else .returned 0 w
  stringAt _ := 0
  tableAt name := .ofNat name.length
  outOfRange w := w
  halts _ w := ⟨w, if_pos rfl⟩

def shelfLedger : Ledger Nat where
  used w := {a | 0 ≤ a.toInt ∧ a.toInt < w.io}
  room w := (0x1000 - w.io) / 4
  used_write _ _ := subset_rfl
  room_write _ _ := le_rfl

theorem shelf_grants {w : World Nat} {n : Nat} (h : w.io + 4 * n ≤ 0x1000) :
    Grants shelfLedger w (.ofNat w.io) n { w with io := w.io + 4 * n } := by
  have hword {i : Nat} (hi : i < n) : (wordAt (.ofNat w.io) i).toInt = w.io + 4 * i := by
    rw [wordAt, ← Int32.ofNat_add, Int32.toInt_ofNat_of_lt (by omega)]
    omega
  refine ⟨fun i hi j hj hij ↦ ?_, Set.disjoint_left.mpr ?_, ?_, ?_, ?_, fun _ _ ↦ rfl⟩
  · have hi' := hword hi
    have hj' := hword hj
    rw [hij] at hi'
    omega
  · rintro _ ⟨i, hi, rfl⟩ ⟨-, hlt⟩
    rw [hword hi] at hlt
    omega
  · rintro a ⟨h₀, hlt⟩
    exact ⟨h₀, hlt.trans_le (by dsimp only; omega)⟩
  · rintro _ ⟨i, hi, rfl⟩
    refine ⟨?_, ?_⟩ <;> rw [hword hi]
    · omega
    · dsimp only
      omega
  · simp only [shelfLedger]
    omega

theorem shelf_allocates : Allocates shelf shelfLedger := by
  have hobject (size : Word) (w : World Nat) :
      shelf.serve (.call Routine.allocate.name) [size] w =
        shelfTake w size.toInt.toNat (.returned (.ofNat w.io)) := rfl
  have harray (count : Word) (w : World Nat) : shelf.serve .newArray [count] w =
      shelfTake w (4 * (count.toInt.toNat + 1)) fun w' ↦
        .returned (.ofNat w.io + wordSize) (w'.write (.ofNat w.io) count) := rfl
  constructor
  · intro size p n w w' hn hsize hr
    have hbytes : size.toInt.toNat = 4 * n := by omega
    rw [hobject, hbytes, shelfTake] at hr
    split at hr
    · rename_i h
      cases hr
      exact shelf_grants h
    · cases hr
  · intro size n w w' hn hsize hr
    have hbytes : size.toInt.toNat = 4 * n := by omega
    rw [hobject, hbytes, shelfTake] at hr
    split at hr
    · cases hr
    · simp only [shelfLedger]
      omega
  · intro count array w w' hcount hr
    rw [harray, shelfTake] at hr
    split at hr
    · rename_i h
      cases hr
      have hbase : Int32.ofNat w.io + wordSize + lengthOffset = .ofNat w.io := by
        simp only [lengthOffset]
        grind
      rw [hbase]
      exact ⟨(shelf_grants h).write (base_mem _ (Nat.succ_pos _)) count, World.write_heap_self ..⟩
    · cases hr
  · intro count w w' hcount hr
    rw [harray, shelfTake] at hr
    split at hr
    · cases hr
    · simp only [shelfLedger]
      omega

def cell : ClassSymbol := ⟨"Cell", none, 8, "Cell", "_Cell_New"⟩

def cellEnv : Env := ⟨{ classes := #[cell] }, some ⟨1⟩⟩

def pairOfCells : Expr :=
  .mk (.newSameArray (.mk .this (.object ⟨0⟩) .notLValue {})
    (.mk (.literal (.int 2)) .int .notLValue {})) (.array (.object ⟨0⟩)) .notLValue {}

def cellWorld : World Nat := ⟨fun a ↦ if a = 8 then 42 else 0, 12⟩

def cellRegisters : Registers := fun u ↦ if u = ⟨1⟩ then 4 else 2

theorem pairOfCells_copies :
    ∃ t s' code w', pairOfCells.lower cellEnv ⟨{ temps := 1 }, []⟩ = .ok t s' ∧
      s'.code = .constant ⟨2⟩ 2 :: code ∧
      Completes shelf 2 code cellRegisters cellWorld t 16 w' ∧
      Populated shelfLedger (IsCopy shelf cell 2 cellWorld 4) 2 cellWorld 16 2 2 w' := by
  obtain ⟨s', h⟩ : ∃ s', pairOfCells.lower cellEnv ⟨{ temps := 1 }, []⟩ = .ok ⟨3⟩ s' :=
    exists_of_resultOf (by decide +kernel)
  have hs : Situated cellEnv ⟨{ temps := 1 }, []⟩ := by
    constructor
    · rintro _ ⟨⟩
      decide
    · simp
  obtain ⟨v, s₁, c, s₂, code, hfills⟩ :=
    (Expr.lower_copies_exact shelf shelfLedger shelf_allocates hs).2 _ _ h
  have hc := hfills.count_operand
  cases hfills.value_operand
  obtain ⟨rfl, hcode₂, htemps⟩ : c = ⟨2⟩ ∧ s₂.code = [.constant ⟨2⟩ 2] ∧ s₂.temps = 2 := by
    cases hc
    exact ⟨rfl, rfl, rfl⟩
  obtain ⟨w₁, hr⟩ : ∃ w₁, shelf.serve .newArray [cellRegisters ⟨2⟩] cellWorld = .returned 16 w₁ :=
    ⟨_, rfl⟩
  have hused : block (cellRegisters ⟨1⟩) 2 ⊆ shelfLedger.used cellWorld := by
    have hwords : ∀ i < 2, 0 ≤ (wordAt 4 i).toInt ∧ (wordAt 4 i).toInt < 12 := by decide
    rintro _ ⟨i, hi, rfl⟩
    exact hwords i hi
  rcases hfills.copies (by decide) hr rfl rfl (by decide) (by decide) hused with
    ⟨w', hrun, hp, -⟩ | ⟨w', -, hroom, -⟩
  · exact ⟨⟨3⟩, s', code, w', h, by rw [hfills.code_eq, hcode₂]; rfl, htemps ▸ hrun, hp⟩
  · exact absurd hroom (by decide)

end ThreeAddress.Checked
