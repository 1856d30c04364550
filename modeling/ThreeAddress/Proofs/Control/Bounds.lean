import ThreeAddress.Proofs.Control.Rounds
import ThreeAddress.Proofs.Machine.Block

namespace ThreeAddress.Control

open Checked Code Lowering Machine

/-- What limits the index of an access: the word in front of the array, or a count. -/
inductive Extent where
  | stored
  | count (t : Temp)
deriving DecidableEq

variable {ι : Type} {P : Platform ι} {listing before code rest c : List Instr} {n m : Nat}
variable {base pointer : Temp} {extent : Extent} {σ σ₀ σ₁ σ₂ : Store ι}

def Extent.value (base : Temp) (σ : Store ι) : Extent → Word
  | .stored => σ.world.heap (σ.regs base + lengthOffset)
  | .count t => σ.regs t

variable (P) in
/-- Whenever a run is at `place`, the pointer addresses an element of the array. The array and its
extent are what they were at the latest visit of `entry`. -/
def Addresses (listing entry place : List Instr) (base : Temp) (extent : Extent) (pointer : Temp) :
    Prop :=
  ∀ ⦃σ₀ σ : Store ι⦄, Reaches P listing (.running listing σ₀) (.running place σ) →
    ∃ σ₁, ∃ k : Nat, Reaches P listing (.running listing σ₀) (.running entry σ₁) ∧
      Onward P listing entry.length (.running entry σ₁) (.running place σ) ∧
      (k : Int) < (extent.value base σ₁).toInt ∧
      σ.regs pointer = Eval.elementAt (σ₁.regs base) (.ofNat k)

theorem ofNat_toInt_toNat {x : Word} (h : 0 ≤ x) : Int32.ofNat x.toInt.toNat = x := by
  have h0 : 0 ≤ x.toInt := by simpa [Int32.le_iff_toInt_le] using h
  have hlt := x.toInt_lt
  rw [← Int32.toInt_inj, Int32.toInt_ofNat_of_lt (by omega)]
  omega

theorem index_of_inRange {w : World ι} {array index : Word} (h : InRange w array index) :
    ∃ k : Nat, (k : Int) < (w.heap (array + lengthOffset)).toInt ∧ index = .ofNat k := by
  refine ⟨index.toInt.toNat, ?_, (ofNat_toInt_toNat h.1).symm⟩
  have h0 : 0 ≤ index.toInt := by simpa [Int32.le_iff_toInt_le] using h.1
  have hlt : index.toInt < (w.heap (array + lengthOffset)).toInt := Int32.lt_iff_toInt_lt.mp h.2
  omega

section checked

variable {array index word offset address : Temp} {i : Instr}

theorem exec_addressCode (hts : Ascending n [word, offset, address] m) (ha : array.index ≤ n)
    (hi : index.index ≤ n)
    (h : exec P σ (addressCode array index word offset address) = .next σ₁) :
    σ₁.regs address = Eval.elementAt (σ.regs array) (σ.regs index) := by
  simp only [Ascending] at hts
  cases h
  simp (disch := omega) only [Store.set, Function.update_self, update_of_index_ne]
  rfl

theorem checked_addresses (hts : Ascending n [word, offset, address] m) (ha : array.index ≤ n)
    (hi : index.index ≤ n) (hl : i.label? = none)
    (hs : Sealed listing before
      (.checkBounds array index :: addressCode array index word offset address ++ [i]) rest) :
    Addresses P listing
      (.checkBounds array index :: addressCode array index word offset address ++ [i] ++ rest)
      (i :: rest) array .stored address := by
  intro σ₀ σ h
  have hlabels : labels (.checkBounds array index ::
      addressCode array index word offset address ++ [i]) = [] := by
    rw [labels_append, labels_cons i, hl]
    rfl
  obtain ⟨σ₁, hr, ho, he⟩ := hs.straight hlabels (List.cons_ne_nil i []) h
  rw [exec, effect] at he
  split at he
  · rename_i σ₂ hcheck
    split at hcheck
    · rename_i hin
      cases hcheck
      obtain ⟨k, hk, hindex⟩ := index_of_inRange hin
      exact ⟨σ₁, k, hr, ho, hk, hindex ▸ exec_addressCode hts ha hi he⟩
    · cases hcheck
  · cases he
  · cases he

end checked

end ThreeAddress.Control

namespace ThreeAddress.Lowering.ReadOr

open Code

def access (r : ReadOr) : List Instr :=
  [.load r.element r.address 0, .copy r.result r.element, .label r.done]

def found (r : ReadOr) : List Instr :=
  addressCode r.array r.index r.word r.offset r.address ++ r.access

def missing (r : ReadOr) : List Instr :=
  .copy r.result r.fallback :: .jump r.done :: .label r.inBounds :: r.found

def tests (r : ReadOr) : List Instr :=
  [.load r.length r.array lengthOffset, .binary r.below .less r.index r.length,
    .jumpIfZero r.below r.useDefault, .constant r.zero 0, .binary r.negative .less r.index r.zero]

theorem code_eq (r : ReadOr) : r.code =
    r.tests ++ .jumpIfZero r.negative r.inBounds :: .label r.useDefault :: r.missing := rfl

theorem code_eq_test (r : ReadOr) : r.code = r.test ++ .label r.useDefault :: r.missing := rfl

theorem code_eq_found (r : ReadOr) : r.code = r.test ++ [.label r.useDefault,
    .copy r.result r.fallback, .jump r.done] ++ .label r.inBounds :: r.found := rfl

theorem code_eq_done (r : ReadOr) : r.code = r.test ++ .label r.useDefault ::
    .copy r.result r.fallback :: .jump r.done :: .label r.inBounds :: r.read ++
      .label r.done :: [] :=
  rfl

theorem labels_code (r : ReadOr) : labels r.code = [r.useDefault, r.inBounds, r.done] := rfl

theorem targets_tests (r : ReadOr) : targets r.tests = [r.useDefault] := rfl

theorem targets_missing (r : ReadOr) : targets r.missing = [r.done] := rfl

theorem targets_found (r : ReadOr) : targets r.found = [] := rfl

/-- What is left out in front of the access where the index is out of range. -/
def skipped (r : ReadOr) : List Instr :=
  .label r.inBounds :: addressCode r.array r.index r.word r.offset r.address

theorem missing_eq (r : ReadOr) :
    r.missing = [.copy r.result r.fallback] ++ .jump r.done :: r.skipped ++ r.access := rfl

end ThreeAddress.Lowering.ReadOr

namespace ThreeAddress.Control

open Checked Code Lowering Machine

variable {ι : Type} {P : Platform ι} {listing before code rest c : List Instr} {n m : Nat}
variable {base pointer : Temp} {extent : Extent} {σ σ₀ σ₁ σ₂ : Store ι} {l : Label}

theorem behind_unique {front : List Instr} (hd : (labels code).Nodup)
    (hc : .label l :: c <:+ code) (hcode : code = front ++ .label l :: rest) : c = rest := by
  have h := (behind_eq_some hd hc).symm.trans (behind_eq_some hd (hcode ▸ List.suffix_append _ _))
  exact Option.some.inj h

section readOr

variable {r : ReadOr}

/-- The two tests let through an index in range only. -/
theorem exec_tests (hts : Ascending n r.temps m) (ha : r.array.index ≤ n) (hi : r.index.index ≤ n)
    (h : exec P σ r.tests = .next σ₁) (hn : σ₁.regs r.negative = 0) :
    InRange σ.world (σ.regs r.array) (σ.regs r.index) ∧ σ₁.regs r.array = σ.regs r.array ∧
      σ₁.regs r.index = σ.regs r.index := by
  simp only [ReadOr.temps, Ascending] at hts
  rw [ReadOr.tests, exec_cons rfl, exec_cons rfl, exec, effect] at h
  split at h
  · rename_i σ₂ hbelow
    split at hbelow
    · cases hbelow
    · rename_i hlt
      cases hbelow
      cases h
      simp (disch := omega) only [Store.set, Function.update_self, update_of_index_ne, binary,
        truth_eq_zero, Decidable.not_not] at hlt hn ⊢
      exact ⟨⟨Int32.not_lt.mp hn, hlt⟩, trivial, trivial⟩
  · cases h
  · cases h

theorem readOr_addresses (hts : Ascending n r.temps m) (ha : r.array.index ≤ n)
    (hi : r.index.index ≤ n) (hs : Sealed listing before r.code rest) :
    Addresses P listing (r.code ++ rest) (r.access ++ rest) r.array .stored r.address := by
  intro σ₀ σ h
  have hd : (labels r.code).Nodup := hs.labels_nodup
  have hdistinct : r.useDefault ≠ r.inBounds ∧ r.useDefault ≠ r.done ∧ r.inBounds ≠ r.done := by
    rw [r.labels_code] at hd
    simp at hd
    tauto
  -- the labels are reached from the tests only, the one for an index in range from the last of them
  let cut (d : List Instr) (σ₁ σ : Store ι) : Prop := d = r.code ∧ σ = σ₁ ∨ d = r.missing ∨
    d = r.found ∧ InRange σ₁.world (σ₁.regs r.array) (σ₁.regs r.index) ∧
      σ.regs r.array = σ₁.regs r.array ∧ σ.regs r.index = σ₁.regs r.index
  have hjump : ∀ ⦃done i d l d' σ₀ σ₁ σ⦄, cut (done ++ i :: d) σ₀ σ₁ → exec P σ₁ done = .next σ →
      effect P σ i = .jump l σ → .label l :: d' <:+ r.code → d' ≠ [] → cut d' σ₀ σ := by
    intro done i d l d' σ₀ σ₁ σ hcut he hj hl hne
    obtain ⟨ht, -⟩ := target_of_jump hj
    have hmem : l ∈ labels r.code := by
      obtain ⟨front, hf⟩ := hl
      simp [← hf]
    rw [r.labels_code] at hmem
    simp only [List.mem_cons, List.not_mem_nil, or_false] at hmem
    rcases hmem with rfl | rfl | rfl
    · exact .inr (.inl (behind_unique hd hl r.code_eq_test))
    · refine .inr (.inr ⟨behind_unique hd hl r.code_eq_found, ?_⟩)
      have htarget : r.inBounds ∈ targets (done ++ i :: d) := by simp [ht]
      rcases hcut with ⟨hcode, rfl⟩ | hcode | ⟨hcode, -⟩
      · rw [r.code_eq] at hcode
        obtain ⟨rfl, rfl, -⟩ := source_unique (by simp [r.targets_tests, hdistinct.1.symm])
          (by simp [r.targets_missing, hdistinct.2.2, Instr.target?]) hcode ht
        have hnegative : σ.regs r.negative = 0 := by
          by_contra hne
          simp [effect, hne] at hj
        exact exec_tests hts ha hi he hnegative
      · rw [hcode, r.targets_missing] at htarget
        exact absurd (List.mem_singleton.mp htarget) hdistinct.2.2
      · rw [hcode, r.targets_found] at htarget
        cases htarget
    · exact absurd (behind_unique hd hl r.code_eq_done) hne
  have hcode : r.code = r.test ++ [.label r.useDefault, .copy r.result r.fallback] ++
      .jump r.done :: r.skipped ++ r.access := by
    simp [r.code_eq, r.missing_eq, ReadOr.tests, ReadOr.test]
  obtain ⟨σ₁, hr, ho, done, σ₂, hcut, he⟩ := hs.cuts cut (fun σ ↦ .inl ⟨rfl, rfl⟩) hjump h
    (hcode ▸ List.suffix_append _ _) (List.cons_ne_nil _ _)
  rcases hcut with ⟨hdone, rfl⟩ | hdone | ⟨hdone, hin, hbase, hindex⟩
  · rw [hcode] at hdone
    rw [List.append_cancel_right hdone] at he
    exact absurd he not_exec_past_jump
  · rw [r.missing_eq] at hdone
    rw [List.append_cancel_right hdone] at he
    exact absurd he not_exec_past_jump
  · obtain rfl := List.append_cancel_right hdone
    obtain ⟨k, hk, hkindex⟩ := index_of_inRange hin
    have haddress := exec_addressCode (n := n) (m := m) (by
      simp only [ReadOr.temps, Ascending] at hts ⊢
      omega) ha hi he
    rw [hbase, hindex, hkindex] at haddress
    exact ⟨σ₁, k, hr, ho, hk, haddress⟩

end readOr

end ThreeAddress.Control

namespace ThreeAddress.Lowering

open Checked Code

namespace Fill

def start (f : Fill) : List Instr :=
  [.constant f.word wordSize, .constant f.one 1, .constant f.index 0, .copy f.cursor f.array]

def turn (f : Fill) : List Instr := f.test ++ f.store

def access (f : Fill) : List Instr := f.advance ++ [.jump f.fill, .label f.filled]

def block (f : Fill) : List Instr := f.start ++ .label f.fill :: f.loop

theorem code_eq (f : Fill) : f.code = .newArray f.array f.count :: f.block := rfl

theorem loop_eq (f : Fill) : f.loop = f.turn ++ f.access := by simp [loop, turn, access]

end Fill

theorem copyCode_dst (object clone : Temp) (offsets : List Int32) (fields : List Temp) :
    ∀ i ∈ copyCode object clone offsets fields, ∀ t ∈ i.dst?, t ∈ fields := by
  fun_induction copyCode object clone offsets fields with
  | case1 offset offsets field fields ih =>
    rw [List.forall_mem_cons, List.forall_mem_cons]
    exact ⟨by simp [Instr.dst?], by simp [Instr.dst?],
      fun i hi t ht ↦ List.mem_cons_of_mem field (ih i hi t ht)⟩
  | case2 => simp

theorem Stored.dst {env : Env} {type : DataType} {element t : Temp} {code : List Instr}
    {ts : List Temp} (h : Stored env type element code ts t) :
    ∀ i ∈ code, ∀ t ∈ i.dst?, t ∈ ts := by
  cases h with
  | plain h => simp
  | cloned k h hs ho hf =>
    have hcopy := copyCode_dst k.object k.result (fieldOffsets k.symbol.size) k.fields
    simp only [Clone.code, Clone.temps]
    grind [Instr.dst?]

end ThreeAddress.Lowering

namespace ThreeAddress.Control

open Checked Code Lowering Machine

variable {ι : Type} {P : Platform ι} {listing before rest : List Instr} {n m k : Nat}
variable {σ σ' σ₁ : Store ι} {f : Fill} {env : Env} {type : DataType} {element : Temp}

/-- What holds at the head of the loop when `k` elements have been stored. -/
structure Filling (f : Fill) (σ₁ σ : Store ι) (k : Nat) : Prop where
  filled : Realises.Filled f (σ₁.regs f.array) k σ.regs
  count : σ.regs f.count = σ₁.regs f.count
  le : k ≤ (σ₁.regs f.count).toInt.toNat

namespace Filling

theorem ofStart (hts : Ascending n f.temps m) (hc : f.count.index ≤ n)
    (h : exec P σ₁ (f.start ++ [.label f.fill]) = .next σ) : Filling f σ₁ σ 0 := by
  simp only [Fill.temps, List.cons_append, Ascending] at hts
  cases h
  refine ⟨⟨?_, ?_, ?_, ?_⟩, ?_, Nat.zero_le _⟩
  · simp (disch := omega) only [Store.set, Function.update_self, update_of_index_ne]
  · simp (disch := omega) only [Store.set, Function.update_self, update_of_index_ne]
  · simp (disch := omega) only [Store.set, Function.update_self, update_of_index_ne]
    rfl
  · simp (disch := omega) only [Store.set, Function.update_self, update_of_index_ne]
    simp [Eval.elementAt]
  · simp (disch := omega) only [Store.set, update_of_index_ne]

theorem keep (h : Filling f σ₁ σ k) (hk : ∀ t ∈ [f.word, f.one, f.index, f.cursor, f.count],
    σ'.regs t = σ.regs t) : Filling f σ₁ σ' k := by
  simp only [List.forall_mem_cons] at hk
  obtain ⟨hw, ho, hi, hc, hn, -⟩ := hk
  exact ⟨⟨hw.trans h.filled.word, ho.trans h.filled.one, hi.trans h.filled.index,
    hc.trans h.filled.cursor⟩, hn.trans h.count, h.le⟩

/-- Up to the access a turn only finds out that there is one more element. -/
theorem turn (h : Filling f σ₁ σ k) (hts : Ascending n f.temps m) (hc : f.count.index ≤ n)
    (hs : Stored env type element f.store f.storeTemps f.stored)
    (he : exec P σ f.turn = .next σ') :
    Filling f σ₁ σ' k ∧ k < (σ₁.regs f.count).toInt.toNat := by
  obtain ⟨harray, hword, hone, hindex, hcursor, hmore, hts⟩ := hts
  obtain ⟨j, hstore, -⟩ := Ascending.of_append f.storeTemps hts
  obtain ⟨σ₂, htest, hcode⟩ := exec_append_next he
  rw [Fill.test, exec_cons rfl, exec, effect] at htest
  split at htest
  · rename_i σ₃ hj
    split at hj
    · cases hj
    · rename_i hlt
      cases hj
      cases htest
      simp only [Store.set, Function.update_self, binary, truth_eq_zero, Decidable.not_not,
        h.filled.index, h.count, Int32.lt_iff_toInt_lt] at hlt
      have hle := h.le
      have hcount := (σ₁.regs f.count).toInt_lt
      rw [Int32.toInt_ofNat_of_lt (by omega)] at hlt
      refine ⟨h.keep fun t ht ↦ ?_, by omega⟩
      have htm : t.index < f.more.index := by
        simp only [List.mem_cons, List.not_mem_nil, or_false] at ht
        rcases ht with rfl | rfl | rfl | rfl | rfl <;> omega
      rw [exec_regs hcode fun i hi hd ↦ ?_]
      · exact update_of_index_ne (by omega)
      · have := (hstore.mem (hs.dst i hi t hd)).1
        omega
  · cases htest
  · cases htest

theorem advance (h : Filling f σ₁ σ k) (hts : Ascending n f.temps m) (hc : f.count.index ≤ n)
    (hlt : k < (σ₁.regs f.count).toInt.toNat) (he : exec P σ f.advance = .next σ') :
    Filling f σ₁ σ' (k + 1) := by
  obtain ⟨harray, hword, hone, hindex, hcursor, hmore, hts⟩ := hts
  obtain ⟨j, hstore, hnext⟩ := Ascending.of_append f.storeTemps hts
  have hj := hstore.le
  simp only [Ascending] at hnext
  cases he
  refine ⟨⟨?_, ?_, ?_, ?_⟩, ?_, hlt⟩
  · simp (disch := omega) only [Store.set, update_of_index_ne, h.filled.word]
  · simp (disch := omega) only [Store.set, update_of_index_ne, h.filled.one]
  · simp (disch := omega) only [Store.set, Function.update_self, update_of_index_ne, binary,
      h.filled.index, h.filled.one, Int32.ofNat_add]
    rfl
  · simp (disch := omega) only [Store.set, Function.update_self, update_of_index_ne, binary,
      h.filled.cursor, h.filled.word, Realises.elementAt_succ]
  · simp (disch := omega) only [Store.set, update_of_index_ne, h.count]

end Filling

theorem fill_addresses (hts : Ascending n f.temps m) (hc : f.count.index ≤ n)
    (hstored : Stored env type element f.store f.storeTemps f.stored)
    (hs : Sealed listing before f.block rest) :
    Addresses P listing (f.block ++ rest) (f.access ++ rest) f.array (.count f.count) f.cursor := by
  intro σ₀ σ h
  have hd : (labels f.block).Nodup := hs.labels_nodup
  obtain ⟨hlabels, htargets⟩ := Closes.stored_straight hstored
  have hlabels : labels f.block = [f.fill, f.filled] := by
    simp [Fill.block, Fill.start, Fill.loop, Fill.test, Fill.advance, Instr.label?, hlabels]
  have hdistinct : f.fill ≠ f.filled := by simpa [hlabels] using hd
  -- the label at the head of the loop is reached from the start and from the end of a turn
  let cut (d : List Instr) (σ₁ σ : Store ι) : Prop :=
    d = f.block ∧ σ = σ₁ ∨ d = f.loop ∧ ∃ k, Filling f σ₁ σ k
  have hturns {done tail : List Instr} {σ₁ σ₂ σ : Store ι} (hcut : cut (done ++ tail) σ₁ σ₂)
      (he : exec P σ₂ done = .next σ) {front : List Instr} (hf : f.loop = front ++ tail) :
      ∃ k σ₃, Filling f σ₁ σ₃ k ∧ exec P σ₃ front = .next σ := by
    rcases hcut with ⟨hdone, rfl⟩ | ⟨hdone, k, hk⟩
    · have hfront : done = (f.start ++ [.label f.fill]) ++ front := by
        have hall : done ++ tail = (f.start ++ [.label f.fill]) ++ front ++ tail := by
          simp [hdone, Fill.block, hf]
        exact List.append_cancel_right hall
      rw [hfront] at he
      obtain ⟨σ₃, hstart, hrest⟩ := exec_append_next he
      exact ⟨0, σ₃, .ofStart hts hc hstart, hrest⟩
    · rw [hf] at hdone
      obtain rfl := List.append_cancel_right hdone
      exact ⟨k, σ₂, hk, he⟩
  have hloop : f.loop = f.turn ++ f.advance ++ .jump f.fill :: [.label f.filled] := by
    simp [f.loop_eq, Fill.access]
  have hblock : f.block = f.start ++ .label f.fill :: (f.turn ++ f.advance) ++
      .jump f.fill :: [.label f.filled] := by
    simp [Fill.block, hloop]
  have hfront : f.fill ∉ targets (f.turn ++ f.advance) := by
    simp [Fill.turn, Fill.test, Fill.advance, Instr.target?, htargets, hdistinct]
  have hjump : ∀ ⦃done i d l d' σ₀ σ₁ σ⦄, cut (done ++ i :: d) σ₀ σ₁ → exec P σ₁ done = .next σ →
      effect P σ i = .jump l σ → .label l :: d' <:+ f.block → d' ≠ [] → cut d' σ₀ σ := by
    intro done i d l d' σ₁ σ₂ σ hcut he hj hl hne
    obtain ⟨ht, -⟩ := target_of_jump hj
    have hmem : l ∈ labels f.block := by
      obtain ⟨front, hf⟩ := hl
      simp [← hf]
    simp only [hlabels, List.mem_cons, List.not_mem_nil, or_false] at hmem
    rcases hmem with rfl | rfl
    · refine .inr ⟨behind_unique hd hl (rfl : f.block = f.start ++ _), ?_⟩
      have hlast : i :: d = .jump f.fill :: [.label f.filled] := by
        rcases hcut with ⟨hdone, -⟩ | ⟨hdone, -⟩
        · rw [hblock] at hdone
          obtain ⟨-, rfl, rfl⟩ := source_unique (by simpa [Fill.start, Instr.target?] using hfront)
            (by simp [Instr.target?]) hdone ht
          rfl
        · rw [hloop] at hdone
          obtain ⟨-, rfl, rfl⟩ := source_unique hfront (by simp [Instr.target?]) hdone ht
          rfl
      rw [hlast] at hcut
      obtain ⟨k, σ₃, hk, hturn⟩ := hturns hcut he hloop
      obtain ⟨σ₄, hturn, hadvance⟩ := exec_append_next hturn
      obtain ⟨hk, hlt⟩ := hk.turn hts hc hstored hturn
      exact ⟨k + 1, hk.advance hts hc hlt hadvance⟩
    · have hend : f.block = f.start ++ .label f.fill :: (f.turn ++ f.advance) ++ [.jump f.fill] ++
          .label f.filled :: [] := by simp [hblock]
      exact absurd (behind_unique hd hl hend) hne
  obtain ⟨σ₁, hr, ho, done, σ₂, hcut, he⟩ := hs.cuts cut (fun σ ↦ .inl ⟨rfl, rfl⟩) hjump h
    ⟨f.start ++ .label f.fill :: f.turn, by simp [Fill.block, f.loop_eq]⟩ (List.cons_ne_nil _ _)
  obtain ⟨k, σ₃, hk, hturn⟩ := hturns hcut he f.loop_eq
  obtain ⟨hk, hlt⟩ := hk.turn hts hc hstored hturn
  refine ⟨σ₁, k, hr, ho, ?_, hk.filled.cursor⟩
  show (k : Int) < (σ₁.regs f.count).toInt
  omega

end ThreeAddress.Control
