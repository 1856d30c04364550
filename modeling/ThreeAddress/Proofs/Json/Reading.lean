import ThreeAddress.Json.Reader
import ThreeAddress.Proofs.Except
import ThreeAddress.Proofs.Json.Parsing

namespace ThreeAddress.Json

namespace Value

mutual

def depth : Value → Nat
  | .null | .bool _ | .integer _ | .string _ => 0
  | .array items => itemsDepth items + 1
  | .object members => membersDepth members + 1

def itemsDepth : List Value → Nat
  | [] => 0
  | v :: vs => max v.depth (itemsDepth vs)

def membersDepth : List (String × Value) → Nat
  | [] => 0
  | (_, v) :: rest => max v.depth (membersDepth rest)

end

end Value

namespace Numeral

theorem digitsValue_toDigits (n : Nat) : digitsValue ((Nat.toDigits 10 n).map digitOf) = n := by
  have h := Nat.ofDigitChars_ten_toDigits (n := n)
  rw [Nat.ofDigitChars_eq_foldl] at h
  rw [digitsValue, List.foldl_map]
  simpa only [digitOf, Nat.mul_comm] using h

theorem value_ofInt {n : Int} (hlow : -0x8000000000000000 ≤ n) (hhigh : n < UInt64.size) :
    (ofInt n).value = some (.integer n) := by
  have hwhole : digitsValue (ofInt n).whole = n.natAbs := digitsValue_toDigits n.natAbs
  have hfraction : (ofInt n).fraction = [] := rfl
  have hexponent : (ofInt n).exponent = none := rfl
  have hnegative : (ofInt n).negative = decide (n < 0) := rfl
  simp only [value, hwhole, hfraction, hexponent, hnegative]
  by_cases hn : n < 0
  · have hpos : 0 < n.natAbs := by omega
    have hle : n.natAbs ≤ 0x8000000000000000 := by omega
    simp [hn, hpos, hle, abs_of_neg hn]
  · have hlt : n.natAbs < UInt64.size := by omega
    have habs : (n.natAbs : Int) = n := by omega
    simp [hn, hlt, habs]

end Numeral

/-- From the document of the value the reader gets `a`, if it may open the containers of the value
and is asked to open fewer than `n`. -/
def Reads {α : Type} (n : Nat) (r : Reader α) (v : Value) (a : α) : Prop :=
  ∀ depth < n, v.depth ≤ depth → r depth v.document = .ok a

namespace Reads

variable {α β : Type} {n m : Nat} {r : Reader α} {v : Value} {a : α}

theorem mono (h : Reads n r v a) (hm : m ≤ n) : Reads m r v a :=
  fun depth hd hv ↦ h depth (hd.trans_le hm) hv

theorem zero (r : Reader α) (v : Value) (a : α) : Reads 0 r v a :=
  fun _ hd ↦ absurd hd (Nat.not_lt_zero _)

/-- A reader that goes through as many rounds as there are containers to open, and one more. -/
theorem ofRounds {rounds : Nat → Reader α} (h : ∀ k, Reads k (rounds k) v a) :
    Reads n (fun depth d ↦ rounds (depth + 1) depth d) v a :=
  fun depth _ hv ↦ h (depth + 1) depth (Nat.lt_succ_self depth) hv

theorem map (f : α → β) (h : Reads n r v a) : Reads n (r.map f) v (f a) := by
  intro depth hd hv
  rw [Reader.map, h depth hd hv]
  rfl

theorem integer {wanted : Shape} {ofInt? : Int → Option α} {k : Int}
    (hlow : -0x8000000000000000 ≤ k) (hhigh : k < UInt64.size) (h : ofInt? k = some a) :
    Reads n (.integer wanted ofInt?) (.integer k) a := by
  intro depth _ _
  simp only [Reader.integer, Value.document, Numeral.value_ofInt hlow hhigh, h]

theorem index (k : UInt64) : Reads n .index (.integer k.toNat) k := by
  have hlt : k.toNat < UInt64.size := k.toNat_lt
  refine integer (by omega) (by omega) ?_
  rw [Int.toNat_natCast, if_pos ⟨by omega, hlt⟩, UInt64.ofNat_toNat]

theorem word (k : Int32) : Reads n .word (.integer k.toInt) k := by
  have hlow := k.minValue_le_toInt
  have hhigh := k.toInt_le
  refine integer (le_trans (by decide) hlow) (lt_of_le_of_lt hhigh (by decide)) ?_
  rw [if_pos ⟨hlow, hhigh⟩, Int32.ofInt_toInt]

theorem flag (b : Bool) : Reads n .flag (.bool b) b := fun _ _ _ ↦ rfl

theorem text (s : String) : Reads n .text (.string s) s := fun _ _ _ ↦ rfl

theorem absent (r : Reader α) : Reads n r.optional .null none := fun _ _ _ ↦ rfl

theorem present (h : Reads n r v a) (hv : v ≠ .null) : Reads n r.optional v (some a) := by
  intro depth hd hdepth
  have hread := h depth hd hdepth
  cases v with
  | null => exact absurd rfl hv
  | _ => exact congrArg (Except.map some) hread

theorem items {vs : List Value} {as : List α} {depth : Nat} (h : List.Forall₂ (Reads n r) vs as)
    (hd : depth < n) (hv : Value.itemsDepth vs ≤ depth) :
    List.Forall₂ (fun d a ↦ r depth d = .ok a) (Value.itemDocuments vs) as := by
  induction h with
  | nil => exact .nil
  | cons h _ ih =>
    obtain ⟨hfirst, hrest⟩ := max_le_iff.mp hv
    exact .cons (h depth hd hfirst) (ih hrest)

theorem list {vs : List Value} {as : List α} (h : List.Forall₂ (Reads n r) vs as) :
    Reads n r.list (.array vs) as := by
  intro depth hd hv
  cases depth with
  | zero => exact absurd hv (Nat.not_succ_le_zero _)
  | succ depth =>
    have hitems := mapM_eq_ok_iff.mpr (items h (Nat.lt_of_succ_lt hd) (Nat.le_of_succ_le_succ hv))
    show (do
      let values ← (Value.itemDocuments vs).mapM (r depth)
      if true then Except.ok values else .error .malformed) = .ok as
    rw [hitems]
    rfl

end Reads

/-- The members are those of the fields in their order, and each is read as the value of its field.
-/
inductive Fills (n : Nat) : {αs : List Type} → Fields αs → List (String × Value) → Values αs → Prop
  | nil : Fills n .nil [] ()
  | cons {α : Type} {αs : List Type} {field : FieldSpec α} {rest : Fields αs} {v : Value} {a : α}
      {members : List (String × Value)} {values : Values αs} (h : Reads n field.read v a)
      (hs : Fills n rest members values) :
      Fills n (.cons field rest) ((field.name, v) :: members) (a, values)

def Slots.full : {αs : List Type} → Values αs → Slots αs
  | [], _ => ()
  | _ :: _, (a, values) => (some a, full values)

namespace Fields

variable {α : Type} {αs : List Type} {depth n : Nat}

theorem collect_full (fields : Fields αs) (values : Values αs) :
    fields.collect (Slots.full values) = .ok values := by
  induction fields with
  | nil => rfl
  | cons field rest ih =>
    obtain ⟨a, values⟩ := values
    simp only [collect, Slots.full, ih values]
    rfl

/-- Members with other names leave the slot of a field as it is. -/
theorem readMembers_cons {field : FieldSpec α} {rest : Fields αs} {slot : Option α}
    {slots : Slots αs}
    {members : List (Key × Document)} (h : ∀ m ∈ members, m.1 ≠ .text field.name) :
    (Fields.cons field rest).readMembers depth members (slot, slots) =
      (rest.readMembers depth members slots).map (slot, ·) := by
  induction members generalizing slots with
  | nil => rfl
  | cons m members ih =>
    obtain ⟨key, d⟩ := m
    have hrest : ∀ m ∈ members, m.1 ≠ .text field.name := fun m hm ↦
      h m (List.mem_cons_of_mem _ hm)
    cases key with
    | unreadable => rfl
    | text k =>
      have hk : field.name ≠ k := fun hk ↦ h _ List.mem_cons_self (hk ▸ rfl)
      have hput : (Fields.cons field rest).put depth k d (slot, slots) =
          (rest.put depth k d slots).map (·.map (slot, ·)) := if_neg hk
      simp only [readMembers, hput]
      cases rest.put depth k d slots with
      | none =>
        by_cases hd : d.complete
        · simp only [Option.map_none, if_pos hd]
          exact ih hrest
        · simp only [Option.map_none, if_neg hd]
          rfl
      | some result =>
        cases result with
        | error e => rfl
        | ok slots => exact ih hrest

end Fields

theorem Value.mem_memberDocuments {members : List (String × Value)} {m : Key × Document}
    (h : m ∈ Value.memberDocuments members) : ∃ k ∈ members.map Prod.fst, m.1 = .text k := by
  induction members with
  | nil => cases h
  | cons entry members ih =>
    rcases List.mem_cons.mp h with rfl | h
    · exact ⟨entry.1, List.mem_cons_self, rfl⟩
    · obtain ⟨k, hk, hmk⟩ := ih h
      exact ⟨k, List.mem_cons_of_mem _ hk, hmk⟩

theorem Value.key_ne_of_not_mem {members : List (String × Value)} {name : String}
    (h : name ∉ members.map Prod.fst) : ∀ m ∈ Value.memberDocuments members, m.1 ≠ .text name := by
  intro m hm hkey
  obtain ⟨k, hk, hmk⟩ := Value.mem_memberDocuments hm
  obtain rfl := Key.text.inj (hmk.symm.trans hkey)
  exact h hk

namespace Fills

variable {αs : List Type} {depth n : Nat} {fields : Fields αs} {members : List (String × Value)}
  {values : Values αs}

theorem readMembers (h : Fills n fields members values) (hn : (members.map Prod.fst).Nodup)
    (hd : depth < n) (hv : Value.membersDepth members ≤ depth) :
    fields.readMembers depth (Value.memberDocuments members) fields.noSlots =
      .ok (Slots.full values) := by
  induction h with
  | nil => rfl
  | @cons α αs field rest v a members values h hs ih =>
    obtain ⟨hfirst, hrest⟩ := max_le_iff.mp hv
    obtain ⟨hname, hn⟩ := List.nodup_cons.mp hn
    have hput : (Fields.cons field rest).put depth field.name v.document (none, rest.noSlots) =
        some (.ok (some a, rest.noSlots)) := by
      rw [Fields.put, if_pos rfl, h depth hd hfirst]
      rfl
    have hothers := Value.key_ne_of_not_mem hname
    rw [Value.memberDocuments, Fields.readMembers, Fields.noSlots, hput]
    show (Fields.cons field rest).readMembers depth (Value.memberDocuments members)
      (some a, rest.noSlots) = _
    rw [Fields.readMembers_cons hothers, ih hn hrest]
    rfl

end Fills

namespace Reads

section record

variable {α : Type} {αs : List Type} {n : Nat} {wanted : Shape} {fields : Fields αs}
  {build : Curried αs α} {members : List (String × Value)} {values : Values αs} {a : α}

theorem record_succ (h : Fills n fields members values) (hn : (members.map Prod.fst).Nodup)
    (ha : build.apply values = a) :
    Reads (n + 1) (.record wanted fields build) (.object members) a := by
  intro depth hd hv
  cases depth with
  | zero => exact absurd hv (Nat.not_succ_le_zero _)
  | succ depth =>
    have hmembers := h.readMembers hn (Nat.lt_of_succ_lt_succ hd) (Nat.le_of_succ_le_succ hv)
    show (fields.readObject depth (Value.memberDocuments members) true).map build.apply = _
    rw [Fields.readObject, hmembers]
    show (fields.collect (Slots.full values)).map build.apply = _
    rw [fields.collect_full, ← ha]
    rfl

theorem record (h : Fills n fields members values) (hn : (members.map Prod.fst).Nodup)
    (ha : build.apply values = a) : Reads n (.record wanted fields build) (.object members) a :=
  (record_succ h hn ha).mono (Nat.le_succ n)

end record

end Reads

namespace Reader

variable {α : Type} {cases : List (Case α)} {name : String} {c : Case α}

theorem sum_string (h : cases.find? (·.name = name) = some c) (depth : Nat) :
    sum cases depth (.string (some name)) = bareCase c := by
  have hcase : caseNamed cases name = .ok c := by rw [caseNamed, h]
  show caseNamed cases name >>= bareCase = _
  rw [hcase]
  rfl

theorem sum_object (h : cases.find? (·.name = name) = some c) (depth : Nat) (d : Document) :
    sum cases (depth + 1) (.object [(.text name, d)] true) = filledCase c depth d := by
  have hcase : caseNamed cases name = .ok c := by rw [caseNamed, h]
  show (do
    let c ← caseNamed cases name
    let a ← filledCase c depth d
    if true then Except.ok a else .error .malformed) = _
  rw [hcase]
  show (filledCase c depth d >>= fun a ↦ .ok a) = _
  cases filledCase c depth d <;> rfl

end Reader

namespace Reads

variable {α : Type} {n : Nat} {cases : List (Case α)} {name : String} {a : α}

theorem bare (h : cases.find? (·.name = name) = some ⟨name, .nothing a⟩) :
    Reads n (.sum cases) (.string name) a := by
  intro depth _ _
  exact Reader.sum_string h depth

theorem filled_succ {c : Case α} {r : Reader α} {v : Value}
    (h : cases.find? (·.name = name) = some c)
    (hc : c.content = .wrapped r ∨ c.content = .record r) (hr : Reads n r v a) :
    Reads (n + 1) (.sum cases) (.object [(name, v)]) a := by
  intro depth hd hv
  cases depth with
  | zero => exact absurd hv (Nat.not_succ_le_zero _)
  | succ depth =>
    have hcontent := hr depth (Nat.lt_of_succ_lt_succ hd)
      ((le_max_left _ _).trans (Nat.le_of_succ_le_succ hv))
    show Reader.sum cases (depth + 1) (.object [(.text name, v.document)] true) = _
    rw [Reader.sum_object h]
    rcases hc with hc | hc <;> simpa only [Reader.filledCase, hc] using hcontent

theorem filled {c : Case α} {r : Reader α} {v : Value} (h : cases.find? (·.name = name) = some c)
    (hc : c.content = .wrapped r ∨ c.content = .record r) (hr : Reads n r v a) :
    Reads n (.sum cases) (.object [(name, v)]) a :=
  (filled_succ h hc hr).mono (Nat.le_succ n)

end Reads

/-- A text that a value was written to is read as what it stands for. -/
theorem Reader.run_text {α : Type} {r : Reader α} {v : Value} {a : α}
    (h : Reads (nesting + 1) r v a) (hv : v.depth ≤ nesting) : r.run v.text = .ok a := by
  rw [run, Value.parse_text]
  show (do
    let a ← r nesting v.document
    if false then Except.error ReadError.malformed else .ok a) = .ok a
  rw [h nesting (Nat.lt_succ_self _) hv]
  rfl

end ThreeAddress.Json
