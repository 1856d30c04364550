import Mathlib.Data.List.Nodup
import Mathlib.Data.List.Perm.Basic
import ThreeAddress.Proofs.Json.Reading
import ThreeAddress.Proofs.Json.Source

namespace ThreeAddress.Json

/-- Whether a field has to be there. A field that is optional may be left out where it is null, and
only of an object; one with a default also at the end of an array. -/
inductive Presence where
  | required
  | optional
  | default (value : Value)

def Presence.spare : Presence → Option Value
  | .required => none
  | .optional => some .null
  | .default value => some value

/-- The values of a format. Formats refer to each other by the names of `τ`. -/
inductive Schema (τ : Type) where
  | scalar
  | optional (s : Schema τ)
  | list (s : Schema τ)
  | record (fields : List (String × Presence × Schema τ))
  | sum (cases : List (String × Option (Schema τ)))
  | named (t : τ)

section

variable {τ : Type}

/-- A member that no field has the name of. It may hold anything. -/
def Foreign (names : List String) (m : Key × Document) : Prop :=
  ∃ name ∉ names, ∃ s : Source, m = (.text name, s.document)

mutual

/-- The document is a spelling of the value in which the containers that are read nest at most as
many levels as the number says. -/
inductive Spells (format : τ → Schema τ) : Nat → Schema τ → Value → Document → Prop
  | scalar {k : Nat} {v : Value} : Spells format k .scalar v v.document
  | named {k : Nat} {t : τ} {v : Value} {d : Document} (h : Spells format k (format t) v d) :
      Spells format k (.named t) v d
  | null {k : Nat} {s : Schema τ} : Spells format k (.optional s) .null .null
  | present {k : Nat} {s : Schema τ} {v : Value} {d : Document} (hv : v ≠ .null)
      (h : Spells format k s v d) : Spells format k (.optional s) v d
  | list {k : Nat} {s : Schema τ} {vs : List Value} {ds : List Document}
      (h : SpellsAll format k s vs ds) :
      Spells format (k + 1) (.list s) (.array vs) (.array ds true)
  | object {k : Nat} {fields : List (String × Presence × Schema τ)}
      {values : List (String × Value)} {kept extra members : List (Key × Document)}
      (h : Kept format k fields values kept)
      (hextra : ∀ m ∈ extra, Foreign (fields.map Prod.fst) m)
      (hmembers : members.Perm (kept ++ extra)) :
      Spells format (k + 1) (.record fields) (.object values) (.object members true)
  | array {k : Nat} {fields : List (String × Presence × Schema τ)}
      {values : List (String × Value)} {items : List Document}
      (h : Listed format k fields values items) :
      Spells format (k + 1) (.record fields) (.object values) (.array items true)
  | bare {k : Nat} {cases : List (String × Option (Schema τ))} {name : String}
      (h : cases.lookup name = some none) :
      Spells format k (.sum cases) (.string name) (.string (some name))
  | wrapped {k : Nat} {cases : List (String × Option (Schema τ))} {name : String}
      (h : cases.lookup name = some none) :
      Spells format (k + 1) (.sum cases) (.string name) (.object [(.text name, .null)] true)
  | filled {k : Nat} {cases : List (String × Option (Schema τ))} {name : String} {s : Schema τ}
      {v : Value} {d : Document} (h : cases.lookup name = some (some s))
      (hd : Spells format k s v d) :
      Spells format (k + 1) (.sum cases) (.object [(name, v)]) (.object [(.text name, d)] true)

inductive SpellsAll (format : τ → Schema τ) :
    Nat → Schema τ → List Value → List Document → Prop
  | nil {k : Nat} {s : Schema τ} : SpellsAll format k s [] []
  | cons {k : Nat} {s : Schema τ} {v : Value} {d : Document} {vs : List Value}
      {ds : List Document} (h : Spells format k s v d) (hs : SpellsAll format k s vs ds) :
      SpellsAll format k s (v :: vs) (d :: ds)

/-- The fields of a record as members of an object, in declaration order. -/
inductive Kept (format : τ → Schema τ) : Nat → List (String × Presence × Schema τ) →
    List (String × Value) → List (Key × Document) → Prop
  | nil {k : Nat} : Kept format k [] [] []
  | keep {k : Nat} {name : String} {p : Presence} {s : Schema τ} {v : Value} {d : Document}
      {fields : List (String × Presence × Schema τ)} {values : List (String × Value)}
      {kept : List (Key × Document)} (h : Spells format k s v d)
      (hs : Kept format k fields values kept) :
      Kept format k ((name, p, s) :: fields) ((name, v) :: values) ((.text name, d) :: kept)
  | leave {k : Nat} {name : String} {p : Presence} {s : Schema τ} {v : Value}
      {fields : List (String × Presence × Schema τ)} {values : List (String × Value)}
      {kept : List (Key × Document)} (h : p.spare = some v)
      (hs : Kept format k fields values kept) :
      Kept format k ((name, p, s) :: fields) ((name, v) :: values) kept

/-- The fields of a record as items of an array, of which the last ones may be left off. -/
inductive Listed (format : τ → Schema τ) : Nat → List (String × Presence × Schema τ) →
    List (String × Value) → List Document → Prop
  | nil {k : Nat} : Listed format k [] [] []
  | item {k : Nat} {name : String} {p : Presence} {s : Schema τ} {v : Value} {d : Document}
      {fields : List (String × Presence × Schema τ)} {values : List (String × Value)}
      {items : List Document} (h : Spells format k s v d)
      (hs : Listed format k fields values items) :
      Listed format k ((name, p, s) :: fields) ((name, v) :: values) (d :: items)
  | leave {k : Nat} {name : String} {s : Schema τ} {v : Value}
      {fields : List (String × Presence × Schema τ)} {values : List (String × Value)}
      (hs : Listed format k fields values []) :
      Listed format k ((name, .default v, s) :: fields) ((name, v) :: values) []

end

theorem Value.eq_null_of_document {v : Value} (h : v.document = .null) : v = .null := by
  cases v with
  | null => rfl
  | _ => exact absurd h (by simp [Value.document])

theorem Spells.eq_null {format : τ → Schema τ} {k : Nat} {s : Schema τ} {v : Value}
    {d : Document} (h : Spells format k s v d) (hd : d = .null) : v = .null :=
  match h with
  | .scalar => Value.eq_null_of_document hd
  | .named h => h.eq_null hd
  | .null => rfl
  | .present _ h => h.eq_null hd
  | .list _ | .object _ _ _ | .array _ | .bare _ | .wrapped _ | .filled _ _ => nomatch hd

theorem Spells.reordered {format : τ → Schema τ} {k : Nat}
    {fields : List (String × Presence × Schema τ)} {values : List (String × Value)}
    {kept members : List (Key × Document)} (h : Kept format k fields values kept)
    (hmembers : members.Perm kept) :
    Spells format (k + 1) (.record fields) (.object values) (.object members true) :=
  have hextra : ∀ m ∈ [], Foreign (fields.map Prod.fst) m := nofun
  .object h hextra (kept.append_nil.symm ▸ hmembers)

/-- The value is one of the schema, and its own document is a spelling of it. -/
def Written (format : τ → Schema τ) (s : Schema τ) (v : Value) : Prop :=
  ∀ k, v.depth ≤ k → Spells format k s v v.document

namespace Written

variable {format : τ → Schema τ} {s : Schema τ} {v : Value}

theorem scalar : Written format .scalar v := fun _ _ ↦ .scalar

theorem named {t : τ} (h : Written format (format t) v) : Written format (.named t) v :=
  fun k hk ↦ .named (h k hk)

theorem absent : Written format (.optional s) .null := fun _ _ ↦ .null

theorem present (h : Written format s v) (hv : v ≠ .null) : Written format (.optional s) v :=
  fun k hk ↦ .present hv (h k hk)

theorem items {vs : List Value} (h : ∀ v ∈ vs, Written format s v) {k : Nat}
    (hk : Value.itemsDepth vs ≤ k) : SpellsAll format k s vs (Value.itemDocuments vs) := by
  induction vs with
  | nil => exact .nil
  | cons v vs ih =>
    obtain ⟨hv, hvs⟩ := List.forall_mem_cons.mp h
    obtain ⟨hfirst, hrest⟩ := max_le_iff.mp hk
    exact .cons (hv k hfirst) (ih hvs hrest)

theorem list {vs : List Value} (h : ∀ v ∈ vs, Written format s v) :
    Written format (.list s) (.array vs) := by
  intro k hk
  cases k with
  | zero => exact absurd hk (Nat.not_succ_le_zero _)
  | succ k => exact .list (items h (Nat.le_of_succ_le_succ hk))

theorem members {fields : List (String × Presence × Schema τ)} {values : List (String × Value)}
    (h : List.Forall₂ (fun f m ↦ f.1 = m.1 ∧ Written format f.2.2 m.2) fields values) {k : Nat}
    (hk : Value.membersDepth values ≤ k) :
    Kept format k fields values (Value.memberDocuments values) := by
  induction h with
  | nil => exact .nil
  | @cons f m fields values h _ ih =>
    obtain ⟨name, p, s⟩ := f
    obtain ⟨name', v⟩ := m
    obtain ⟨rfl, hv⟩ := h
    obtain ⟨hfirst, hrest⟩ := max_le_iff.mp hk
    exact .keep (hv k hfirst) (ih hrest)

theorem record {fields : List (String × Presence × Schema τ)} {values : List (String × Value)}
    (h : List.Forall₂ (fun f m ↦ f.1 = m.1 ∧ Written format f.2.2 m.2) fields values) :
    Written format (.record fields) (.object values) := by
  intro k hk
  cases k with
  | zero => exact absurd hk (Nat.not_succ_le_zero _)
  | succ k => exact .reordered (members h (Nat.le_of_succ_le_succ hk)) .rfl

theorem bare {cases : List (String × Option (Schema τ))} {name : String}
    (h : cases.lookup name = some none) : Written format (.sum cases) (.string name) :=
  fun _ _ ↦ .bare h

theorem filled {cases : List (String × Option (Schema τ))} {name : String}
    (h : cases.lookup name = some (some s)) (hv : Written format s v) :
    Written format (.sum cases) (.object [(name, v)]) := by
  intro k hk
  cases k with
  | zero => exact absurd hk (Nat.not_succ_le_zero _)
  | succ k => exact .filled h (hv k ((le_max_left _ _).trans (Nat.le_of_succ_le_succ hk)))

end Written

theorem Reader.optional_of_ne_null {α : Type} (r : Reader α) (k : Nat) {d : Document}
    (h : d ≠ .null) : r.optional k d = (r k d).map some := by
  cases d with
  | null => exact absurd rfl h
  | _ => rfl

/-- What the first reader makes of a written value, the second makes of every spelling of it that
opens fewer than `n` containers. -/
def Uniform {α : Type} (format : τ → Schema τ) (n : Nat) (s : Schema τ) (r r' : Reader α) : Prop :=
  ∀ ⦃depth k : Nat⦄ ⦃v : Value⦄ ⦃d : Document⦄ ⦃a : α⦄, k < n → Spells format k s v d →
    r depth v.document = .ok a → r' k d = .ok a

namespace Uniform

variable {format : τ → Schema τ} {α β : Type} {n m : Nat} {s : Schema τ} {r r' : Reader α}

theorem mono (h : Uniform format n s r r') (hm : m ≤ n) : Uniform format m s r r' :=
  fun _ _ _ _ _ hk ↦ h (hk.trans_le hm)

theorem zero (r r' : Reader α) : Uniform format 0 s r r' :=
  fun _ _ _ _ _ hk ↦ absurd hk (Nat.not_lt_zero _)

theorem refuses {e : ReadError} : Uniform format n s (fun _ _ ↦ .error e) r' :=
  fun _ _ _ _ _ _ _ h ↦ nomatch h

theorem ofRounds {rounds : Nat → Reader α}
    (h : ∀ m n, Uniform format n s (rounds m) (rounds n)) :
    Uniform format n s (fun depth d ↦ rounds (depth + 1) depth d)
      (fun depth d ↦ rounds (depth + 1) depth d) :=
  fun depth k _ _ _ _ hd hread ↦ h (depth + 1) (k + 1) (Nat.lt_succ_self k) hd hread

theorem scalar (h : ∀ depth k d, r depth d = r k d) : Uniform format n .scalar r r := by
  intro depth k v d a _ hd hread
  cases hd
  rw [← hread]
  exact h k depth v.document

theorem index : Uniform format n .scalar Reader.index Reader.index := scalar fun _ _ _ ↦ rfl

theorem word : Uniform format n .scalar Reader.word Reader.word := scalar fun _ _ _ ↦ rfl

theorem flag : Uniform format n .scalar Reader.flag Reader.flag := scalar fun _ _ _ ↦ rfl

theorem text : Uniform format n .scalar Reader.text Reader.text := scalar fun _ _ _ ↦ rfl

theorem named {t : τ} (h : Uniform format n (format t) r r') :
    Uniform format n (.named t) r r' := by
  intro depth k v d a hk hd hread
  cases hd with
  | named hd => exact h hk hd hread

theorem map (f : α → β) (h : Uniform format n s r r') :
    Uniform format n s (r.map f) (r'.map f) := by
  intro depth k v d b hk hd hread
  obtain ⟨a, ha, rfl⟩ := map_eq_ok hread
  rw [Reader.map, h hk hd ha]
  rfl

theorem optional (h : Uniform format n s r r') :
    Uniform format n (.optional s) r.optional r'.optional := by
  intro depth k v d a hk hd hread
  cases hd with
  | null => exact hread
  | present hv hd =>
    rw [r.optional_of_ne_null depth fun hnull ↦ hv (Value.eq_null_of_document hnull)] at hread
    obtain ⟨a, ha, rfl⟩ := map_eq_ok hread
    rw [r'.optional_of_ne_null k fun hnull ↦ hv (hd.eq_null hnull), h hk hd ha]
    rfl

theorem items {k depth : Nat} (h : Uniform format n s r r') (hk : k < n) :
    {vs : List Value} → {ds : List Document} → {as : List α} → SpellsAll format k s vs ds →
      (Value.itemDocuments vs).mapM (r depth) = .ok as → ds.mapM (r' k) = .ok as
  | _, _, _, .nil, hread => hread
  | v :: vs, d :: ds, as, .cons hd hs, hread => by
    rw [Value.itemDocuments, List.mapM_cons] at hread
    obtain ⟨a, ha, hread⟩ := bind_eq_ok hread
    obtain ⟨as, has, hread⟩ := bind_eq_ok hread
    rw [List.mapM_cons, h hk hd ha, ← hread]
    show (ds.mapM (r' k) >>= fun as ↦ pure (a :: as)) = _
    rw [items h hk hs has]
    rfl

theorem list (h : Uniform format n s r r') : Uniform format n (.list s) r.list r'.list := by
  intro depth k v d as hk hd hread
  cases hd with
  | @list k _ vs ds hs =>
    cases depth with
    | zero => cases hread
    | succ depth =>
      obtain ⟨values, hvalues, hread⟩ := bind_eq_ok hread
      show (do
        let values ← ds.mapM (r' k)
        if true then Except.ok values else .error .malformed) = .ok as
      rw [h.items (Nat.lt_of_succ_lt hk) hs hvalues]
      exact hread

end Uniform

namespace Fields

variable {α : Type} {αs : List Type} {k : Nat}

theorem readMembers_append (fields : Fields αs) (before after : List (Key × Document))
    (slots : Slots αs) :
    fields.readMembers k (before ++ after) slots =
      fields.readMembers k before slots >>= fields.readMembers k after := by
  induction before generalizing slots with
  | nil => rfl
  | cons m before ih =>
    obtain ⟨key, d⟩ := m
    cases key with
    | unreadable => rfl
    | text name =>
      simp only [List.cons_append, readMembers]
      cases fields.put k name d slots with
      | none =>
        by_cases hd : d.complete
        · simp only [if_pos hd]
          exact ih slots
        · simp only [if_neg hd]
          rfl
      | some result =>
        cases result with
        | error e => rfl
        | ok slots => exact ih slots

/-- A member with the name of the first field goes into its slot, wherever it stands. -/
theorem readMembers_middle {field : FieldSpec α} {rest : Fields αs} {slots : Slots αs} {a : α}
    {d : Document} {before after : List (Key × Document)}
    (hothers : ∀ m ∈ before ++ after, m.1 ≠ .text field.name) (hread : field.read k d = .ok a) :
    (Fields.cons field rest).readMembers k (before ++ (.text field.name, d) :: after)
        (none, slots) =
      (rest.readMembers k (before ++ after) slots).map (some a, ·) := by
  obtain ⟨hbefore, hafter⟩ := List.forall_mem_append.mp hothers
  have hsplit := (Fields.cons field rest).readMembers_append (k := k) before
    ((.text field.name, d) :: after) (none, slots)
  rw [hsplit, rest.readMembers_append, readMembers_cons hbefore]
  cases rest.readMembers k before slots with
  | error e => rfl
  | ok slots =>
    have hput : (Fields.cons field rest).put k field.name d (none, slots) =
        some (.ok (some a, slots)) := by
      rw [put, if_pos rfl, hread]
      rfl
    show (Fields.cons field rest).readMembers k ((.text field.name, d) :: after) (none, slots) = _
    simp only [readMembers, hput]
    exact readMembers_cons hafter

theorem readObject_middle {field : FieldSpec α} {rest : Fields αs} {a : α} {d : Document}
    (before : List (Key × Document)) {after : List (Key × Document)}
    (hothers : ∀ m ∈ before ++ after, m.1 ≠ .text field.name) (hread : field.read k d = .ok a) :
    (Fields.cons field rest).readObject k (before ++ (.text field.name, d) :: after) true =
      (rest.readObject k (before ++ after) true).map (a, ·) := by
  rw [readObject, noSlots, readMembers_middle hothers hread, readObject]
  cases rest.readMembers k (before ++ after) rest.noSlots with
  | error e => rfl
  | ok slots =>
    show (rest.collect slots >>= fun values ↦ .ok (a, values)) = (rest.collect slots).map (a, ·)
    cases rest.collect slots <;> rfl

theorem readObject_absent {field : FieldSpec α} {rest : Fields αs} {a : α}
    {members : List (Key × Document)} (hothers : ∀ m ∈ members, m.1 ≠ .text field.name)
    (ha : field.absent = .inObject a ∨ field.absent = .anywhere a) :
    (Fields.cons field rest).readObject k members true =
      (rest.readObject k members true).map (a, ·) := by
  rw [readObject, noSlots, readMembers_cons hothers, readObject]
  cases rest.readMembers k members rest.noSlots with
  | error e => rfl
  | ok slots =>
    have hcollect : (Fields.cons field rest).collect (none, slots) =
        rest.collect slots >>= fun values ↦ .ok (a, values) := by
      rcases ha with ha | ha <;> simp only [collect, ha] <;> rfl
    show (Fields.cons field rest).collect (none, slots) = (rest.collect slots).map (a, ·)
    rw [hcollect]
    cases rest.collect slots <;> rfl

theorem readMembers_nil {members : List (Key × Document)} {names : List String}
    (h : ∀ m ∈ members, Foreign names m) : Fields.nil.readMembers k members () = .ok () := by
  induction members with
  | nil => rfl
  | cons m members ih =>
    obtain ⟨name, -, s, rfl⟩ := h m List.mem_cons_self
    simp only [readMembers, put, if_pos s.complete_document]
    exact ih fun m hm ↦ h m (List.mem_cons_of_mem _ hm)

end Fields

/-- Where a field may be missing, the value to take is the one that is read from what it stands
for. -/
def Presence.Excuses {α : Type} (read : Reader α) (absent : Absent α) : Presence → Prop
  | .required => True
  | .optional => ∀ depth a, read depth .null = .ok a → absent = .inObject a
  | .default v => ∀ depth a, read depth v.document = .ok a → absent = .anywhere a

/-- Two lists of fields that have the names and presences of a record, and contents that are read
alike. -/
inductive Matches (format : τ → Schema τ) (n : Nat) :
    {αs : List Type} → Fields αs → Fields αs → List (String × Presence × Schema τ) → Prop
  | nil : Matches format n .nil .nil []
  | cons {α : Type} {αs : List Type} {field field' : FieldSpec α} {rest rest' : Fields αs}
      {p : Presence} {s : Schema τ} {fields : List (String × Presence × Schema τ)}
      (hname : field'.name = field.name) (habsent : p.Excuses field.read field'.absent)
      (h : Uniform format n s field.read field'.read) (hs : Matches format n rest rest' fields) :
      Matches format n (.cons field rest) (.cons field' rest') ((field.name, p, s) :: fields)

theorem Kept.names {format : τ → Schema τ} {k : Nat}
    {fields : List (String × Presence × Schema τ)} {values : List (String × Value)}
    {kept : List (Key × Document)} :
    Kept format k fields values kept → values.map Prod.fst = fields.map Prod.fst
  | .nil => rfl
  | .keep _ hs | .leave _ hs => congrArg (_ :: ·) hs.names

theorem Kept.key_mem {format : τ → Schema τ} {k : Nat}
    {fields : List (String × Presence × Schema τ)} {values : List (String × Value)}
    {kept : List (Key × Document)} (h : Kept format k fields values kept) {m : Key × Document}
    (hm : m ∈ kept) : ∃ name ∈ fields.map Prod.fst, m.1 = .text name :=
  match h with
  | .nil => nomatch hm
  | .keep _ hs => by
    rcases List.mem_cons.mp hm with rfl | hm
    · exact ⟨_, List.mem_cons_self, rfl⟩
    · obtain ⟨name, hname, hkey⟩ := hs.key_mem hm
      exact ⟨name, List.mem_cons_of_mem _ hname, hkey⟩
  | .leave _ hs => by
    obtain ⟨name, hname, hkey⟩ := hs.key_mem hm
    exact ⟨name, List.mem_cons_of_mem _ hname, hkey⟩

theorem Kept.key_ne {format : τ → Schema τ} {k : Nat} {name : String}
    {fields : List (String × Presence × Schema τ)} {values : List (String × Value)}
    {kept extra : List (Key × Document)} (h : Kept format k fields values kept)
    (hn : name ∉ fields.map Prod.fst)
    (hextra : ∀ m ∈ extra, Foreign (name :: fields.map Prod.fst) m) :
    ∀ m ∈ kept ++ extra, m.1 ≠ .text name := by
  intro m hm hkey
  rcases List.mem_append.mp hm with hm | hm
  · obtain ⟨name', hname, hm⟩ := h.key_mem hm
    obtain rfl := Key.text.inj (hm.symm.trans hkey)
    exact hn hname
  · obtain ⟨name', hname, s, rfl⟩ := hextra m hm
    obtain rfl := Key.text.inj hkey
    exact hname List.mem_cons_self

theorem Listed.names {format : τ → Schema τ} {k : Nat}
    {fields : List (String × Presence × Schema τ)} {values : List (String × Value)}
    {items : List Document} :
    Listed format k fields values items → values.map Prod.fst = fields.map Prod.fst
  | .nil => rfl
  | .item _ hs | .leave hs => congrArg (_ :: ·) hs.names

/-- Each field reads its value from the member of its name. -/
inductive Holds (depth : Nat) :
    {αs : List Type} → Fields αs → List (String × Value) → Values αs → Prop
  | nil : Holds depth .nil [] ()
  | cons {α : Type} {αs : List Type} {field : FieldSpec α} {rest : Fields αs} {v : Value} {a : α}
      {members : List (String × Value)} {values : Values αs}
      (h : field.read depth v.document = .ok a) (hs : Holds depth rest members values) :
      Holds depth (.cons field rest) ((field.name, v) :: members) (a, values)

namespace Matches

variable {format : τ → Schema τ} {n k depth : Nat} {αs : List Type} {fields fields' : Fields αs}
  {schema : List (String × Presence × Schema τ)} {members : List (String × Value)}
  {values : Values αs}

theorem holds (h : Matches format n fields fields' schema)
    (hnames : members.map Prod.fst = schema.map Prod.fst) (hn : (schema.map Prod.fst).Nodup)
    (hread : fields.readObject depth (Value.memberDocuments members) true = .ok values) :
    Holds depth fields members values := by
  induction h generalizing members with
  | nil =>
    obtain rfl := List.map_eq_nil_iff.mp hnames
    exact .nil
  | @cons α αs field field' rest rest' p s schema hname habsent h hs ih =>
    obtain ⟨⟨name, v⟩, members, rfl, hfirst, hrest⟩ := List.map_eq_cons_iff.mp hnames
    obtain rfl : name = field.name := hfirst
    obtain ⟨hnot, hn⟩ := List.nodup_cons.mp hn
    have hothers := Value.key_ne_of_not_mem (hrest ▸ hnot)
    cases hv : field.read depth v.document with
    | error e =>
      rw [Fields.readObject, Value.memberDocuments, Fields.readMembers, Fields.noSlots,
        Fields.put, if_pos rfl, hv] at hread
      cases hread
    | ok a =>
      have hsplit : (Fields.cons field rest).readObject depth
          (Value.memberDocuments ((field.name, v) :: members)) true =
            (rest.readObject depth (Value.memberDocuments members) true).map (a, ·) :=
        Fields.readObject_middle [] hothers hv
      rw [hsplit] at hread
      obtain ⟨values, hvalues, rfl⟩ := map_eq_ok hread
      exact .cons hv (ih hrest hn hvalues)

theorem excused {α : Type} {p : Presence} {read : Reader α} {absent : Absent α} {v : Value} {a : α}
    (h : p.Excuses read absent) (hp : p.spare = some v) (hread : read depth v.document = .ok a) :
    absent = .inObject a ∨ absent = .anywhere a := by
  cases p with
  | required => cases hp
  | optional =>
    obtain rfl := Option.some.inj hp
    exact .inl (h depth a hread)
  | default value =>
    obtain rfl := Option.some.inj hp
    exact .inr (h depth a hread)

/-- The members of an object may stand in any order, among others and without the fields that hold
their defaults. -/
theorem readObject (h : Matches format n fields fields' schema) (hk : k < n)
    (hn : (schema.map Prod.fst).Nodup) {kept extra spelled : List (Key × Document)}
    (hkept : Kept format k schema members kept) (hholds : Holds depth fields members values)
    (hextra : ∀ m ∈ extra, Foreign (schema.map Prod.fst) m)
    (hspelled : spelled.Perm (kept ++ extra)) :
    fields'.readObject k spelled true = .ok values := by
  induction h generalizing members kept spelled with
  | nil =>
    cases hkept
    cases hholds
    have hmembers := Fields.readMembers_nil (k := k) fun m hm ↦ hextra m (hspelled.mem_iff.mp hm)
    rw [Fields.readObject, Fields.noSlots, hmembers]
    rfl
  | @cons α αs field field' rest rest' p s schema hname habsent h hs ih =>
    obtain ⟨hnot, hn⟩ := List.nodup_cons.mp hn
    have hextra' : ∀ m ∈ extra, Foreign (schema.map Prod.fst) m := fun m hm ↦ by
      obtain ⟨name, hname, s, hms⟩ := hextra m hm
      exact ⟨name, fun hmem ↦ hname (List.mem_cons_of_mem _ hmem), s, hms⟩
    cases hkept with
    | @keep _ _ _ _ v d _ members kept hd hkept =>
      cases hholds with
      | @cons _ _ _ _ _ a _ values hread hholds =>
        have hmem : (Key.text field.name, d) ∈ spelled := hspelled.mem_iff.mpr List.mem_cons_self
        obtain ⟨before, after, rfl⟩ := List.append_of_mem hmem
        have hrest : (before ++ after).Perm (kept ++ extra) :=
          (List.perm_middle.symm.trans hspelled).cons_inv
        have hothers : ∀ m ∈ before ++ after, m.1 ≠ .text field'.name := fun m hm ↦
          hname ▸ hkept.key_ne hnot hextra m (hrest.mem_iff.mp hm)
        rw [← hname, Fields.readObject_middle before hothers (h hk hd hread),
          ih hn hkept hholds hextra' hrest]
        rfl
    | leave hp hkept =>
      cases hholds with
      | cons hread hholds =>
        have hothers : ∀ m ∈ spelled, m.1 ≠ .text field'.name := fun m hm ↦
          hname ▸ hkept.key_ne hnot hextra m (hspelled.mem_iff.mp hm)
        rw [Fields.readObject_absent hothers (excused habsent hp hread),
          ih hn hkept hholds hextra' hspelled]
        rfl

theorem readItems (h : Matches format n fields fields' schema) (hk : k < n) {short : ReadError}
    {items : List Document} (hlisted : Listed format k schema members items)
    (hholds : Holds depth fields members values) :
    fields'.readItems k short true items = .ok values := by
  induction h generalizing members items with
  | nil =>
    cases hlisted
    cases hholds
    rfl
  | @cons α αs field field' rest rest' p s schema hname habsent h hs ih =>
    cases hlisted with
    | item hd hlisted =>
      cases hholds with
      | cons hread hholds =>
        rw [Fields.readItems, h hk hd hread, ih hlisted hholds]
        rfl
    | leave hlisted =>
      cases hholds with
      | cons hread hholds =>
        rw [Fields.readItems, habsent depth _ hread, ih hlisted hholds]
        rfl

end Matches

namespace Matches

section

variable {format : τ → Schema τ} {α : Type} {αs : List Type} {n : Nat} {s : Schema τ}
  {r r' : Reader α} {rest rest' : Fields αs} {fields : List (String × Presence × Schema τ)}

theorem required (name : String) (h : Uniform format n s r r')
    (hs : Matches format n rest rest' fields) :
    Matches format n (.cons (.required name r) rest) (.cons (.required name r') rest')
      ((name, .required, s) :: fields) :=
  .cons rfl trivial h hs

theorem optional (name : String) (h : Uniform format n s r r')
    (hs : Matches format n rest rest' fields) :
    Matches format n (.cons (.optional name r) rest) (.cons (.optional name r') rest')
      ((name, .optional, .optional s) :: fields) :=
  .cons rfl (fun _ _ hread ↦ Except.ok.inj hread ▸ rfl) h.optional hs

theorem default (name : String) {value : α} {v : Value}
    (hv : ∀ depth a, r depth v.document = .ok a → a = value) (h : Uniform format n s r r')
    (hs : Matches format n rest rest' fields) :
    Matches format n (.cons (.default name value r) rest) (.cons (.default name value r') rest')
      ((name, .default v, s) :: fields) :=
  .cons rfl (fun depth a hread ↦ hv depth a hread ▸ rfl) h hs

end

end Matches

namespace Uniform

variable {format : τ → Schema τ} {α : Type} {n : Nat}

section record

variable {αs : List Type} {wanted : Shape} {fields fields' : Fields αs} {build : Curried αs α}
  {schema : List (String × Presence × Schema τ)}

theorem record_succ (h : Matches format n fields fields' schema)
    (hn : (schema.map Prod.fst).Nodup) :
    Uniform format (n + 1) (.record schema) (.record wanted fields build)
      (.record wanted fields' build) := by
  intro depth k v d a hk hd hread
  cases hd with
  | object hkept hextra hspelled =>
    cases depth with
    | zero => cases hread
    | succ depth =>
      obtain ⟨values, hvalues, rfl⟩ := map_eq_ok hread
      have hholds := h.holds hkept.names hn hvalues
      exact congrArg (Except.map build.apply)
        (h.readObject (Nat.lt_of_succ_lt_succ hk) hn hkept hholds hextra hspelled)
  | array hlisted =>
    cases depth with
    | zero => cases hread
    | succ depth =>
      obtain ⟨values, hvalues, rfl⟩ := map_eq_ok hread
      have hholds := h.holds hlisted.names hn hvalues
      exact congrArg (Except.map build.apply)
        (h.readItems (Nat.lt_of_succ_lt_succ hk) hlisted hholds)

theorem record (h : Matches format n fields fields' schema) (hn : (schema.map Prod.fst).Nodup) :
    Uniform format n (.record schema) (.record wanted fields build)
      (.record wanted fields' build) :=
  (record_succ h hn).mono (Nat.le_succ n)

end record

end Uniform

/-- The contents of a case, as two readers know it and as the schema gives it. -/
inductive Alike {α : Type} (format : τ → Schema τ) (n : Nat) :
    Content α → Content α → Option (Schema τ) → Prop
  | nothing {a : α} : Alike format n (.nothing a) (.nothing a) none
  | wrapped {s : Schema τ} {r r' : Reader α} (h : Uniform format n s r r') :
      Alike format n (.wrapped r) (.wrapped r') (some s)
  | record {s : Schema τ} {r r' : Reader α} (h : Uniform format n s r r') :
      Alike format n (.record r) (.record r') (some s)

/-- Two lists of cases that have the names of a sum, and contents that are read alike. -/
inductive Agree {α : Type} (format : τ → Schema τ) (n : Nat) :
    List (Case α) → List (Case α) → List (String × Option (Schema τ)) → Prop
  | nil : Agree format n [] [] []
  | cons {name : String} {c c' : Content α} {s : Option (Schema τ)} {cases cases' : List (Case α)}
      {schema : List (String × Option (Schema τ))} (h : Alike format n c c' s)
      (hs : Agree format n cases cases' schema) :
      Agree format n (⟨name, c⟩ :: cases) (⟨name, c'⟩ :: cases') ((name, s) :: schema)

section

variable {format : τ → Schema τ} {α : Type} {n : Nat} {cases cases' : List (Case α)}
  {schema : List (String × Option (Schema τ))}

theorem Agree.find? (h : Agree format n cases cases' schema) {name : String}
    {s : Option (Schema τ)} (hname : schema.lookup name = some s) :
    ∃ c c', cases.find? (·.name = name) = some ⟨name, c⟩ ∧
      cases'.find? (·.name = name) = some ⟨name, c'⟩ ∧ Alike format n c c' s := by
  induction h with
  | nil => cases hname
  | @cons name' c c' s' cases cases' schema h hs ih =>
    by_cases hn : name' = name
    · subst hn
      obtain rfl : s' = s := by simpa using hname
      exact ⟨c, c', by simp, by simp, h⟩
    · rw [List.lookup_cons, beq_false_of_ne (Ne.symm hn)] at hname
      simpa [hn] using ih hname

theorem Uniform.sum_succ (h : Agree format n cases cases' schema) :
    Uniform format (n + 1) (.sum schema) (.sum cases) (.sum cases') := by
  intro depth k v d a hk hd hread
  cases hd with
  | bare hname =>
    obtain ⟨_, _, hc, hc', halike⟩ := h.find? hname
    rw [Value.document, Reader.sum_string hc] at hread
    rw [Reader.sum_string hc']
    cases halike
    exact hread
  | wrapped hname =>
    obtain ⟨_, _, hc, hc', halike⟩ := h.find? hname
    rw [Value.document, Reader.sum_string hc] at hread
    rw [Reader.sum_object hc']
    cases halike
    exact hread
  | @filled k _ name s v d hname hd =>
    obtain ⟨_, _, hc, hc', halike⟩ := h.find? hname
    cases depth with
    | zero => cases hread
    | succ depth =>
      change Reader.sum cases (depth + 1) (.object [(.text name, v.document)] true) = _ at hread
      rw [Reader.sum_object hc] at hread
      rw [Reader.sum_object hc']
      cases halike with
      | wrapped h | record h => exact h (Nat.lt_of_succ_lt_succ hk) hd hread

theorem Uniform.sum (h : Agree format n cases cases' schema) :
    Uniform format n (.sum schema) (.sum cases) (.sum cases') :=
  (sum_succ h).mono (Nat.le_succ n)

end

/-- A text that spells a written value is read as the value is. -/
theorem Reader.run_spelling {format : τ → Schema τ} {α : Type} {s : Schema τ} {r : Reader α}
    {v : Value} {a : α} {source : Source} {depth : Nat}
    (h : Uniform format (nesting + 1) s r r) (hsource : Spells format nesting s v source.document)
    (hread : r depth v.document = .ok a) : r.run source.text = .ok a := by
  rw [run, source.parse_text]
  show (do
    let a ← r nesting source.document
    if false then Except.error ReadError.malformed else .ok a) = .ok a
  rw [h (Nat.lt_succ_self _) hsource hread]
  rfl

end

end ThreeAddress.Json
