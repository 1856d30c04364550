import ThreeAddress.Json.Document
import ThreeAddress.Decimal.Shortest
import ThreeAddress.Text.Quoted

namespace ThreeAddress.Json

/-- What a reader wants to find. -/
inductive Shape where
  | index
  | word
  | flag
  | text
  | list
  | unit
  | record (name : String)
  | caseRecord (sum case : String)
  | wrappedCase
  | recordCase
deriving DecidableEq

def Shape.describe : Shape → String
  | .index => "usize"
  | .word => "i32"
  | .flag => "a boolean"
  | .text => "a string"
  | .list => "a sequence"
  | .unit => "unit"
  | .record name => "struct " ++ name
  | .caseRecord sum case => "struct variant " ++ sum ++ "::" ++ case
  | .wrappedCase => "newtype variant"
  | .recordCase => "struct variant"

def Found.describe : Found → String
  | .null => "null"
  | .bool true => "boolean `true`"
  | .bool false => "boolean `false`"
  | .integer n => "integer `" ++ toString n ++ "`"
  | .real bits => "floating point `" ++ Decimal.text bits ++ "`"
  | .string s => "string " ++ Text.quoted s
  | .sequence => "sequence"
  | .map => "map"
  | .unitVariant => "unit variant"

/-- Why a document cannot be read. -/
inductive ReadError where
  | malformed
  | mismatch (found : Found) (wanted : Shape)
  | outOfRange (n : Int) (wanted : Shape)
  | tooShort (count : Nat) (wanted : Shape) (fields : Nat)
  | missing (field : String)
  | duplicate (field : String)
  | unknownCase (name : String) (known : List String)
deriving DecidableEq

def ticked (s : String) : String :=
  "`" ++ s ++ "`"

def oneOf : List String → String
  | [] => "there are no variants"
  | [a] => "expected " ++ ticked a
  | [a, b] => "expected " ++ ticked a ++ " or " ++ ticked b
  | names => "expected one of " ++ ", ".intercalate (names.map ticked)

/-- The message of an error in the data. A malformed text has none. -/
def ReadError.message? : ReadError → Option String
  | .malformed => none
  | .mismatch found wanted =>
    some ("invalid type: " ++ found.describe ++ ", expected " ++ wanted.describe)
  | .outOfRange n wanted =>
    some ("invalid value: integer `" ++ toString n ++ "`, expected " ++ wanted.describe)
  | .tooShort count wanted fields =>
    some ("invalid length " ++ toString count ++ ", expected " ++ wanted.describe ++ " with " ++
      toString fields ++ if fields = 1 then " element" else " elements")
  | .missing field => some ("missing field " ++ ticked field)
  | .duplicate field => some ("duplicate field " ++ ticked field)
  | .unknownCase name known => some ("unknown variant " ++ ticked name ++ ", " ++ oneOf known)

abbrev Reader (α : Type) := Nat → Document → Except ReadError α

namespace Reader

def mismatch (d : Document) (wanted : Shape) : ReadError :=
  match d.found? with
  | some found => .mismatch found wanted
  | none => .malformed

def map {α β : Type} (f : α → β) (r : Reader α) : Reader β :=
  fun depth d => (r depth d).map f

/-- An integer that `ofInt?` accepts. -/
def integer {α : Type} (wanted : Shape) (ofInt? : Int → Option α) : Reader α := fun _ d =>
  match d with
  | .number numeral =>
    match numeral.value with
    | some (.integer n) =>
      match ofInt? n with
      | some a => .ok a
      | none => .error (.outOfRange n wanted)
    | _ => .error (mismatch d wanted)
  | d => .error (mismatch d wanted)

def index : Reader UInt64 :=
  integer .index fun n =>
    if 0 ≤ n ∧ n.toNat < UInt64.size then some (UInt64.ofNat n.toNat) else none

def word : Reader Int32 :=
  integer .word fun n =>
    if Int32.minValue.toInt ≤ n ∧ n ≤ Int32.maxValue.toInt then some (Int32.ofInt n) else none

def flag : Reader Bool := fun _ d =>
  match d with
  | .bool b => .ok b
  | d => .error (mismatch d .flag)

def text : Reader String := fun _ d =>
  match d with
  | .string (some s) => .ok s
  | d => .error (mismatch d .text)

def unit : Reader Unit := fun _ d =>
  match d with
  | .null => .ok ()
  | d => .error (mismatch d .unit)

def optional {α : Type} (r : Reader α) : Reader (Option α) := fun depth d =>
  match d with
  | .null => .ok none
  | d => (r depth d).map some

def list {α : Type} (r : Reader α) : Reader (List α) := fun depth d =>
  match depth, d with
  | 0, .array _ _ => .error .malformed
  | depth + 1, .array items closed => do
    let values ← items.mapM (r depth)
    if closed then .ok values else .error .malformed
  | _, d => .error (mismatch d .list)

end Reader

/-- What to do about a field that is not there: refuse, take a value where the record is an object,
or take a value in objects and at the end of arrays. -/
inductive Absent (α : Type) where
  | refused
  | inObject (value : α)
  | anywhere (value : α)

structure FieldSpec (α : Type) where
  name : String
  absent : Absent α
  read : Reader α

namespace FieldSpec

def required {α : Type} (name : String) (r : Reader α) : FieldSpec α :=
  ⟨name, .refused, r⟩

def optional {α : Type} (name : String) (r : Reader α) : FieldSpec (Option α) :=
  ⟨name, .inObject none, r.optional⟩

def default {α : Type} (name : String) (value : α) (r : Reader α) : FieldSpec α :=
  ⟨name, .anywhere value, r⟩

end FieldSpec

/-- The fields of a record in declaration order. -/
inductive Fields : List Type → Type 1 where
  | nil : Fields []
  | cons {α : Type} {αs : List Type} (field : FieldSpec α) (rest : Fields αs) : Fields (α :: αs)

def Values : List Type → Type
  | [] => Unit
  | α :: αs => α × Values αs

/-- The values met so far while an object is read. -/
def Slots : List Type → Type
  | [] => Unit
  | α :: αs => Option α × Slots αs

def Curried : List Type → Type → Type
  | [], β => β
  | α :: αs, β => α → Curried αs β

def Curried.apply {β : Type} : {αs : List Type} → Curried αs β → Values αs → β
  | [], f, _ => f
  | _ :: _, f, (a, rest) => Curried.apply (f a) rest

namespace Fields

def count : {αs : List Type} → Fields αs → Nat
  | _, .nil => 0
  | _, .cons _ rest => rest.count + 1

def noSlots : {αs : List Type} → Fields αs → Slots αs
  | _, .nil => ()
  | _, .cons _ rest => (none, rest.noSlots)

/-- Reads the value of a known field into its slot, or says that no field has the name. -/
def put (depth : Nat) (key : String) (d : Document) :
    {αs : List Type} → Fields αs → Slots αs → Option (Except ReadError (Slots αs))
  | _, .nil, _ => none
  | _, .cons field rest, (slot, slots) =>
    if field.name = key then
      match slot with
      | some _ => some (.error (.duplicate key))
      | none => some ((field.read depth d).map fun a => (some a, slots))
    else (rest.put depth key d slots).map (·.map fun slots => (slot, slots))

/-- Goes through the members in text order. Members with unknown names are passed over. -/
def readMembers {αs : List Type} (fields : Fields αs) (depth : Nat) :
    List (Key × Document) → Slots αs → Except ReadError (Slots αs)
  | [], slots => .ok slots
  | (.text key, d) :: members, slots =>
    match fields.put depth key d slots with
    | some (.ok slots) => fields.readMembers depth members slots
    | some (.error e) => .error e
    | none => if d.complete then fields.readMembers depth members slots else .error .malformed
  | (.unreadable, _) :: _, _ => .error .malformed

/-- The values of a finished object; the first missing field in declaration order is reported. -/
def collect : {αs : List Type} → Fields αs → Slots αs → Except ReadError (Values αs)
  | _, .nil, _ => .ok ()
  | _, .cons field rest, (slot, slots) =>
    match slot, field.absent with
    | some a, _ | none, .inObject a | none, .anywhere a => do
      let values ← rest.collect slots
      .ok (a, values)
    | none, .refused => .error (.missing field.name)

def readObject {αs : List Type} (fields : Fields αs) (depth : Nat) (members : List (Key × Document))
    (closed : Bool) : Except ReadError (Values αs) := do
  let slots ← fields.readMembers depth members fields.noSlots
  if closed then fields.collect slots else .error .malformed

/-- Reads the fields from the items of an array, of which `short` is the error if there are too
few. -/
def readItems (depth : Nat) (short : ReadError) (closed : Bool) :
    {αs : List Type} → Fields αs → List Document → Except ReadError (Values αs)
  | _, .nil, items => if items.isEmpty && closed then .ok () else .error .malformed
  | _, .cons field rest, d :: items => do
    let a ← field.read depth d
    let values ← rest.readItems depth short closed items
    .ok (a, values)
  | _, .cons field rest, [] =>
    if closed then
      match field.absent with
      | .anywhere a => do
        let values ← rest.readItems depth short closed []
        .ok (a, values)
      | _ => .error short
    else .error .malformed

end Fields

namespace Reader

def record {α : Type} {αs : List Type} (wanted : Shape) (fields : Fields αs)
    (build : Curried αs α) : Reader α := fun depth d =>
  match depth, d with
  | 0, .object _ _ | 0, .array _ _ => .error .malformed
  | depth + 1, .object members closed => (fields.readObject depth members closed).map build.apply
  | depth + 1, .array items closed =>
    (fields.readItems depth (.tooShort items.length wanted fields.count) closed items).map
      build.apply
  | _, d => .error (mismatch d wanted)

end Reader

/-- What the case of a sum carries: nothing, one value, or a record. -/
inductive Content (α : Type) where
  | nothing (value : α)
  | wrapped (read : Reader α)
  | record (read : Reader α)

structure Case (α : Type) where
  name : String
  content : Content α

namespace Reader

def caseNamed {α : Type} (cases : List (Case α)) (name : String) : Except ReadError (Case α) :=
  match cases.find? (·.name = name) with
  | some c => .ok c
  | none => .error (.unknownCase name (cases.map (·.name)))

def bareCase {α : Type} (c : Case α) : Except ReadError α :=
  match c.content with
  | .nothing a => .ok a
  | .wrapped _ => .error (.mismatch .unitVariant .wrappedCase)
  | .record _ => .error (.mismatch .unitVariant .recordCase)

def filledCase {α : Type} (c : Case α) : Reader α := fun depth d =>
  match c.content with
  | .nothing a => (unit depth d).map fun _ => a
  | .wrapped r | .record r => r depth d

def sum {α : Type} (cases : List (Case α)) : Reader α := fun depth d =>
  match depth, d with
  | _, .string (some name) => do
    let c ← caseNamed cases name
    bareCase c
  | depth + 1, .object ((.text name, d) :: others) closed => do
    let c ← caseNamed cases name
    let a ← filledCase c depth d
    if others.isEmpty && closed then .ok a else .error .malformed
  | _, _ => .error .malformed

/-- How many containers may be open at once. -/
def nesting : Nat := 127

/-- Reads a whole text, which holds nothing else. -/
def run {α : Type} (r : Reader α) (text : String) : Except ReadError α := do
  let parsed := parse text
  let a ← r nesting parsed.document
  if parsed.trailing then .error .malformed else .ok a

end Reader

end ThreeAddress.Json
