import ThreeAddress.Json.Token

namespace ThreeAddress.Json

/-- What stands in a place where something else was wanted. -/
inductive Found where
  | null
  | bool (value : Bool)
  | integer (n : Int)
  | real (bits : UInt64)
  | string (s : String)
  | sequence
  | map
  | unitVariant
deriving DecidableEq

def Number.found : Number → Found
  | .integer n => .integer n
  | .real bits => .real bits

/-- What stands before a colon: a string, of which a text can be made or not. -/
inductive Key where
  | text (s : String)
  | unreadable
deriving DecidableEq

/-- The content of a text. A container that the text breaks off is not closed, and `broken` stands
for a value of which no first token could be read. -/
inductive Document where
  | null
  | bool (value : Bool)
  | number (n : Numeral)
  | string (text : Option String)
  | array (items : List Document) (closed : Bool)
  | object (members : List (Key × Document)) (closed : Bool)
  | broken

/-- Whether the text goes on after this value. -/
def Document.complete : Document → Bool
  | .null | .bool _ | .number _ | .string _ => true
  | .array _ closed | .object _ closed => closed
  | .broken => false

/-- How a document is named in a message, unless no value can be made of it. -/
def Document.found? : Document → Option Found
  | .null => some .null
  | .bool b => some (.bool b)
  | .number n => n.value.map Number.found
  | .string s => s.map Found.string
  | .array _ _ => some .sequence
  | .object _ _ => some .map
  | .broken => none

/-- An open container, with what it holds so far, newest first. A `member` is an object whose last
key waits for its value. -/
inductive Frame where
  | array (items : List Document)
  | object (members : List (Key × Document))
  | member (members : List (Key × Document)) (key : Key)

/-- What may come next. -/
inductive Expect where
  | value
  | firstItem
  | firstKey
  | key
  | colon
  | separator
  | ended
  | stopped
deriving DecidableEq

/-- A document under construction. `trailing` tells that the text goes on behind the document. -/
structure Builder where
  frames : List Frame := []
  expect : Expect := .value
  root : Option Document := none
  trailing : Bool := false

namespace Builder

def stop (b : Builder) : Builder :=
  { b with expect := .stopped }

def place (b : Builder) (d : Document) : Builder :=
  match b.frames with
  | [] => { b with root := some d, expect := .ended }
  | .array items :: frames =>
    { b with frames := .array (d :: items) :: frames, expect := .separator }
  | .member members key :: frames =>
    { b with frames := .object ((key, d) :: members) :: frames, expect := .separator }
  | .object _ :: _ => b.stop

def value (b : Builder) : Token → Builder
  | .null => b.place .null
  | .bool v => b.place (.bool v)
  | .number n => b.place (.number n)
  | .string s => b.place (.string s)
  | .openBracket => { b with frames := .array [] :: b.frames, expect := .firstItem }
  | .openBrace => { b with frames := .object [] :: b.frames, expect := .firstKey }
  | _ => b.stop

def closeArray (b : Builder) : Builder :=
  match b.frames with
  | .array items :: frames => { b with frames := frames }.place (.array items.reverse true)
  | _ => b.stop

def closeObject (b : Builder) : Builder :=
  match b.frames with
  | .object members :: frames => { b with frames := frames }.place (.object members.reverse true)
  | _ => b.stop

/-- Takes a key. The text breaks where anything but a string stands in its place. -/
def key (b : Builder) (t : Token) : Builder :=
  match b.frames, t with
  | .object members :: frames, .string s =>
    let k := match s with
      | some s => .text s
      | none => .unreadable
    { b with frames := .member members k :: frames, expect := .colon }
  | _, _ => b.stop

def comma (b : Builder) : Builder :=
  match b.frames with
  | .array _ :: _ => { b with expect := .value }
  | .object _ :: _ => { b with expect := .key }
  | _ => b.stop

def step (b : Builder) (t : Token) : Builder :=
  match b.expect, t with
  | .stopped, _ => b
  | .ended, _ => { b with trailing := true }
  | .firstItem, .closeBracket => b.closeArray
  | .firstItem, t | .value, t => b.value t
  | .firstKey, .closeBrace => b.closeObject
  | .firstKey, t | .key, t => b.key t
  | .colon, .colon => { b with expect := .value }
  | .separator, .comma => b.comma
  | .separator, .closeBracket => b.closeArray
  | .separator, .closeBrace => b.closeObject
  | .colon, _ | .separator, _ => b.stop

/-- Wraps an unfinished value into the containers that are still open, innermost first. -/
def unclosed : List Frame → Option Document → Document
  | [], inner => inner.getD .broken
  | .array items :: frames, inner =>
    unclosed frames (some (.array (inner.toList ++ items).reverse false))
  | .object members :: frames, _ => unclosed frames (some (.object members.reverse false))
  | .member members key :: frames, inner =>
    unclosed frames (some (.object ((key, inner.getD .broken) :: members).reverse false))

end Builder

/-- A text's document, and whether anything but white space follows it. -/
structure Parsed where
  document : Document
  trailing : Bool

def Builder.finish (b : Builder) : Parsed :=
  ⟨b.root.getD (unclosed b.frames none), b.trailing⟩

def parseTokens (ts : List Token) : Parsed :=
  (ts.foldl Builder.step {}).finish

def parse (text : String) : Parsed :=
  parseTokens (tokens text.toList)

end ThreeAddress.Json
