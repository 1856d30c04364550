import ThreeAddress.Json.Document
import ThreeAddress.Proofs.Json.Lexing

namespace ThreeAddress.Json

namespace Value

mutual

def document : Value → Document
  | .null => .null
  | .bool b => .bool b
  | .integer n => .number (.ofInt n)
  | .string s => .string (some s)
  | .array items => .array (itemDocuments items) true
  | .object members => .object (memberDocuments members) true

def itemDocuments : List Value → List Document
  | [] => []
  | v :: vs => v.document :: itemDocuments vs

def memberDocuments : List (String × Value) → List (Key × Document)
  | [] => []
  | (k, v) :: rest => (.text k, v.document) :: memberDocuments rest

end

end Value

def Key.ofText? : Option String → Key
  | some s => .text s
  | none => .unreadable

namespace Builder

/-- Where a value is expected, the tokens put a document. -/
def Builds (ts : List Token) (d : Document) : Prop :=
  ∀ b : Builder, b.expect = .firstItem ∨ b.expect = .value → ts.foldl step b = b.place d

/-- What is expected does not matter for a value that is finished. -/
theorem place_expect (b : Builder) (e : Expect) (d : Document) :
    { b with expect := e }.place d = b.place d := by
  unfold place
  rcases b with ⟨_ | ⟨_ | _ | _, frames⟩, expect, root, trailing⟩ <;> rfl

/-- A kind of container: its tokens, its frame while entries are added, what is expected in front of
the first entry and of the other ones, and the document in the end. -/
structure Container (σ : Type) where
  opening : Token
  closing : Token
  frame : List σ → Frame
  first : Expect
  next : Expect
  whole : List σ → Document
  enter : ∀ frames e root trailing, e = .firstItem ∨ e = .value →
    step ⟨frames, e, root, trailing⟩ opening = ⟨frame [] :: frames, first, root, trailing⟩
  comma : ∀ entries frames root trailing,
    step ⟨frame entries :: frames, .separator, root, trailing⟩ .comma =
      ⟨frame entries :: frames, next, root, trailing⟩
  leave : ∀ entries frames e root trailing, e = first ∨ e = .separator →
    step ⟨frame entries :: frames, e, root, trailing⟩ closing =
      place ⟨frames, e, root, trailing⟩ (whole entries.reverse)

def arrays : Container Document where
  opening := .openBracket
  closing := .closeBracket
  frame := .array
  first := .firstItem
  next := .value
  whole items := .array items true
  enter _ _ _ _ he := by rcases he with rfl | rfl <;> rfl
  comma _ _ _ _ := rfl
  leave _ _ _ _ _ he := by rcases he with rfl | rfl <;> rfl

def objects : Container (Key × Document) where
  opening := .openBrace
  closing := .closeBrace
  frame := .object
  first := .firstKey
  next := .key
  whole members := .object members true
  enter _ _ _ _ he := by rcases he with rfl | rfl <;> rfl
  comma _ _ _ _ := rfl
  leave _ _ _ _ _ he := by rcases he with rfl | rfl <;> rfl

namespace Container

variable {σ : Type} {c : Container σ}

def Adds (c : Container σ) (ts : List Token) (entry : σ) : Prop :=
  ∀ entries frames e root trailing, e = c.first ∨ e = c.next →
    ts.foldl step ⟨c.frame entries :: frames, e, root, trailing⟩ =
      ⟨c.frame (entry :: entries) :: frames, .separator, root, trailing⟩

theorem foldl_separated {groups : List (List Token)} {entries : List σ}
    (h : List.Forall₂ c.Adds groups entries) (before : List σ) (frames : List Frame) {e : Expect}
    (root : Option Document) (trailing : Bool) (he : e = c.first ∨ e = c.next) :
    ([.comma].intercalate groups).foldl step ⟨c.frame before :: frames, e, root, trailing⟩ =
      ⟨c.frame (entries.reverse ++ before) :: frames,
        if groups.isEmpty then e else .separator, root,
        trailing⟩ := by
  induction h generalizing before e with
  | nil => rfl
  | @cons ts entry groups entries h hs ih =>
    cases hs with
    | nil =>
      rw [List.intercalate_singleton]
      exact h before frames e root trailing he
    | cons h' hs =>
      rw [List.intercalate_cons_cons, List.foldl_append, List.foldl_append,
        h before frames e root trailing he, List.foldl_cons, c.comma, List.foldl_nil,
        ih (entry :: before) (.inr rfl), List.reverse_cons (a := entry), List.append_assoc]
      rfl

theorem builds {groups : List (List Token)} {entries : List σ}
    (h : List.Forall₂ c.Adds groups entries) :
    Builds (c.opening :: [.comma].intercalate groups ++ [c.closing]) (c.whole entries) := by
  rintro ⟨frames, e, root, trailing⟩ he
  have hclose (e' : Expect) (he : e' = c.first ∨ e' = .separator) :
      step ⟨c.frame (entries.reverse ++ []) :: frames, e', root, trailing⟩ c.closing =
        place ⟨frames, e, root, trailing⟩ (c.whole entries) := by
    rw [c.leave _ _ _ _ _ he, List.append_nil, List.reverse_reverse]
    exact place_expect ⟨frames, e, root, trailing⟩ e' _
  rw [List.cons_append, List.foldl_cons, c.enter _ _ _ _ he, List.foldl_append,
    foldl_separated h [] frames root trailing (.inl rfl)]
  apply hclose
  split
  · exact .inl rfl
  · exact .inr rfl

end Container

theorem Builds.item {ts : List Token} {d : Document} (h : Builds ts d) : arrays.Adds ts d :=
  fun items frames e root trailing he ↦ h ⟨.array items :: frames, e, root, trailing⟩ he

theorem Builds.member {ts : List Token} {d : Document} (h : Builds ts d) (k : Option String) :
    objects.Adds (.string k :: .colon :: ts) (.ofText? k, d) := by
  intro members frames e root trailing he
  have hkey : step ⟨.object members :: frames, e, root, trailing⟩ (.string k) =
      ⟨.member members (.ofText? k) :: frames, .colon, root, trailing⟩ := by
    rcases he with rfl | rfl <;> cases k <;> rfl
  have hvalue := h ⟨.member members (.ofText? k) :: frames, .value, root, trailing⟩ (.inr rfl)
  rw [List.foldl_cons, List.foldl_cons]
  exact (congrArg (fun b : Builder ↦ ts.foldl step (b.step .colon)) hkey).trans hvalue

end Builder

namespace Value

open Builder

mutual

theorem builds : (v : Value) → Builds v.tokens v.document
  | .null => by rintro ⟨frames, e, root, trailing⟩ (rfl | rfl) <;> rfl
  | .bool b => by rintro ⟨frames, e, root, trailing⟩ (rfl | rfl) <;> rfl
  | .integer n => by rintro ⟨frames, e, root, trailing⟩ (rfl | rfl) <;> rfl
  | .string s => by rintro ⟨frames, e, root, trailing⟩ (rfl | rfl) <;> rfl
  | .array items => Container.builds (buildsItems items)
  | .object members => Container.builds (buildsMembers members)

theorem buildsItems : (items : List Value) →
    List.Forall₂ arrays.Adds (itemTokens items) (itemDocuments items)
  | [] => .nil
  | v :: vs => .cons (builds v).item (buildsItems vs)

theorem buildsMembers : (members : List (String × Value)) →
    List.Forall₂ objects.Adds (memberTokens members) (memberDocuments members)
  | [] => .nil
  | (k, v) :: rest => .cons ((builds v).member (some k)) (buildsMembers rest)

end

/-- Parsing finds the document of a value in its text, and nothing behind it. -/
theorem parse_text (v : Value) : parse v.text = ⟨v.document, false⟩ := by
  have h : v.tokens.foldl step {} = place {} v.document := builds v {} (.inr rfl)
  rw [parse, parseTokens, tokens_text, h]
  rfl

end Value

end ThreeAddress.Json
