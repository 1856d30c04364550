import ThreeAddress.Proofs.Json.Parsing

namespace ThreeAddress.Json

/-- White space, possibly none. -/
structure Blanks where
  chars : List Char := []
  isBlank : ∀ c ∈ chars, Json.isBlank c := by exact List.forall_mem_nil _

/-- Decimal digits, at least one. -/
structure Digits where
  first : Char
  others : List Char := []
  isDigit : ∀ c ∈ first :: others, c.isDigit

namespace Digits

def chars (ds : Digits) : List Char := ds.first :: ds.others

def values (ds : Digits) : List Nat := ds.chars.map digitOf

end Digits

/-- The digits before the point. A zero stands alone. -/
inductive Whole where
  | zero
  | positive (digits : Digits) (h : digits.first ≠ '0')

namespace Whole

def chars : Whole → List Char
  | .zero => ['0']
  | .positive digits _ => digits.chars

def values : Whole → List Nat
  | .zero => [0]
  | .positive digits _ => digits.values

end Whole

/-- A power of ten. The flag says whether its sign, if it has one, is a minus. -/
structure Exponent where
  mark : Char := 'e'
  sign : Option Bool := none
  digits : Digits
  isMark : mark = 'e' ∨ mark = 'E' := by decide

def Exponent.chars (e : Exponent) : List Char :=
  match e.sign with
  | none => e.mark :: e.digits.chars
  | some false => e.mark :: '+' :: e.digits.chars
  | some true => e.mark :: '-' :: e.digits.chars

/-- A number with its sign, fraction and exponent. -/
structure NumberText where
  negative : Bool := false
  whole : Whole
  fraction : Option Digits := none
  exponent : Option Exponent := none

namespace NumberText

def signChars (negative : Bool) : List Char := if negative then ['-'] else []

def fractionChars : Option Digits → List Char
  | none => []
  | some ds => '.' :: ds.chars

def exponentChars : Option Exponent → List Char
  | none => []
  | some e => e.chars

def chars (n : NumberText) : List Char :=
  signChars n.negative ++ n.whole.chars ++ fractionChars n.fraction ++ exponentChars n.exponent

def fractionValues : Option Digits → List Nat
  | none => []
  | some ds => ds.values

def numeral (n : NumberText) : Numeral where
  negative := n.negative
  whole := n.whole.values
  fraction := fractionValues n.fraction
  exponent := n.exponent.map fun e ↦ (e.sign.getD false, e.digits.values)

end NumberText

/-- The letters that stand for a character behind a backslash. -/
def escapes : List (Char × Char) :=
  [('"', '"'), ('\\', '\\'), ('/', '/'), ('b', '\x08'), ('f', '\x0c'), ('n', '\n'), ('r', '\r'),
    ('t', '\t')]

structure HexDigit where
  char : Char
  value : Nat
  isHex : hexDigit? char = some value := by decide

/-- A part of a string literal: a character as it is, an escaped one, or the number of a UTF-16
unit. -/
inductive Piece where
  | raw (c : Char) (h : ¬ c < ' ' ∧ c ≠ '"' ∧ c ≠ '\\')
  | escaped (letter c : Char) (h : (letter, c) ∈ escapes)
  | unit (a b c d : HexDigit)

/-- What a part of a string literal stands for. -/
inductive Symbol where
  | char (c : Char)
  | unit (u : Nat)

namespace Piece

def chars : Piece → List Char
  | .raw c _ => [c]
  | .escaped letter _ _ => ['\\', letter]
  | .unit a b c d => ['\\', 'u', a.char, b.char, c.char, d.char]

def symbol : Piece → Symbol
  | .raw c _ | .escaped _ c _ => .char c
  | .unit a b c d => .unit (((a.value * 16 + b.value) * 16 + c.value) * 16 + d.value)

end Piece

def isHigh (u : Nat) : Bool := 0xD800 ≤ u && u ≤ 0xDBFF

def isLow (u : Nat) : Bool := 0xDC00 ≤ u && u ≤ 0xDFFF

/-- The characters of a string literal. Both halves of a surrogate pair have to be there. -/
def decode : List Symbol → Option (List Char)
  | [] => some []
  | .char c :: rest => (decode rest).map (c :: ·)
  | .unit u :: rest =>
    if isHigh u then
      match rest with
      | .unit l :: rest =>
        if isLow l then
          (decode rest).map (Char.ofNat (0x10000 + (u - 0xD800) * 0x400 + (l - 0xDC00)) :: ·)
        else none
      | _ => none
    else if isLow u then none
    else (decode rest).map (Char.ofNat u :: ·)

def quotedChars (pieces : List Piece) : List Char := '"' :: pieces.flatMap Piece.chars ++ ['"']

def literalText (pieces : List Piece) : Option String :=
  (decode (pieces.map Piece.symbol)).map String.ofList

def HexDigit.ofNat (n : Nat) : HexDigit :=
  ⟨Value.hexDigit n, n % 16, Lexer.hexDigit?_hexDigit n⟩

def Piece.ofChar (c : Char) : Piece :=
  if h : ¬ c < ' ' ∧ c ≠ '"' ∧ c ≠ '\\' then .raw c h
  else .unit (.ofNat 0) (.ofNat 0) (.ofNat (c.toNat / 16)) (.ofNat c.toNat)

theorem decode_unit {u : Nat} (hh : isHigh u = false) (hl : isLow u = false) (rest : List Symbol) :
    decode (.unit u :: rest) = (decode rest).map (Char.ofNat u :: ·) := by
  rw [decode.eq_def]
  simp only [hh, hl, Bool.false_eq_true, if_false]

theorem decode_ofChar (c : Char) (rest : List Symbol) :
    decode ((Piece.ofChar c).symbol :: rest) = (decode rest).map (c :: ·) := by
  unfold Piece.ofChar
  split
  · rfl
  · next h =>
    have hc : c.toNat < 128 := by
      by_contra hc
      refine h ⟨?_, ?_, ?_⟩
      · intro hlt
        have hlt : c.toNat < 32 := hlt
        omega
      · rintro rfl
        exact hc (by decide)
      · rintro rfl
        exact hc (by decide)
    have hunit :
        ((0 % 16 * 16 + 0 % 16) * 16 + c.toNat / 16 % 16) * 16 + c.toNat % 16 = c.toNat := by
      omega
    have hhigh : isHigh c.toNat = false := by
      simp only [isHigh, Bool.and_eq_false_iff, decide_eq_false_iff_not]
      omega
    have hlow : isLow c.toNat = false := by
      simp only [isLow, Bool.and_eq_false_iff, decide_eq_false_iff_not]
      omega
    simp only [Piece.symbol, HexDigit.ofNat, hunit]
    rw [decode_unit hhigh hlow, Char.ofNat_toNat]

def literal (s : String) : List Piece := s.toList.map Piece.ofChar

@[simp]
theorem literalText_literal (s : String) : literalText (literal s) = some s := by
  have h (cs : List Char) : decode ((cs.map Piece.ofChar).map Piece.symbol) = some cs := by
    induction cs with
    | nil => rfl
    | cons c cs ih => rw [List.map_cons, List.map_cons, decode_ofChar, ih, Option.map_some]
  rw [literalText, literal, h, Option.map_some, String.ofList_toList]

/-- The name of a member, with the white space around it. -/
structure KeyText where
  before : Blanks := {}
  pieces : List Piece
  after : Blanks := {}

/-- A way to write a value. White space inside of an empty container stands in `blanks`. -/
inductive Source where
  | null
  | bool (value : Bool)
  | number (n : NumberText)
  | string (pieces : List Piece)
  | array (blanks : Blanks) (items : List Source)
  | object (blanks : Blanks) (members : List (KeyText × Source))
  | padded (before : Blanks) (inner : Source) (after : Blanks)

namespace Source

mutual

def chars : Source → List Char
  | .null => ['n', 'u', 'l', 'l']
  | .bool true => ['t', 'r', 'u', 'e']
  | .bool false => ['f', 'a', 'l', 's', 'e']
  | .number n => n.chars
  | .string pieces => quotedChars pieces
  | .array blanks items => '[' :: blanks.chars ++ [','].intercalate (itemChars items) ++ [']']
  | .object blanks members =>
    '\x7b' :: blanks.chars ++ [','].intercalate (memberChars members) ++ ['\x7d']
  | .padded before inner after => before.chars ++ inner.chars ++ after.chars

def itemChars : List Source → List (List Char)
  | [] => []
  | s :: rest => s.chars :: itemChars rest

def memberChars : List (KeyText × Source) → List (List Char)
  | [] => []
  | (k, s) :: rest =>
    (k.before.chars ++ quotedChars k.pieces ++ k.after.chars ++ ':' :: s.chars) :: memberChars rest

end

def text (s : Source) : String := String.ofList s.chars

mutual

def tokens : Source → List Token
  | .null => [.null]
  | .bool b => [.bool b]
  | .number n => [.number n.numeral]
  | .string pieces => [.string (literalText pieces)]
  | .array _ items => .openBracket :: [.comma].intercalate (itemTokens items) ++ [.closeBracket]
  | .object _ members => .openBrace :: [.comma].intercalate (memberTokens members) ++ [.closeBrace]
  | .padded _ inner _ => inner.tokens

def itemTokens : List Source → List (List Token)
  | [] => []
  | s :: rest => s.tokens :: itemTokens rest

def memberTokens : List (KeyText × Source) → List (List Token)
  | [] => []
  | (k, s) :: rest => (.string (literalText k.pieces) :: .colon :: s.tokens) :: memberTokens rest

end

mutual

def document : Source → Document
  | .null => .null
  | .bool b => .bool b
  | .number n => .number n.numeral
  | .string pieces => .string (literalText pieces)
  | .array _ items => .array (itemDocuments items) true
  | .object _ members => .object (memberDocuments members) true
  | .padded _ inner _ => inner.document

def itemDocuments : List Source → List Document
  | [] => []
  | s :: rest => s.document :: itemDocuments rest

def memberDocuments : List (KeyText × Source) → List (Key × Document)
  | [] => []
  | (k, s) :: rest => (.ofText? (literalText k.pieces), s.document) :: memberDocuments rest

end

theorem complete_document : (s : Source) → s.document.complete = true
  | .null | .bool _ | .number _ | .string _ | .array _ _ | .object _ _ => rfl
  | .padded _ inner _ => inner.complete_document

end Source

namespace Lexer

variable {l : Lexer} {read : List Token}

theorem step_blank {c : Char} (h : isBlank c) : step ⟨.between, read⟩ c = ⟨.between, read⟩ := by
  simp [step, start, h]

theorem foldl_blanks (b : Blanks) (read : List Token) :
    b.chars.foldl step ⟨.between, read⟩ = ⟨.between, read⟩ := by
  obtain ⟨cs, h⟩ := b
  induction cs with
  | nil => rfl
  | cons c cs ih =>
    rw [List.foldl_cons, step_blank (h c List.mem_cons_self)]
    exact ih fun d hd ↦ h d (List.mem_cons_of_mem c hd)

/-- White space ends a number that is still open, and changes nothing else. -/
theorem Rests.blanks (h : Rests l read) (b : Blanks) : Rests (b.chars.foldl step l) read := by
  obtain ⟨cs, hcs⟩ := b
  cases cs with
  | nil => exact h
  | cons c cs =>
    have hc := hcs c List.mem_cons_self
    have hrest := foldl_blanks ⟨cs, fun d hd ↦ hcs d (List.mem_cons_of_mem c hd)⟩ read
    rw [List.foldl_cons, h.step_eq c (.inr (.inr (.inr hc))), step_blank hc, hrest]
    exact rests_between read

theorem foldl_stage (stage : Stage) (push : Numeral → Nat → Numeral)
    (hg : ∀ n c, c.isDigit → Numeral.grow n stage c = .more stage (push n (digitOf c)))
    (n : Numeral) {cs : List Char} (h : ∀ c ∈ cs, c.isDigit) (read : List Token) :
    cs.foldl step ⟨.number stage n, read⟩ =
      ⟨.number stage ((cs.map digitOf).foldl push n), read⟩ := by
  induction cs generalizing n with
  | nil => rfl
  | cons c cs ih =>
    have hstep : step ⟨.number stage n, read⟩ c = ⟨.number stage (push n (digitOf c)), read⟩ := by
      simp only [step, hg n c (h c List.mem_cons_self)]
    rw [List.foldl_cons, hstep, ih _ fun d hd ↦ h d (List.mem_cons_of_mem c hd)]
    rfl

theorem foldl_fraction (ds : List Nat) (n : Numeral) :
    ds.foldl (fun n d ↦ { n with fraction := d :: n.fraction }) n =
      { n with fraction := ds.reverse ++ n.fraction } := by
  induction ds generalizing n with
  | nil => rfl
  | cons d ds ih => simp [ih]

theorem foldl_pushExponent (ds : List Nat) {n : Numeral} {down : Bool} {before : List Nat}
    (h : n.exponent = some (down, before)) :
    ds.foldl Numeral.pushExponent n = { n with exponent := some (down, ds.reverse ++ before) } := by
  induction ds generalizing n before with
  | nil => simp [← h]
  | cons d ds ih =>
    have hpush : n.pushExponent d = { n with exponent := some (down, d :: before) } := by
      simp [Numeral.pushExponent, h]
    rw [List.foldl_cons, hpush, ih rfl]
    simp

theorem isDigit_iff {c : Char} : c.isDigit ↔ ∃ n < 10, c = Nat.digitChar n := by
  refine ⟨fun h ↦ ?_, ?_⟩
  · obtain ⟨hlow, hhigh⟩ : 48 ≤ c.toNat ∧ c.toNat ≤ 57 := by
      simpa [Char.isDigit, UInt32.le_iff_toNat_le] using h
    refine ⟨c.toNat - 48, by omega, ?_⟩
    have hc : c = Char.ofNat c.toNat := (Char.ofNat_toNat c).symm
    generalize c.toNat = n at *
    subst hc
    interval_cases n <;> rfl
  · rintro ⟨n, hn, rfl⟩
    interval_cases n <;> rfl

theorem foldl_whole (negative : Bool) (w : Whole) (read : List Token) :
    ∃ stage, (stage = .zero ∨ stage = .whole) ∧
      (NumberText.signChars negative ++ w.chars).foldl step ⟨.between, read⟩ =
        ⟨.number stage { negative, whole := w.values.reverse }, read⟩ := by
  cases w with
  | zero => exact ⟨.zero, .inl rfl, by cases negative <;> rfl⟩
  | positive digits h =>
    obtain ⟨first, others, hd⟩ := digits
    have hothers : ∀ c ∈ others, c.isDigit := fun c hc ↦ hd c (List.mem_cons_of_mem first hc)
    have hstart : (NumberText.signChars negative ++ [first]).foldl step ⟨.between, read⟩ =
        ⟨.number .whole { negative, whole := [digitOf first] }, read⟩ := by
      obtain ⟨n, hn, rfl⟩ := isDigit_iff.mp (hd first List.mem_cons_self)
      interval_cases n
      · exact absurd rfl h
      all_goals cases negative <;> rfl
    have hchars : NumberText.signChars negative ++ (first :: others) =
        (NumberText.signChars negative ++ [first]) ++ others := by simp
    refine ⟨.whole, .inr rfl, ?_⟩
    show (NumberText.signChars negative ++ (first :: others)).foldl step _ = _
    rw [hchars, List.foldl_append, hstart, foldl_digits _ hothers]
    simp [Whole.values, Digits.values, Digits.chars]

theorem foldl_fractionChars {stage : Stage} (hs : stage = .zero ∨ stage = .whole)
    (f : Option Digits) {n : Numeral} (hn : n.fraction = []) (read : List Token) :
    ∃ stage', (stage' = .zero ∨ stage' = .whole ∨ stage' = .fraction) ∧
      (NumberText.fractionChars f).foldl step ⟨.number stage n, read⟩ =
        ⟨.number stage' { n with fraction := (NumberText.fractionValues f).reverse }, read⟩ := by
  cases f with
  | none =>
    refine ⟨stage, by tauto, ?_⟩
    rw [NumberText.fractionValues, List.reverse_nil, ← hn]
    rfl
  | some ds =>
    obtain ⟨first, others, hd⟩ := ds
    have hpoint : step ⟨.number stage n, read⟩ '.' = ⟨.number .point n, read⟩ := by
      rcases hs with rfl | rfl <;> rfl
    have hfirst : step ⟨.number .point n, read⟩ first =
        ⟨.number .fraction { n with fraction := [digitOf first] }, read⟩ := by
      have hdigit := digit?_of_isDigit (hd first List.mem_cons_self)
      simp only [step, Numeral.grow, hdigit, hn]
    have hothers := foldl_stage .fraction (fun n d ↦ { n with fraction := d :: n.fraction })
      (fun n c hc ↦ by simp only [Numeral.grow, digit?_of_isDigit hc])
      { n with fraction := [digitOf first] } (fun c hc ↦ hd c (List.mem_cons_of_mem first hc)) read
    refine ⟨.fraction, .inr (.inr rfl), ?_⟩
    rw [NumberText.fractionChars, Digits.chars, List.foldl_cons, hpoint, List.foldl_cons, hfirst,
      hothers, foldl_fraction]
    simp [NumberText.fractionValues, Digits.values, Digits.chars]

theorem foldl_exponentDigits {stage : Stage} (hs : stage = .mark ∨ stage = .sign) (ds : Digits)
    {n : Numeral} {down : Bool} (hn : n.exponent.getD (false, []) = (down, []))
    (read : List Token) :
    ds.chars.foldl step ⟨.number stage n, read⟩ =
      ⟨.number .exponent { n with exponent := some (down, ds.values.reverse) }, read⟩ := by
  obtain ⟨first, others, hd⟩ := ds
  have hpush : n.pushExponent (digitOf first) =
      { n with exponent := some (down, [digitOf first]) } := by
    cases he : n.exponent with
    | none =>
      rw [he] at hn
      obtain ⟨rfl, -⟩ := Prod.mk.inj hn
      simp [Numeral.pushExponent, he]
    | some e =>
      rw [he] at hn
      obtain rfl : e = (down, []) := hn
      simp [Numeral.pushExponent, he]
  have hfirst : step ⟨.number stage n, read⟩ first =
      ⟨.number .exponent (n.pushExponent (digitOf first)), read⟩ := by
    have hdigit := digit?_of_isDigit (hd first List.mem_cons_self)
    rcases hs with rfl | rfl <;> simp only [step, Numeral.grow, hdigit]
  have hothers := foldl_stage .exponent Numeral.pushExponent
    (fun n c hc ↦ by simp only [Numeral.grow, digit?_of_isDigit hc])
    { n with exponent := some (down, [digitOf first]) }
    (fun c hc ↦ hd c (List.mem_cons_of_mem first hc)) read
  rw [Digits.chars, List.foldl_cons, hfirst, hpush, hothers, foldl_pushExponent _ rfl]
  simp [Digits.values, Digits.chars]

theorem foldl_exponent {stage : Stage} (hs : stage = .zero ∨ stage = .whole ∨ stage = .fraction)
    (e : Exponent) {n : Numeral} (hn : n.exponent = none) (read : List Token) :
    e.chars.foldl step ⟨.number stage n, read⟩ =
      ⟨.number .exponent
        { n with exponent := some (e.sign.getD false, e.digits.values.reverse) }, read⟩ := by
  obtain ⟨mark, sign, ds, hmark⟩ := e
  have hstart : step ⟨.number stage n, read⟩ mark = ⟨.number .mark n, read⟩ := by
    rcases hs with rfl | rfl | rfl <;> rcases hmark with rfl | rfl <;> rfl
  cases sign with
  | none =>
    show (mark :: ds.chars).foldl step _ = _
    rw [List.foldl_cons, hstart, foldl_exponentDigits (.inl rfl) ds (by rw [hn]; rfl)]
    rfl
  | some down =>
    have hsign : step ⟨.number .mark n, read⟩ (if down then '-' else '+') =
        ⟨.number .sign { n with exponent := some (down, []) }, read⟩ := by cases down <;> rfl
    have hchars : Exponent.chars ⟨mark, some down, ds, hmark⟩ =
        mark :: (if down then '-' else '+') :: ds.chars := by cases down <;> rfl
    rw [hchars, List.foldl_cons, hstart, List.foldl_cons, hsign,
      foldl_exponentDigits (.inr rfl) ds rfl]
    rfl

theorem rests_numberText (n : NumberText) (read : List Token) :
    Rests (n.chars.foldl step ⟨.between, read⟩) (.number n.numeral :: read) := by
  obtain ⟨negative, whole, fraction, exponent⟩ := n
  obtain ⟨stage₁, hs₁, hwhole⟩ := foldl_whole negative whole read
  obtain ⟨stage₂, hs₂, hfraction⟩ := foldl_fractionChars hs₁ fraction
    (n := { negative, whole := whole.values.reverse }) rfl read
  rw [NumberText.chars, List.foldl_append, List.foldl_append, hwhole, hfraction]
  cases exponent with
  | none =>
    have h := rests_number stage₂ (by rcases hs₂ with rfl | rfl | rfl <;> rfl)
      { negative, whole := whole.values.reverse,
        fraction := (NumberText.fractionValues fraction).reverse } read
    simpa [Numeral.ordered, NumberText.numeral, NumberText.exponentChars] using h
  | some e =>
    have h := rests_number .exponent rfl
      { negative, whole := whole.values.reverse,
        fraction := (NumberText.fractionValues fraction).reverse,
        exponent := some (e.sign.getD false, e.digits.values.reverse) } read
    rw [NumberText.exponentChars, foldl_exponent hs₂ e rfl]
    simpa [Numeral.ordered, NumberText.numeral] using h

def addSymbol (p : Partial) : Symbol → Partial
  | .char c => p.push c
  | .unit u => p.pushUnit u

theorem step_hexDigit (p : Partial) (left value : Nat) (d : HexDigit) (read : List Token) :
    step ⟨.hex p left value, read⟩ d.char =
      if left ≤ 1 then ⟨.text (p.pushUnit (value * 16 + d.value)), read⟩
      else ⟨.hex p (left - 1) (value * 16 + d.value), read⟩ := by
  simp only [step, d.isHex]

theorem foldl_piece (p : Partial) (piece : Piece) (read : List Token) :
    piece.chars.foldl step ⟨.text p, read⟩ = ⟨.text (addSymbol p piece.symbol), read⟩ := by
  cases piece with
  | raw c h =>
    obtain ⟨hcontrol, hquote, hslash⟩ := h
    simp only [Piece.chars, List.foldl_cons, List.foldl_nil, step, if_neg hquote, if_neg hslash,
      if_neg hcontrol]
    rfl
  | escaped letter c h =>
    simp only [escapes, List.mem_cons, Prod.mk.injEq, List.not_mem_nil, or_false] at h
    rcases h with ⟨rfl, rfl⟩ | ⟨rfl, rfl⟩ | ⟨rfl, rfl⟩ | ⟨rfl, rfl⟩ | ⟨rfl, rfl⟩ | ⟨rfl, rfl⟩ |
      ⟨rfl, rfl⟩ | ⟨rfl, rfl⟩ <;> rfl
  | unit a b c d =>
    have hstart : ['\\', 'u'].foldl step ⟨.text p, read⟩ = ⟨.hex p 4 0, read⟩ := rfl
    have hchars : (Piece.unit a b c d).chars =
        ['\\', 'u'] ++ [a.char, b.char, c.char, d.char] := rfl
    rw [hchars, List.foldl_append, hstart, List.foldl_cons, step_hexDigit, if_neg (by decide),
      List.foldl_cons, step_hexDigit, if_neg (by decide), List.foldl_cons, step_hexDigit,
      if_neg (by decide), List.foldl_cons, step_hexDigit, if_pos (by decide), Nat.zero_mul,
      Nat.zero_add]
    rfl

theorem foldl_pieces (pieces : List Piece) (p : Partial) (read : List Token) :
    (pieces.flatMap Piece.chars).foldl step ⟨.text p, read⟩ =
      ⟨.text ((pieces.map Piece.symbol).foldl addSymbol p), read⟩ := by
  induction pieces generalizing p with
  | nil => rfl
  | cons piece pieces ih =>
    rw [List.flatMap_cons, List.foldl_append, foldl_piece, ih]
    rfl

/-- Once a half of a surrogate pair stands alone, the literal has no text. -/
theorem text_unreadable (symbols : List Symbol) {p : Partial} (h : p.readable = false) :
    (symbols.foldl addSymbol p).text = none := by
  induction symbols generalizing p with
  | nil => simp [Partial.text, h]
  | cons symbol symbols ih =>
    apply ih
    cases symbol with
    | char c => simp [addSymbol, Partial.push, h]
    | unit u =>
      simp only [addSymbol, Partial.pushUnit]
      split
      · split <;> simp [h]
      · split
        · exact h
        · split <;> simp [h]

theorem addSymbol_high {u : Nat} (h : isHigh u) (cs : List Char) :
    addSymbol { chars := cs } (.unit u) = { chars := cs, high := some u } := if_pos h

theorem addSymbol_unit {u : Nat} (hh : ¬ isHigh u) (hl : ¬ isLow u) (cs : List Char) :
    addSymbol { chars := cs } (.unit u) = { chars := Char.ofNat u :: cs } :=
  (if_neg hh).trans (if_neg hl)

theorem text_decode (symbols : List Symbol) (cs : List Char) :
    (symbols.foldl addSymbol { chars := cs }).text =
      (decode symbols).map fun ds ↦ String.ofList (cs.reverse ++ ds) := by
  fun_induction decode symbols generalizing cs with
  | case1 => simp [Partial.text]
  | case2 c rest ih =>
    have hpush : addSymbol { chars := cs } (.char c) = { chars := c :: cs } := rfl
    rw [List.foldl_cons, hpush, ih]
    simp [Function.comp_def]
  | case3 u hu l rest hl ih =>
    have hjoined : addSymbol { chars := cs, high := some u } (.unit l) =
        { chars := Char.ofNat (0x10000 + (u - 0xD800) * 0x400 + (l - 0xDC00)) :: cs } := if_pos hl
    rw [List.foldl_cons, addSymbol_high hu, List.foldl_cons, hjoined, ih]
    simp [Function.comp_def]
  | case4 u hu l rest hl =>
    have halone : addSymbol { chars := cs, high := some u } (.unit l) =
        { chars := cs, readable := false } := if_neg hl
    rw [List.foldl_cons, addSymbol_high hu, List.foldl_cons, halone]
    exact text_unreadable rest rfl
  | case5 u rest hu hrest =>
    rw [List.foldl_cons, addSymbol_high hu]
    cases rest with
    | nil => rfl
    | cons next rest =>
      cases next with
      | char c => exact text_unreadable rest rfl
      | unit l => exact absurd rfl (hrest l rest)
  | case6 u rest hu hl =>
    have halone : addSymbol { chars := cs } (.unit u) = { chars := cs, readable := false } :=
      (if_neg hu).trans (if_pos hl)
    rw [List.foldl_cons, halone]
    exact text_unreadable rest rfl
  | case7 u rest hu hl ih =>
    rw [List.foldl_cons, addSymbol_unit hu hl, ih]
    simp [Function.comp_def]

theorem foldl_quotedChars (pieces : List Piece) (read : List Token) :
    (quotedChars pieces).foldl step ⟨.between, read⟩ =
      ⟨.between, .string (literalText pieces) :: read⟩ := by
  have hstart : step ⟨.between, read⟩ '"' = ⟨.text {}, read⟩ := rfl
  have htext := text_decode (pieces.map Piece.symbol) []
  rw [quotedChars, List.cons_append, List.foldl_cons, hstart, List.foldl_append, foldl_pieces,
    List.foldl_cons, List.foldl_nil]
  simp only [step, if_pos, emit, htext]
  simp [literalText]

end Lexer

namespace Source

open Lexer Builder

theorem lexes_member (k : KeyText) {s : Source} (h : Lexes s.chars s.tokens) :
    Lexes (k.before.chars ++ quotedChars k.pieces ++ k.after.chars ++ ':' :: s.chars)
      (.string (literalText k.pieces) :: .colon :: s.tokens) := by
  intro read
  have hcolon : step ⟨.between, .string (literalText k.pieces) :: read⟩ ':' =
      ⟨.between, .colon :: .string (literalText k.pieces) :: read⟩ := rfl
  rw [List.foldl_append, List.foldl_append, List.foldl_append, foldl_blanks, foldl_quotedChars,
    foldl_blanks, List.foldl_cons, hcolon]
  simpa using h (.colon :: .string (literalText k.pieces) :: read)

mutual

/-- The lexer reads the tokens of a source from its text. -/
theorem lexes : (s : Source) → Lexes s.chars s.tokens
  | .null => fun read ↦ rests_between (.null :: read)
  | .bool true => fun read ↦ rests_between (.bool true :: read)
  | .bool false => fun read ↦ rests_between (.bool false :: read)
  | .number n => fun read ↦ rests_numberText n read
  | .string pieces => by
    intro read
    rw [chars, foldl_quotedChars]
    exact rests_between (.string (literalText pieces) :: read)
  | .array blanks items => by
    intro read
    have hopen : step ⟨.between, read⟩ '[' = ⟨.between, .openBracket :: read⟩ := rfl
    have hitems := Lexes.separated (lexesItems items) (.openBracket :: read)
    rw [chars, List.cons_append, List.cons_append, List.foldl_cons, hopen, List.foldl_append,
      List.foldl_append, foldl_blanks, List.foldl_cons, hitems.closeBracket, tokens]
    simpa using rests_between _
  | .object blanks members => by
    intro read
    have hopen : step ⟨.between, read⟩ '\x7b' = ⟨.between, .openBrace :: read⟩ := rfl
    have hmembers := Lexes.separated (lexesMembers members) (.openBrace :: read)
    rw [chars, List.cons_append, List.cons_append, List.foldl_cons, hopen, List.foldl_append,
      List.foldl_append, foldl_blanks, List.foldl_cons, hmembers.closeBrace, tokens]
    simpa using rests_between _
  | .padded before inner after => by
    intro read
    rw [chars, List.foldl_append, List.foldl_append, foldl_blanks]
    exact (lexes inner read).blanks after

theorem lexesItems : (items : List Source) →
    List.Forall₂ Lexes (itemChars items) (itemTokens items)
  | [] => .nil
  | s :: rest => .cons (lexes s) (lexesItems rest)

theorem lexesMembers : (members : List (KeyText × Source)) →
    List.Forall₂ Lexes (memberChars members) (memberTokens members)
  | [] => .nil
  | (k, s) :: rest => .cons (lexes_member k (lexes s)) (lexesMembers rest)

end

mutual

theorem builds : (s : Source) → Builds s.tokens s.document
  | .null => Value.builds .null
  | .bool b => Value.builds (.bool b)
  | .number n => by rintro ⟨frames, e, root, trailing⟩ (rfl | rfl) <;> rfl
  | .string pieces => by rintro ⟨frames, e, root, trailing⟩ (rfl | rfl) <;> rfl
  | .array _ items => Container.builds (buildsItems items)
  | .object _ members => Container.builds (buildsMembers members)
  | .padded _ inner _ => builds inner

theorem buildsItems : (items : List Source) →
    List.Forall₂ arrays.Adds (itemTokens items) (itemDocuments items)
  | [] => .nil
  | s :: rest => .cons (builds s).item (buildsItems rest)

theorem buildsMembers : (members : List (KeyText × Source)) →
    List.Forall₂ objects.Adds (memberTokens members) (memberDocuments members)
  | [] => .nil
  | (k, s) :: rest => .cons ((builds s).member (literalText k.pieces)) (buildsMembers rest)

end

theorem parse_text (s : Source) : parse s.text = ⟨s.document, false⟩ := by
  have htokens : Json.tokens s.text.toList = s.tokens := by
    have h := (lexes s []).finish_eq
    rw [List.append_nil, List.reverse_reverse] at h
    rw [text, String.toList_ofList]
    exact h
  have hbuild : s.tokens.foldl Builder.step {} = place {} s.document := builds s {} (.inr rfl)
  rw [parse, parseTokens, htokens, hbuild]
  rfl

end Source

end ThreeAddress.Json
