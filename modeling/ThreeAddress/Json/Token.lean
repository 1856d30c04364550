import ThreeAddress.Json.Numeral

namespace ThreeAddress.Json

/-- A token. A string literal with an unpaired surrogate is well formed but stands for no text. -/
inductive Token where
  | openBrace
  | closeBrace
  | openBracket
  | closeBracket
  | colon
  | comma
  | null
  | bool (value : Bool)
  | number (n : Numeral)
  | string (text : Option String)
  | broken
deriving DecidableEq

/-- A string literal read so far: its characters, newest first, and the first half of a surrogate
pair that waits for the second. -/
structure Partial where
  chars : List Char := []
  high : Option Nat := none
  readable : Bool := true
deriving DecidableEq

namespace Partial

def push (p : Partial) (c : Char) : Partial :=
  { chars := c :: p.chars, high := none, readable := p.readable && p.high.isNone }

/-- Adds the UTF-16 unit of a numeric escape. -/
def pushUnit (p : Partial) (u : Nat) : Partial :=
  match p.high with
  | some h =>
    if 0xDC00 ≤ u && u ≤ 0xDFFF then
      { p with
        chars := Char.ofNat (0x10000 + (h - 0xD800) * 0x400 + (u - 0xDC00)) :: p.chars
        high := none }
    else { p with high := none, readable := false }
  | none =>
    if 0xD800 ≤ u && u ≤ 0xDBFF then { p with high := some u }
    else if 0xDC00 ≤ u && u ≤ 0xDFFF then { p with readable := false }
    else { p with chars := Char.ofNat u :: p.chars }

def text (p : Partial) : Option String :=
  if p.readable && p.high.isNone then some (String.ofList p.chars.reverse) else none

end Partial

/-- How much of a number literal has been read. -/
inductive Stage where
  | minus
  | zero
  | whole
  | point
  | fraction
  | mark
  | sign
  | exponent
deriving DecidableEq

/-- Whether a number literal may end here. -/
def Stage.complete : Stage → Bool
  | .zero | .whole | .fraction | .exponent => true
  | .minus | .point | .mark | .sign => false

def digit? (c : Char) : Option Nat :=
  if '0' ≤ c && c ≤ '9' then some (c.toNat - '0'.toNat) else none

def hexDigit? (c : Char) : Option Nat :=
  if '0' ≤ c && c ≤ '9' then some (c.toNat - '0'.toNat)
  else if 'a' ≤ c && c ≤ 'f' then some (c.toNat - 'a'.toNat + 10)
  else if 'A' ≤ c && c ≤ 'F' then some (c.toNat - 'A'.toNat + 10)
  else none

def isBlank (c : Char) : Bool :=
  c = ' ' || c = '\n' || c = '\t' || c = '\r'

/-- What a character does to a number literal: carries it on, ends it before the character, or
spoils it. -/
inductive Growth where
  | more (stage : Stage) (n : Numeral)
  | ended
  | spoiled

namespace Numeral

/-- Digits are kept newest first while a literal is read. -/
def pushExponent (n : Numeral) (d : Nat) : Numeral :=
  match n.exponent with
  | none => { n with exponent := some (false, [d]) }
  | some (down, digits) => { n with exponent := some (down, d :: digits) }

def grow (n : Numeral) (stage : Stage) (c : Char) : Growth :=
  match stage, digit? c with
  | .minus, some 0 => .more .zero { n with whole := [0] }
  | .minus, some d => .more .whole { n with whole := [d] }
  | .zero, some _ => .spoiled
  | .whole, some d => .more .whole { n with whole := d :: n.whole }
  | .point, some d => .more .fraction { n with fraction := d :: n.fraction }
  | .fraction, some d => .more .fraction { n with fraction := d :: n.fraction }
  | .mark, some d | .sign, some d | .exponent, some d => .more .exponent (n.pushExponent d)
  | .mark, none =>
    if c = '+' then .more .sign { n with exponent := some (false, []) }
    else if c = '-' then .more .sign { n with exponent := some (true, []) }
    else .spoiled
  | .zero, none | .whole, none =>
    if c = '.' then .more .point n
    else if c = 'e' || c = 'E' then .more .mark n
    else .ended
  | .fraction, none => if c = 'e' || c = 'E' then .more .mark n else .ended
  | .exponent, none => .ended
  | .minus, none | .point, none | .sign, none => .spoiled

def ordered (n : Numeral) : Numeral :=
  { n with
    whole := n.whole.reverse
    fraction := n.fraction.reverse
    exponent := n.exponent.map fun e => (e.1, e.2.reverse) }

end Numeral

/-- What the lexer is in the middle of. -/
inductive Mode where
  | between
  | word (left : List Char) (token : Token)
  | text (p : Partial)
  | escape (p : Partial)
  | hex (p : Partial) (left : Nat) (value : Nat)
  | number (stage : Stage) (n : Numeral)
  | stopped

/-- The lexer's state, with the tokens read so far, newest first. -/
structure Lexer where
  mode : Mode := .between
  read : List Token := []

namespace Lexer

def emit (l : Lexer) (t : Token) : Lexer :=
  { mode := .between, read := t :: l.read }

def stop (l : Lexer) : Lexer :=
  { mode := .stopped, read := .broken :: l.read }

def start (l : Lexer) (c : Char) : Lexer :=
  if isBlank c then { l with mode := .between }
  else match c with
  | '\x7b' => l.emit .openBrace
  | '\x7d' => l.emit .closeBrace
  | '[' => l.emit .openBracket
  | ']' => l.emit .closeBracket
  | ':' => l.emit .colon
  | ',' => l.emit .comma
  | 'n' => { l with mode := .word ['u', 'l', 'l'] .null }
  | 't' => { l with mode := .word ['r', 'u', 'e'] (.bool true) }
  | 'f' => { l with mode := .word ['a', 'l', 's', 'e'] (.bool false) }
  | '"' => { l with mode := .text {} }
  | '-' => { l with mode := .number .minus { negative := true } }
  | '0' => { l with mode := .number .zero { whole := [0] } }
  | c =>
    match digit? c with
    | some d => { l with mode := .number .whole { whole := [d] } }
    | none => l.stop

def step (l : Lexer) (c : Char) : Lexer :=
  match l.mode with
  | .between => l.start c
  | .stopped => l
  | .word [] _ => l.stop
  | .word [last] t => if c = last then l.emit t else l.stop
  | .word (next :: left) t => if c = next then { l with mode := .word left t } else l.stop
  | .text p =>
    if c = '"' then l.emit (.string p.text)
    else if c = '\\' then { l with mode := .escape p }
    else if c < ' ' then l.stop
    else { l with mode := .text (p.push c) }
  | .escape p =>
    match c with
    | '"' => { l with mode := .text (p.push '"') }
    | '\\' => { l with mode := .text (p.push '\\') }
    | '/' => { l with mode := .text (p.push '/') }
    | 'b' => { l with mode := .text (p.push '\x08') }
    | 'f' => { l with mode := .text (p.push '\x0c') }
    | 'n' => { l with mode := .text (p.push '\n') }
    | 'r' => { l with mode := .text (p.push '\r') }
    | 't' => { l with mode := .text (p.push '\t') }
    | 'u' => { l with mode := .hex p 4 0 }
    | _ => l.stop
  | .hex p left value =>
    match hexDigit? c with
    | none => l.stop
    | some d =>
      if left ≤ 1 then { l with mode := .text (p.pushUnit (value * 16 + d)) }
      else { l with mode := .hex p (left - 1) (value * 16 + d) }
  | .number stage n =>
    match n.grow stage c with
    | .more stage n => { l with mode := .number stage n }
    | .ended => (l.emit (.number n.ordered)).start c
    | .spoiled => l.stop

/-- The tokens in reading order, once the text is at its end. -/
def finish (l : Lexer) : List Token :=
  match l.mode with
  | .between | .stopped => l.read.reverse
  | .number stage n =>
    (if stage.complete then l.emit (.number n.ordered) else l.stop).read.reverse
  | .word _ _ | .text _ | .escape _ | .hex _ _ _ => l.stop.read.reverse

end Lexer

def tokens (text : List Char) : List Token :=
  (text.foldl Lexer.step {}).finish

end ThreeAddress.Json
