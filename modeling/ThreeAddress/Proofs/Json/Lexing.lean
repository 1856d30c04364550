import Mathlib.Data.List.Basic
import Mathlib.Tactic.IntervalCases
import ThreeAddress.Json.Token
import ThreeAddress.Json.Value

namespace ThreeAddress.Json

def digitOf (c : Char) : Nat := c.toNat - '0'.toNat

def Numeral.ofInt (n : Int) : Numeral where
  negative := n < 0
  whole := (Nat.toDigits 10 n.natAbs).map digitOf

namespace Value

mutual

def tokens : Value → List Token
  | .null => [.null]
  | .bool b => [.bool b]
  | .integer n => [.number (.ofInt n)]
  | .string s => [.string (some s)]
  | .array items => .openBracket :: [.comma].intercalate (itemTokens items) ++ [.closeBracket]
  | .object members => .openBrace :: [.comma].intercalate (memberTokens members) ++ [.closeBrace]

def itemTokens : List Value → List (List Token)
  | [] => []
  | v :: vs => v.tokens :: itemTokens vs

def memberTokens : List (String × Value) → List (List Token)
  | [] => []
  | (k, v) :: rest => (.string (some k) :: .colon :: v.tokens) :: memberTokens rest

end

end Value

/-- What can follow a value inside of a container, white space included. -/
def Delimits (c : Char) : Prop := c = ',' ∨ c = ']' ∨ c = '\x7d' ∨ isBlank c

namespace Lexer

/-- The lexer has read the tokens, newest first, if nothing but a delimiter or the end follows. -/
structure Rests (l : Lexer) (read : List Token) : Prop where
  finish_eq : l.finish = read.reverse
  step_eq : ∀ c, Delimits c → l.step c = step ⟨.between, read⟩ c

variable {l : Lexer} {read : List Token}

theorem rests_between (read : List Token) : Rests ⟨.between, read⟩ read := ⟨rfl, fun _ _ ↦ rfl⟩

namespace Rests

theorem comma (h : Rests l read) : l.step ',' = ⟨.between, .comma :: read⟩ :=
  h.step_eq ',' (.inl rfl)

theorem closeBracket (h : Rests l read) : l.step ']' = ⟨.between, .closeBracket :: read⟩ :=
  h.step_eq ']' (.inr (.inl rfl))

theorem closeBrace (h : Rests l read) : l.step '\x7d' = ⟨.between, .closeBrace :: read⟩ :=
  h.step_eq '\x7d' (.inr (.inr (.inl rfl)))

end Rests

theorem digit?_of_isDigit {c : Char} (h : c.isDigit) : digit? c = some (digitOf c) := by
  have hc : ('0' ≤ c && c ≤ '9') = true := h
  rw [digit?, hc]
  rfl

theorem isBlank_iff {c : Char} : isBlank c ↔ c = ' ' ∨ c = '\n' ∨ c = '\t' ∨ c = '\r' := by
  simp [isBlank, or_assoc]

theorem rests_number (stage : Stage) (hs : stage.complete) (n : Numeral) (read : List Token) :
    Rests ⟨.number stage n, read⟩ (.number n.ordered :: read) := by
  constructor
  · simp only [finish, if_pos hs, emit]
  · intro c hc
    have hg : n.grow stage c = .ended := by
      rw [Delimits, isBlank_iff] at hc
      rcases hc with rfl | rfl | rfl | rfl | rfl | rfl | rfl <;> cases stage <;>
        first | rfl | cases hs
    simp only [step, hg]
    rfl

theorem foldl_digits (n : Numeral) {cs : List Char} (h : ∀ c ∈ cs, c.isDigit) :
    cs.foldl step ⟨.number .whole n, read⟩ =
      ⟨.number .whole { n with whole := (cs.map digitOf).reverse ++ n.whole }, read⟩ := by
  induction cs generalizing n with
  | nil => rfl
  | cons c cs ih =>
    have hg : n.grow .whole c = .more .whole { n with whole := digitOf c :: n.whole } := by
      simp only [Numeral.grow, digit?_of_isDigit (h c List.mem_cons_self)]
    have hstep : step ⟨.number .whole n, read⟩ c =
        ⟨.number .whole { n with whole := digitOf c :: n.whole }, read⟩ := by
      simp only [step, hg]
    rw [List.foldl_cons, hstep, ih _ fun d hd ↦ h d (List.mem_cons_of_mem c hd)]
    simp

theorem toDigits_eq_cons {n : Nat} (hn : 0 < n) :
    ∃ d cs, Nat.toDigits 10 n = d.digitChar :: cs ∧ 0 < d ∧ d < 10 := by
  induction n using Nat.strongRecOn with
  | _ n ih =>
    by_cases h : n < 10
    · exact ⟨n, [], Nat.toDigits_of_lt_base h, hn, h⟩
    · have hle : 10 ≤ n := not_lt.mp h
      obtain ⟨d, cs, hcs, hd⟩ := ih (n / 10) (by omega) (by omega)
      refine ⟨d, cs ++ [(n % 10).digitChar], ?_, hd⟩
      rw [Nat.toDigits_of_base_le (by decide) hle, hcs, List.cons_append]

theorem foldl_positive {n : Nat} (hn : 0 < n) (numeral : Numeral)
    (hs : ∀ d, 0 < d → d < 10 →
      l.step d.digitChar = ⟨.number .whole { numeral with whole := [d] }, l.read⟩) :
    (Nat.toDigits 10 n).foldl step l =
      ⟨.number .whole { numeral with whole := ((Nat.toDigits 10 n).map digitOf).reverse },
        l.read⟩ := by
  obtain ⟨d, cs, hcs, hd, hd'⟩ := toDigits_eq_cons hn
  have hdigits : ∀ c ∈ cs, c.isDigit := fun c hc ↦
    Nat.isDigit_of_mem_toDigits (by decide) le_rfl (hcs ▸ List.mem_cons_of_mem _ hc)
  have hdigit : digitOf d.digitChar = d := Nat.toNat_digitChar_sub_48_of_lt_ten hd'
  rw [hcs, List.foldl_cons, hs d hd hd', foldl_digits _ hdigits]
  simp [hdigit]

theorem toList_toString (n : Nat) : (toString n).toList = Nat.toDigits 10 n := by
  rw [Nat.toString_eq_ofList_toDigits, String.toList_ofList]

theorem rests_integer (n : Int) (read : List Token) :
    Rests ((toString n).toList.foldl step ⟨.between, read⟩) (.number (.ofInt n) :: read) := by
  have hordered (negative : Bool) (ds : List Nat) :
      Numeral.ordered { negative, whole := ds.reverse } = { negative, whole := ds } := by
    simp [Numeral.ordered]
  cases n with
  | ofNat n =>
    have htext : (toString (Int.ofNat n)).toList = Nat.toDigits 10 n := toList_toString n
    rw [htext]
    by_cases hn : n = 0
    · subst hn
      exact rests_number .zero rfl { whole := [0] } read
    · rw [foldl_positive (Nat.pos_of_ne_zero hn) {} fun d hd hd' ↦ by interval_cases d <;> rfl]
      have h := rests_number .whole rfl
        ⟨false, ((Nat.toDigits 10 n).map digitOf).reverse, [], none⟩ read
      rwa [hordered] at h
  | negSucc n =>
    have hminus : step ⟨.between, read⟩ '-' = ⟨.number .minus { negative := true }, read⟩ := rfl
    have htext : (toString (Int.negSucc n)).toList = '-' :: Nat.toDigits 10 (n + 1) := by
      have happend : toString (Int.negSucc n) = "-" ++ toString (n + 1) := rfl
      rw [happend, String.toList_append, toList_toString]
      rfl
    have hnumeral : Numeral.ofInt (Int.negSucc n) =
        { negative := true, whole := (Nat.toDigits 10 (n + 1)).map digitOf } := by
      simp [Numeral.ofInt]
    rw [htext, List.foldl_cons, hminus, foldl_positive n.succ_pos { negative := true }
      fun d hd hd' ↦ by interval_cases d <;> rfl, hnumeral]
    have h := rests_number .whole rfl
      ⟨true, ((Nat.toDigits 10 (n + 1)).map digitOf).reverse, [], none⟩ read
    rwa [hordered] at h

theorem hexDigit?_hexDigit (n : Nat) : hexDigit? (Value.hexDigit n) = some (n % 16) := by
  have h (k : Nat) (hk : k < 16) : hexDigit? k.digitChar = some k := by
    interval_cases k <;> rfl
  exact h (n % 16) (Nat.mod_lt n (by decide))

theorem step_hex (p : Partial) (left value n : Nat) :
    step ⟨.hex p left value, read⟩ (Value.hexDigit n) =
      if left ≤ 1 then ⟨.text (p.pushUnit (value * 16 + n % 16)), read⟩
      else ⟨.hex p (left - 1) (value * 16 + n % 16), read⟩ := by
  simp only [step, hexDigit?_hexDigit]

theorem foldl_unit {c : Char} (hc : c < ' ') (cs : List Char) :
    ['\\', 'u', '0', '0', Value.hexDigit (c.toNat / 16), Value.hexDigit c.toNat].foldl step
      ⟨.text { chars := cs }, read⟩ = ⟨.text { chars := c :: cs }, read⟩ := by
  have hlt : c.toNat < 32 := hc
  have hvalue : (0 * 16 + c.toNat / 16 % 16) * 16 + c.toNat % 16 = c.toNat := by omega
  have hunit : Partial.pushUnit { chars := cs } c.toNat = { chars := c :: cs } := by
    have hhigh : (decide (0xD800 ≤ c.toNat) && decide (c.toNat ≤ 0xDBFF)) = false := by
      simp
      omega
    have hlow : (decide (0xDC00 ≤ c.toNat) && decide (c.toNat ≤ 0xDFFF)) = false := by
      simp
      omega
    simp only [Partial.pushUnit, hhigh, hlow, Char.ofNat_toNat]
    rfl
  have hstart : ['\\', 'u', '0', '0'].foldl step ⟨.text { chars := cs }, read⟩ =
      ⟨.hex { chars := cs } 2 0, read⟩ := rfl
  rw [show ['\\', 'u', '0', '0', Value.hexDigit (c.toNat / 16), Value.hexDigit c.toNat] =
    ['\\', 'u', '0', '0'] ++ [Value.hexDigit (c.toNat / 16), Value.hexDigit c.toNat] from rfl,
    List.foldl_append, hstart, List.foldl_cons, step_hex, if_neg (by decide), List.foldl_cons,
    step_hex, if_pos (by decide), hvalue, hunit]
  rfl

theorem foldl_escape (c : Char) (cs : List Char) :
    (Value.escape c).foldl step ⟨.text { chars := cs }, read⟩ =
      ⟨.text { chars := c :: cs }, read⟩ := by
  unfold Value.escape
  split_ifs with hquote hslash hb hf hn hr ht hcontrol
  · rw [hquote]
    rfl
  · rw [hslash]
    rfl
  · rw [hb]
    rfl
  · rw [hf]
    rfl
  · rw [hn]
    rfl
  · rw [hr]
    rfl
  · rw [ht]
    rfl
  · exact foldl_unit hcontrol cs
  · simp only [List.foldl_cons, List.foldl_nil, step, if_neg hquote, if_neg hslash, if_neg hcontrol]
    rfl

theorem foldl_escapes (s cs : List Char) :
    (s.flatMap Value.escape).foldl step ⟨.text { chars := cs }, read⟩ =
      ⟨.text { chars := s.reverse ++ cs }, read⟩ := by
  induction s generalizing cs with
  | nil => rfl
  | cons c s ih => rw [List.flatMap_cons, List.foldl_append, foldl_escape, ih, List.reverse_cons,
    List.append_assoc, List.singleton_append]

theorem foldl_quote (s : String) (read : List Token) :
    (Value.quote s).toList.foldl step ⟨.between, read⟩ = ⟨.between, .string (some s) :: read⟩ := by
  have hstart : step ⟨.between, read⟩ '"' = ⟨.text {}, read⟩ := rfl
  rw [Value.quote, String.toList_ofList, List.cons_append, List.foldl_cons, hstart,
    List.foldl_append, foldl_escapes]
  simp [step, emit, Partial.text]

/-- Wherever the text stands, the tokens are read from it. -/
def Lexes (cs : List Char) (ts : List Token) : Prop :=
  ∀ read, Rests (cs.foldl step ⟨.between, read⟩) (ts.reverse ++ read)

theorem Lexes.separated {texts : List (List Char)} {groups : List (List Token)}
    (h : List.Forall₂ Lexes texts groups) :
    Lexes ([','].intercalate texts) ([.comma].intercalate groups) := by
  induction h with
  | nil => exact fun read ↦ rests_between read
  | @cons cs ts texts groups h hs ih =>
    cases hs with
    | nil =>
      rw [List.intercalate_singleton, List.intercalate_singleton]
      exact h
    | cons h' hs =>
      intro read
      have hrest := ih (.comma :: (ts.reverse ++ read))
      rw [List.intercalate_cons_cons, List.intercalate_cons_cons, List.foldl_append,
        List.foldl_append, List.foldl_cons, (h read).comma]
      simpa using hrest

end Lexer

namespace Value

open Lexer

theorem toList_text_array (items : List Value) :
    (Value.array items).text.toList =
      '[' :: ([','].intercalate ((itemTexts items).map String.toList) ++ [']']) := by
  rw [text, String.toList_append, String.toList_append, String.toList_intercalate]
  rfl

theorem toList_text_object (members : List (String × Value)) :
    (Value.object members).text.toList =
      '\x7b' :: ([','].intercalate ((memberTexts members).map String.toList) ++ ['\x7d']) := by
  rw [text, String.toList_append, String.toList_append, String.toList_intercalate]
  rfl

theorem lexes_member {k : String} {v : Value} (h : Lexes v.text.toList v.tokens) :
    Lexes (quote k ++ ":" ++ v.text).toList (.string (some k) :: .colon :: v.tokens) := by
  intro read
  have hcolon : step ⟨.between, .string (some k) :: read⟩ ':' =
      ⟨.between, .colon :: .string (some k) :: read⟩ := rfl
  have hmark : ":".toList = [':'] := rfl
  rw [String.toList_append, String.toList_append, List.foldl_append, List.foldl_append, foldl_quote,
    hmark, List.foldl_cons, hcolon]
  simpa using h (.colon :: .string (some k) :: read)

mutual

/-- The lexer reads the tokens of a value from its text. -/
theorem lexes : (v : Value) → Lexes v.text.toList v.tokens
  | .null => fun read ↦ rests_between (.null :: read)
  | .bool true => fun read ↦ rests_between (.bool true :: read)
  | .bool false => fun read ↦ rests_between (.bool false :: read)
  | .integer n => fun read ↦ rests_integer n read
  | .string s => by
    intro read
    rw [text, foldl_quote]
    exact rests_between (.string (some s) :: read)
  | .array items => by
    intro read
    have hopen : step ⟨.between, read⟩ '[' = ⟨.between, .openBracket :: read⟩ := rfl
    have hitems := Lexes.separated (lexesItems items) (.openBracket :: read)
    rw [toList_text_array, List.foldl_cons, hopen, List.foldl_append, List.foldl_cons,
      hitems.closeBracket, tokens]
    simpa using rests_between _
  | .object members => by
    intro read
    have hopen : step ⟨.between, read⟩ '\x7b' = ⟨.between, .openBrace :: read⟩ := rfl
    have hmembers := Lexes.separated (lexesMembers members) (.openBrace :: read)
    rw [toList_text_object, List.foldl_cons, hopen, List.foldl_append, List.foldl_cons,
      hmembers.closeBrace, tokens]
    simpa using rests_between _

theorem lexesItems : (items : List Value) →
    List.Forall₂ Lexes ((itemTexts items).map String.toList) (itemTokens items)
  | [] => .nil
  | v :: vs => .cons (lexes v) (lexesItems vs)

theorem lexesMembers : (members : List (String × Value)) →
    List.Forall₂ Lexes ((memberTexts members).map String.toList) (memberTokens members)
  | [] => .nil
  | (_, v) :: rest => .cons (lexes_member (lexes v)) (lexesMembers rest)

end

theorem tokens_text (v : Value) : Json.tokens v.text.toList = v.tokens := by
  have h := (lexes v []).finish_eq
  rwa [List.append_nil, List.reverse_reverse] at h

end Value

end ThreeAddress.Json
