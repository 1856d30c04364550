import Mathlib.Tactic.IntervalCases
import ThreeAddress.Text.Quoted

namespace ThreeAddress.Text

/-- Where in an escape a reader is. -/
inductive Place where
  | plain
  | slash
  | brace
  | digits (n : Nat)

def hexValue (c : Char) : Nat :=
  if c.isDigit then c.toNat - '0'.toNat else c.toNat - 'a'.toNat + 10

def short (c : Char) : Char :=
  if c = '0' then '\x00' else if c = 't' then '\t' else if c = 'r' then '\r'
  else if c = 'n' then '\n' else c

def unescape : Place → List Char → Option (List Char)
  | .plain, [] => some []
  | .plain, c :: cs => if c = '\\' then unescape .slash cs else (unescape .plain cs).map (c :: ·)
  | .slash, c :: cs =>
    if c = 'u' then unescape .brace cs else (unescape .plain cs).map (short c :: ·)
  | .brace, _ :: cs => unescape (.digits 0) cs
  | .digits n, c :: cs =>
    if c = '\x7d' then (unescape .plain cs).map (Char.ofNat n :: ·)
    else unescape (.digits (n * 16 + hexValue c)) cs
  | _, [] => none

def unquote (cs : List Char) : Option String :=
  (unescape .plain cs.tail.dropLast).map String.ofList

theorem hexValue_digitChar {d : Nat} (h : d < 16) : hexValue d.digitChar = d := by
  interval_cases d <;> rfl

theorem mem_hex {c : Char} {n : Nat} (h : c ∈ hex n) : ∃ d < 16, c = d.digitChar := by
  induction n using Nat.strongRecOn with
  | ind n ih =>
    by_cases hn : n < 16
    · rw [hex, Nat.toDigits_of_lt_base hn, List.mem_singleton] at h
      exact ⟨n, hn, h⟩
    · rw [hex, Nat.toDigits_of_base_le (by decide) (by omega), List.mem_append,
        List.mem_singleton] at h
      rcases h with h | h
      · exact ih (n / 16) (by omega) h
      · exact ⟨n % 16, by omega, h⟩

theorem foldl_hex (n : Nat) : (hex n).foldl (fun n c ↦ n * 16 + hexValue c) 0 = n := by
  induction n using Nat.strongRecOn with
  | ind n ih =>
    by_cases hn : n < 16
    · rw [hex, Nat.toDigits_of_lt_base hn, List.foldl_cons, List.foldl_nil, hexValue_digitChar hn]
      omega
    · have hrest := ih (n / 16) (by omega)
      rw [hex] at hrest
      rw [hex, Nat.toDigits_of_base_le (by decide) (by omega), List.foldl_append, hrest,
        List.foldl_cons, List.foldl_nil, hexValue_digitChar (by omega)]
      omega

theorem unescape_digits {ds : List Char} (h : ∀ c ∈ ds, c ≠ '\x7d') (n : Nat) (cs : List Char) :
    unescape (.digits n) (ds ++ '\x7d' :: cs) =
      (unescape .plain cs).map (Char.ofNat (ds.foldl (fun n c ↦ n * 16 + hexValue c) n) :: ·) := by
  induction ds generalizing n with
  | nil => rw [List.nil_append, unescape, if_pos rfl, List.foldl_nil]
  | cons c ds ih =>
    rw [List.cons_append, unescape, if_neg (h c List.mem_cons_self),
      ih fun d hd ↦ h d (List.mem_cons_of_mem c hd), List.foldl_cons]

def shortEscapes : List (Char × Char) :=
  [('\x00', '0'), ('\t', 't'), ('\r', 'r'), ('\n', 'n'), ('\\', '\\'), ('"', '"')]

theorem escape_cases (c : Char) :
    (∃ letter, (c, letter) ∈ shortEscapes ∧ escape c = ['\\', letter]) ∨
    escape c = ['\\', 'u', '\x7b'] ++ hex c.toNat ++ ['\x7d'] ∨
    (c ≠ '\\' ∧ c ≠ '\n') ∧ escape c = [c] := by
  by_cases h : c ∈ shortEscapes.map Prod.fst
  · simp only [shortEscapes, List.map_cons, List.map_nil, List.mem_cons, List.not_mem_nil,
      or_false] at h
    rcases h with rfl | rfl | rfl | rfl | rfl | rfl <;> exact .inl ⟨_, by decide, rfl⟩
  · simp only [shortEscapes, List.map_cons, List.map_nil, List.mem_cons, List.not_mem_nil,
      or_false, not_or] at h
    obtain ⟨hnul, htab, hreturn, hnewline, hslash, hquote⟩ := h
    right
    by_cases hc : isHidden c
    · exact .inl (by simp [escape, hnul, htab, hreturn, hnewline, hslash, hquote, hc])
    · exact .inr ⟨⟨hslash, hnewline⟩,
        by simp [escape, hnul, htab, hreturn, hnewline, hslash, hquote, hc]⟩

theorem letter_of_mem :
    ∀ e ∈ shortEscapes, e.2 ≠ 'u' ∧ e.2 ≠ '\n' ∧ short e.2 = e.1 := by
  decide

/-- An escape is read as its character. -/
theorem unescape_escape (c : Char) (cs : List Char) :
    unescape .plain (escape c ++ cs) = (unescape .plain cs).map (c :: ·) := by
  obtain ⟨letter, hmem, he⟩ | he | ⟨⟨hslash, -⟩, he⟩ := escape_cases c
  · obtain ⟨hu, -, hshort⟩ := letter_of_mem _ hmem
    have hstart : unescape .plain (['\\', letter] ++ cs) = unescape .slash (letter :: cs) := by
      simp [unescape]
    rw [he, hstart, unescape, if_neg hu, hshort]
  · have hbrace : ∀ d ∈ hex c.toNat, d ≠ '\x7d' := by
      intro d hd
      obtain ⟨k, hk, rfl⟩ := mem_hex hd
      interval_cases k <;> decide
    have hstart : unescape .plain (['\\', 'u', '\x7b'] ++ hex c.toNat ++ ['\x7d'] ++ cs) =
        unescape (.digits 0) (hex c.toNat ++ '\x7d' :: cs) := by
      simp [unescape]
    rw [he, hstart, unescape_digits hbrace, foldl_hex, Char.ofNat_toNat]
  · rw [he, List.singleton_append, unescape, if_neg hslash]

theorem unescape_flatMap (cs : List Char) : unescape .plain (cs.flatMap escape) = some cs := by
  induction cs with
  | nil => rfl
  | cons c cs ih => rw [List.flatMap_cons, unescape_escape, ih, Option.map_some]

theorem unquote_quoted (s : String) : unquote (quoted s).toList = some s := by
  have hinner : (quoted s).toList.tail.dropLast = s.toList.flatMap escape := by
    simp [quoted]
  rw [unquote, hinner, unescape_flatMap, Option.map_some, String.ofList_toList]

theorem newline_not_mem_escape (c : Char) : '\n' ∉ escape c := by
  obtain ⟨letter, hmem, he⟩ | he | ⟨⟨-, hnewline⟩, he⟩ := escape_cases c
  · obtain ⟨-, hletter, -⟩ := letter_of_mem _ hmem
    simpa [he, eq_comm] using hletter
  · have hhex : '\n' ∉ hex c.toNat := by
      intro hmem
      obtain ⟨k, hk, hc⟩ := mem_hex hmem
      interval_cases k <;> cases hc
    simp [he, hhex]
  · simpa [he, eq_comm] using hnewline

theorem newline_not_mem_quoted (s : String) : '\n' ∉ (quoted s).toList := by
  simp [quoted, newline_not_mem_escape]

end ThreeAddress.Text
