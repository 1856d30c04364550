import ThreeAddress.Proofs.Code.Labels
import ThreeAddress.Proofs.Except
import ThreeAddress.Proofs.Text.Quoted

namespace ThreeAddress.Code

open Checked (BinaryOp UnaryOp)

def OneLine (s : String) : Prop := '\n' ∉ s.toList

/-- The names in an instruction can be told from the text around them. -/
def Instr.Legible : Instr → Prop
  | .vtable _ name | .instanceOf _ _ name | .checkClass _ name => OneLine name
  | .call _ callee => OneLine callee ∧ ∀ t : Temp, callee ≠ t.text
  | .jump l | .jumpIfZero _ l => OneLine l.stem
  | .label l => OneLine l.stem ∧ l.stem.toList.head? ≠ some ' '
  | _ => True

def Function.Legible (f : Function) : Prop :=
  OneLine f.name ∧ ∀ i ∈ f.body.toList, i.Legible

def Program.Legible (p : Program) : Prop := ∀ f ∈ p.functions, f.Legible

namespace Listing

def number (cs : List Char) : Nat × List Char :=
  (Nat.ofDigitChars 10 (cs.takeWhile Char.isDigit) 0, cs.dropWhile Char.isDigit)

def temp (cs : List Char) : Temp × List Char :=
  let (n, rest) := number cs.tail
  (⟨n⟩, rest)

/-- The number of a label is behind the last underscore. -/
def label (cs : List Char) : Label where
  stem := String.ofList (cs.reverse.dropWhile (· ≠ '_')).tail.reverse
  number := Nat.ofDigitChars 10 (cs.reverse.takeWhile (· ≠ '_')).reverse 0

def address (cs : List Char) : Temp × Int32 × List Char :=
  let (base, rest) := temp (cs.drop 2)
  let (n, behind) := number (rest.drop 3)
  (base, .ofInt (if rest.tail.head? = some '-' then -n else n), behind.tail)

def operators : List BinaryOp :=
  [.add, .subtract, .multiply, .divide, .modulo, .less, .lessEqual, .greater, .greaterEqual, .equal,
    .notEqual, .and, .or]

def operator (cs : List Char) : BinaryOp :=
  (operators.find? (·.text.toList = cs)).getD .add

def call (dst : Option Temp) (cs : List Char) : Instr :=
  let t := (temp cs).1
  if cs = t.text.toList then .callTemp dst t else .call dst (String.ofList cs)

def computed (dst : Temp) (cs : List Char) : Instr :=
  if cs.head?.any Char.isDigit then .constant dst (.ofInt (number cs).1)
  else match cs.head? with
    | some '%' =>
      let (left, rest) := temp cs
      if rest = [] then .copy dst left
      else
        let op := rest.tail.takeWhile (· ≠ ' ')
        .binary dst (operator op) left (temp (rest.tail.dropWhile (· ≠ ' ')).tail).1
    | some '!' => .unary dst .not (temp (cs.drop 2)).1
    | some '-' =>
      if cs.tail.head? = some ' ' then .unary dst .negate (temp (cs.drop 2)).1
      else .constant dst (.ofInt (-(number cs.tail).1))
    | some '"' => .string dst ((Text.unquote cs).getD "")
    | some 'V' => .vtable dst (String.ofList (cs.drop 6).dropLast)
    | some '*' =>
      let (base, offset, _) := address cs
      .load dst base offset
    | some 'c' => call (some dst) (cs.drop 5)
    | some 'n' => .newArray dst (temp (cs.drop 10)).1
    | _ =>
      let (object, rest) := temp (cs.drop 11)
      .instanceOf dst object (String.ofList (rest.drop 2))

def instr (cs : List Char) : Instr :=
  match cs.head? with
  | some '%' =>
    let (dst, rest) := temp cs
    computed dst (rest.drop 3)
  | some '*' =>
    let (base, offset, rest) := address cs
    .store (temp (rest.drop 3)).1 base offset
  | some 'p' => .param (temp (cs.drop 6)).1
  | some 'g' => .jump (label (cs.drop 5))
  | some 'i' =>
    let (value, rest) := temp (cs.drop 9)
    .jumpIfZero value (label (rest.drop 6))
  | some 'r' => .ret (if cs.drop 7 = [] then none else some (temp (cs.drop 7)).1)
  | _ =>
    match cs.tail.head? with
    | some 'a' => call none (cs.drop 5)
    | some 'l' =>
      let (object, rest) := temp (cs.drop 11)
      .checkClass object (String.ofList (rest.drop 2))
    | _ =>
      let (array, rest) := temp (cs.drop 12)
      .checkBounds array (temp (rest.drop 2)).1

def Ends (cs : List Char) : Prop := ∀ c, cs.head? = some c → c.isDigit = false

@[simp] theorem ends_nil : Ends [] := nofun

@[simp] theorem ends_cons {c : Char} {cs : List Char} : Ends (c :: cs) ↔ c.isDigit = false := by
  simp [Ends]

theorem isDigit_of_mem {n : Nat} {c : Char} (h : c ∈ Nat.toDigits 10 n) : c.isDigit :=
  Nat.isDigit_of_mem_toDigits (by decide) le_rfl h

theorem number_append (n : Nat) {cs : List Char} (h : Ends cs) :
    number (Nat.toDigits 10 n ++ cs) = (n, cs) := by
  have htake : cs.takeWhile Char.isDigit = [] := by
    cases cs with
    | nil => rfl
    | cons c cs => rw [List.takeWhile_cons, h c rfl, if_neg Bool.false_ne_true]
  have hdrop : cs.dropWhile Char.isDigit = cs := by
    cases cs with
    | nil => rfl
    | cons c cs => rw [List.dropWhile_cons, h c rfl, if_neg Bool.false_ne_true]
  rw [number, List.takeWhile_append_of_pos fun c ↦ isDigit_of_mem,
    List.dropWhile_append_of_pos fun c ↦ isDigit_of_mem, htake, hdrop, List.append_nil,
    Nat.ofDigitChars_ten_toDigits]

theorem toList_text (t : Temp) : t.text.toList = '%' :: Nat.toDigits 10 t.index := by
  simp [Temp.text]

@[simp] theorem temp_append (t : Temp) {cs : List Char} (h : Ends cs) :
    temp (t.text.toList ++ cs) = (t, cs) := by
  rw [toList_text, temp, List.cons_append, List.tail_cons, number_append t.index h]

@[simp] theorem temp_text (t : Temp) : temp t.text.toList = (t, []) := by
  simpa using temp_append t ends_nil

@[simp] theorem head?_text (t : Temp) : t.text.toList.head? = some '%' := by
  rw [toList_text]
  rfl

theorem label_text (l : Label) : label l.text.toList = l := by
  have hdigits : ∀ c ∈ (Nat.toDigits 10 l.number).reverse, (c ≠ '_' : Bool) := by
    intro c hc
    rw [List.mem_reverse] at hc
    have hne : c ≠ '_' := by
      rintro rfl
      exact Nat.underscore_not_in_toDigits hc
    simpa using hne
  have htext : l.text.toList.reverse =
      (Nat.toDigits 10 l.number).reverse ++ '_' :: l.stem.toList.reverse := by
    simp [Label.text]
  rw [label, htext, List.takeWhile_append_of_pos hdigits, List.dropWhile_append_of_pos hdigits]
  simp [Nat.ofDigitChars_ten_toDigits]

@[simp] theorem operator_text (op : BinaryOp) : operator op.text.toList = op := by
  cases op <;> decide

theorem call_text {dst : Option Temp} {callee : String} (h : ∀ t : Temp, callee ≠ t.text) :
    call dst callee.toList = .call dst callee := by
  rw [call, if_neg fun he ↦ h _ (String.toList_inj.mp he), String.ofList_toList]

theorem call_temp (dst : Option Temp) (t : Temp) : call dst t.text.toList = .callTemp dst t := by
  simp [call]

theorem toList_repr_of_neg {k : Int} (h : k < 0) :
    k.repr.toList = '-' :: Nat.toDigits 10 k.natAbs := by
  obtain ⟨n, rfl⟩ := Int.eq_negSucc_of_lt_zero h
  have happend : (Int.negSucc n).repr = "-" ++ toString (n + 1) := rfl
  simp [happend]

theorem toList_repr_of_nonneg {k : Int} (h : 0 ≤ k) :
    k.repr.toList = Nat.toDigits 10 k.natAbs := by
  obtain ⟨n, rfl⟩ := Int.eq_ofNat_of_zero_le h
  have htext : (n : Int).repr = toString n := rfl
  simp [htext]

theorem address_append {base : Temp} {offset : Int32} {a : String}
    (h : Code.address base offset = .ok a) (cs : List Char) :
    address (a.toList ++ cs) = (base, offset, cs) := by
  unfold Code.address at h
  split at h
  · next hneg =>
    split at h
    · cases h
    · obtain rfl := Except.ok.inj h
      have hdigits := toList_repr_of_nonneg (k := -offset.toInt) (by omega)
      simp [hdigits, address, number_append, abs_of_neg hneg]
  · next hpos =>
    obtain rfl := Except.ok.inj h
    have hdigits := toList_repr_of_nonneg (Int.not_lt.mp hpos)
    simp [hdigits, address, number_append, abs_of_nonneg (Int.not_lt.mp hpos)]

theorem head?_address {base : Temp} {offset : Int32} {a : String}
    (h : Code.address base offset = .ok a) : a.toList.head? = some '*' := by
  unfold Code.address at h
  split at h
  · split at h
    · cases h
    · obtain rfl := Except.ok.inj h
      simp
  · obtain rfl := Except.ok.inj h
    simp

theorem instr_computed (dst : Temp) (cs : List Char) :
    instr (dst.text.toList ++ ' ' :: '=' :: ' ' :: cs) = computed dst cs := by
  simp [instr]

theorem computed_address {dst base : Temp} {offset : Int32} {a : String}
    (h : Code.address base offset = .ok a) : computed dst a.toList = .load dst base offset := by
  have hread := address_append h []
  rw [List.append_nil] at hread
  simp [computed, head?_address h, hread]

theorem computed_number (dst : Temp) (k : Int32) :
    computed dst k.toInt.repr.toList = .constant dst k := by
  by_cases hk : k.toInt < 0
  · rw [toList_repr_of_neg hk]
    have hnumber := number_append k.toInt.natAbs ends_nil
    have hspace : (Nat.toDigits 10 k.toInt.natAbs).head? ≠ some ' ' := fun h ↦ by
      have hdigit := isDigit_of_mem (List.mem_of_head? h)
      exact absurd hdigit (by decide)
    rw [List.append_nil] at hnumber
    simp [computed, hspace, hnumber, abs_of_neg hk]
  · rw [toList_repr_of_nonneg (Int.not_lt.mp hk)]
    have hnumber := number_append k.toInt.natAbs ends_nil
    rw [List.append_nil] at hnumber
    have hdigit : (Nat.toDigits 10 k.toInt.natAbs).head?.any Char.isDigit := by
      cases hcs : Nat.toDigits 10 k.toInt.natAbs with
      | nil => exact absurd hcs Nat.toDigits_ne_nil
      | cons c cs => exact isDigit_of_mem (hcs ▸ List.mem_cons_self)
    simp [computed, hdigit, hnumber, abs_of_nonneg (Int.not_lt.mp hk)]

theorem computed_quoted (dst : Temp) (s : String) :
    computed dst (Text.quoted s).toList = .string dst s := by
  have hhead : (Text.quoted s).toList.head? = some '"' := by simp [Text.quoted]
  simp [computed, hhead, Text.unquote_quoted]

theorem computed_binary (dst : Temp) (op : BinaryOp) (left right : Temp) :
    computed dst (left.text.toList ++ ' ' :: (op.text.toList ++ ' ' :: right.text.toList)) =
      .binary dst op left right := by
  have htake : (op.text.toList ++ ' ' :: right.text.toList).takeWhile (fun c ↦ !decide (c = ' ')) =
      op.text.toList := by cases op <;> rfl
  have hdrop : (op.text.toList ++ ' ' :: right.text.toList).dropWhile (fun c ↦ !decide (c = ' ')) =
      ' ' :: right.text.toList := by cases op <;> rfl
  simp [computed, htake, hdrop]

theorem instr_text {i : Instr} {s : String} (h : i.text = .ok s) (hl : i.Legible)
    (hi : ∀ l, i ≠ .label l) : instr s.toList = i := by
  cases i with
  | copy dst src =>
    obtain rfl := Except.ok.inj h
    simp [instr_computed, computed]
  | binary dst op left right =>
    obtain rfl := Except.ok.inj h
    simp [instr_computed, computed_binary]
  | unary dst op src =>
    obtain rfl := Except.ok.inj h
    cases op <;> simp [instr_computed, computed, Checked.UnaryOp.text]
  | constant dst value =>
    obtain rfl := Except.ok.inj h
    simp [instr_computed, computed_number]
  | string dst value =>
    obtain rfl := Except.ok.inj h
    simp [instr_computed, computed_quoted]
  | vtable dst name =>
    obtain rfl := Except.ok.inj h
    simp [instr_computed, computed]
  | load dst base offset =>
    obtain ⟨a, ha, h⟩ := bind_eq_ok h
    obtain rfl := Except.ok.inj h
    simp [instr_computed, computed_address ha]
  | store src base offset =>
    obtain ⟨a, ha, h⟩ := bind_eq_ok h
    obtain rfl := Except.ok.inj h
    simp [instr, address_append ha, head?_address ha]
  | param value =>
    obtain rfl := Except.ok.inj h
    simp [instr]
  | call dst callee =>
    obtain rfl := Except.ok.inj h
    cases dst with
    | none => simp [instr, resultText, call_text hl.2]
    | some dst => simp [instr_computed, computed, resultText, call_text hl.2]
  | callTemp dst callee =>
    obtain rfl := Except.ok.inj h
    cases dst with
    | none => simp [instr, resultText, call_temp]
    | some dst => simp [instr_computed, computed, resultText, call_temp]
  | jump target =>
    obtain rfl := Except.ok.inj h
    simp [instr, label_text]
  | jumpIfZero value target =>
    obtain rfl := Except.ok.inj h
    simp [instr, label_text]
  | label l => exact absurd rfl (hi l)
  | ret value =>
    cases value with
    | none =>
      obtain rfl := Except.ok.inj h
      rfl
    | some value =>
      obtain rfl := Except.ok.inj h
      have hvalue : value.text.toList ≠ [] := fun he ↦ by simpa [he] using head?_text value
      simp [instr, hvalue]
  | newArray dst length =>
    obtain rfl := Except.ok.inj h
    simp [instr_computed, computed]
  | instanceOf dst object table =>
    obtain rfl := Except.ok.inj h
    simp [instr_computed, computed]
  | checkClass object table =>
    obtain rfl := Except.ok.inj h
    simp [instr]
  | checkBounds array index =>
    obtain rfl := Except.ok.inj h
    simp [instr]

def line (cs : List Char) : Instr :=
  if (cs.drop 4).head? = some ' ' then instr (cs.drop 8) else .label (label (cs.drop 4).dropLast)

theorem line_label {l : Label} (h : l.stem.toList.head? ≠ some ' ') :
    line ("    " ++ (l.text ++ ":")).toList = .label l := by
  have hhead : l.text.toList.head? ≠ some ' ' ∧ l.text.toList ≠ [] := by
    cases hs : l.stem.toList with
    | nil => simp [Label.text, hs]
    | cons c cs => simpa [Label.text, hs] using h
  have hhead' : (l.text.toList ++ [':']).head? ≠ some ' ' := by
    rw [List.head?_append_of_ne_nil _ hhead.2]
    exact hhead.1
  have hdrop : ("    " ++ (l.text ++ ":")).toList.drop 4 = l.text.toList ++ [':'] := by simp
  rw [line, hdrop, if_neg hhead', List.dropLast_concat, label_text]

theorem line_text {i : Instr} {s : String} (h : i.text = .ok s) (hl : i.Legible) :
    line (i.indent ++ s).toList = i := by
  by_cases hi : ∃ l, i = .label l
  · obtain ⟨l, rfl⟩ := hi
    obtain rfl := Except.ok.inj h
    exact line_label hl.2
  · have hindent : i.indent = "        " := by
      cases i with
      | label l => exact absurd ⟨l, rfl⟩ hi
      | _ => rfl
    have hread := instr_text h hl fun l hl ↦ hi ⟨l, hl⟩
    simp [line, hindent, hread]

theorem newline_not_mem_digits (n : Nat) : '\n' ∉ Nat.toDigits 10 n := fun h ↦
  absurd (isDigit_of_mem h) (by decide)

@[simp] theorem newline_not_mem_temp (t : Temp) : '\n' ∉ t.text.toList := by
  simp [toList_text, newline_not_mem_digits]

theorem newline_not_mem_repr (k : Int) : '\n' ∉ k.repr.toList := by
  by_cases hk : k < 0
  · simp [toList_repr_of_neg hk, newline_not_mem_digits]
  · simp [toList_repr_of_nonneg (Int.not_lt.mp hk), newline_not_mem_digits]

theorem newline_not_mem_label {l : Label} (h : OneLine l.stem) : '\n' ∉ l.text.toList := by
  have hstem : '\n' ∉ l.stem.toList := h
  simp [Label.text, hstem, newline_not_mem_digits]

theorem newline_not_mem_address {base : Temp} {offset : Int32} {a : String}
    (h : Code.address base offset = .ok a) : '\n' ∉ a.toList := by
  unfold Code.address at h
  split at h
  · split at h
    · cases h
    · obtain rfl := Except.ok.inj h
      simp [newline_not_mem_repr]
  · obtain rfl := Except.ok.inj h
    simp [newline_not_mem_repr]

theorem newline_not_mem_text {i : Instr} {s : String} (h : i.text = .ok s) (hl : i.Legible) :
    '\n' ∉ s.toList := by
  cases i with
  | load dst base offset =>
    obtain ⟨a, ha, h⟩ := bind_eq_ok h
    obtain rfl := Except.ok.inj h
    simp [newline_not_mem_address ha]
  | store src base offset =>
    obtain ⟨a, ha, h⟩ := bind_eq_ok h
    obtain rfl := Except.ok.inj h
    simp [newline_not_mem_address ha]
  | binary dst op left right =>
    obtain rfl := Except.ok.inj h
    cases op <;> simp [Checked.BinaryOp.text]
  | unary dst op src =>
    obtain rfl := Except.ok.inj h
    cases op <;> simp [Checked.UnaryOp.text]
  | ret value =>
    cases value <;> obtain rfl := Except.ok.inj h <;> simp
  | call dst callee =>
    obtain rfl := Except.ok.inj h
    have hname : '\n' ∉ callee.toList := hl.1
    cases dst <;> simp [resultText, hname]
  | callTemp dst callee =>
    obtain rfl := Except.ok.inj h
    cases dst <;> simp [resultText]
  | vtable dst name =>
    obtain rfl := Except.ok.inj h
    have hname : '\n' ∉ name.toList := hl
    simp [hname]
  | instanceOf dst object name =>
    obtain rfl := Except.ok.inj h
    have hname : '\n' ∉ name.toList := hl
    simp [hname]
  | checkClass object name =>
    obtain rfl := Except.ok.inj h
    have hname : '\n' ∉ name.toList := hl
    simp [hname]
  | jump l =>
    obtain rfl := Except.ok.inj h
    simp [newline_not_mem_label hl]
  | jumpIfZero value l =>
    obtain rfl := Except.ok.inj h
    simp [newline_not_mem_label hl]
  | label l =>
    obtain rfl := Except.ok.inj h
    simp [newline_not_mem_label hl.1]
  | _ =>
    obtain rfl := Except.ok.inj h
    simp [newline_not_mem_repr, Text.newline_not_mem_quoted]

def addChar (ts : List Temp) (c : Char) : List Temp :=
  if c = '%' then ⟨0⟩ :: ts
  else if c.isDigit then
    match ts with
    | t :: ts => ⟨10 * t.index + (c.toNat - '0'.toNat)⟩ :: ts
    | [] => []
  else ts

/-- The name and the parameters of a function. The parameters stand behind the last bracket. -/
def header (cs : List Char) : String × List Temp :=
  let inner := (cs.drop 9).dropLast.reverse
  (String.ofList (inner.dropWhile (· ≠ '(')).tail.reverse,
    ((inner.takeWhile (· ≠ '(')).reverse.foldl addChar []).reverse)

theorem foldl_addChar_digits {ds : List Char} (h : ∀ c ∈ ds, c.isDigit) (n : Nat) (ts : List Temp) :
    ds.foldl addChar (⟨n⟩ :: ts) = ⟨Nat.ofDigitChars 10 ds n⟩ :: ts := by
  induction ds generalizing n with
  | nil => rfl
  | cons c ds ih =>
    have hc : c.isDigit := h c List.mem_cons_self
    have hpercent : c ≠ '%' := by
      rintro rfl
      exact absurd hc (by decide)
    rw [List.foldl_cons, addChar, if_neg hpercent, if_pos hc]
    exact ih (fun d hd ↦ h d (List.mem_cons_of_mem c hd)) _

theorem foldl_addChar_temp (t : Temp) (ts : List Temp) :
    t.text.toList.foldl addChar ts = t :: ts := by
  have hstart : addChar ts '%' = ⟨0⟩ :: ts := if_pos rfl
  rw [toList_text, List.foldl_cons, hstart, foldl_addChar_digits fun c ↦ isDigit_of_mem,
    Nat.ofDigitChars_ten_toDigits]

def paramChars : List Temp → List Char
  | [] => []
  | [t] => t.text.toList
  | t :: u :: params => t.text.toList ++ [',', ' '] ++ paramChars (u :: params)

theorem intercalate_params (params : List Temp) :
    [',', ' '].intercalate (params.map (String.toList ∘ Temp.text)) = paramChars params := by
  induction params with
  | nil => rfl
  | cons t params ih =>
    cases params with
    | nil => simp [paramChars]
    | cons u params =>
      rw [List.map_cons] at ih
      rw [List.map_cons, List.map_cons, List.intercalate_cons_cons, ih, paramChars]
      rfl

theorem foldl_addChar_params (params before : List Temp) :
    (paramChars params).foldl addChar before = params.reverse ++ before := by
  induction params generalizing before with
  | nil => rfl
  | cons t params ih =>
    cases params with
    | nil => exact foldl_addChar_temp t before
    | cons u params =>
      have hcomma (ts : List Temp) : [',', ' '].foldl addChar ts = ts := rfl
      rw [paramChars, List.foldl_append, List.foldl_append, foldl_addChar_temp, hcomma, ih]
      simp

theorem not_mem_params {c : Char} (ht : ∀ t : Temp, c ∉ t.text.toList) (hc : c ∉ [',', ' '])
    (params : List Temp) : c ∉ paramChars params := by
  induction params with
  | nil => exact List.not_mem_nil
  | cons t params ih =>
    cases params with
    | nil => exact ht t
    | cons u params =>
      simp only [paramChars, List.mem_append, not_or]
      exact ⟨⟨ht t, hc⟩, ih⟩

theorem bracket_not_mem_temp (t : Temp) : '(' ∉ t.text.toList := by
  have hdigits : '(' ∉ Nat.toDigits 10 t.index := fun h ↦ absurd (isDigit_of_mem h) (by decide)
  simp [toList_text, hdigits]

def headerChars (f : Function) : List Char :=
  ['f', 'u', 'n', 'c', 't', 'i', 'o', 'n', ' '] ++
    (f.name.toList ++ '(' :: paramChars f.params ++ [')'])

theorem toList_header (f : Function) : f.header.toList = headerChars f ++ ['\n'] := by
  simp [Function.header, headerChars, intercalate_params]

theorem header_chars (f : Function) : header (headerChars f) = (f.name, f.params) := by
  have hinner : ((headerChars f).drop 9).dropLast.reverse =
      (paramChars f.params).reverse ++ '(' :: f.name.toList.reverse := by
    have hdrop : (headerChars f).drop 9 = f.name.toList ++ '(' :: paramChars f.params ++ [')'] :=
      rfl
    rw [hdrop, List.dropLast_concat]
    simp
  have hparams : ∀ c ∈ (paramChars f.params).reverse, (c ≠ '(' : Bool) := by
    intro c hc
    rw [List.mem_reverse] at hc
    have hne : c ≠ '(' := by
      rintro rfl
      exact not_mem_params bracket_not_mem_temp (by decide) f.params hc
    simpa using hne
  rw [header, hinner, List.takeWhile_append_of_pos hparams, List.dropWhile_append_of_pos hparams]
  simp [foldl_addChar_params]

theorem newline_not_mem_header {f : Function} (h : OneLine f.name) : '\n' ∉ headerChars f := by
  have hname : '\n' ∉ f.name.toList := h
  have hparams := not_mem_params newline_not_mem_temp (by decide) f.params
  simp [headerChars, hname, hparams]

def lines : List Char → List (List Char)
  | [] => []
  | c :: cs =>
    if c = '\n' then [] :: lines cs
    else match lines cs with
      | [] => [[c]]
      | first :: others => (c :: first) :: others

theorem lines_append {first : List Char} (h : '\n' ∉ first) (cs : List Char) :
    lines (first ++ '\n' :: cs) = first :: lines cs := by
  induction first with
  | nil => rw [List.nil_append, lines, if_pos rfl]
  | cons c first ih =>
    obtain ⟨hc, hfirst⟩ := not_or.mp (mt List.mem_cons.mpr h)
    rw [List.cons_append, lines, if_neg (Ne.symm hc), ih hfirst]

def gather (cs : List Char) (below : List Instr × List Function) : List Instr × List Function :=
  if cs.head? = some 'f' then
    let (name, params) := header cs
    ([], ⟨name, params, below.1.toArray⟩ :: below.2)
  else (line cs :: below.1, below.2)

def program (s : String) : Program :=
  ⟨((lines s.toList).foldr gather ([], [])).2⟩

def gathered (cs : List Char) : List Instr × List Function := (lines cs).foldr gather ([], [])

theorem gathered_line {i : Instr} {s : String} (h : i.line = .ok s) (hl : i.Legible)
    (cs : List Char) :
    gathered (s.toList ++ cs) = (i :: (gathered cs).1, (gathered cs).2) := by
  obtain ⟨t, ht, hs⟩ := bind_eq_ok h
  obtain rfl := Except.ok.inj hs
  have hindent : i.indent = "    " ∨ i.indent = "        " := by
    cases i with
    | label l => exact .inl rfl
    | _ => exact .inr rfl
  have hfirst : '\n' ∉ (i.indent ++ t).toList := by
    rcases hindent with hindent | hindent <;> simp [hindent, newline_not_mem_text ht hl]
  have hhead : (i.indent ++ t).toList.head? ≠ some 'f' := by
    rcases hindent with hindent | hindent <;> simp [hindent]
  have hsplit : (i.indent ++ t ++ "\n").toList ++ cs = (i.indent ++ t).toList ++ '\n' :: cs := by
    simp
  rw [gathered, hsplit, lines_append hfirst, List.foldr_cons, gather, if_neg hhead,
    line_text ht hl]
  rfl

theorem gathered_body {code : List Instr} {texts : List String}
    (h : List.Forall₂ (fun i s ↦ i.line = .ok s) code texts) (hl : ∀ i ∈ code, i.Legible)
    (cs : List Char) :
    gathered ((String.join texts).toList ++ cs) = (code ++ (gathered cs).1, (gathered cs).2) := by
  induction h with
  | nil => rfl
  | @cons i s code texts hi hs ih =>
    have hrest := ih fun j hj ↦ hl j (List.mem_cons_of_mem i hj)
    have hjoin : (String.join (s :: texts)).toList ++ cs =
        s.toList ++ ((String.join texts).toList ++ cs) := by simp
    rw [hjoin, gathered_line hi (hl i List.mem_cons_self), hrest]
    rfl

theorem gathered_function {f : Function} {s : String} (h : f.text = .ok s) (hl : f.Legible)
    {cs : List Char} (hcs : (gathered cs).1 = []) :
    gathered (s.toList ++ cs) = ([], f :: (gathered cs).2) := by
  obtain ⟨texts, htexts, hs⟩ := bind_eq_ok h
  obtain rfl := Except.ok.inj hs
  have hbody := gathered_body (mapM_eq_ok_iff.mp htexts) hl.2 cs
  have hsplit : (f.header ++ String.join texts).toList ++ cs =
      headerChars f ++ '\n' :: ((String.join texts).toList ++ cs) := by
    simp [toList_header]
  have hhead : (headerChars f).head? = some 'f' := rfl
  rw [gathered] at hbody
  rw [gathered, hsplit, lines_append (newline_not_mem_header hl.1), List.foldr_cons, hbody, hcs,
    gather, if_pos hhead, header_chars]
  simp

theorem gathered_program {functions : List Function} {texts : List String}
    (h : List.Forall₂ (fun f s ↦ f.text = .ok s) functions texts)
    (hl : ∀ f ∈ functions, f.Legible) :
    gathered (String.join texts).toList = ([], functions) := by
  induction h with
  | nil => rfl
  | @cons f s functions texts hf hs ih =>
    have hrest := ih fun g hg ↦ hl g (List.mem_cons_of_mem f hg)
    have hjoin : (String.join (s :: texts)).toList = s.toList ++ (String.join texts).toList := by
      simp
    rw [hjoin, gathered_function hf (hl f List.mem_cons_self) (by rw [hrest]), hrest]

/-- The listing of a program with legible names is read as the program. -/
theorem program_text {p : Program} {s : String} (hp : p.Legible) (h : p.text = .ok s) :
    program s = p := by
  obtain ⟨texts, htexts, hs⟩ := bind_eq_ok h
  obtain rfl := Except.ok.inj hs
  have hread := gathered_program (mapM_eq_ok_iff.mp htexts) hp
  rw [gathered] at hread
  rw [program, hread]

end Listing

/-- Programs with legible names that have the same listing are the same. -/
theorem Program.text_unambiguous {p q : Program} {s : String} (hp : p.Legible) (hq : q.Legible)
    (h : p.text = .ok s) (h' : q.text = .ok s) : p = q := by
  rw [← Listing.program_text hp h, Listing.program_text hq h']

def oddProgram : Program where
  functions := [
    { name := "f(%1)("
      params := [⟨1⟩, ⟨20⟩]
      body := #[.label ⟨"loop_1", 2⟩, .constant ⟨3⟩ (-4), .unary ⟨3⟩ .negate ⟨4⟩,
        .load ⟨5⟩ ⟨1⟩ (-4),
        .string ⟨6⟩ "\"\n\\u\x7b41\x7d", .call (some ⟨7⟩) "%1 + %2", .call none "%x",
          .vtable ⟨8⟩ "A>",
        .jumpIfZero ⟨7⟩ ⟨"a goto b", 1⟩] },
    {}]

def oddListing : String :=
  "function f(%1)((%1, %20)\n" ++
  "    loop_1_2:\n" ++
  "        %3 = -4\n" ++
  "        %3 = - %4\n" ++
  "        %5 = *(%1 - 4)\n" ++
  "        %6 = \"\\\"\\n\\\\u\x7b41\x7d\"\n" ++
  "        %7 = call %1 + %2\n" ++
  "        call %x\n" ++
  "        %8 = VTBL <A>>\n" ++
  "        if_false %7 goto a goto b_1\n" ++
  "function ()\n"

theorem ne_text {s : String} {c : Char} (hc : c ∈ s.toList.tail) (hd : ¬ c.isDigit) (t : Temp) :
    s ≠ t.text := by
  rintro rfl
  rw [Listing.toList_text] at hc
  exact hd (Listing.isDigit_of_mem hc)

theorem oddProgram_legible : oddProgram.Legible := by
  have hsum := @ne_text "%1 + %2" ' ' (by decide) (by decide)
  have hname := @ne_text "%x" 'x' (by decide) (by decide)
  simp [Program.Legible, oddProgram, Function.Legible, Instr.Legible, OneLine, hsum, hname]

theorem oddProgram_unambiguous :
    oddProgram.Legible ∧ oddProgram.text = .ok oddListing ∧
      (Listing.program oddListing).text = .ok oddListing ∧
      oddProgram = Listing.program oddListing := by
  have htext : oddProgram.text = .ok oddListing := by decide +kernel
  have hread := Listing.program_text oddProgram_legible htext
  have hlegible : (Listing.program oddListing).Legible := by
    rw [hread]
    exact oddProgram_legible
  have htext' : (Listing.program oddListing).text = .ok oddListing := by
    rw [hread]
    exact htext
  exact ⟨oddProgram_legible, htext, htext',
    Program.text_unambiguous oddProgram_legible hlegible htext htext'⟩

end ThreeAddress.Code
