import Mathlib.Data.List.Basic
import ThreeAddress.Code.Function

namespace ThreeAddress.Code

def Instr.label? : Instr → Option Label
  | .label l => some l
  | _ => none

def Instr.target? : Instr → Option Label
  | .jump l | .jumpIfZero _ l => some l
  | _ => none

def Instr.isPlain : Instr → Bool
  | .label _ | .jump _ | .jumpIfZero _ _ | .ret _ => false
  | _ => true

def labels (code : List Instr) : List Label := code.filterMap Instr.label?

def targets (code : List Instr) : List Label := code.filterMap Instr.target?

@[simp] theorem Instr.label?_label (l : Label) : (Instr.label l).label? = some l := rfl

variable {l : Label} {i : Instr} {code rest : List Instr}

theorem label?_of_isPlain (h : i.isPlain) : i.label? = none := by
  cases i with
  | label => cases h
  | _ => rfl

theorem target?_of_isPlain (h : i.isPlain) : i.target? = none := by
  cases i with
  | jump | jumpIfZero => cases h
  | _ => rfl

@[simp] theorem labels_nil : labels [] = [] := rfl

@[simp] theorem labels_cons (i : Instr) (code : List Instr) :
    labels (i :: code) = i.label?.toList ++ labels code := by
  cases h : i.label? <;> simp only [labels, List.filterMap_cons, h] <;> rfl

@[simp] theorem labels_append (code rest : List Instr) :
    labels (code ++ rest) = labels code ++ labels rest := List.filterMap_append

@[simp] theorem targets_nil : targets [] = [] := rfl

@[simp] theorem targets_cons (i : Instr) (code : List Instr) :
    targets (i :: code) = i.target?.toList ++ targets code := by
  cases h : i.target? <;> simp only [targets, List.filterMap_cons, h] <;> rfl

@[simp] theorem targets_append (code rest : List Instr) :
    targets (code ++ rest) = targets code ++ targets rest := List.filterMap_append

/-- The code behind the first place of a label. -/
def behind (l : Label) : List Instr → Option (List Instr)
  | [] => none
  | i :: rest => if i = .label l then some rest else behind l rest

theorem behind_append (h : l ∉ labels code) (rest : List Instr) :
    behind l (code ++ rest) = behind l rest := by
  induction code with
  | nil => rfl
  | cons i code ih =>
    simp only [labels_cons, List.mem_append, not_or] at h
    have hi : i ≠ .label l := by rintro rfl; simp at h
    rw [List.cons_append, behind, if_neg hi, ih h.2]

/-- Where labels are distinct, a jump goes to the one place of its target. -/
theorem behind_eq_some (hd : (labels code).Nodup) (hs : .label l :: rest <:+ code) :
    behind l code = some rest := by
  obtain ⟨before, rfl⟩ := hs
  have hl : l ∉ labels before := by
    intro hl
    rw [labels_append, List.nodup_append] at hd
    exact hd.2.2 l hl l (by simp) rfl
  rw [behind_append hl, behind, if_pos rfl]

theorem suffix_of_behind (h : behind l code = some rest) : .label l :: rest <:+ code := by
  induction code with
  | nil => cases h
  | cons i code ih =>
    rw [behind] at h
    split at h
    · rename_i hi
      cases h
      exact hi ▸ List.suffix_rfl
    · exact (ih h).trans (List.suffix_cons i code)

theorem Label.underscore_not_mem (n : Nat) : '_' ∉ (toString n).toList := by
  rw [Nat.toString_eq_ofList_toDigits, String.toList_ofList]
  exact Nat.underscore_not_in_toDigits

theorem toString_injective {m n : Nat} (h : (toString m).toList = (toString n).toList) :
    m = n := by
  rw [Nat.toString_eq_ofList_toDigits, Nat.toString_eq_ofList_toDigits, String.toList_ofList,
    String.toList_ofList] at h
  rw [← Nat.ofDigitChars_ten_toDigits (n := m), h, Nat.ofDigitChars_ten_toDigits]

theorem eq_of_append_cons_eq {α : Type} {a : α} {x y u v : List α} (hu : a ∉ u) (hv : a ∉ v)
    (h : x ++ a :: u = y ++ a :: v) : x = y ∧ u = v := by
  rcases List.append_eq_append_iff.mp h with ⟨c, hy, hc⟩ | ⟨c, hx, hc⟩
  · cases c with
    | nil => simp_all
    | cons b c =>
      simp only [List.cons_append, List.cons.injEq] at hc
      exact absurd (by rw [hc.2]; simp) hu
  · cases c with
    | nil => simp_all
    | cons b c =>
      simp only [List.cons_append, List.cons.injEq] at hc
      exact absurd (by rw [hc.2]; simp) hv

/-- A label is known by its text: the digits behind the last underscore are its number. -/
theorem Label.text_injective {l l' : Label} (h : l.text = l'.text) : l = l' := by
  have ht : l.stem.toList ++ '_' :: (toString l.number).toList =
      l'.stem.toList ++ '_' :: (toString l'.number).toList := by
    simpa [Label.text] using congrArg String.toList h
  obtain ⟨hs, hn⟩ := eq_of_append_cons_eq (Label.underscore_not_mem _)
    (Label.underscore_not_mem _) ht
  cases l
  cases l'
  simp only [Label.mk.injEq]
  exact ⟨String.toList_inj.mp hs, toString_injective hn⟩

end ThreeAddress.Code
