import Mathlib.Data.List.Nodup
import Mathlib.Data.Set.Basic
import ThreeAddress.Proofs.Code.Shift

namespace ThreeAddress.Code

def Instr.fallsThrough : Instr → Bool
  | .jump _ | .ret _ => false
  | _ => true

/-- The paths from the start of a listing: the instructions passed and the code ahead. A conditional
jump goes either way, and calls come back. -/
inductive Path (listing : List Instr) : List Instr → List Instr → Prop
  | entry : Path listing [] listing
  | fall {passed rest : List Instr} {i : Instr} (h : Path listing passed (i :: rest))
      (hi : i.fallsThrough) : Path listing (passed ++ [i]) rest
  | jump {passed rest ahead : List Instr} {i : Instr} {l : Label}
      (h : Path listing passed (i :: rest)) (hl : i.target? = some l)
      (hb : behind l listing = some ahead) : Path listing (passed ++ [i]) ahead

variable {notes : Label → Set Temp} {D E F : Set Temp} {i : Instr} {l : Label} {t : Temp}
variable {code rest listing passed : List Instr} {exit : Option Label}

/-- The temporaries that hold a value behind an instruction. Nothing comes straight from a jump or a
return, so that nothing is lost by taking all of them there. -/
def available (notes : Label → Set Temp) (D : Set Temp) : Instr → Set Temp
  | .label l => notes l
  | .jump _ | .ret _ => Set.univ
  | i => {t | t ∈ i.dst?} ∪ D

/-- Where the temporaries in `D` hold a value, so do all that the code reads. The notes are met
wherever control comes to a label. -/
def Supplied (notes : Label → Set Temp) : Set Temp → List Instr → Prop
  | _, [] => True
  | D, i :: rest => (∀ t ∈ i.reads, t ∈ D) ∧ (∀ l ∈ i.label?, notes l ⊆ D) ∧
    (∀ l ∈ i.target?, notes l ⊆ D) ∧ Supplied notes (available notes D i) rest

section cases

-- the equations are built here, once for all kinds of instructions
attribute [local simp] Supplied available Instr.reads Instr.label? Instr.target? Instr.dst?

@[simp] theorem supplied_label : Supplied notes D (.label l :: rest) ↔
    notes l ⊆ D ∧ Supplied notes (notes l) rest := by
  simp

@[simp] theorem supplied_jump : Supplied notes D (.jump l :: rest) ↔
    notes l ⊆ D ∧ Supplied notes Set.univ rest := by
  simp

@[simp] theorem supplied_jumpIfZero : Supplied notes D (.jumpIfZero t l :: rest) ↔
    t ∈ D ∧ notes l ⊆ D ∧ Supplied notes D rest := by
  simp

@[simp] theorem supplied_ret {value : Option Temp} : Supplied notes D (.ret value :: rest) ↔
    (∀ t ∈ value, t ∈ D) ∧ Supplied notes Set.univ rest := by
  simp

theorem supplied_plain (hi : i.isPlain) : Supplied notes D (i :: rest) ↔
    (∀ t ∈ i.reads, t ∈ D) ∧ Supplied notes ({t | t ∈ i.dst?} ∪ D) rest := by
  cases i with
  | label | jump | jumpIfZero | ret => cases hi
  | _ => simp

end cases

theorem available_mono (h : D ⊆ E) (i : Instr) : available notes D i ⊆ available notes E i := by
  cases i with
  | label | jump | ret => exact subset_rfl
  | _ => exact Set.union_subset_union_right _ h

namespace Supplied

theorem mono (hc : Supplied notes D code) (h : D ⊆ E) : Supplied notes E code := by
  induction code generalizing D E with
  | nil => trivial
  | cons i code ih =>
    obtain ⟨hr, hl, ht, hc⟩ := hc
    refine ⟨fun t hm ↦ h (hr t hm), fun l hm ↦ (hl l hm).trans h, fun l hm ↦ (ht l hm).trans h, ?_⟩
    exact ih hc (available_mono h i)

/-- The code behind a label is supplied by what is noted at the label. -/
theorem of_suffix (hc : Supplied notes D listing) (hs : .label l :: rest <:+ listing) :
    Supplied notes (notes l) rest := by
  obtain ⟨before, rfl⟩ := hs
  induction before generalizing D with
  | nil => exact (supplied_label.mp hc).2
  | cons i before ih => exact ih hc.2.2.2

/-- Along a path, only what was there at the start or was written on the way is relied upon. -/
theorem path {ahead : List Instr} (hc : Supplied notes D listing) (hp : Path listing passed ahead) :
    ∃ E, Supplied notes E ahead ∧ ∀ t ∈ E, t ∈ D ∨ ∃ i ∈ passed, i.dst? = some t := by
  induction hp with
  | entry => exact ⟨D, hc, fun t ht ↦ .inl ht⟩
  | @fall passed rest i _ hi ih =>
    obtain ⟨E, ⟨-, hl, -, he⟩, hE⟩ := ih
    refine ⟨_, he, fun t ht ↦ ?_⟩
    have hold : t ∈ E → t ∈ D ∨ ∃ j ∈ passed ++ [i], j.dst? = some t := by
      intro ht
      rcases hE t ht with ht | ⟨j, hj, ht⟩
      · exact .inl ht
      · exact .inr ⟨j, List.mem_append_left _ hj, ht⟩
    cases i with
    | jump | ret => cases hi
    | label l => exact hold (hl l rfl ht)
    | _ =>
      rcases ht with ht | ht
      · exact .inr ⟨_, List.mem_append_right _ List.mem_cons_self, ht⟩
      · exact hold ht
  | @jump passed rest ahead i l _ hl hb ih =>
    obtain ⟨E, ⟨-, -, ht, -⟩, hE⟩ := ih
    refine ⟨_, hc.of_suffix (suffix_of_behind hb), fun t hm ↦ ?_⟩
    rcases hE t (ht l hl hm) with hm | ⟨j, hj, hm⟩
    · exact .inl hm
    · exact .inr ⟨j, List.mem_append_left _ hj, hm⟩

/-- What an instruction on a path reads was there at the start or has been written before. -/
theorem read_written (hc : Supplied notes D listing) (hp : Path listing passed (i :: rest))
    (ht : t ∈ i.reads) : t ∈ D ∨ ∃ j ∈ passed, j.dst? = some t := by
  obtain ⟨E, hE, hwritten⟩ := hc.path hp
  exact hwritten t (hE.1 t ht)

end Supplied

/-- With notes for its labels, the code takes `D` to `E`: it is supplied where `D` holds values, as
far as the code behind it is supplied where `E` does. It may jump to the exit, too. -/
def Carries (exit : Option Label) (D : Set Temp) (code : List Instr) (E : Set Temp) : Prop :=
  ∃ own : List (Label × Set Temp), own.map Prod.fst = labels code ∧
    ∀ notes : Label → Set Temp, (∀ n ∈ own, notes n.1 = n.2) → (∀ l ∈ exit, notes l ⊆ D) →
      ∀ rest, Supplied notes E rest → Supplied notes D (code ++ rest)

namespace Carries

theorem of_free (hl : labels code = []) (h : ∀ notes : Label → Set Temp,
    (∀ l ∈ exit, notes l ⊆ D) → ∀ rest, Supplied notes E rest → Supplied notes D (code ++ rest)) :
    Carries exit D code E := ⟨[], hl.symm, fun notes _ ↦ h notes⟩

theorem nil (h : E ⊆ D) : Carries exit D [] E := of_free rfl fun _ _ _ hr ↦ hr.mono h

theorem single (hi : i.isPlain) (hr : ∀ t ∈ i.reads, t ∈ D) :
    Carries exit D [i] ({t | t ∈ i.dst?} ∪ D) := by
  refine of_free (by simp [label?_of_isPlain hi]) fun notes _ rest hrest ↦ ?_
  exact (supplied_plain hi).mpr ⟨hr, hrest⟩

theorem append (h₁ : Carries exit D code E) (hle : D ⊆ E) (h₂ : Carries exit E rest F) :
    Carries exit D (code ++ rest) F := by
  obtain ⟨own₁, hl₁, h₁⟩ := h₁
  obtain ⟨own₂, hl₂, h₂⟩ := h₂
  refine ⟨own₁ ++ own₂, by rw [List.map_append, hl₁, hl₂, labels_append], ?_⟩
  intro notes hown hexit later hlater
  obtain ⟨hown₁, hown₂⟩ := List.forall_mem_append.mp hown
  rw [List.append_assoc]
  exact h₁ notes hown₁ hexit _ (h₂ notes hown₂ (fun l hl ↦ (hexit l hl).trans hle) later hlater)

theorem weaken (h : Carries exit D code E) (hle : F ⊆ E) : Carries exit D code F := by
  obtain ⟨own, hl, h⟩ := h
  exact ⟨own, hl, fun notes hown hexit rest hrest ↦ h notes hown hexit rest (hrest.mono hle)⟩

/-- A line of plain instructions needs no notes, and all that they write holds a value behind it. -/
theorem line (hp : ∀ i ∈ code, i.isPlain) (h : Supplied (fun _ ↦ ∅) D code) :
    Carries exit D code ({t | t ∈ code.filterMap Instr.dst?} ∪ D) := by
  induction code generalizing D with
  | nil => exact nil (by simp)
  | cons i code ih =>
    obtain ⟨hi, hp⟩ := List.forall_mem_cons.mp hp
    obtain ⟨hr, hc⟩ := (supplied_plain hi).mp h
    refine ((single hi hr).append Set.subset_union_right (ih hp hc)).weaken ?_
    rintro t (ht | ht)
    · obtain ⟨j, hj, hd⟩ := List.mem_filterMap.mp ht
      rcases List.mem_cons.mp hj with rfl | hj
      · exact .inr (.inl hd)
      · exact .inl (List.mem_filterMap.mpr ⟨j, hj, hd⟩)
    · exact .inr (.inr ht)

theorem exits (h : Carries none D code E) : Carries exit D code E := by
  obtain ⟨own, hl, h⟩ := h
  exact ⟨own, hl, fun notes hown _ ↦ h notes hown (by simp)⟩

theorem leave : Carries (some l) D [.jump l] E := by
  refine of_free rfl fun notes hexit rest hrest ↦ ?_
  exact supplied_jump.mpr ⟨hexit l rfl, hrest.mono (Set.subset_univ E)⟩

theorem leaveUnless (ht : t ∈ D) : Carries (some l) D [.jumpIfZero t l] D :=
  of_free rfl fun _ hexit _ hrest ↦ supplied_jumpIfZero.mpr ⟨ht, hexit l rfl, hrest⟩

theorem ret {value : Option Temp} (hv : ∀ t ∈ value, t ∈ D) : Carries exit D [.ret value] E :=
  of_free rfl fun _ _ _ hrest ↦ supplied_ret.mpr ⟨hv, hrest.mono (Set.subset_univ E)⟩

variable {test body yes no update : List Instr} {otherwise done check again out : Label}

theorem when (ht : Carries exit D test E) (hle : D ⊆ E) (hv : t ∈ E) (hb : Carries exit D body D) :
    Carries exit D (test ++ .jumpIfZero t done :: (body ++ [.label done])) D := by
  obtain ⟨own₁, hl₁, ht⟩ := ht
  obtain ⟨own₂, hl₂, hb⟩ := hb
  refine ⟨own₁ ++ (own₂ ++ [(done, D)]), by simp [hl₁, hl₂, Instr.label?], ?_⟩
  intro notes hnotes hexit rest hrest
  simp only [List.forall_mem_append, List.forall_mem_cons] at hnotes
  obtain ⟨h₁, h₂, hdone, -⟩ := hnotes
  have hend : Supplied notes D (.label done :: rest) := by
    rw [supplied_label, hdone]
    exact ⟨subset_rfl, hrest⟩
  have hbody := (hb notes h₂ hexit _ hend).mono hle
  have hjump : Supplied notes E (.jumpIfZero t done :: (body ++ .label done :: rest)) := by
    rw [supplied_jumpIfZero, hdone]
    exact ⟨hv, hle, hbody⟩
  simpa using ht notes h₁ hexit _ hjump

theorem choose (ht : Carries exit D test E) (hle : D ⊆ E) (hv : t ∈ E)
    (hy : Carries exit D yes D) (hn : Carries exit D no D) :
    Carries exit D (test ++ .jumpIfZero t otherwise :: (yes ++ .jump done :: .label otherwise ::
      (no ++ [.label done]))) D := by
  obtain ⟨own₁, hl₁, ht⟩ := ht
  obtain ⟨own₂, hl₂, hy⟩ := hy
  obtain ⟨own₃, hl₃, hn⟩ := hn
  refine ⟨own₁ ++ (own₂ ++ (otherwise, D) :: (own₃ ++ [(done, D)])),
    by simp [hl₁, hl₂, hl₃, Instr.label?], ?_⟩
  intro notes hnotes hexit rest hrest
  simp only [List.forall_mem_append, List.forall_mem_cons] at hnotes
  obtain ⟨h₁, h₂, hother, h₃, hdone, -⟩ := hnotes
  have hend : Supplied notes D (.label done :: rest) := by
    rw [supplied_label, hdone]
    exact ⟨subset_rfl, hrest⟩
  have hno := hn notes h₃ hexit _ hend
  have hmid : Supplied notes D (.jump done :: .label otherwise :: (no ++ .label done :: rest)) := by
    rw [supplied_jump, supplied_label, hdone, hother]
    exact ⟨subset_rfl, Set.subset_univ D, hno⟩
  have hyes := (hy notes h₂ hexit _ hmid).mono hle
  have hjump : Supplied notes E (.jumpIfZero t otherwise :: (yes ++ .jump done ::
      .label otherwise :: (no ++ .label done :: rest))) := by
    rw [supplied_jumpIfZero, hother]
    exact ⟨hv, hle, hyes⟩
  simpa using ht notes h₁ hexit _ hjump

/-- A loop that is left by jumps out of its body only. -/
theorem loop (hb : Carries (some out) D body E) (hle : D ⊆ E) :
    Carries exit D (.label again :: (body ++ [.jump again, .label out])) D := by
  obtain ⟨own, hl, hb⟩ := hb
  refine ⟨(again, D) :: (own ++ [(out, D)]), by simp [hl, Instr.label?], ?_⟩
  intro notes hnotes _ rest hrest
  simp only [List.forall_mem_append, List.forall_mem_cons] at hnotes
  obtain ⟨hagain, h, hout, -⟩ := hnotes
  have hend : Supplied notes E (.jump again :: .label out :: rest) := by
    rw [supplied_jump, supplied_label, hagain, hout]
    exact ⟨hle, Set.subset_univ D, hrest⟩
  have hbody := hb notes h (by simp [hout]) _ hend
  rw [List.cons_append, supplied_label, hagain]
  exact ⟨subset_rfl, by simpa using hbody⟩

theorem loopFrom (hu : Carries exit D update D) (hb : Carries (some out) D body E) (hle : D ⊆ E) :
    Carries exit D (.jump check :: .label again :: (update ++ .label check ::
      (body ++ [.jump again, .label out]))) D := by
  obtain ⟨own₁, hl₁, hu⟩ := hu
  obtain ⟨own₂, hl₂, hb⟩ := hb
  refine ⟨(again, D) :: (own₁ ++ (check, D) :: (own₂ ++ [(out, D)])),
    by simp [hl₁, hl₂, Instr.label?], ?_⟩
  intro notes hnotes hexit rest hrest
  simp only [List.forall_mem_append, List.forall_mem_cons] at hnotes
  obtain ⟨hagain, h₁, hcheck, h₂, hout, -⟩ := hnotes
  have hend : Supplied notes E (.jump again :: .label out :: rest) := by
    rw [supplied_jump, supplied_label, hagain, hout]
    exact ⟨hle, Set.subset_univ D, hrest⟩
  have hbody := hb notes h₂ (by simp [hout]) _ hend
  have hmid : Supplied notes D (.label check :: (body ++ .jump again :: .label out :: rest)) := by
    rw [supplied_label, hcheck]
    exact ⟨subset_rfl, hbody⟩
  have hupdate := hu notes h₁ hexit _ hmid
  rw [List.cons_append, List.cons_append, supplied_jump, supplied_label, hcheck, hagain]
  exact ⟨subset_rfl, Set.subset_univ D, by simpa using hupdate⟩

/-- Where no label is placed twice, one set of notes meets all that are asked for. -/
theorem supplied (h : Carries none D code E) (hd : (labels code).Nodup) :
    ∃ notes, Supplied notes D code := by
  obtain ⟨own, hl, h⟩ := h
  have hkeys : (own.map Prod.fst).Nodup := hl ▸ hd
  refine ⟨fun l ↦ {t | ∃ D, (l, D) ∈ own ∧ t ∈ D}, ?_⟩
  have hown : ∀ n ∈ own, {t | ∃ D, (n.1, D) ∈ own ∧ t ∈ D} = n.2 := by
    intro n hn
    ext t
    refine ⟨fun ⟨D, hD, ht⟩ ↦ ?_, fun ht ↦ ⟨n.2, hn, ht⟩⟩
    rw [← List.inj_on_of_nodup_map hkeys hD hn rfl]
    exact ht
  have hall := h (fun l ↦ {t | ∃ D, (l, D) ∈ own ∧ t ∈ D}) hown (by simp) [] trivial
  rwa [List.append_nil] at hall

end Carries

end ThreeAddress.Code
