import ThreeAddress.Proofs.Control.Site
import ThreeAddress.Proofs.Machine.Division
import ThreeAddress.Proofs.Machine.Expression

namespace ThreeAddress.Checked

def SymbolTable.HasOffset (symbols : SymbolTable) (offset : Int32) : Prop :=
  (∃ m ∈ symbols.methods, m.offset = offset) ∨ ∃ v ∈ symbols.vars, v.offset = offset

end ThreeAddress.Checked

namespace ThreeAddress.Control

open Checked Code Lowering Machine

variable {α β : Type} {env : Env} {s s₁ s' : State} {new new₁ new₂ code : List Instr}
variable {ts ts₁ ts₂ : List Temp} {start : Nat} {symbols : SymbolTable}

/-- The code begins at a place in the listing, its labels were issued between the two states, and
the code around it does not jump to them. -/
def Housed (start : Nat) (code : List Instr) (s s' : State) (new : List Instr) : Prop :=
  ∃ before behind, new = before ++ (code ++ behind) ∧ start = s.code.length + before.length ∧
    ∀ l ∈ labels code, IssuedLabel s l s' ∧ l ∉ targets before ∧ l ∉ targets behind

namespace Housed

theorem whole (hl : ∀ l ∈ labels new, IssuedLabel s l s') : Housed s.code.length new s s' new :=
  ⟨[], [], by simp, by simp, fun l hm ↦ ⟨hl l hm, by simp, by simp⟩⟩

theorem prepend (h : Housed start code s₁ s' new₂) (e : Emission s s₁ new₁ ts)
    (ht : ∀ l ∈ targets new₁, l.number ≤ s₁.issued l.stem) :
    Housed start code s s' (new₁ ++ new₂) := by
  obtain ⟨before, behind, rfl, rfl, hl⟩ := h
  refine ⟨new₁ ++ before, behind, by simp, ?_, fun l hm ↦ ?_⟩
  · simp only [e.code_eq, List.length_append]
    omega
  · obtain ⟨hi, hbefore, hbehind⟩ := hl l hm
    refine ⟨hi.widen e (.refl s'), fun hmem ↦ ?_, hbehind⟩
    rw [targets_append, List.mem_append] at hmem
    exact hmem.elim (fun hmem ↦ absurd (ht l hmem) (Nat.not_le.mpr hi.1)) hbefore

theorem extend (h : Housed start code s s₁ new₁) (e : Emission s₁ s' new₂ ts)
    (ht : ∀ l ∈ targets new₂, ¬ IssuedLabel s l s₁) : Housed start code s s' (new₁ ++ new₂) := by
  obtain ⟨before, behind, rfl, rfl, hl⟩ := h
  refine ⟨before, behind ++ new₂, by simp, rfl, fun l hm ↦ ?_⟩
  obtain ⟨hi, hbefore, hbehind⟩ := hl l hm
  refine ⟨hi.widen (.refl s) e, hbefore, fun hmem ↦ ?_⟩
  rw [targets_append, List.mem_append] at hmem
  exact hmem.elim hbehind fun hmem ↦ ht l hmem hi

theorem bounds (h : Housed start code s s' new) (e : Emission s s' new ts) :
    s.code.length ≤ start ∧ start + code.length ≤ s'.code.length := by
  obtain ⟨before, behind, rfl, rfl, -⟩ := h
  simp only [e.code_eq, List.length_append]
  omega

/-- In a listing that begins with the first state the block is sealed. -/
theorem toSealed (h : Housed start code s s' new) (e : Emission s s' new ts) (hs : s.code = []) :
    ∃ before rest, Sealed new before code rest ∧ before.length = start := by
  obtain ⟨before, behind, rfl, rfl, hl⟩ := h
  refine ⟨before, behind, ⟨rfl, e.labels_nodup, fun l hm ↦ (hl l hm).2.1,
    fun l hm ↦ (hl l hm).2.2⟩, ?_⟩
  simp [hs]

end Housed

/-- Code with nothing in it to be guarded. -/
structure Plain (symbols : SymbolTable) (code : List Instr) : Prop where
  settles : settle 0 code = some 0
  offsets : ∀ i ∈ code, i.offset? = some .minValue → symbols.HasOffset .minValue
  undivided : ∀ i ∈ code, i.divides = false

/-- A label or a temporary that is known. -/
inductive Mark where
  | label (l : Label)
  | temp (t : Temp)

def Mark.Old (s : State) : Mark → Prop
  | label l => l.number ≤ s.issued l.stem
  | temp t => t.index ≤ s.temps

theorem Mark.Old.later {k : Mark} (h : k.Old s) (e : Emission s s' new ts) : k.Old s' := by
  cases k with
  | label l => exact Nat.le_trans h (e.issued_le _)
  | temp t => exact Nat.le_trans h e.temps_le

/-- The code between two states jumps to labels that are known or new. Its divisions and the sites
listed are guarded, and the sites stand one behind the other. -/
structure Survey (symbols : SymbolTable) (known : List Mark) (s s' : State) (new : List Instr)
    (sites : List Site) : Prop where
  targets_known : ∀ l ∈ targets new, .label l ∈ known ∨ IssuedLabel s l s'
  settles : settle 0 new = some 0
  offsets : ∀ i ∈ new, i.offset? = some .minValue → symbols.HasOffset .minValue
  divisions : ∀ k i, new[k]? = some i → i.divides → ∃ g : Guard, ∃ start, g.Protects i ∧
    start + g.code.length = s.code.length + k ∧ Housed start (g.code ++ [i]) s s' new
  guarded : ∀ site ∈ sites, ∃ code, site.GuardedBy code ∧ Housed site.entry code s s' new
  ascending : sites.Pairwise fun site later ↦ site.place < later.place

namespace Survey

variable {known known₂ : List Mark} {sites sites₁ sites₂ : List Site} {site : Site}

theorem ofPlain (h : Plain symbols new)
    (ht : ∀ l ∈ targets new, .label l ∈ known ∨ IssuedLabel s l s') :
    Survey symbols known s s' new [] where
  targets_known := ht
  settles := h.settles
  offsets := h.offsets
  divisions k i hi hd := by
    have hf := h.undivided i (List.mem_of_getElem? hi)
    rw [hf] at hd
    cases hd
  guarded := by simp
  ascending := .nil

theorem window (h : Survey symbols known s s' new sites) (e : Emission s s' new ts)
    (hm : site ∈ sites) : s.code.length ≤ site.place ∧ site.place < s'.code.length := by
  obtain ⟨code, hg, hh⟩ := h.guarded site hm
  have hb := hh.bounds e
  have hl := hg.entry_le
  have hp := hg.place_lt
  omega

theorem targets_issued (h : Survey symbols known s s' new sites) (e : Emission s s' new ts)
    (hold : ∀ k ∈ known, k.Old s) : ∀ l ∈ targets new, l.number ≤ s'.issued l.stem := by
  intro l hl
  rcases h.targets_known l hl with hk | hi
  · exact Nat.le_trans (hold _ hk) (e.issued_le _)
  · exact hi.2

/-- Code with nothing in it to be guarded may come first, and may issue labels for what follows. -/
theorem lead (hp : Plain symbols new₁)
    (ht : ∀ l ∈ targets new₁, .label l ∈ known ∨ IssuedLabel s l s₁)
    (h : Survey symbols known₂ s₁ s' new₂ sites) (e₁ : Emission s s₁ new₁ ts₁)
    (e₂ : Emission s₁ s' new₂ ts₂) (hold : ∀ k ∈ known, k.Old s)
    (hk : ∀ l, .label l ∈ known₂ → .label l ∈ known ∨ IssuedLabel s l s₁) :
    Survey symbols known s s' (new₁ ++ new₂) sites := by
  have hissued := (ofPlain hp ht).targets_issued e₁ hold
  constructor
  · intro l hl
    rw [targets_append, List.mem_append] at hl
    rcases hl with hl | hl
    · exact (ht l hl).imp_right fun hi ↦ hi.widen (.refl s) e₂
    · rcases h.targets_known l hl with hl | hi
      · exact (hk l hl).imp_right fun hi ↦ hi.widen (.refl s) e₂
      · exact .inr (hi.widen e₁ (.refl s'))
  · exact settle_trans hp.settles h.settles
  · intro i hi
    exact (List.mem_append.mp hi).elim (hp.offsets i) (h.offsets i)
  · intro k i hi hd
    rw [List.getElem?_append] at hi
    split at hi
    · have hf := hp.undivided i (List.mem_of_getElem? hi)
      rw [hf] at hd
      cases hd
    · obtain ⟨g, start, hg, hstart, hh⟩ := h.divisions _ i hi hd
      refine ⟨g, start, hg, ?_, hh.prepend e₁ hissued⟩
      rw [hstart, e₁.code_eq, List.length_append]
      omega
  · intro site hm
    obtain ⟨code, hg, hh⟩ := h.guarded site hm
    exact ⟨code, hg, hh.prepend e₁ hissued⟩
  · exact h.ascending

theorem append (h₁ : Survey symbols known s s₁ new₁ sites₁)
    (h₂ : Survey symbols known₂ s₁ s' new₂ sites₂) (e₁ : Emission s s₁ new₁ ts₁)
    (e₂ : Emission s₁ s' new₂ ts₂) (hold : ∀ k ∈ known, k.Old s)
    (hk : ∀ l, .label l ∈ known₂ → .label l ∈ known) :
    Survey symbols known s s' (new₁ ++ new₂) (sites₁ ++ sites₂) := by
  have hissued := h₁.targets_issued e₁ hold
  -- what comes later jumps to labels that are older or newer than those of the first part
  have hapart : ∀ l ∈ targets new₂, ¬ IssuedLabel s l s₁ := by
    intro l hl hi
    rcases h₂.targets_known l hl with hm | hm
    · exact absurd (hold _ (hk l hm)) (Nat.not_le.mpr hi.1)
    · exact absurd hi.2 (Nat.not_le.mpr hm.1)
  constructor
  · intro l hl
    rw [targets_append, List.mem_append] at hl
    rcases hl with hl | hl
    · exact (h₁.targets_known l hl).imp_right fun hi ↦ hi.widen (.refl s) e₂
    · exact (h₂.targets_known l hl).imp (hk l) fun hi ↦ hi.widen e₁ (.refl s')
  · exact settle_trans h₁.settles h₂.settles
  · intro i hi
    exact (List.mem_append.mp hi).elim (h₁.offsets i) (h₂.offsets i)
  · intro k i hi hd
    rw [List.getElem?_append] at hi
    split at hi
    · obtain ⟨g, start, hg, hstart, hh⟩ := h₁.divisions k i hi hd
      exact ⟨g, start, hg, hstart, hh.extend e₂ hapart⟩
    · obtain ⟨g, start, hg, hstart, hh⟩ := h₂.divisions _ i hi hd
      refine ⟨g, start, hg, ?_, hh.prepend e₁ hissued⟩
      rw [hstart, e₁.code_eq, List.length_append]
      omega
  · intro site hm
    rcases List.mem_append.mp hm with hm | hm
    · obtain ⟨code, hg, hh⟩ := h₁.guarded site hm
      exact ⟨code, hg, hh.extend e₂ hapart⟩
    · obtain ⟨code, hg, hh⟩ := h₂.guarded site hm
      exact ⟨code, hg, hh.prepend e₁ hissued⟩
  · refine List.pairwise_append.mpr ⟨h₁.ascending, h₂.ascending, fun site hm later hl ↦ ?_⟩
    exact Nat.lt_of_lt_of_le (h₁.window e₁ hm).2 (h₂.window e₂ hl).1

theorem cons (h : Survey symbols known s s' new sites) (hg : site.GuardedBy code)
    (hh : Housed site.entry code s s' new) (hl : ∀ later ∈ sites, site.place < later.place) :
    Survey symbols known s s' new (site :: sites) :=
  { h with
    guarded := List.forall_mem_cons.mpr ⟨⟨code, hg, hh⟩, h.guarded⟩
    ascending := .cons hl h.ascending }

end Survey

end ThreeAddress.Control
