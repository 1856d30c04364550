import ThreeAddress.Proofs.Lowering.Mention
import ThreeAddress.Proofs.Machine.Basic

namespace ThreeAddress.Machine

open Code Lowering

variable {ι : Type} {P : Platform ι} {W V : Temp → Prop} {σ σ' τ τ' υ : Store ι} {t : Temp}

/-- The stores differ at most in temporaries outside of `W`. -/
structure Agree (W : Temp → Prop) (σ τ : Store ι) : Prop where
  params_eq : τ.params = σ.params
  world_eq : τ.world = σ.world
  regs_eq : ∀ t, W t → τ.regs t = σ.regs t

/-- Temporaries outside of `W` have kept their values. -/
def Spares (W : Temp → Prop) (τ τ' : Store ι) : Prop := ∀ t, ¬ W t → τ'.regs t = τ.regs t

namespace Spares

theorem refl (W : Temp → Prop) (τ : Store ι) : Spares W τ τ := fun _ _ ↦ rfl

theorem trans (h : Spares W τ τ') (h' : Spares W τ' υ) : Spares W τ υ :=
  fun t ht ↦ (h' t ht).trans (h t ht)

theorem mono (h : Spares W τ τ') (hv : ∀ t, W t → V t) : Spares V τ τ' :=
  fun t ht ↦ h t fun hw ↦ ht (hv t hw)

theorem set (ht : W t) (τ : Store ι) (value : Word) : Spares W τ (τ.set t value) := by
  intro u hu
  have hut : u ≠ t := by
    rintro rfl
    exact hu ht
  exact Function.update_of_ne hut _ _

end Spares

/-- Two effects that agree, the second on the store `τ`. -/
inductive Effect.Agrees (W : Temp → Prop) (τ : Store ι) : Effect ι → Effect ι → Prop
  | next {σ' τ' : Store ι} (ha : Agree W σ' τ') (hs : Spares W τ τ') :
      Agrees W τ (.next σ') (.next τ')
  | jump {l : Label} {σ' τ' : Store ι} (ha : Agree W σ' τ') (hs : Spares W τ τ') :
      Agrees W τ (.jump l σ') (.jump l τ')
  | stop {e : Ending} {w : World ι} : Agrees W τ (.stop e w) (.stop e w)

theorem Agree.set (h : Agree W σ τ) (t : Temp) (value : Word) :
    Agree W (σ.set t value) (τ.set t value) := by
  refine ⟨h.params_eq, h.world_eq, fun u hu ↦ ?_⟩
  by_cases hut : u = t
  · subst hut
    simp only [Store.set, Function.update_self]
  · simp only [Store.set, Function.update_of_ne hut]
    exact h.regs_eq u hu

namespace Agree

theorem refl (W : Temp → Prop) (σ : Store ι) : Agree W σ σ := ⟨rfl, rfl, fun _ _ ↦ rfl⟩

theorem trans (h : Agree W σ τ) (h' : Agree V τ υ) (hv : ∀ t, W t → V t) : Agree W σ υ :=
  ⟨h'.params_eq.trans h.params_eq, h'.world_eq.trans h.world_eq,
    fun t ht ↦ (h'.regs_eq t (hv t ht)).trans (h.regs_eq t ht)⟩

theorem set_outside (h : Agree W σ τ) (ht : ¬ W t) (value : Word) : Agree W σ (τ.set t value) := by
  refine ⟨h.params_eq, h.world_eq, fun u hu ↦ ?_⟩
  have hut : u ≠ t := by
    rintro rfl
    exact ht hu
  rw [← h.regs_eq u hu]
  exact Function.update_of_ne hut _ _

end Agree

theorem Agree.receive (h : Agree W σ τ) {dst : Option Temp} (hd : ∀ t ∈ dst, W t)
    (params : List Word) (reply : Reply ι) :
    Effect.Agrees W τ (σ.receive params dst reply) (τ.receive params dst reply) := by
  cases reply with
  | halted w => exact .stop
  | returned value w =>
    cases dst with
    | none => exact .next ⟨rfl, rfl, h.regs_eq⟩ fun _ _ ↦ rfl
    | some t =>
      exact .next ⟨rfl, rfl, (h.set t value).regs_eq⟩ (Spares.set (hd t rfl) τ value)

/-- An instruction does the same on stores that agree on the temporaries that it mentions. -/
theorem Agree.effect {i : Instr} (h : Agree W σ τ) (hi : ∀ t ∈ i.temps, W t) :
    Effect.Agrees W τ (effect P σ i) (effect P τ i) := by
  have hreads : ∀ t ∈ i.reads, τ.regs t = σ.regs t := fun t ht ↦
    h.regs_eq t (hi t (List.mem_append_right _ ht))
  have hdst : ∀ t ∈ i.dst?, W t := fun t ht ↦
    hi t (List.mem_append_left _ (Option.mem_toList.mpr ht))
  have hset (t : Temp) (value : Word) (ht : W t) :
      Effect.Agrees W τ (.next (σ.set t value)) (.next (τ.set t value)) :=
    .next (h.set t value) (Spares.set ht τ value)
  have hstay : Effect.Agrees W τ (.next σ) (.next τ) := .next h (.refl W τ)
  -- what is read is the same, so that both effects come to the same form
  cases i <;> simp only [Instr.reads, List.forall_mem_cons, List.not_mem_nil, Option.mem_toList,
    false_implies, implies_true, and_true] at hreads <;>
    simp only [Machine.effect, hreads, h.params_eq, h.world_eq]
  case constant dst _ | string dst _ | vtable dst _ => exact hset dst _ (hdst dst rfl)
  case copy dst _ | unary dst _ _ | binary dst _ _ _ | load dst _ _ =>
    exact hset dst _ (hdst dst rfl)
  case store | param => exact .next ⟨rfl, rfl, h.regs_eq⟩ fun _ _ ↦ rfl
  case call | callTemp | newArray | instanceOf | checkClass => exact h.receive hdst _ _
  case jump => exact .jump h (.refl W τ)
  case jumpIfZero =>
    split
    · exact .jump h (.refl W τ)
    · exact hstay
  case label => exact hstay
  case ret value =>
    rw [Option.map_congr hreads]
    exact .stop
  case checkBounds =>
    split
    · exact hstay
    · exact .stop

section placed

variable {listing code rest c c' : List Instr}

/-- Code stands in a listing, in front of `rest`, and mentions temporaries in `W` only. -/
structure Placed (W : Temp → Prop) (listing code rest : List Instr) : Prop where
  nodup : (labels listing).Nodup
  suffix : code ++ rest <:+ listing
  mentions : Mentions W code

theorem Placed.step (hp : Placed W listing code rest) (hc : c <:+ code) (ha : Agree W σ τ)
    (h : step P code (.running c σ) = some (.running c' σ')) :
    c' <:+ code ∧ ∃ τ', step P listing (.running (c ++ rest) τ) = some (.running (c' ++ rest) τ') ∧
      Agree W σ' τ' ∧ Spares W τ τ' := by
  cases c with
  | nil => cases h
  | cons i c =>
    have hi := ha.effect (P := P) (hp.mentions i (hc.mem List.mem_cons_self))
    generalize hτ : effect P τ i = result at hi
    rw [Machine.step] at h
    cases hi' : effect P σ i with
    | next σ₁ =>
      rw [hi'] at hi h
      cases h
      cases hi with
      | next ha hs =>
        exact ⟨(List.suffix_cons i c').trans hc,
          _, by simp only [Machine.step, hτ, List.cons_append],
          ha, hs⟩
    | jump l σ₁ =>
      rw [hi'] at hi h
      obtain ⟨found, hf, hr⟩ := Option.map_eq_some_iff.mp h
      cases hr
      cases hi with
      | jump ha hs =>
        have hl := suffix_of_behind hf
        have hb : behind l listing = some (c' ++ rest) :=
          behind_eq_some hp.nodup ((List.suffix_append_self_iff.mpr hl).trans hp.suffix)
        exact ⟨(List.suffix_cons _ c').trans hl, _,
          by simp only [Machine.step, hτ, hb, List.cons_append, Option.map_some], ha, hs⟩
    | stop e w =>
      rw [hi'] at h
      cases h

theorem Placed.reaches (hp : Placed W listing code rest) (ha : Agree W σ τ)
    (h : Reaches P code (.running code σ) (.running c' σ')) :
    c' <:+ code ∧ ∃ τ', Reaches P listing (.running (code ++ rest) τ) (.running (c' ++ rest) τ') ∧
      Agree W σ' τ' ∧ Spares W τ τ' := by
  generalize hd : Config.running c' σ' = d at h
  induction h generalizing c' σ' with
  | refl =>
    cases hd
    exact ⟨List.suffix_rfl, τ, .refl _, ha, .refl W τ⟩
  | @tail b _ _ hs ih =>
    subst hd
    cases b with
    | ended e w => cases hs
    | running c₁ σ₁ =>
      obtain ⟨hc₁, τ₁, hr₁, ha₁, hs₁⟩ := ih rfl
      obtain ⟨hc, τ', hr, ha', hs'⟩ := hp.step hc₁ ha₁ hs
      exact ⟨hc, τ', Relation.ReflTransGen.tail hr₁ hr, ha', hs₁.trans hs'⟩

theorem Placed.halts {w : World ι} (hp : Placed W listing code rest) (ha : Agree W σ τ)
    (h : Reaches P code (.running code σ) (.ended .halted w)) :
    Reaches P listing (.running (code ++ rest) τ) (.ended .halted w) := by
  rcases Relation.ReflTransGen.cases_tail h with he | ⟨b, hr, hs⟩
  · cases he
  · cases b with
    | ended e w => cases hs
    | running c₁ σ₁ =>
      obtain ⟨hc₁, τ₁, hr₁, ha₁, -⟩ := hp.reaches ha hr
      refine hr₁.trans ?_
      cases c₁ with
      | nil => cases hs
      | cons i c =>
        have hi := ha₁.effect (P := P) (hp.mentions i (hc₁.mem List.mem_cons_self))
        rw [Machine.step] at hs
        cases hi' : effect P σ₁ i with
        | next σ₂ =>
          rw [hi'] at hs
          cases hs
        | jump l σ₂ =>
          rw [hi'] at hs
          obtain ⟨_, _, hr⟩ := Option.map_eq_some_iff.mp hs
          cases hr
        | stop e w =>
          rw [hi'] at hi hs
          cases hs
          generalize hτ : effect P τ₁ i = result at hi
          cases hi
          exact .stop hτ

end placed

end ThreeAddress.Machine
