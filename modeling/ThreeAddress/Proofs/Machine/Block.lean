import Mathlib.Data.List.Nodup
import ThreeAddress.Proofs.Machine.Basic

namespace ThreeAddress.Machine

open Code

variable {ι : Type} {P : Platform ι} {listing before code rest : List Instr} {i : Instr} {l : Label}
variable {c c' : List Instr} {σ σ' σ₀ σ₁ σ₂ : Store ι}

theorem suffix_unique {α : Type} {xs ys zs : List α} (hx : xs <:+ zs) (hy : ys <:+ zs)
    (h : xs.length = ys.length) : xs = ys :=
  (List.suffix_of_suffix_length_le hx hy (Nat.le_of_eq h)).eq_of_length h

theorem step_running (h : step P listing (.running c σ) = some (.running c' σ')) :
    ∃ i d, c = i :: d ∧ (effect P σ i = .next σ' ∧ d = c' ∨
      ∃ l, effect P σ i = .jump l σ' ∧ behind l listing = some c') := by
  cases c with
  | nil => cases h
  | cons i d =>
    refine ⟨i, d, rfl, ?_⟩
    rw [step] at h
    cases he : effect P σ i with
    | next σ₁ =>
      rw [he] at h
      cases h
      exact .inl ⟨rfl, rfl⟩
    | jump l σ₁ =>
      rw [he] at h
      obtain ⟨found, hf, hr⟩ := Option.map_eq_some_iff.mp h
      cases hr
      exact .inr ⟨l, rfl, hf⟩
    | stop e w =>
      rw [he] at h
      cases h

theorem Reaches.suffix (h : Reaches P listing (.running listing σ₀) (.running c σ)) :
    c <:+ listing := by
  generalize hd : Config.running c σ = d at h
  induction h generalizing c σ with
  | refl =>
    cases hd
    exact List.suffix_rfl
  | @tail b _ _ hs ih =>
    subst hd
    cases b with
    | ended e w => cases hs
    | running c₁ σ₁ =>
      obtain ⟨i, d, rfl, ⟨-, rfl⟩ | ⟨l, -, hb⟩⟩ := step_running hs
      · exact (List.suffix_cons i d).trans (ih rfl)
      · exact (List.suffix_cons _ c).trans (suffix_of_behind hb)

theorem target_of_jump (h : effect P σ i = .jump l σ') : i.target? = some l ∧ σ' = σ := by
  have hreceive {params : List Word} {dst : Option Temp} {reply : Reply ι} :
      σ.receive params dst reply ≠ .jump l σ' := by
    cases reply <;> simp [Store.receive]
  cases i <;> simp only [effect] at h
  case jump =>
    cases h
    exact ⟨rfl, rfl⟩
  case jumpIfZero =>
    split at h
    · cases h
      exact ⟨rfl, rfl⟩
    · cases h
  case call | callTemp | newArray | instanceOf | checkClass => exact absurd h hreceive
  case checkBounds => split at h <;> cases h
  all_goals cases h

theorem exec_append (h : exec P σ code = .next σ') (rest : List Instr) :
    exec P σ (code ++ rest) = exec P σ' rest := by
  induction code generalizing σ with
  | nil =>
    cases h
    rfl
  | cons i code ih =>
    rw [exec] at h
    rw [List.cons_append, exec]
    cases he : effect P σ i with
    | next σ₁ =>
      rw [he] at h
      exact ih h
    | jump l σ₁ =>
      rw [he] at h
      cases h
    | stop e w =>
      rw [he] at h
      cases h

theorem exec_append_next (h : exec P σ (code ++ rest) = .next σ') :
    ∃ σ₁, exec P σ code = .next σ₁ ∧ exec P σ₁ rest = .next σ' := by
  induction code generalizing σ with
  | nil => exact ⟨σ, rfl, h⟩
  | cons i code ih =>
    rw [List.cons_append, exec] at h
    rw [exec]
    cases he : effect P σ i with
    | next σ₁ =>
      rw [he] at h
      exact ih h
    | jump l σ₁ =>
      rw [he] at h
      cases h
    | stop e w =>
      rw [he] at h
      cases h

theorem exec_append_stop {e : Ending} {w : World ι} (h : exec P σ code = .stop e w)
    (rest : List Instr) : exec P σ (code ++ rest) = .stop e w := by
  induction code generalizing σ with
  | nil => cases h
  | cons i code ih =>
    rw [exec] at h
    rw [List.cons_append, exec]
    cases he : effect P σ i with
    | next σ₁ =>
      rw [he] at h
      exact ih h
    | jump l σ₁ =>
      rw [he] at h
      cases h
    | stop e' w' =>
      rw [he] at h
      exact h

/-- A run that stops in straight code does not get behind it. -/
theorem Reaches.of_exec_stop_lt {e : Ending} {w : World ι} (h : exec P σ code = .stop e w)
    (hr : Reaches P listing (.running (code ++ rest) σ) (.running c σ')) :
    rest.length < c.length := by
  induction code generalizing σ with
  | nil => cases h
  | cons i code ih =>
    rw [exec] at h
    rcases Relation.ReflTransGen.cases_head hr with heq | ⟨b, hstep, hr⟩
    · obtain ⟨rfl, -⟩ := Config.running.inj heq
      simp only [List.cons_append, List.length_cons, List.length_append]
      omega
    · rw [List.cons_append, step] at hstep
      cases he : effect P σ i with
      | next σ₁ =>
        rw [he] at h hstep
        cases hstep
        exact ih h hr
      | jump l σ₁ =>
        rw [he] at h
        cases h
      | stop e' w' =>
        rw [he] at hstep
        cases hstep
        rcases Relation.ReflTransGen.cases_head hr with heq | ⟨b, hstep, -⟩
        · cases heq
        · cases hstep

theorem truth_eq_zero (p : Prop) [Decidable p] : truth p = 0 ↔ ¬ p := by
  by_cases h : p <;> simp [truth, h]

theorem not_exec_past_jump : exec P σ (code ++ .jump l :: rest) ≠ .next σ' := by
  intro h
  obtain ⟨σ₁, -, hr⟩ := exec_append_next h
  cases hr

/-- A block of code in a listing, with no jump to its labels from outside. -/
structure Sealed (listing before code rest : List Instr) : Prop where
  listing_eq : listing = before ++ (code ++ rest)
  nodup : (labels listing).Nodup
  before_targets : ∀ l ∈ labels code, l ∉ targets before
  rest_targets : ∀ l ∈ labels code, l ∉ targets rest

def Config.Below (n : Nat) : Config ι → Prop
  | .running c _ => c.length < n
  | .ended _ _ => True

variable (P) in
/-- The run goes on, and at no time does it get back to where `n` instructions are left. -/
def Onward (listing : List Instr) (n : Nat) : Config ι → Config ι → Prop :=
  Relation.ReflTransGen fun c c' ↦ step P listing c = some c' ∧ c'.Below n

namespace Sealed

theorem suffix (hs : Sealed listing before code rest) (hc : c <:+ code) :
    c ++ rest <:+ listing := by
  rw [hs.listing_eq]
  exact (List.suffix_append_self_iff.mpr hc).trans (List.suffix_append _ _)

theorem labels_nodup (hs : Sealed listing before code rest) : (labels code).Nodup := by
  have hd := hs.nodup
  rw [hs.listing_eq, labels_append, labels_append] at hd
  exact hd.of_append_right.of_append_left

/-- What comes right before a place in the block other than its beginning is in the block, too. -/
theorem preceding (hs : Sealed listing before code rest) (hc : c <:+ code) (hne : c ≠ code)
    (hi : i :: (c ++ rest) <:+ listing) : i :: c <:+ code := by
  obtain ⟨front, rfl⟩ := hc
  rcases List.eq_nil_or_concat front with rfl | ⟨front, j, rfl⟩
  · exact absurd rfl hne
  · have hj : j :: c <:+ front.concat j ++ c := by simp
    have hij := suffix_unique hi (hs.suffix hj) (by simp)
    obtain ⟨rfl, -⟩ := List.cons.inj hij
    exact hj

theorem source (hs : Sealed listing before code rest) (hi : i :: c <:+ listing)
    (ht : i.target? = some l) (hl : l ∈ labels code) :
    ∃ d, i :: d <:+ code ∧ c = d ++ rest := by
  obtain ⟨front, hf⟩ := hi
  rw [hs.listing_eq] at hf
  have htarget {xs ys : List Instr} : l ∈ targets (xs ++ i :: ys) := by simp [ht]
  rcases List.append_eq_append_iff.mp hf with ⟨a, rfl, ha⟩ | ⟨a, rfl, ha⟩
  · cases a with
    | nil =>
      cases code with
      | nil => simp at hl
      | cons j d =>
        obtain ⟨rfl, rfl⟩ := List.cons.inj ha
        exact ⟨d, List.suffix_rfl, rfl⟩
    | cons j a =>
      obtain ⟨rfl, -⟩ := List.cons.inj ha
      exact absurd htarget (hs.before_targets l hl)
  · rcases List.append_eq_append_iff.mp ha.symm with ⟨b, rfl, hb⟩ | ⟨b, rfl, hb⟩
    · cases b with
      | nil =>
        rw [List.nil_append] at hb
        subst hb
        exact absurd (by simp [ht]) (hs.rest_targets l hl)
      | cons j d =>
        obtain ⟨rfl, rfl⟩ := List.cons.inj hb
        exact ⟨d, List.suffix_append _ _, rfl⟩
    · rw [hb] at hs
      exact absurd htarget (hs.rest_targets l hl)

/-- What holds at the beginning of a block and is kept up by its code holds throughout the block.
It relates the store at the latest beginning to the store of the moment. -/
theorem invariant (hs : Sealed listing before code rest)
    {A : List Instr → Store ι → Store ι → Prop} (hstart : ∀ σ, A code σ σ)
    (hnext : ∀ ⦃i c σ₀ σ σ'⦄, i :: c <:+ code → c ≠ [] → A (i :: c) σ₀ σ →
      effect P σ i = .next σ' → A c σ₀ σ')
    (hjump : ∀ ⦃i c l c' σ₀ σ⦄, i :: c <:+ code → A (i :: c) σ₀ σ → effect P σ i = .jump l σ →
      .label l :: c' <:+ code → c' ≠ [] → A c' σ₀ σ)
    (h : Reaches P listing (.running listing σ₀) (.running (c ++ rest) σ)) (hc : c <:+ code)
    (hne : c ≠ []) :
    ∃ σ₁, Reaches P listing (.running listing σ₀) (.running (code ++ rest) σ₁) ∧
      Onward P listing (code ++ rest).length (.running (code ++ rest) σ₁)
        (.running (c ++ rest) σ) ∧ A c σ₁ σ := by
  generalize hd : Config.running (c ++ rest) σ = d at h
  -- the step that leads into the block, or from one place in it to another
  induction h generalizing c σ with
  | refl =>
    obtain ⟨hl, rfl⟩ := Config.running.inj hd
    have hcode : c = code := by
      obtain ⟨front, rfl⟩ := hc
      have hlen := congrArg List.length (hl.trans hs.listing_eq)
      simp only [List.length_append] at hlen
      rw [List.eq_nil_of_length_eq_zero (show front.length = 0 by omega), List.nil_append]
    subst hcode
    rw [← hl]
    exact ⟨σ, .refl _, .refl, hstart σ⟩
  | @tail b _ hr hstep ih =>
    subst hd
    by_cases hcode : c = code
    · subst hcode
      exact ⟨σ, Relation.ReflTransGen.tail hr hstep, .refl, hstart σ⟩
    have hbelow : (Config.running (c ++ rest) σ).Below (code ++ rest).length := by
      have hle := hc.length_le
      have hlen : c.length ≠ code.length := fun he ↦ hcode (hc.eq_of_length he)
      simp only [Config.Below, List.length_append]
      omega
    cases b with
    | ended e w => cases hstep
    | running c₁ σ₁ =>
      have hsuffix := Reaches.suffix hr
      obtain ⟨i, d, rfl, ⟨he, rfl⟩ | ⟨l, he, hb⟩⟩ := step_running hstep
      · have hi := hs.preceding hc hcode hsuffix
        obtain ⟨σe, hreach, hon, ha⟩ := ih hi (List.cons_ne_nil _ _) rfl
        exact ⟨σe, hreach, hon.tail ⟨hstep, hbelow⟩, hnext hi hne ha he⟩
      · obtain ⟨ht, rfl⟩ := target_of_jump he
        have hl := hs.preceding hc hcode (suffix_of_behind hb)
        have hmem : l ∈ labels code := by
          obtain ⟨front, rfl⟩ := hl
          simp
        obtain ⟨d, hi, rfl⟩ := hs.source hsuffix ht hmem
        obtain ⟨σe, hreach, hon, ha⟩ := ih hi (List.cons_ne_nil _ _) rfl
        exact ⟨σe, hreach, hon.tail ⟨hstep, hbelow⟩, hjump hi ha he hl hne⟩

/-- It is enough to say what holds at the beginning of a block and behind the labels that it jumps
to: from the last of these places on, the run has followed straight code. -/
theorem cuts (hs : Sealed listing before code rest) (Cut : List Instr → Store ι → Store ι → Prop)
    (hstart : ∀ σ, Cut code σ σ)
    (hjump : ∀ ⦃done i c l c' σ₀ σ₁ σ⦄, Cut (done ++ i :: c) σ₀ σ₁ → exec P σ₁ done = .next σ →
      effect P σ i = .jump l σ → .label l :: c' <:+ code → c' ≠ [] → Cut c' σ₀ σ)
    (h : Reaches P listing (.running listing σ₀) (.running (c ++ rest) σ)) (hc : c <:+ code)
    (hne : c ≠ []) :
    ∃ σ₁, Reaches P listing (.running listing σ₀) (.running (code ++ rest) σ₁) ∧
      Onward P listing (code ++ rest).length (.running (code ++ rest) σ₁)
        (.running (c ++ rest) σ) ∧
      ∃ done σ₂, Cut (done ++ c) σ₁ σ₂ ∧ exec P σ₂ done = .next σ := by
  refine hs.invariant (A := fun c σ₁ σ ↦ ∃ done σ₂, Cut (done ++ c) σ₁ σ₂ ∧
    exec P σ₂ done = .next σ) (fun σ ↦ ⟨[], σ, hstart σ, rfl⟩) ?_ ?_ h hc hne
  · rintro i c σ₁ σ σ' - - ⟨done, σ₂, hcut, he⟩ hi
    refine ⟨done ++ [i], σ₂, by rwa [List.append_assoc], ?_⟩
    rw [exec_append he, exec_cons hi]
    rfl
  · rintro i c l c' σ₁ σ - ⟨done, σ₂, hcut, he⟩ hi hl hc'
    exact ⟨[], σ, hjump hcut he hi hl hc', rfl⟩

theorem straight {done : List Instr} (hs : Sealed listing before (done ++ c) rest)
    (hl : labels (done ++ c) = []) (hne : c ≠ [])
    (h : Reaches P listing (.running listing σ₀) (.running (c ++ rest) σ)) :
    ∃ σ₁, Reaches P listing (.running listing σ₀) (.running (done ++ c ++ rest) σ₁) ∧
      Onward P listing (done ++ c ++ rest).length (.running (done ++ c ++ rest) σ₁)
        (.running (c ++ rest) σ) ∧ exec P σ₁ done = .next σ := by
  obtain ⟨σ₁, hr, ho, front, σ₂, ⟨hcut, rfl⟩, he⟩ :=
    hs.cuts (fun d σ₁ σ ↦ d = done ++ c ∧ σ = σ₁) (fun _ ↦ ⟨rfl, rfl⟩) (by
      rintro front i d l d' σ₁ σ₂ σ - - - ⟨pre, hpre⟩ -
      rw [← hpre] at hl
      simp at hl) h (List.suffix_append _ _) hne
  obtain rfl := List.append_cancel_right hcut
  exact ⟨σ₂, hr, ho, he⟩

end Sealed

theorem source_unique {front : List Instr} {j : Instr} (hf : l ∉ targets front)
    (hr : l ∉ targets rest) (h : before ++ i :: code = front ++ j :: rest)
    (hi : i.target? = some l) : before = front ∧ i = j ∧ code = rest := by
  have hmem {xs ys : List Instr} : l ∈ targets (xs ++ i :: ys) := by simp [hi]
  rcases List.append_eq_append_iff.mp h with ⟨a, rfl, ha⟩ | ⟨a, rfl, ha⟩
  · cases a with
    | nil => simpa using ha
    | cons k a =>
      obtain ⟨rfl, -⟩ := List.cons.inj ha
      exact absurd hmem hf
  · cases a with
    | nil =>
      obtain ⟨rfl, rfl⟩ := List.cons.inj ha
      simp
    | cons k a =>
      obtain ⟨-, rfl⟩ := List.cons.inj ha
      exact absurd hmem hr

theorem effect_regs {t : Temp} (h : effect P σ i = .next σ') (ht : i.dst? ≠ some t) :
    σ'.regs t = σ.regs t := by
  have hset {dst : Temp} {v : Word} (hd : dst ≠ t) : (σ.set dst v).regs t = σ.regs t :=
    Function.update_of_ne hd.symm _ _
  have hreceive {params : List Word} {dst : Option Temp} {reply : Reply ι} (hd : dst ≠ some t)
      (h : σ.receive params dst reply = .next σ') : σ'.regs t = σ.regs t := by
    cases reply with
    | halted w => cases h
    | returned v w =>
      cases h
      cases dst with
      | none => rfl
      | some u => exact hset fun hu ↦ hd (congrArg some hu)
  cases i <;> simp only [effect, Instr.dst?, ne_eq, Option.some.injEq] at h ht
  case call | callTemp => exact hreceive ht h
  case newArray | instanceOf => exact hreceive (fun hd ↦ ht (Option.some.inj hd)) h
  case checkClass => exact hreceive (by simp) h
  case jump | ret => cases h
  case jumpIfZero | checkBounds =>
    split at h
    · cases h <;> rfl
    · cases h <;> rfl
  case store | param | label =>
    cases h
    rfl
  all_goals
    cases h
    exact hset ht

theorem exec_regs {t : Temp} (h : exec P σ code = .next σ') (ht : ∀ i ∈ code, i.dst? ≠ some t) :
    σ'.regs t = σ.regs t := by
  induction code generalizing σ with
  | nil =>
    cases h
    rfl
  | cons i code ih =>
    rw [exec] at h
    cases he : effect P σ i with
    | next σ₁ =>
      rw [he] at h
      rw [ih h fun j hj ↦ ht j (List.mem_cons_of_mem i hj)]
      exact effect_regs he (ht i List.mem_cons_self)
    | jump l σ₁ =>
      rw [he] at h
      cases h
    | stop e w =>
      rw [he] at h
      cases h

end ThreeAddress.Machine
