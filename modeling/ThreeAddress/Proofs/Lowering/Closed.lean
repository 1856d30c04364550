import ThreeAddress.Proofs.Lowering.Fragment
import ThreeAddress.Proofs.Lowering.Tracking

namespace ThreeAddress.Lowering

open Checked Code

variable {α β : Type} {s s₁ s₂ s' : State} {t : Temp} {l : Label} {env : Env} {span : Span}
variable {exit : Option Label} {new new₁ new₂ : List Instr} {ts ts₁ ts₂ : List Temp}

structure Closed (exit : Option Label) (s s' : State) (new : List Instr) : Prop where
  issued : ∀ l ∈ labels new, IssuedLabel s l s'
  placed : ∀ l ∈ targets new, l ∈ labels new ∨ exit = some l
  targeted : ∀ l ∈ labels new, l ∈ targets new

namespace Closed

theorem straight (hl : labels new = []) (ht : targets new = []) : Closed exit s s' new :=
  ⟨by simp [hl], by simp [ht], by simp [hl]⟩

theorem append (h₁ : Closed exit s s₁ new₁) (h₂ : Closed exit s₁ s₂ new₂)
    (e₁ : Emission s s₁ new₁ ts₁) (e₂ : Emission s₁ s₂ new₂ ts₂) :
    Closed exit s s₂ (new₁ ++ new₂) where
  issued l hl := by
    rw [labels_append, List.mem_append] at hl
    rcases hl with hl | hl
    · exact (h₁.issued l hl).widen (.refl s) e₂
    · exact (h₂.issued l hl).widen e₁ (.refl s₂)
  placed l hl := by
    rw [targets_append, List.mem_append] at hl
    rw [labels_append, List.mem_append]
    rcases hl with hl | hl
    · exact (h₁.placed l hl).imp_left .inl
    · exact (h₂.placed l hl).imp_left .inr
  targeted l hl := by
    rw [labels_append, List.mem_append] at hl
    rw [targets_append, List.mem_append]
    exact hl.imp (h₁.targeted l) (h₂.targeted l)

theorem exits (h : Closed none s s' new) : Closed exit s s' new :=
  ⟨h.issued, fun l hl ↦ .inl ((h.placed l hl).resolve_right (by simp)), h.targeted⟩

end Closed

def Closes (exit : Option Label) (x : Lower α) : Prop :=
  ∀ ⦃s a s'⦄, x s = .ok a s' → ∃ new ts, Emission s s' new ts ∧ Closed exit s s' new

namespace Closes

theorem pure (a : α) : Closes exit (pure a : Lower α) := by
  intro s b s' h
  obtain ⟨rfl, rfl⟩ := pure_ok_iff.mp h
  exact ⟨[], [], .refl s, .straight rfl rfl⟩

theorem bind {x : Lower α} {f : α → Lower β} (hx : Closes exit x) (hf : ∀ a, Closes exit (f a)) :
    Closes exit (x >>= f) := by
  intro s b s' h
  obtain ⟨a, s₁, ha, hb⟩ := bind_ok_iff.mp h
  obtain ⟨new₁, ts₁, e₁, c₁⟩ := hx ha
  obtain ⟨new₂, ts₂, e₂, c₂⟩ := hf a hb
  exact ⟨new₁ ++ new₂, ts₁ ++ ts₂, e₁.trans e₂, c₁.append c₂ e₁ e₂⟩

theorem reject (kind : DefectKind) (span : Span) : Closes exit (reject kind span : Lower α) := by
  intro s a s' h
  cases h

theorem lookUp (found : Option α) (kind : DefectKind) (span : Span) :
    Closes exit (lookUp found kind span) := by
  cases found with
  | none => exact reject kind span
  | some a => exact pure a

theorem compute {instr : Temp → Instr} (hl : ∀ t, (instr t).label? = none)
    (ht : ∀ t, (instr t).target? = none) : Closes exit (compute instr) := by
  intro s t s' h
  exact ⟨_, _, compute_ok hl h, .straight (by simp [hl]) (by simp [ht])⟩

theorem append {i : Instr} (hl : i.label? = none) (ht : i.target? = none) :
    Closes exit (append i) := by
  intro s t s' h
  exact ⟨_, _, append_ok hl h, .straight (by simp [hl]) (by simp [ht])⟩

theorem declare (v : VarId) : Closes exit (declare v) := by
  intro s t s' h
  exact ⟨_, _, (declare_ok h).1, .straight rfl rfl⟩

theorem callRoutine (r : Routine) : Closes exit (callRoutine r) := by
  intro s t s' h
  exact ⟨_, _, (callRoutine_ok h).1, .straight rfl rfl⟩

theorem call {instr : Option Temp → Instr} (type : DataType) (hl : ∀ d, (instr d).label? = none)
    (ht : ∀ d, (instr d).target? = none) : Closes exit (call instr type) := by
  intro s t s' h
  exact ⟨_, _, (call_ok hl h).1, .straight (by simp [hl]) (by simp [ht])⟩

theorem pass (t : Temp) : Closes exit (pass t) := by
  intro s a s' h
  exact ⟨_, _, pass_ok h, .straight rfl rfl⟩

theorem findTemp (v : VarId) : Closes exit (env.findTemp v span) := by
  intro s t s' h
  obtain ⟨-, rfl⟩ := Env.findTemp_ok h
  exact ⟨[], [], .refl _, .straight rfl rfl⟩

theorem forM {γ : Type} {f : γ → Lower Unit} (hf : ∀ c, Closes exit (f c)) (cs : List γ) :
    Closes exit (cs.forM f) := by
  induction cs with
  | nil => exact pure ()
  | cons c cs ih => exact (hf c).bind fun _ ↦ ih

theorem demand (result : Option Temp) : Closes exit (demand result span) :=
  demand_eq result ▸ lookUp result _ span

theorem guardDivisor (divisor : Temp) : Closes exit (guardDivisor divisor) := by
  intro s a s' h
  obtain ⟨g, -, e, hn⟩ := guardDivisor_ok h
  refine ⟨_, _, e, ?_, ?_, ?_⟩ <;> simp [Guard.code, Guard.test, Instr.label?, Instr.target?, hn]

theorem copyField (object clone : Temp) (offset : Int32) :
    Closes exit (copyField object clone offset) :=
  (compute (fun _ ↦ rfl) fun _ ↦ rfl).bind fun _ ↦ append rfl rfl

theorem cloneObject (object : Temp) (c : ClassId) :
    Closes exit (cloneObject env object c span) := by
  unfold Lowering.cloneObject
  rw [Env.findClass_eq]
  exact (lookUp _ _ span).bind fun symbol ↦ (compute (fun _ ↦ rfl) fun _ ↦ rfl).bind fun size ↦
    (pass size).bind fun _ ↦ (callRoutine _).bind fun r ↦ (demand r).bind fun clone ↦
    (forM (copyField object clone) _).bind fun _ ↦ (compute (fun _ ↦ rfl) fun _ ↦ rfl).bind fun _ ↦
    (append rfl rfl).bind fun _ ↦ pure clone

theorem readOr (array index fallback : Temp) : Closes exit (readOr array index fallback) := by
  intro s a s' h
  obtain ⟨r, -, -, -, -, e, hu, hi, hd⟩ := readOr_ok h
  refine ⟨_, _, e, ?_, ?_, ?_⟩ <;>
    simp [ReadOr.code, ReadOr.test, ReadOr.read, addressCode, Instr.label?,
      Instr.target?, hu, hi, hd]

theorem copyCode_straight (object clone : Temp) (offsets : List Int32) (fields : List Temp) :
    labels (copyCode object clone offsets fields) = [] ∧
      targets (copyCode object clone offsets fields) = [] := by
  fun_induction copyCode object clone offsets fields with
  | case1 offset offsets field fields ih => simpa [Instr.label?, Instr.target?] using ih
  | case2 => exact ⟨rfl, rfl⟩

theorem stored_straight {type : DataType} {element : Temp} {code : List Instr}
    (h : Stored env type element code ts t) : labels code = [] ∧ targets code = [] := by
  cases h with
  | plain h => exact ⟨rfl, rfl⟩
  | cloned k h hs ho hf =>
    have hc := copyCode_straight k.object k.result (fieldOffsets k.symbol.size) k.fields
    simp [Clone.code, Instr.label?, Instr.target?, hc]

theorem fillArray (element count : Temp) (type : DataType) :
    Closes exit (fillArray env element count type span) := by
  intro s a s' h
  obtain ⟨f, -, -, hs, e, hfill, hfilled⟩ := fillArray_ok h
  have hc := stored_straight hs
  refine ⟨_, _, e, ?_, ?_, ?_⟩ <;>
    simp [Fill.code, Fill.setup, Fill.loop, Fill.test, Fill.advance, Instr.label?,
      Instr.target?, hc,
      hfill, hfilled]

theorem tracking : Tracking fun _ x _ ↦ Closes exit x where
  pure a _ := pure a
  bind := bind
  reject := reject
  compute _ h _ := compute (fun t ↦ (h t).label?_eq) fun t ↦ (h t).target?_eq
  append _ h _ := append h.label?_eq h.target?_eq
  pass _ := pass _
  call type _ h _ := call type (fun d ↦ (h d).label?_eq) fun d ↦ (h d).target?_eq
  callRoutine := callRoutine
  declare := declare
  findTemp v _ := findTemp v
  guardDivisor _ := guardDivisor _
  cloneObject c _ _ := cloneObject _ c
  fillArray type _ _ _ := fillArray _ _ type
  readOr _ _ _ := readOr _ _ _

end Closes

end ThreeAddress.Lowering

namespace ThreeAddress.Checked

open Lowering

theorem Expr.closes (env : Env) (e : Expr) : Closes none (e.lower env) :=
  e.tracks Closes.tracking fun _ ↦ Option.mem_toList.mpr

end ThreeAddress.Checked
