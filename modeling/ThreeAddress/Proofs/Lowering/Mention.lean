import ThreeAddress.Proofs.Code.Shift
import ThreeAddress.Proofs.Lowering.Closed

namespace ThreeAddress.Lowering

open Checked Code

variable {α β : Type} {s s' : State} {t : Temp} {env : Env} {span : Span}
variable {known : List Temp} {res : α → List Temp} {rest : β → List Temp}

def Mentions (W : Temp → Prop) (code : List Instr) : Prop := ∀ i ∈ code, ∀ t ∈ i.temps, W t

namespace Mentions

variable {W V : Temp → Prop} {code rest : List Instr} {i : Instr}

@[simp] theorem nil : Mentions W [] := fun _ h ↦ absurd h List.not_mem_nil

@[simp] theorem append_iff : Mentions W (code ++ rest) ↔ Mentions W code ∧ Mentions W rest :=
  List.forall_mem_append

@[simp] theorem cons_iff : Mentions W (i :: code) ↔ (∀ t ∈ i.temps, W t) ∧ Mentions W code :=
  List.forall_mem_cons

theorem mono (h : Mentions W code) (hv : ∀ t, W t → V t) : Mentions V code :=
  fun i hi t ht ↦ hv t (h i hi t ht)

end Mentions

/-- Whatever holds of the temporaries known, of those of the variables and of those issued meanwhile
holds of all that the action mentions. -/
def Touches (known : List Temp) (x : Lower α) (res : α → List Temp) : Prop :=
  ∀ ⦃s a s'⦄, x s = .ok a s' → s.temps ≤ s'.temps ∧ ∃ new, s'.code = s.code ++ new ∧
    ∀ W : Temp → Prop, (∀ t ∈ known, W t) → (∀ d ∈ s.bound, W d.2) →
      (∀ t, IssuedTemp s t s' → W t) →
      (∀ d ∈ s'.bound, W d.2) ∧ (∀ t ∈ res a, W t) ∧ Mentions W new

namespace Touches

theorem bind {x : Lower α} {f : α → Lower β} (hx : Touches known x res)
    (hf : ∀ a, Touches (res a ++ known) (f a) rest) : Touches known (x >>= f) rest := by
  intro s b s' h
  obtain ⟨a, s₁, ha, hb⟩ := bind_ok_iff.mp h
  obtain ⟨hle₁, new₁, hc₁, h₁⟩ := hx ha
  obtain ⟨hle₂, new₂, hc₂, h₂⟩ := hf a hb
  refine ⟨hle₁.trans hle₂, new₁ ++ new₂, by rw [hc₂, hc₁, List.append_assoc], ?_⟩
  intro W hk hbound hissued
  obtain ⟨hbound₁, hres, hm₁⟩ := h₁ W hk hbound fun t ht ↦ hissued t ⟨ht.1, ht.2.trans hle₂⟩
  have hknown : ∀ t ∈ res a ++ known, W t := by
    intro t ht
    exact (List.mem_append.mp ht).elim (hres t) (hk t)
  obtain ⟨hbound₂, hrest, hm₂⟩ := h₂ W hknown hbound₁ fun t ht ↦
    hissued t ⟨hle₁.trans_lt ht.1, ht.2⟩
  refine ⟨hbound₂, hrest, ?_⟩
  intro i hi
  exact (List.mem_append.mp hi).elim (hm₁ i) (hm₂ i)

theorem piece {x : Lower α} (hb : Bindless x)
    (h : ∀ ⦃s a s'⦄, x s = .ok a s' → ∃ code ts, Emission s s' code ts ∧
      (∀ t ∈ res a, t ∈ ts ∨ t ∈ known) ∧ ∀ i ∈ code, ∀ t ∈ i.temps, t ∈ ts ∨ t ∈ known) :
    Touches known x res := by
  intro s a s' ha
  obtain ⟨code, ts, e, hres, hcode⟩ := h ha
  refine ⟨e.temps_le, code, e.code_eq, fun W hk hbound hissued ↦ ?_⟩
  have hw (t : Temp) (ht : t ∈ ts ∨ t ∈ known) : W t :=
    ht.elim (fun ht ↦ hissued t (e.issued ht)) (hk t)
  rw [hb ha]
  exact ⟨hbound, fun t ht ↦ hw t (hres t ht), fun i hi t ht ↦ hw t (hcode i hi t ht)⟩

theorem pure (a : α) (h : ∀ t ∈ res a, t ∈ known) : Touches known (pure a : Lower α) res := by
  refine piece (.pure a) fun s b s' hb ↦ ?_
  obtain ⟨rfl, rfl⟩ := pure_ok_iff.mp hb
  exact ⟨[], [], .refl s, fun t ht ↦ .inr (h t ht), by simp⟩

theorem reject (kind : DefectKind) : Touches known (reject kind span : Lower α) res := by
  intro s a s' h
  cases h

theorem compute {instr : Temp → Instr} (us : List Temp) (h : ∀ t, (instr t).Yields (some t) us)
    (hu : ∀ u ∈ us, u ∈ known) : Touches known (compute instr) fun t ↦ [t] := by
  refine piece (.compute instr) fun s t s' ht ↦
    ⟨_, _, compute_ok (fun t ↦ (h t).label?_eq) ht, by simp, ?_⟩
  simpa [(h t).temps_eq] using fun u h ↦ .inr (hu u h)

theorem append {i : Instr} (us : List Temp) (hl : i.label? = none) (ht : i.temps = us)
    (hu : ∀ u ∈ us, u ∈ known) : Touches known (append i) fun _ ↦ [] := by
  refine piece (.step _) fun s a s' h ↦ ⟨_, _, append_ok hl h, by simp, ?_⟩
  simpa [ht] using hu

theorem pass (ht : t ∈ known) : Touches known (pass t) fun _ ↦ [] := by
  refine piece (.step _) fun s a s' h ↦ ⟨_, _, pass_ok h, by simp, ?_⟩
  simpa [Instr.temps, Instr.dst?, Instr.reads] using ht

theorem callRoutine (r : Routine) : Touches known (callRoutine r) Option.toList := by
  refine piece (.attempt _) fun s a s' ha ↦ ?_
  exact ⟨_, _, (callRoutine_ok ha).1, fun t ht ↦ .inl ht,
    by simp +contextual [Instr.temps, Instr.dst?, Instr.reads]⟩

theorem declare (v : VarId) : Touches known (declare v) fun t ↦ [t] := by
  intro s t s' h
  obtain ⟨e, ht, hb⟩ := declare_ok h
  refine ⟨e.temps_le, [], e.code_eq, fun W _ hbound hissued ↦ ⟨?_, ?_, by simp [Mentions]⟩⟩
  · rw [hb]
    simpa using ⟨hissued t ht, fun v u hu ↦ hbound (v, u) hu⟩
  · simpa using hissued t ht

theorem findTemp (v : VarId) : Touches known (env.findTemp v span) fun t ↦ [t] := by
  intro s t s' h
  obtain ⟨hv, rfl⟩ := Env.findTemp_ok h
  refine ⟨le_rfl, [], by simp, fun W _ hbound _ ↦ ⟨hbound, ?_, by simp [Mentions]⟩⟩
  obtain ⟨before, behind, hb, -⟩ := List.lookup_eq_some_iff.mp hv
  simpa using hbound (v, t) (by simp [hb])

theorem call {instr : Option Temp → Instr} (type : DataType) (us : List Temp)
    (h : ∀ d, (instr d).Yields d us) (hu : ∀ u ∈ us, u ∈ known) :
    Touches known (call instr type) Option.toList := by
  refine piece (.step _) fun s d s' hd ↦
    ⟨_, _, (call_ok (fun d ↦ (h d).label?_eq) hd).1, fun t ht ↦ .inl ht, ?_⟩
  simp only [List.mem_singleton, forall_eq, (h d).temps_eq, List.forall_mem_append]
  exact ⟨fun t ht ↦ .inl ht, fun u h ↦ .inr (hu u h)⟩

theorem guardDivisor {divisor : Temp} (hd : divisor ∈ known) :
    Touches known (guardDivisor divisor) fun _ ↦ [] := by
  refine piece (.guardDivisor divisor) fun s t s' h ↦ ?_
  obtain ⟨g, rfl, e, -⟩ := guardDivisor_ok h
  refine ⟨_, _, e, by simp, ?_⟩
  simp only [Guard.code, Guard.test, Guard.temps, Instr.temps, Instr.dst?, Instr.reads]
  grind

theorem copyCode_temps (object clone : Temp) (offsets : List Int32) (fields : List Temp) :
    ∀ i ∈ copyCode object clone offsets fields, ∀ t ∈ i.temps,
      t = object ∨ t = clone ∨ t ∈ fields := by
  fun_induction copyCode object clone offsets fields with
  | case1 offset offsets field fields ih =>
    simp only [List.mem_cons, Instr.temps, Instr.dst?, Instr.reads] at ih ⊢
    grind [Instr.temps, Instr.dst?, Instr.reads]
  | case2 => simp

theorem clone_temps (k : Clone) :
    ∀ i ∈ k.code, ∀ t ∈ i.temps, t = k.object ∨ t ∈ k.temps := by
  have hcopy := copyCode_temps k.object k.result (fieldOffsets k.symbol.size) k.fields
  simp only [Clone.code, Clone.temps]
  grind [Instr.temps, Instr.dst?, Instr.reads]

theorem cloneObject {object : Temp} {c : ClassId} (ho : object ∈ known) :
    Touches known (cloneObject env object c span) fun t ↦ [t] := by
  refine piece (.cloneObject object c) fun s t s' h ↦ ?_
  obtain ⟨k, -, rfl, rfl, -, e⟩ := cloneObject_ok h
  refine ⟨_, _, e, by simp [Clone.temps], fun i hi t ht ↦ ?_⟩
  have hk := clone_temps k i hi t ht
  grind

theorem fillArray {element count : Temp} {type : DataType} (he : element ∈ known)
    (hc : count ∈ known) : Touches known (fillArray env element count type span) fun t ↦ [t] := by
  refine piece (.fillArray element count type) fun s t s' h ↦ ?_
  obtain ⟨f, rfl, rfl, hs, e, -⟩ := fillArray_ok h
  refine ⟨_, _, e, by simp [Fill.temps], ?_⟩
  -- the value to be stored is the element or a copy of it
  have hstore : (∀ i ∈ f.store, ∀ t ∈ i.temps, t = element ∨ t ∈ f.storeTemps) ∧
      (f.stored = element ∨ f.stored ∈ f.storeTemps) := by
    generalize f.store = code, f.storeTemps = ts, f.stored = stored at hs
    cases hs with
    | plain h => simp
    | cloned k h hk ho hf =>
      subst ho
      exact ⟨clone_temps k, .inr (by simp [Clone.temps])⟩
  obtain ⟨hcode, hvalue⟩ := hstore
  simp only [Fill.code, Fill.setup, Fill.loop, Fill.test, Fill.advance, Fill.temps,
    List.forall_mem_append, List.forall_mem_cons]
  and_intros
  all_goals grind [Instr.temps, Instr.dst?, Instr.reads]

theorem readOr {array index fallback : Temp} (ha : array ∈ known) (hi : index ∈ known)
    (hf : fallback ∈ known) : Touches known (readOr array index fallback) fun t ↦ [t] := by
  refine piece (.readOr array index fallback) fun s t s' h ↦ ?_
  obtain ⟨r, rfl, rfl, rfl, rfl, e, -⟩ := readOr_ok h
  refine ⟨_, _, e, by simp [ReadOr.temps], ?_⟩
  simp only [ReadOr.code, ReadOr.test, ReadOr.read, ReadOr.temps, addressCode, Instr.temps,
    Instr.dst?, Instr.reads]
  grind

theorem tracking : Tracking Touches where
  pure := pure
  bind := bind
  reject kind _ := reject kind
  compute := compute
  append us h := append us h.label?_eq h.temps_eq
  pass := pass
  call := call
  callRoutine := callRoutine
  declare := declare
  findTemp v _ := findTemp v
  guardDivisor := guardDivisor
  cloneObject _ _ := cloneObject
  fillArray _ _ := fillArray
  readOr := readOr

end Touches

end ThreeAddress.Lowering

namespace ThreeAddress.Checked

open Code Lowering

variable {env : Env} {known : List Temp}

theorem Expr.touches (hk : ∀ t ∈ env.receiver, t ∈ known) (e : Expr) :
    Touches known (e.lower env) fun t ↦ [t] := e.tracks Touches.tracking hk

end ThreeAddress.Checked
