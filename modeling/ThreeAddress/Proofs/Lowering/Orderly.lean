import ThreeAddress.Proofs.Lowering.Mention

namespace ThreeAddress.Code

def results (code : List Instr) : List Temp := code.filterMap Instr.result?

def copied (code : List Instr) : List Temp := code.filterMap Instr.copied?

@[simp] theorem results_nil : results [] = [] := rfl

@[simp] theorem results_cons (i : Instr) (code : List Instr) :
    results (i :: code) = i.result?.toList ++ results code := by
  cases h : i.result? <;> simp only [results, List.filterMap_cons, h] <;> rfl

@[simp] theorem results_append (code rest : List Instr) :
    results (code ++ rest) = results code ++ results rest := List.filterMap_append

@[simp] theorem copied_nil : copied [] = [] := rfl

@[simp] theorem copied_cons (i : Instr) (code : List Instr) :
    copied (i :: code) = i.copied?.toList ++ copied code := by
  cases h : i.copied? <;> simp only [copied, List.filterMap_cons, h] <;> rfl

@[simp] theorem copied_append (code rest : List Instr) :
    copied (code ++ rest) = copied code ++ copied rest := List.filterMap_append

end ThreeAddress.Code

namespace ThreeAddress.Lowering

open Checked Code

variable {α β : Type} {s s₁ s₂ s' : State} {t : Temp} {env : Env} {span : Span}
variable {new new₁ new₂ : List Instr} {ts ts₁ ts₂ : List Temp}

theorem Ascending.nodup {n m : Nat} (h : Ascending n ts m) : ts.Nodup := by
  induction ts generalizing n with
  | nil => exact List.nodup_nil
  | cons t ts ih =>
    refine List.nodup_cons.mpr ⟨fun hm ↦ ?_, ih h.2⟩
    exact absurd (h.2.mem hm).1 (lt_irrefl _)

/-- The temporaries listed hold all results, each in a place of its own, and variables got theirs in
the order of their declarations. -/
structure Orderly (s s' : State) (new : List Instr) (ts : List Temp) : Prop
    extends Emission s s' new ts where
  results_sublist : (results new).Sublist ts
  declared_ascending : ∃ declared, s'.bound = declared ++ s.bound ∧
    Ascending s.temps (declared.map Prod.snd).reverse s'.temps

namespace Orderly

theorem of_bound_eq (e : Emission s s' new ts) (hr : (results new).Sublist ts)
    (hb : s'.bound = s.bound) : Orderly s s' new ts :=
  { e with
    results_sublist := hr
    declared_ascending := ⟨[], by simp [hb], e.temps_le⟩ }

theorem append (h₁ : Orderly s s₁ new₁ ts₁) (h₂ : Orderly s₁ s₂ new₂ ts₂) :
    Orderly s s₂ (new₁ ++ new₂) (ts₁ ++ ts₂) :=
  { h₁.toEmission.trans h₂.toEmission with
    results_sublist := by
      rw [results_append]
      exact h₁.results_sublist.append h₂.results_sublist
    declared_ascending := by
      obtain ⟨d₁, hb₁, ha₁⟩ := h₁.declared_ascending
      obtain ⟨d₂, hb₂, ha₂⟩ := h₂.declared_ascending
      refine ⟨d₂ ++ d₁, by rw [hb₂, hb₁, List.append_assoc], ?_⟩
      rw [List.map_append, List.reverse_append]
      exact ha₁.append ha₂ }

theorem results_unbound (h : Orderly s s' new ts) (hs : ∀ d ∈ s.bound, d.2.index ≤ s.temps) :
    ∀ t ∈ results new, ∀ d ∈ s'.bound, d.2 ≠ t := by
  rintro _ ht d hd rfl
  obtain ⟨declared, hb, hdeclared⟩ := h.bound_eq
  have hmem := h.results_sublist.subset ht
  rw [hb] at hd
  rcases List.mem_append.mp hd with hd | hd
  · exact (hdeclared d hd).2 hmem
  · exact absurd (hs d hd) (not_le.mpr (h.issued hmem).1)

end Orderly

/-- The action copies into temporaries of its own, none of which is that of a variable. -/
def Quiet (x : Lower α) : Prop :=
  ∀ ⦃s a s'⦄, x s = .ok a s' → ∃ new ts, Orderly s s' new ts ∧ copied new ⊆ ts

namespace Quiet

theorem bind {x : Lower α} {f : α → Lower β} (hx : Quiet x) (hf : ∀ a, Quiet (f a)) :
    Quiet (x >>= f) := by
  intro s b s' h
  obtain ⟨a, s₁, ha, hb⟩ := bind_ok_iff.mp h
  obtain ⟨new₁, ts₁, o₁, c₁⟩ := hx ha
  obtain ⟨new₂, ts₂, o₂, c₂⟩ := hf a hb
  refine ⟨_, _, o₁.append o₂, ?_⟩
  rw [copied_append, List.append_subset]
  exact ⟨List.subset_append_of_subset_left _ c₁, List.subset_append_of_subset_right _ c₂⟩

theorem piece {x : Lower α} (hb : Bindless x)
    (h : ∀ ⦃s a s'⦄, x s = .ok a s' → ∃ code ts, Emission s s' code ts ∧
      (results code).Sublist ts ∧ copied code ⊆ ts) : Quiet x := by
  intro s a s' ha
  obtain ⟨code, ts, e, hr, hc⟩ := h ha
  exact ⟨code, ts, .of_bound_eq e hr (hb ha), hc⟩

theorem pure (a : α) : Quiet (pure a : Lower α) := by
  refine piece (.pure a) fun s b s' h ↦ ?_
  obtain ⟨-, rfl⟩ := pure_ok_iff.mp h
  exact ⟨[], [], .refl s, by simp⟩

theorem reject (kind : DefectKind) (span : Span) : Quiet (reject kind span : Lower α) := by
  intro s a s' h
  cases h

theorem lookUp (found : Option α) (kind : DefectKind) (span : Span) :
    Quiet (lookUp found kind span) := by
  cases found with
  | none => exact reject kind span
  | some a => exact pure a

theorem freshLabel (stem : String) : Quiet (freshLabel stem) :=
  piece (.step _) fun _ _ _ h ↦ ⟨[], [], (freshLabel_ok h).1, by simp⟩

theorem place (l : Label) : Quiet (place l) :=
  piece (.attempt _) fun _ _ _ h ↦ ⟨[.label l], [], place_ok h, by simp [Instr.result?,
    Instr.dst?, Instr.copied?]⟩

theorem append {i : Instr} (hl : i.label? = none) (hd : i.dst? = none) : Quiet (append i) := by
  refine piece (.step _) fun s a s' h ↦ ⟨[i], [], append_ok hl h, ?_⟩
  cases i <;> cases hd <;> simp [Instr.result?, Instr.dst?, Instr.copied?]

theorem compute {instr : Temp → Instr} {us : List Temp} (h : ∀ t, (instr t).Yields (some t) us) :
    Quiet (compute instr) :=
  piece (.compute instr) fun _ t _ ht ↦ ⟨[instr t], [t], compute_ok (fun t ↦ (h t).label?_eq) ht,
    by simp [(h t).result?_eq, (h t).copied?_eq]⟩

theorem pass (t : Temp) : Quiet (pass t) :=
  piece (.step _) fun _ _ _ h ↦ ⟨[.param t], [], pass_ok h, by simp [Instr.result?, Instr.dst?,
    Instr.copied?]⟩

theorem call {instr : Option Temp → Instr} {us : List Temp} (type : DataType)
    (h : ∀ d, (instr d).Yields d us) : Quiet (call instr type) :=
  piece (.step _) fun _ d _ hd ↦ ⟨[instr d], d.toList, (call_ok (fun d ↦ (h d).label?_eq) hd).1,
    by simp [(h d).result?_eq, (h d).copied?_eq]⟩

theorem callRoutine (r : Routine) : Quiet (callRoutine r) :=
  piece (.attempt _) fun _ d _ h ↦ ⟨[.call d r.name], d.toList, (callRoutine_ok h).1, by
    simp [Instr.result?, Instr.dst?, Instr.copied?]⟩

theorem declare (v : VarId) : Quiet (declare v) := by
  intro s t s' h
  obtain ⟨e, ht, hb⟩ := declare_ok h
  exact ⟨[], [], { e with
    results_sublist := by simp
    declared_ascending := ⟨[(v, t)], hb, ht⟩ }, by simp⟩

theorem findTemp (v : VarId) : Quiet (env.findTemp v span) := by
  intro s t s' h
  obtain ⟨-, rfl⟩ := Env.findTemp_ok h
  exact ⟨[], [], .of_bound_eq (.refl _) (by simp) rfl, by simp⟩

theorem forM {γ : Type} {f : γ → Lower Unit} (hf : ∀ c, Quiet (f c)) (cs : List γ) :
    Quiet (cs.forM f) := by
  induction cs with
  | nil => exact pure ()
  | cons c cs ih => exact (hf c).bind fun _ ↦ ih

theorem guardDivisor (divisor : Temp) : Quiet (guardDivisor divisor) := by
  refine piece (.guardDivisor divisor) fun s a s' h ↦ ?_
  obtain ⟨g, -, e, -⟩ := guardDivisor_ok h
  refine ⟨g.code, g.temps, e, ?_, ?_⟩
  · simp [Guard.code, Guard.test, Guard.temps, Instr.result?, Instr.dst?]
  · simp [Guard.code, Guard.test, Instr.copied?]

theorem copyCode_results (object clone : Temp) (offsets : List Int32) (fields : List Temp) :
    (results (copyCode object clone offsets fields)).Sublist fields ∧
      copied (copyCode object clone offsets fields) = [] := by
  fun_induction copyCode object clone offsets fields with
  | case1 offset offsets field fields ih =>
    simpa [Instr.result?, Instr.dst?, Instr.copied?] using ih
  | case2 => simp

theorem clone_results (k : Clone) : (results k.code).Sublist k.temps ∧ copied k.code = [] := by
  obtain ⟨hr, hc⟩ := copyCode_results k.object k.result (fieldOffsets k.symbol.size) k.fields
  simp [Clone.code, Clone.temps, Instr.result?, Instr.dst?, Instr.copied?, hr, hc]

theorem cloneObject (object : Temp) (c : ClassId) : Quiet (cloneObject env object c span) := by
  refine piece (.cloneObject object c) fun s t s' h ↦ ?_
  obtain ⟨k, -, -, -, -, e⟩ := cloneObject_ok h
  obtain ⟨hr, hc⟩ := clone_results k
  exact ⟨k.code, k.temps, e, hr, by simp [hc]⟩

theorem stored_results {type : DataType} {element : Temp} {code : List Instr}
    (h : Stored env type element code ts t) : (results code).Sublist ts ∧ copied code = [] := by
  cases h with
  | plain h => simp
  | cloned k h hs ho hf => exact clone_results k

theorem fillArray (element count : Temp) (type : DataType) :
    Quiet (fillArray env element count type span) := by
  refine piece (.fillArray element count type) fun s t s' h ↦ ?_
  obtain ⟨f, -, -, hs, e, -⟩ := fillArray_ok h
  obtain ⟨hr, hc⟩ := stored_results hs
  refine ⟨f.code, f.temps, e, ?_, ?_⟩
  · have hsub := hr.append (List.Sublist.refl [f.nextCursor, f.nextIndex])
    simpa [Fill.code, Fill.setup, Fill.loop, Fill.test, Fill.advance, Fill.temps, Instr.result?,
      Instr.dst?] using (hsub.cons_cons f.more).cons f.cursor
  · simp [Fill.code, Fill.setup, Fill.loop, Fill.test, Fill.advance, Fill.temps, Instr.copied?, hc]

theorem readOr (array index fallback : Temp) : Quiet (readOr array index fallback) := by
  refine piece (.readOr array index fallback) fun s t s' h ↦ ?_
  obtain ⟨r, -, -, -, -, e, -⟩ := readOr_ok h
  refine ⟨r.code, r.temps, e, ?_, ?_⟩
  · simp [ReadOr.code, ReadOr.test, ReadOr.read, ReadOr.temps, addressCode, Instr.result?,
      Instr.dst?]
  · simp [ReadOr.code, ReadOr.test, ReadOr.read, ReadOr.temps, addressCode, Instr.copied?]

theorem tracking : Tracking fun _ x _ ↦ Quiet x where
  pure a _ := pure a
  bind := bind
  reject := reject
  compute _ h _ := compute h
  append _ h _ := append h.label?_eq h.dst?_eq
  pass _ := pass _
  call type _ h _ := call type h
  callRoutine := callRoutine
  declare := declare
  findTemp v _ := findTemp v
  guardDivisor _ := guardDivisor _
  cloneObject c _ _ := cloneObject _ c
  fillArray type _ _ _ := fillArray _ _ type
  readOr _ _ _ := readOr _ _ _

theorem operate (op : BinaryOp) (left right : Temp) : Quiet (operate op left right) :=
  have hl : left ∈ [left, right] := List.mem_cons_self
  tracking.operate op hl (by simp)

theorem checkedAddress (array index : Temp) : Quiet (checkedAddress array index) :=
  have ha : array ∈ [array, index] := List.mem_cons_self
  tracking.checkedAddress ha (by simp)

end Quiet

end ThreeAddress.Lowering

namespace ThreeAddress.Checked

open Lowering

variable {env : Env} {span : Span}

theorem Expr.quiet (e : Expr) : Quiet (e.lower env) :=
  e.tracks Quiet.tracking fun _ ↦ Option.mem_toList.mpr

theorem Expr.quietOwner (owner : Option Expr) : Quiet (Expr.lowerOwner env span owner) :=
  Expr.tracksOwner Quiet.tracking (fun _ ↦ Option.mem_toList.mpr) owner

theorem Expr.quietOption (e : Option Expr) : Quiet (Expr.lowerOption env e) :=
  Expr.tracksOption Quiet.tracking (fun _ ↦ Option.mem_toList.mpr) e

theorem Expr.quietEffects (e : Expr) : Quiet (e.lowerEffects env) :=
  e.tracksEffects Quiet.tracking fun _ ↦ Option.mem_toList.mpr

theorem Expr.quietPrint (e : Expr) : Quiet (e.lowerPrint env) :=
  e.tracksPrint Quiet.tracking fun _ ↦ Option.mem_toList.mpr

end ThreeAddress.Checked
