import ThreeAddress.Proofs.Code.Flow
import ThreeAddress.Proofs.Lowering.Mention

namespace ThreeAddress.Lowering

open Checked Code

variable {α β : Type} {s s' : State} {t : Temp} {env : Env} {span : Span}
variable {known : List Temp} {res : α → List Temp} {rest : β → List Temp}

/-- Where the temporaries known and those of the variables hold values, the code of the action is
supplied, and behind it the result holds a value. -/
def Supplies (known : List Temp) (x : Lower α) (res : α → List Temp) : Prop :=
  ∀ ⦃s a s'⦄, x s = .ok a s' → ∃ new, Emission s s' new [] ∧
    ∀ D : Set Temp, (∀ t ∈ known, t ∈ D) → (∀ d ∈ s'.bound, d.2 ∈ D) →
      Carries none D new ({t | t ∈ res a} ∪ D)

namespace Supplies

theorem bind {x : Lower α} {f : α → Lower β} (hx : Supplies known x res)
    (hf : ∀ a, Supplies (res a ++ known) (f a) rest) : Supplies known (x >>= f) rest := by
  intro s b s' h
  obtain ⟨a, s₁, ha, hb⟩ := bind_ok_iff.mp h
  obtain ⟨new₁, e₁, h₁⟩ := hx ha
  obtain ⟨new₂, e₂, h₂⟩ := hf a hb
  refine ⟨_, e₁.trans e₂, fun D hk hbound ↦ ?_⟩
  have hbound₁ : ∀ d ∈ s₁.bound, d.2 ∈ D := by
    intro d hd
    obtain ⟨declared, hb, -⟩ := e₂.bound_eq
    exact hbound d (hb ▸ List.mem_append_right declared hd)
  have hle : D ⊆ {t | t ∈ res a} ∪ D := Set.subset_union_right
  have hknown : ∀ t ∈ res a ++ known, t ∈ {t | t ∈ res a} ∪ D := by
    intro t ht
    exact (List.mem_append.mp ht).imp id (hk t)
  have hrest := h₂ _ hknown fun d hd ↦ hle (hbound d hd)
  exact ((h₁ D hk hbound₁).append hle hrest).weaken (Set.union_subset_union_right _ hle)

theorem piece {x : Lower α} (h : ∀ ⦃s a s'⦄, x s = .ok a s' → ∃ code ts, Emission s s' code ts ∧
    ∀ D : Set Temp, (∀ t ∈ known, t ∈ D) → Carries none D code ({t | t ∈ res a} ∪ D)) :
    Supplies known x res := by
  intro s a s' ha
  obtain ⟨code, ts, e, hc⟩ := h ha
  exact ⟨code, e.weaken, fun D hk _ ↦ hc D hk⟩

theorem pure (a : α) (h : ∀ t ∈ res a, t ∈ known) : Supplies known (pure a : Lower α) res := by
  refine piece fun s b s' hb ↦ ?_
  obtain ⟨rfl, rfl⟩ := pure_ok_iff.mp hb
  refine ⟨[], [], .refl s, fun D hk ↦ .nil (Set.union_subset ?_ subset_rfl)⟩
  exact fun t ht ↦ hk t (h t ht)

theorem reject (kind : DefectKind) : Supplies known (reject kind span : Lower α) res := by
  intro s a s' h
  cases h

theorem instr {x : Lower α} {i : α → Instr} {ts : α → List Temp} {us : List Temp}
    (he : ∀ ⦃s a s'⦄, x s = .ok a s' → Emission s s' [i a] (ts a)) (hp : ∀ a, (i a).isPlain)
    (hr : ∀ a, (i a).reads = us) (hu : ∀ u ∈ us, u ∈ known)
    (hres : ∀ a, ∀ t ∈ res a, t ∈ (i a).dst?) : Supplies known x res := by
  refine piece fun s a s' h ↦ ⟨_, _, he h, fun D hk ↦ ?_⟩
  have hone : Carries none D [i a] _ := .single (hp a) fun t ht ↦ hk t (hu t (hr a ▸ ht))
  exact hone.weaken (Set.union_subset_union_left D fun t ht ↦ hres a t ht)

theorem compute {instr : Temp → Instr} (us : List Temp) (h : ∀ t, (instr t).Yields (some t) us)
    (hu : ∀ u ∈ us, u ∈ known) : Supplies known (compute instr) fun t ↦ [t] := by
  refine Supplies.instr (fun _ _ _ ↦ compute_ok fun t ↦ (h t).label?_eq) (fun t ↦ (h t).isPlain)
    (fun t ↦ (h t).reads_eq) hu fun t u hu ↦ ?_
  rw [(h t).dst?_eq, List.mem_singleton.mp hu]
  rfl

theorem append {i : Instr} (us : List Temp) (hp : i.isPlain) (hr : i.reads = us)
    (hu : ∀ u ∈ us, u ∈ known) : Supplies known (append i) fun _ ↦ [] :=
  Supplies.instr (fun _ _ _ ↦ append_ok (label?_of_isPlain hp)) (fun _ ↦ hp) (fun _ ↦ hr) hu
    (by simp)

theorem pass (ht : t ∈ known) : Supplies known (pass t) fun _ ↦ [] :=
  Supplies.instr (fun _ _ _ ↦ pass_ok) (fun _ ↦ rfl) (fun _ ↦ rfl)
    (fun _ hu ↦ List.mem_singleton.mp hu ▸ ht) (by simp)

theorem callRoutine (r : Routine) : Supplies known (callRoutine r) Option.toList :=
  Supplies.instr (fun _ _ _ h ↦ (callRoutine_ok h).1) (fun _ ↦ rfl) (fun _ ↦ rfl)
    (fun _ hu ↦ absurd hu List.not_mem_nil) fun _ _ ↦ Option.mem_toList.mp

theorem call {instr : Option Temp → Instr} (type : DataType) (us : List Temp)
    (h : ∀ d, (instr d).Yields d us) (hu : ∀ u ∈ us, u ∈ known) :
    Supplies known (call instr type) Option.toList := by
  refine Supplies.instr (fun _ _ _ hc ↦ (call_ok (fun d ↦ (h d).label?_eq) hc).1)
    (fun d ↦ (h d).isPlain) (fun d ↦ (h d).reads_eq) hu fun d t ht ↦ ?_
  rw [(h d).dst?_eq]
  exact Option.mem_toList.mp ht

theorem declare (v : VarId) : Supplies known (declare v) fun t ↦ [t] := by
  intro s t s' h
  obtain ⟨e, -, hb⟩ := declare_ok h
  refine ⟨[], e, fun D _ hbound ↦ .nil (Set.union_subset ?_ subset_rfl)⟩
  intro u hu
  obtain rfl := List.mem_singleton.mp hu
  exact hbound (v, u) (hb ▸ List.mem_cons_self)

theorem findTemp (v : VarId) : Supplies known (env.findTemp v span) fun t ↦ [t] := by
  intro s t s' h
  obtain ⟨hv, rfl⟩ := Env.findTemp_ok h
  refine ⟨[], .refl s', fun D _ hbound ↦ .nil (Set.union_subset ?_ subset_rfl)⟩
  intro u hu
  obtain rfl := List.mem_singleton.mp hu
  obtain ⟨before, behind, hb, -⟩ := List.lookup_eq_some_iff.mp hv
  exact hbound (v, u) (by simp [hb])

theorem guardDivisor {divisor : Temp} (hd : divisor ∈ known) :
    Supplies known (guardDivisor divisor) fun _ ↦ [] := by
  refine piece fun s a s' h ↦ ?_
  obtain ⟨g, rfl, e, -⟩ := guardDivisor_ok h
  refine ⟨_, _, e, fun D hk ↦ ⟨[(g.nonzero, D)], rfl, fun notes hown _ rest hrest ↦ ?_⟩⟩
  have hnote : notes g.nonzero = D := hown _ List.mem_cons_self
  have hdivisor := hk _ hd
  simpa +contextual [Guard.code, Guard.test, Supplied, available, Instr.reads, Instr.dst?,
    Instr.label?, Instr.target?, Set.subset_def, hnote, hdivisor] using hrest

theorem copyCode_carries {D : Set Temp} {object clone : Temp} (ho : object ∈ D) (hc : clone ∈ D)
    (offsets : List Int32) (fields : List Temp) :
    Carries none D (copyCode object clone offsets fields) D := by
  fun_induction copyCode object clone offsets fields generalizing D with
  | case1 offset offsets field fields ih =>
    have hload : Carries none D [.load field object offset] _ :=
      .single rfl (by simpa [Instr.reads] using ho)
    have hstore : Carries none ({t | t ∈ some field} ∪ D) [.store field clone offset] _ :=
      .single rfl (by simpa [Instr.reads] using .inr hc)
    have hrest := (hstore.append Set.subset_union_right (ih (.inr (.inr ho)) (.inr (.inr hc))))
    exact (hload.append Set.subset_union_right hrest).weaken fun t ht ↦ .inr (.inr ht)
  | case2 => exact .nil subset_rfl

theorem clone_carries {D : Set Temp} (k : Clone) (ho : k.object ∈ D) :
    Carries none D k.code ({t | t ∈ [k.result]} ∪ D) := by
  let E : Set Temp := {t | t ∈ [k.size, k.result]} ∪ D
  have hfront : Carries none D [.constant k.size k.symbol.size, .param k.size,
      .call (some k.result) Routine.allocate.name] E :=
    .line (by simp [Instr.isPlain]) (by simp [Supplied, available, Instr.reads, Instr.dst?,
      Instr.label?, Instr.target?])
  have hback : Carries none E [.vtable k.vtable k.symbol.vtable, .store k.vtable k.result 0] _ :=
    .line (by simp [Instr.isPlain]) (by simp [E, Supplied, available, Instr.reads, Instr.dst?,
      Instr.label?, Instr.target?])
  have hcopy := copyCode_carries (show k.object ∈ E from .inr ho) (show k.result ∈ E by simp [E])
    (fieldOffsets k.symbol.size) k.fields
  have hall := hfront.append Set.subset_union_right (hcopy.append subset_rfl hback)
  refine hall.weaken ?_
  simp +contextual [E, Set.subset_def]

theorem cloneObject {object : Temp} {c : ClassId} (ho : object ∈ known) :
    Supplies known (cloneObject env object c span) fun t ↦ [t] := by
  refine piece fun s t s' h ↦ ?_
  obtain ⟨k, -, rfl, rfl, -, e⟩ := cloneObject_ok h
  exact ⟨_, _, e, fun D hk ↦ clone_carries k (hk _ ho)⟩

theorem stored_carries {D : Set Temp} {type : DataType} {element stored : Temp}
    {code : List Instr} {ts : List Temp} (h : Stored env type element code ts stored)
    (he : element ∈ D) : Carries none D code ({t | t ∈ [stored]} ∪ D) := by
  cases h with
  | plain => exact .nil (by simpa [Set.subset_def] using he)
  | cloned k _ _ ho => exact clone_carries k (ho ▸ he)

/-- The temporaries that hold values whenever the loop of a filled array starts another round. -/
def fillReady (f : Fill) (D : Set Temp) : Set Temp :=
  {t | t ∈ [f.array, f.word, f.one, f.index, f.cursor]} ∪ D

theorem fillLoop_carries {D : Set Temp} {f : Fill} {element : Temp} {type : DataType}
    (hs : Stored env type element f.store f.storeTemps f.stored) (he : element ∈ D)
    (hc : f.count ∈ D) :
    Carries none (fillReady f D) (.label f.fill :: f.loop) ({t | t ∈ [f.array]} ∪ D) := by
  have hin : ∀ t ∈ [f.word, f.one, f.index, f.cursor], t ∈ fillReady f D := by
    simp +contextual [fillReady]
  simp only [List.forall_mem_cons] at hin
  obtain ⟨own, hown, hstore⟩ := stored_carries hs
    (show element ∈ {t | f.more = t} ∪ fillReady f D from .inr (.inr he))
  refine ⟨(f.fill, fillReady f D) :: (own ++ [(f.filled, fillReady f D)]), ?_,
    fun notes hnotes _ rest hrest ↦ ?_⟩
  · simp [hown, Fill.loop, Fill.test, Fill.advance, Instr.label?]
  simp only [List.forall_mem_cons, List.forall_mem_append] at hnotes
  obtain ⟨hfill, hstored, hfilled, -⟩ := hnotes
  have hafter : Supplied notes (fillReady f D) rest :=
    hrest.mono (by simp +contextual [fillReady, Set.subset_def])
  have hadvance : Supplied notes ({t | t ∈ [f.stored]} ∪ ({t | f.more = t} ∪ fillReady f D))
      (f.advance ++ .jump f.fill :: .label f.filled :: rest) := by
    simpa +contextual [Fill.advance, Supplied, available, Instr.reads, Instr.dst?, Instr.label?,
      Instr.target?, Set.subset_def, hfill, hfilled, hin] using hafter
  have hbody := hstore notes hstored (by simp) _ hadvance
  have hcount : f.count ∈ fillReady f D := .inr hc
  simpa +contextual [Fill.loop, Fill.test, Supplied, available, Instr.reads, Instr.dst?,
    Instr.label?, Instr.target?, Set.subset_def, hfill, hfilled, hin, hcount] using hbody

theorem fillArray {element count : Temp} {type : DataType} (he : element ∈ known)
    (hc : count ∈ known) : Supplies known (fillArray env element count type span) fun t ↦ [t] := by
  refine piece fun s t s' h ↦ ?_
  obtain ⟨f, rfl, rfl, hs, e, -⟩ := fillArray_ok h
  refine ⟨_, _, e, fun D hk ↦ ?_⟩
  have hcount := hk _ hc
  have hsetup : Carries none D f.setup _ := .line (by simp [Fill.setup, Instr.isPlain]) (by
    simp [Fill.setup, Supplied, available, Instr.reads, Instr.dst?, Instr.label?, Instr.target?,
      hcount])
  refine (hsetup.weaken ?_).append Set.subset_union_right (fillLoop_carries hs (hk _ he) hcount)
  simp +contextual [Fill.setup, Instr.dst?]

theorem readOr {array index fallback : Temp} (ha : array ∈ known) (hi : index ∈ known)
    (hf : fallback ∈ known) : Supplies known (readOr array index fallback) fun t ↦ [t] := by
  refine piece fun s t s' h ↦ ?_
  obtain ⟨r, rfl, rfl, rfl, rfl, e, -⟩ := readOr_ok h
  refine ⟨_, _, e, fun D hk ↦ ⟨[(r.useDefault, D), (r.inBounds, D),
    (r.done, {t | t ∈ [r.result]} ∪ D)], rfl, fun notes hown _ rest hrest ↦ ?_⟩⟩
  simp only [List.forall_mem_cons] at hown
  obtain ⟨hdefault, hin, hdone, -⟩ := hown
  have hmem := And.intro (hk _ ha) (And.intro (hk _ hi) (hk _ hf))
  simpa +contextual [ReadOr.code, ReadOr.test, ReadOr.read, addressCode, Supplied, available,
    Instr.reads, Instr.dst?, Instr.label?, Instr.target?, Set.subset_def, hdefault, hin, hdone,
    hmem, or_imp] using hrest

theorem tracking : Tracking Supplies where
  pure := pure
  bind := bind
  reject kind _ := reject kind
  compute := compute
  append us h := append us h.isPlain h.reads_eq
  pass := pass
  call := call
  callRoutine := callRoutine
  declare := declare
  findTemp v _ := findTemp v
  guardDivisor := guardDivisor
  cloneObject _ _ := cloneObject
  fillArray _ _ := fillArray
  readOr := readOr

theorem copy {place : Temp} (_ : place ∈ known) (ht : t ∈ known) :
    Supplies known (Lowering.append (.copy place t)) fun _ ↦ [] :=
  append [t] rfl rfl (by simpa using ht)

end Supplies

end ThreeAddress.Lowering
