import ThreeAddress.Proofs.Control.Access

namespace ThreeAddress.Control

open Checked Code Lowering Machine

variable {α : Type} {env : Env} {known : List Mark} {span : Span} {s s' : State}

@[simp] theorem zero_ne_minValue : (0 : Int32) ≠ .minValue := by decide

@[simp] theorem lengthOffset_ne_minValue : lengthOffset ≠ .minValue := by decide

namespace Surveys

theorem constant (n : Int32) : Surveys env known (constant n) [] fun t ↦ [t] :=
  compute (fun _ ↦ rfl) (fun _ ↦ rfl) (fun _ ↦ rfl) (fun _ ↦ rfl) (by simp [Instr.offset?])

theorem literal (l : Literal) : Surveys env known (literal l) [] fun t ↦ [t] := by
  cases l with
  | int n => exact constant n
  | bool b => exact constant _
  | string text =>
    exact compute (fun _ ↦ rfl) (fun _ ↦ rfl) (fun _ ↦ rfl) (fun _ ↦ rfl) (by simp [Instr.offset?])

theorem operate {op : BinaryOp} (left right : Temp) (hd : op ≠ .divide) (hm : op ≠ .modulo) :
    Surveys env known (operate op left right) [] fun t ↦ [t] := by
  refine compute (fun _ ↦ rfl) (fun _ ↦ rfl) (fun _ ↦ rfl) (fun _ ↦ ?_) (by simp [Instr.offset?])
  cases op <;> first | rfl | contradiction

theorem load {offset : Int32} (base : Temp)
    (ho : offset = .minValue → env.symbols.HasOffset .minValue) :
    Surveys env known (load base offset) [] fun t ↦ [t] :=
  compute (fun _ ↦ rfl) (fun _ ↦ rfl) (fun _ ↦ rfl) (fun _ ↦ rfl) fun _ h ↦ ho (Option.some.inj h)

theorem loadLength (array : Temp) : Surveys env known (loadLength array) [] fun t ↦ [t] :=
  load array (by simp)

theorem copy (dst src : Temp) : Surveys env known (Lowering.append (.copy dst src)) [] :=
  append rfl rfl rfl (by simp [Instr.target?]) (by simp [Instr.offset?])

theorem store {offset : Int32} (src base : Temp)
    (ho : offset = .minValue → env.symbols.HasOffset .minValue) :
    Surveys env known (Lowering.append (.store src base offset)) [] :=
  append rfl rfl rfl (by simp [Instr.target?]) (by simpa [Instr.offset?] using ho)

theorem jump {l : Label} (h : .label l ∈ known) :
    Surveys env known (Lowering.append (.jump l)) [] :=
  append rfl rfl rfl (by simpa [Instr.target?] using h) (by simp [Instr.offset?])

theorem jumpIfZero {l : Label} (t : Temp) (h : .label l ∈ known) :
    Surveys env known (Lowering.append (.jumpIfZero t l)) [] :=
  append rfl rfl rfl (by simpa [Instr.target?] using h) (by simp [Instr.offset?])

theorem compareStrings (op : BinaryOp) (left right : Temp) :
    Surveys env known (compareStrings op left right span) [] fun t ↦ [t] := by
  refine plain (.compareStrings op left right) fun s t s' h ↦ ?_
  obtain ⟨equal, e, -⟩ := compareStrings_ok h
  refine ⟨_, _, e, ?_, ?_, ?_⟩
  · by_cases hop : op = .notEqual
    · simp only [compareCode, if_pos hop]
      exact ⟨rfl, by simp [Instr.offset?], by simp [Instr.divides]⟩
    · simp only [compareCode, if_neg hop]
      exact ⟨rfl, by simp [Instr.offset?], by simp [Instr.divides]⟩
  · by_cases hop : op = .notEqual <;> simp [compareCode, hop, Instr.target?]
  · by_cases hop : op = .notEqual <;> simp [hop]

theorem divide {op : BinaryOp} {left right : Temp} (hr : .temp right ∈ known) :
    Surveys env known (do guardDivisor right; Lowering.operate op left right) [] fun t ↦ [t] := by
  intro s t s' h _ hold
  obtain ⟨_, s₁, hg, ht⟩ := bind_ok_iff.mp h
  obtain ⟨g, rfl, eg, hn⟩ := guardDivisor_ok hg
  have ei := compute_ok (fun _ ↦ rfl) ht
  have hnew : IssuedLabel s g.nonzero s' := hn.widen (.refl s) ei
  have hprotects : g.Protects (.binary t op left g.divisor) :=
    ⟨⟨t, op, left, rfl⟩, s.temps, s₁.temps, eg.ascending, hold _ hr⟩
  have hbound : s'.bound = s.bound :=
    (Bindless.guardDivisor g.divisor).bind (fun _ ↦ .compute _) h
  refine ⟨_, [], (eg.trans ei).weaken, ⟨?_, rfl, ?_, ?_, by simp, .nil⟩, .idle (by rw [hbound]),
    by simpa using (ei.issued List.mem_cons_self).2⟩
  · intro l hl
    obtain rfl : l = g.nonzero := List.mem_singleton.mp hl
    exact .inr hnew
  · simp [Guard.code, Guard.test, Instr.offset?]
  · -- nothing in the guard divides, so the division is the last instruction
    intro k i hi hd
    have hk : k = g.code.length ∧ i = .binary t op left g.divisor := by
      rw [List.getElem?_append] at hi
      split at hi
      · have hm := List.mem_of_getElem? hi
        simp only [Guard.code, Guard.test, List.mem_append, List.mem_cons, List.not_mem_nil,
          or_false] at hm
        rcases hm with (rfl | rfl | rfl) | rfl | rfl | rfl | rfl | rfl <;> cases hd
      · rename_i hk
        rw [List.getElem?_singleton] at hi
        split at hi
        · cases hi
          exact ⟨by omega, rfl⟩
        · cases hi
    obtain ⟨rfl, rfl⟩ := hk
    refine ⟨g, s.code.length, hprotects, rfl, .whole fun l hl ↦ ?_⟩
    obtain rfl : l = g.nonzero := List.mem_singleton.mp hl
    exact hnew

theorem applyOp (op : BinaryOp) (leftType rightType : DataType) (left : Temp) {right : Temp}
    (hr : .temp right ∈ known) :
    Surveys env known (applyOp op leftType rightType left right span) [] fun t ↦ [t] := by
  unfold Lowering.applyOp
  split
  · exact divide hr
  · exact divide hr
  · split
    · exact compareStrings _ left right
    · exact operate left right (by simp) (by simp)
  · split
    · exact compareStrings _ left right
    · exact operate left right (by simp) (by simp)
  · rename_i hd hm _ _
    exact operate left right hd hm

theorem callMethod {method : MethodSymbol} (receiver : Option Temp) (args : List Temp)
    (hm : method.offset = .minValue → env.symbols.HasOffset .minValue) :
    Surveys env known (callMethod method receiver args) [] Option.toList := by
  have hparams (ts : List Temp) : (∀ i ∈ ts.map Instr.param, i.offset? = none) ∧
      (∀ i ∈ ts.map Instr.param, i.divides = false) ∧ targets (ts.map .param) = [] := by
    induction ts with
    | nil => simp
    | cons t ts ih => simp_all [Instr.offset?, Instr.divides, Instr.target?]
  cases receiver with
  | none =>
    refine plain (.callMethod method _ args) fun s a s' h ↦ ?_
    obtain ⟨ho, hd, ht⟩ := hparams args
    refine ⟨_, _, (callMethod_static_ok h).1, ⟨settle_trans (settle_params args 0) rfl, ?_, ?_⟩, ?_,
      fun _ h ↦ .inl h⟩
    · rw [List.forall_mem_append]
      exact ⟨fun i hi hmin ↦ absurd hmin (by simp [ho i hi]), by simp [Instr.offset?]⟩
    · rw [List.forall_mem_append]
      exact ⟨hd, by simp [Instr.divides]⟩
    · simp [ht, Instr.target?]
  | some receiver =>
    refine plain (.callMethod method _ args) fun s a s' h ↦ ?_
    obtain ⟨vtable, callee, e, -⟩ := callMethod_virtual_ok h
    obtain ⟨ho, hd, ht⟩ := hparams (receiver :: args)
    refine ⟨_, _, e, ⟨settle_trans (settle_params _ 0) rfl, ?_, ?_⟩, ?_,
      fun _ h ↦ .inl (by simp_all)⟩
    · rw [List.forall_mem_append]
      refine ⟨fun i hi hmin ↦ absurd hmin (by simp [ho i hi]), ?_⟩
      simpa [Instr.offset?] using hm
    · rw [List.forall_mem_append]
      exact ⟨hd, by simp [Instr.divides]⟩
    · rw [targets_append, ht]
      simp [Instr.target?]

theorem fieldOffsets_ne_min {size offset : Int32} (h : offset ∈ fieldOffsets size) :
    offset ≠ .minValue := by
  simp only [fieldOffsets, List.mem_map, List.mem_range] at h
  obtain ⟨k, hk, rfl⟩ := h
  have hsize := size.toInt_lt
  intro hmin
  have hint := congrArg Int32.toInt hmin
  rw [Int32.toInt_ofNat_of_lt (by omega)] at hint
  have hneg : Int32.minValue.toInt = -2147483648 := by decide
  omega

theorem copyCode_plain (symbols : SymbolTable) (object clone : Temp) {offsets : List Int32}
    (fields : List Temp) (h : ∀ offset ∈ offsets, offset ≠ .minValue) :
    Plain symbols (copyCode object clone offsets fields) := by
  fun_induction copyCode object clone offsets fields with
  | case1 offset offsets field fields ih =>
    obtain ⟨ho, hrest⟩ := List.forall_mem_cons.mp h
    obtain ⟨hs, hoffsets, hd⟩ := ih hrest
    refine ⟨hs, ?_, ?_⟩
    · simp only [List.forall_mem_cons, Instr.offset?, Option.some.injEq]
      exact ⟨fun hmin ↦ absurd hmin ho, fun hmin ↦ absurd hmin ho, hoffsets⟩
    · simp only [List.forall_mem_cons]
      exact ⟨rfl, rfl, hd⟩
  | case2 => exact ⟨rfl, by simp, by simp⟩

theorem clone_plain (symbols : SymbolTable) (k : Clone) : Plain symbols k.code := by
  have hmin : ∀ offset ∈ fieldOffsets k.symbol.size, offset ≠ .minValue :=
    fun _ ↦ fieldOffsets_ne_min
  obtain ⟨hs, ho, hd⟩ := copyCode_plain symbols k.object k.result k.fields hmin
  refine ⟨settle_trans rfl (settle_trans hs rfl), ?_, ?_⟩
  · simp only [Clone.code, List.forall_mem_append]
    exact ⟨by simp [Instr.offset?], ho, by simp [Instr.offset?]⟩
  · simp only [Clone.code, List.forall_mem_append]
    exact ⟨by simp [Instr.divides], hd, by simp [Instr.divides]⟩

theorem cloneObject (object : Temp) (c : ClassId) :
    Surveys env known (cloneObject env object c span) [] fun t ↦ [t] := by
  refine plain (.cloneObject object c) fun s t s' h ↦ ?_
  obtain ⟨k, -, rfl, rfl, -, e⟩ := cloneObject_ok h
  refine ⟨_, _, e, clone_plain env.symbols k, ?_, by simp [Clone.temps]⟩
  have hc := Closes.copyCode_straight k.object k.result (fieldOffsets k.symbol.size) k.fields
  simp [Clone.code, hc, Instr.target?]

end Surveys

theorem stored_length {type : DataType} {element t : Temp} {code : List Instr} {ts : List Temp}
    (h : Stored env type element code ts t) : code.length = storeLength env.symbols type := by
  have hcopy {object clone : Temp} {offsets : List Int32} {fields : List Temp}
      (h : fields.length = offsets.length) :
      (copyCode object clone offsets fields).length = 2 * offsets.length := by
    induction offsets generalizing fields with
    | nil =>
      obtain rfl := List.eq_nil_of_length_eq_zero h
      rfl
    | cons offset offsets ih =>
      obtain ⟨field, fields, rfl⟩ := List.exists_cons_of_length_eq_add_one h
      rw [copyCode, List.length_cons, List.length_cons, ih (Nat.succ.inj h), List.length_cons]
      omega
  cases h with
  | plain h => simp [storeLength, h]
  | cloned k h hs ho hf =>
    simp only [storeLength, h, Option.bind_some, hs, Clone.code, List.length_append, hcopy hf,
      List.length_cons, List.length_nil]
    omega

namespace Enters

variable {x : Lower α} {Q : State → α → State → Site → Prop} {res : α → List Temp}

theorem ofPlain (hb : Bindless x) (h : ∀ ⦃s a s'⦄, x s = .ok a s' → (∀ k ∈ known, k.Old s) →
    ∃ code ts block site, Emission s s' code ts ∧ Plain env.symbols code ∧
      (∀ l ∈ targets code, IssuedLabel s l s') ∧ Site.GuardedBy site block ∧
      Housed site.entry block s s' code ∧ Q s a s' site ∧ ∀ t ∈ res a, t ∈ ts) :
    Enters env known x Q [] res := by
  intro s a s' ha _ hold
  obtain ⟨code, ts, block, site, e, hp, ht, hg, hh, hq, hr⟩ := h ha hold
  refine ⟨code, site, [], e.weaken, ?_, hq, .idle (by rw [hb ha]),
    fun t hm ↦ (e.issued (hr t hm)).2⟩
  exact (Survey.ofPlain hp fun l hl ↦ .inr (ht l hl)).cons hg hh (by simp)

theorem checked {array index word offset address : Temp} {writes : Bool} {i : Instr}
    {ts : List Temp}
    (hi : Via address writes i) (ha : array.index ≤ s.temps) (hx : index.index ≤ s.temps)
    (hts : ∃ m, Ascending s.temps [word, offset, address] m)
    (e : Emission s s' (.checkBounds array index :: addressCode array index word offset address ++
      [i]) ts) :
    ∃ code block site, Emission s s' code ts ∧ Plain env.symbols code ∧
      (∀ l ∈ targets code, IssuedLabel s l s') ∧ Site.GuardedBy site block ∧
      Housed site.entry block s s' code ∧
      site = ⟨s.code.length, s.code.length + 4, array, .stored, writes⟩ := by
  obtain ⟨m, hts⟩ := hts
  refine ⟨_, _, _, e, ?_, ?_, Site.guardedBy_checked hi hts ha hx, .whole ?_, rfl⟩
  · cases hi with
    | read dst =>
      exact ⟨rfl, by simp [addressCode, Instr.offset?], by simp [addressCode, Instr.divides]⟩
    | write src =>
      exact ⟨rfl, by simp [addressCode, Instr.offset?], by simp [addressCode, Instr.divides]⟩
  · cases hi <;> simp [addressCode, Instr.target?]
  · cases hi <;> simp [addressCode, Instr.label?]

theorem read {array index : Temp} (ha : .temp array ∈ known) (hi : .temp index ∈ known) :
    Enters env known (do
      let address ← checkedAddress array index
      load address 0)
      (fun s _ _ site ↦ site = ⟨s.code.length, s.code.length + 4, array, .stored, false⟩) []
      fun t ↦ [t] := by
  refine ofPlain ((Bindless.checkedAddress array index).bind fun _ ↦ .load _ 0)
    fun s t s' h hold ↦ ?_
  obtain ⟨address, s₁, hc, hl⟩ := bind_ok_iff.mp h
  obtain ⟨word, offset, ec⟩ := checkedAddress_ok hc
  have el := compute_ok (fun _ ↦ rfl) hl
  obtain ⟨code, block, site, e, hp, ht, hg, hh, hq⟩ := checked (.read t) (hold _ ha) (hold _ hi)
    ⟨_, ec.ascending⟩ (ec.trans el)
  exact ⟨code, _, block, site, e, hp, ht, hg, hh, hq, by simp⟩

theorem write {array index : Temp} (t : Temp) (ha : .temp array ∈ known)
    (hi : .temp index ∈ known) :
    Enters env known (do
      let address ← checkedAddress array index
      append (.store t address 0))
      (fun s _ _ site ↦ site = ⟨s.code.length, s.code.length + 4, array, .stored, true⟩) [] := by
  refine ofPlain ((Bindless.checkedAddress array index).bind fun _ ↦ .step _)
    fun s _ s' h hold ↦ ?_
  obtain ⟨address, s₁, hc, hl⟩ := bind_ok_iff.mp h
  obtain ⟨word, offset, ec⟩ := checkedAddress_ok hc
  obtain ⟨code, block, site, e, hp, ht, hg, hh, hq⟩ := checked (.write t) (hold _ ha) (hold _ hi)
    ⟨_, ec.ascending⟩ (ec.trans (append_ok rfl hl))
  exact ⟨code, _, block, site, e, hp, ht, hg, hh, hq, by simp⟩

theorem readOr {array index : Temp} (fallback : Temp) (ha : .temp array ∈ known)
    (hi : .temp index ∈ known) :
    Enters env known (readOr array index fallback)
      (fun s _ _ site ↦ site = ⟨s.code.length, s.code.length + 13, array, .stored, false⟩) []
      fun t ↦ [t] := by
  refine ofPlain (.readOr array index fallback) fun s t s' h hold ↦ ?_
  obtain ⟨r, rfl, rfl, rfl, rfl, e, hu, hb, hd⟩ := readOr_ok h
  have hplain : Plain env.symbols r.code := by
    refine ⟨rfl, ?_, ?_⟩
    · simp [ReadOr.code, ReadOr.test, ReadOr.read, addressCode, Instr.offset?]
    · simp [ReadOr.code, ReadOr.test, ReadOr.read, addressCode, Instr.divides]
  refine ⟨_, _, _, _, e, hplain, ?_,
    Site.guardedBy_readOr e.ascending (hold _ ha) (hold _ hi), .whole ?_,
      rfl, by simp [ReadOr.temps]⟩
  · simp [ReadOr.code, ReadOr.test, ReadOr.read, addressCode, Instr.target?, hu, hb, hd]
  · simp [r.labels_code, hu, hb, hd]

theorem fillArray {element count : Temp} {type : DataType} (hc : .temp count ∈ known) :
    Enters env known (fillArray env element count type span)
      (fun s t _ site ↦ site = ⟨s.code.length + 1,
        s.code.length + 1 + (storeLength env.symbols type + 7), t, .count count, true⟩) []
      fun t ↦ [t] := by
  refine ofPlain (.fillArray element count type) fun s t s' h hold ↦ ?_
  obtain ⟨f, rfl, rfl, hs, e, hf, hfd⟩ := fillArray_ok h
  have hstored : Plain env.symbols f.store := by
    generalize f.store = code, f.storeTemps = ts, f.stored = t at hs
    cases hs with
    | plain h => exact ⟨rfl, by simp, by simp⟩
    | cloned k h hk ho hfields => exact Surveys.clone_plain env.symbols k
  obtain ⟨hlabels, htargets⟩ := Closes.stored_straight hs
  have hplain : Plain env.symbols f.code := by
    obtain ⟨hsettle, ho, hd⟩ := hstored
    have hcode : f.code = (f.setup ++ .label f.fill :: f.test) ++ (f.store ++ f.access) := by
      simp [Fill.code, Fill.loop, Fill.access]
    refine ⟨hcode ▸ settle_trans rfl (settle_trans hsettle rfl), ?_, ?_⟩
    · simp only [Fill.code, Fill.setup, Fill.loop, Fill.test, Fill.advance, List.forall_mem_append,
        List.forall_mem_cons]
      simp [Instr.offset?]
      exact ho
    · simp only [Fill.code, Fill.setup, Fill.loop, Fill.test, Fill.advance, List.forall_mem_append,
        List.forall_mem_cons]
      simp [Instr.divides]
      exact hd
  refine ⟨_, _, _, _, e, hplain, ?_, Site.guardedBy_fill e.ascending (hold _ hc) hs,
    ⟨[.newArray f.array f.count], [], by simp [f.code_eq], rfl, ?_⟩, ?_, by simp [Fill.temps]⟩
  · simp [Fill.code, Fill.setup, Fill.loop, Fill.test, Fill.advance, Instr.target?,
      htargets, hf, hfd]
  · simp [Fill.block, Fill.start, Fill.loop, Fill.test, Fill.advance, Instr.label?, Instr.target?,
      hlabels, hf, hfd]
  · simp [stored_length hs]

end Enters

end ThreeAddress.Control
