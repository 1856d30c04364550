import ThreeAddress.Proofs.Machine.Fragment

namespace ThreeAddress.Machine

open Checked Code Lowering

variable {ι α β : Type} {P : Platform ι} {env : Env} {span : Span} {s s₁ s₂ s' : State} {t : Temp}

/-- The receiver and the variables have temporaries that were issued before. -/
structure Situated (env : Env) (s : State) : Prop where
  receiver_le : ∀ t ∈ env.receiver, t.index ≤ s.temps
  bound_le : ∀ d ∈ s.bound, d.2.index ≤ s.temps

/-- The values that registers give to the receiver and to the variables. -/
def scopeOf (env : Env) (bound : List (VarId × Temp)) (regs : Registers) : Scope where
  receiver := env.receiver.map regs
  var v := (bound.lookup v).map regs

namespace Situated

theorem lookup_le {v : VarId} (h : Situated env s) (hv : s.bound.lookup v = some t) :
    t.index ≤ s.temps := by
  obtain ⟨before, behind, hb, -⟩ := List.lookup_eq_some_iff.mp hv
  exact h.bound_le (v, t) (by simp [hb])

theorem later (h : Situated env s) (hb : s₁.bound = s.bound) (hs : s.temps ≤ s₁.temps) :
    Situated env s₁ :=
  ⟨fun t ht ↦ (h.receiver_le t ht).trans hs, fun d hd ↦ (h.bound_le d (hb ▸ hd)).trans hs⟩

theorem scopeOf_eq {regs regs₁ : Registers} (h : Situated env s) (hb : s₁.bound = s.bound)
    (hk : Keeps s.temps regs regs₁) :
    scopeOf env s₁.bound regs₁ = scopeOf env s.bound regs := by
  simp only [scopeOf, hb, Scope.mk.injEq]
  constructor
  · exact Option.map_congr fun t ht ↦ hk t (h.receiver_le t ht)
  · funext v
    exact Option.map_congr fun t ht ↦ hk t (h.lookup_le ht)

end Situated

variable (P) in
/-- What was emitted between two states carries out an evaluation that depends on the registers, and
the registers then hold its value. -/
def Carries (s s' : State) (x : Registers → Eval ι β) (value : Registers → β) : Prop :=
  ∃ code ts, Emission s s' code ts ∧ s'.bound = s.bound ∧
    ∀ regs w, Realises P s.temps code regs w (x regs) fun b regs' ↦ value regs' = b

variable (P) in
def Yields (s : State) (t : Temp) (s' : State) (x : Registers → Eval ι Word) : Prop :=
  t.index ≤ s'.temps ∧ Carries P s s' x fun regs ↦ regs t

namespace Carries

variable {x : Registers → Eval ι α} {value : Registers → α}

theorem congr {y : Registers → Eval ι α} (h : Carries P s s' y value)
    (hx : ∀ regs, x regs = y regs) : Carries P s s' x value := by
  rwa [funext hx]

theorem done (value : Registers → α) : Carries P s s (fun regs ↦ pure (value regs)) value :=
  ⟨[], [], .refl s, rfl, fun _ _ ↦ .done rfl⟩

theorem finish {last : Registers → β} (g : α → Eval ι β) (h : Carries P s s₁ x value)
    (hg : Carries P s₁ s₂ (fun regs ↦ g (value regs)) last) :
    Carries P s s₂ (fun regs ↦ x regs >>= g) last := by
  obtain ⟨code₁, ts₁, e₁, hb₁, hr₁⟩ := h
  obtain ⟨code₂, ts₂, e₂, hb₂, hr₂⟩ := hg
  refine ⟨code₁ ++ code₂, ts₁ ++ ts₂, e₁.trans e₂, hb₂.trans hb₁, fun regs w ↦ ?_⟩
  refine (hr₁ regs w).bind e₁.temps_le fun a regs₁ w₁ _ ha ↦ ?_
  exact ha ▸ hr₂ regs₁ w₁

theorem yields (g : α → Eval ι Word) (h : Carries P s s₁ x value)
    (hg : Yields P s₁ t s₂ fun regs ↦ g (value regs)) :
    Yields P s t s₂ fun regs ↦ x regs >>= g := ⟨hg.1, h.finish g hg.2⟩

end Carries

namespace Yields

variable {x : Registers → Eval ι Word}

theorem congr {y : Registers → Eval ι Word} (h : Yields P s t s' y)
    (hx : ∀ regs, x regs = y regs) : Yields P s t s' x := ⟨h.1, h.2.congr hx⟩

theorem known (ht : t.index ≤ s.temps) : Yields P s t s fun regs ↦ pure (regs t) :=
  ⟨ht, .done fun regs ↦ regs t⟩

theorem of_emission {code : List Instr} {ts : List Temp} (e : Emission s s' code ts)
    (hb : s'.bound = s.bound) (ht : t ∈ ts)
    (hr : ∀ regs w, Realises P s.temps code regs w (x regs) (Holds t)) : Yields P s t s' x :=
  ⟨(e.issued ht).2, code, ts, e, hb, hr⟩

theorem compute {instr : Temp → Instr} (hi : ∀ t, (instr t).label? = none)
    (h : compute instr s = .ok t s')
    (hr : s.temps < t.index → ∀ regs w, Realises P s.temps [instr t] regs w (x regs) (Holds t)) :
    Yields P s t s' x := by
  have e := compute_ok hi h
  exact of_emission e (Bindless.compute _ h) (by simp) (hr (e.issued (by simp)).1)

theorem constant {v : Word} (h : constant v s = .ok t s') : Yields P s t s' fun _ ↦ pure v :=
  compute (fun _ ↦ rfl) h fun ht _ _ ↦ .constant v ht

theorem load {base : Temp} {offset : Int32} (h : load base offset s = .ok t s') :
    Yields P s t s' fun regs ↦ Eval.read (regs base + offset) :=
  compute (fun _ ↦ rfl) h fun ht _ _ ↦ .load ht

theorem operate {op : BinaryOp} {left right : Temp} (h : operate op left right s = .ok t s') :
    Yields P s t s' fun regs ↦ pure (binary op (regs left) (regs right)) :=
  compute (fun _ ↦ rfl) h fun ht _ _ ↦ .assign ht rfl rfl

theorem element {array index address : Temp} (ha : array.index ≤ s.temps)
    (hi : index.index ≤ s.temps) (hc : checkedAddress array index s = .ok address s₁)
    (hl : Lowering.load address 0 s₁ = .ok t s') :
    Yields P s t s' fun regs ↦ Eval.checkRange P (regs array) (regs index) >>= fun _ ↦
      Eval.read (Eval.elementAt (regs array) (regs index)) := by
  obtain ⟨word, offset, e⟩ := checkedAddress_ok hc
  have hcheck : Carries P s s₁ (fun regs ↦ Eval.checkRange P (regs array) (regs index) >>= fun _ ↦
      pure (Eval.elementAt (regs array) (regs index))) fun regs ↦ regs address := by
    refine ⟨_, _, e, Bindless.checkedAddress array index hc, fun regs w ↦ ?_⟩
    refine Realises.check.bind le_rfl fun _ regs₁ w₁ hk _ ↦ ?_
    rw [← hk array ha, ← hk index hi]
    exact .address e.ascending ha hi
  have hload : Yields P s₁ t s' fun regs ↦ Eval.read (regs address) :=
    (load hl).congr fun regs ↦ by rw [Int32.add_zero]
  exact (hcheck.yields Eval.read hload).congr fun regs ↦ by simp only [bind_assoc, pure_bind]

theorem routine {r : Routine} {result : Option Temp} (hc : callRoutine r s = .ok result s₁)
    (hd : demand result span s₁ = .ok t s') : Yields P s t s' fun _ ↦ Eval.routine P r [] := by
  obtain ⟨rfl, rfl⟩ := demand_ok hd
  have e := (callRoutine_ok hc).1
  refine of_emission e (Bindless.attempt _ hc) (by simp) fun regs w ↦ ?_
  exact .callValue [] _ rfl (e.issued (by simp)).1

theorem allocate {name : String} {type : DataType} {result : Option Temp}
    (hc : call (.call · name) type s = .ok result s₁) (hd : demand result span s₁ = .ok t s') :
    Yields P s t s' fun _ ↦ Eval.request P (.call name) [] := by
  obtain ⟨rfl, rfl⟩ := demand_ok hd
  have e := (call_ok (fun _ ↦ rfl) hc).1
  refine of_emission e (Bindless.step _ hc) (by simp) fun regs w ↦ ?_
  exact .callValue [] name rfl (e.issued (by simp)).1

theorem divide {op : BinaryOp} {left right : Temp} {u : Unit} (hl : left.index ≤ s.temps)
    (hr : right.index ≤ s.temps) (hg : guardDivisor right s = .ok u s₁)
    (ho : Lowering.operate op left right s₁ = .ok t s') :
    Yields P s t s' fun regs ↦ Eval.divide P op (regs left) (regs right) := by
  obtain ⟨g, rfl, e, -⟩ := guardDivisor_ok hg
  have hguard : Carries P s s₁ (fun regs ↦ Eval.guardDivisor P (regs g.divisor) >>= fun _ ↦
      pure (regs left, regs g.divisor)) fun regs ↦ (regs left, regs g.divisor) := by
    refine ⟨_, _, e, Bindless.guardDivisor _ hg, fun regs w ↦ ?_⟩
    exact (Realises.guard e.ascending hr).map fun _ regs' hk _ ↦
      Prod.ext (hk left hl) (hk g.divisor hr)
  have hop := hguard.yields (fun p ↦ pure (binary op p.1 p.2)) (operate ho)
  exact hop.congr fun regs ↦ by simp only [Eval.divide, bind_assoc, pure_bind]

theorem compare {op : BinaryOp} {left right : Temp}
    (h : compareStrings op left right span s = .ok t s') :
    Yields P s t s' fun regs ↦ Eval.compareStrings P op (regs left) (regs right) := by
  obtain ⟨equal, e, hop⟩ := compareStrings_ok h
  have hts : equal ∈ (if op = .notEqual then [equal, t] else [t]) ∧
      t ∈ (if op = .notEqual then [equal, t] else [t]) := by
    split
    · simp
    · rename_i hne
      simp [hop hne]
  refine of_emission e (Bindless.compareStrings op left right h) hts.2 fun regs w ↦ ?_
  exact .compare (e.issued hts.1).1 (e.issued hts.2).1 hop

theorem applyOp {op : BinaryOp} {leftType rightType : DataType} {left right : Temp}
    (h : applyOp op leftType rightType left right span s = .ok t s') (hl : left.index ≤ s.temps)
    (hr : right.index ≤ s.temps) :
    Yields P s t s' fun regs ↦ Eval.apply P op leftType rightType (regs left) (regs right) := by
  unfold Lowering.applyOp at h
  unfold Eval.apply
  split at h
  · obtain ⟨u, s₁, hg, ho⟩ := bind_ok_iff.mp h
    exact divide hl hr hg ho
  · obtain ⟨u, s₁, hg, ho⟩ := bind_ok_iff.mp h
    exact divide hl hr hg ho
  · split at h
    · rename_i hs
      exact (compare h).congr fun regs ↦ if_pos hs
    · rename_i hs
      exact (operate h).congr fun regs ↦ if_neg hs
  · split at h
    · rename_i hs
      exact (compare h).congr fun regs ↦ if_pos hs
    · rename_i hs
      exact (operate h).congr fun regs ↦ if_neg hs
  · cases op <;> first | contradiction | exact operate h

theorem callMethod {method : MethodSymbol} {receiver : Option Temp} {args : List Temp}
    (h : callMethod method receiver args s = .ok (some t) s') :
    Yields P s t s' fun regs ↦
      Eval.callMethod P method (receiver.map regs) (args.map regs) := by
  have hb := Bindless.callMethod method receiver args h
  cases receiver with
  | none =>
    have e := (callMethod_static_ok h).1
    refine of_emission e hb (by simp) fun regs w ↦ ?_
    exact .callValue args _ rfl (e.issued (by simp)).1
  | some receiver =>
    obtain ⟨vtable, callee, e, -⟩ := callMethod_virtual_ok h
    refine of_emission e hb (by simp) fun regs w ↦ ?_
    exact (Realises.callVirtual e.ascending).imp fun _ _ _ hv ↦ hv t rfl

theorem cloneObject {object : Temp} {c : ClassId} (ho : object.index ≤ s.temps)
    (h : cloneObject env object c span s = .ok t s') :
    Yields P s t s' fun regs ↦ Eval.known (env.symbols.class? c) >>= fun symbol ↦
      Eval.clone P symbol (regs object) := by
  have hb := Bindless.cloneObject object c h
  obtain ⟨k, hk, rfl, rfl, hf, e⟩ := cloneObject_ok h
  refine of_emission e hb (by simp [Clone.temps]) fun regs w ↦ ?_
  simp only [hk, Eval.known, pure_bind]
  exact .clone e.ascending ho hf

theorem checkClass {object : Temp} {vtable : String} {u : Unit} (ho : object.index ≤ s.temps)
    (h : append (.checkClass object vtable) s = .ok u s') :
    Yields P s object s' fun regs ↦ Eval.request P (.checkClass vtable) [regs object] >>= fun _ ↦
      pure (regs object) := by
  have e := append_ok rfl h
  refine ⟨ho.trans e.temps_le, _, _, e, Bindless.step _ h, fun regs w ↦ ?_⟩
  refine (Realises.request regs [] none ?_ (.refl _ regs) (by simp)).map fun _ _ hk _ ↦ hk object ho
  rw [exec_singleton]
  rfl

theorem fillArray {element count : Temp} {type : DataType} (he : element.index ≤ s.temps)
    (hc : count.index ≤ s.temps) (h : fillArray env element count type span s = .ok t s') :
    Yields P s t s' fun regs ↦ Eval.request P .newArray [regs count] >>= fun array ↦
      Eval.fill P env.symbols type (regs element) array 0 (regs count).toInt.toNat >>= fun _ ↦
      pure array := by
  have hb := Bindless.fillArray element count type h
  obtain ⟨f, rfl, rfl, hs, e, -, -⟩ := fillArray_ok h
  refine of_emission e hb (by simp [Fill.temps]) fun regs w ↦ ?_
  exact .fill hs e.ascending hc he

theorem readOr {array index fallback : Temp} (ha : array.index ≤ s.temps)
    (hi : index.index ≤ s.temps) (hf : fallback.index ≤ s.temps)
    (h : readOr array index fallback s = .ok t s') :
    Yields P s t s' fun regs ↦ Eval.readOr (regs array) (regs index) (regs fallback) := by
  have hb := Bindless.readOr array index fallback h
  obtain ⟨r, rfl, rfl, rfl, rfl, e, -, -, -⟩ := readOr_ok h
  refine of_emission e hb (by simp [ReadOr.temps]) fun regs w ↦ ?_
  exact .readOr e.ascending ha hi hf

end Yields

variable (P env) in
/-- The evaluation depends on the values of the receiver and the variables. -/
def Computes (s s' : State) (x : Scope → Eval ι β) (value : Registers → β) : Prop :=
  Carries P s s' (fun regs ↦ x (scopeOf env s.bound regs)) value

variable (P env) in
def Delivers (s : State) (t : Temp) (s' : State) (x : Scope → Eval ι Word) : Prop :=
  t.index ≤ s'.temps ∧ Computes P env s s' x fun regs ↦ regs t

namespace Computes

variable {x : Scope → Eval ι α} {value : Registers → α}

theorem congr {y : Scope → Eval ι α} (h : Computes P env s s' y value)
    (hx : ∀ scope, x scope = y scope) : Computes P env s s' x value := by
  rwa [funext hx]

theorem temps_le (h : Computes P env s s₁ x value) : s.temps ≤ s₁.temps := by
  obtain ⟨code, ts, e, -⟩ := h
  exact e.temps_le

theorem situated (h : Computes P env s s₁ x value) (hs : Situated env s) : Situated env s₁ := by
  obtain ⟨code, ts, e, hb, -⟩ := h
  exact hs.later hb e.temps_le

theorem finish {last : Registers → β} (g : α → Eval ι β) (h : Computes P env s s₁ x value)
    (hg : Carries P s₁ s₂ (fun regs ↦ g (value regs)) last) :
    Computes P env s s₂ (fun scope ↦ x scope >>= g) last := Carries.finish g h hg

theorem deliver (g : α → Eval ι Word) (h : Computes P env s s₁ x value)
    (hg : Yields P s₁ t s₂ fun regs ↦ g (value regs)) :
    Delivers P env s t s₂ fun scope ↦ x scope >>= g := ⟨hg.1, h.finish g hg.2⟩

/-- Two operands. The scope is the same for both, and the value of the first stays. -/
theorem pair {y : Scope → Eval ι β} {value' : Registers → β} (h : Computes P env s s₁ x value)
    (h' : Computes P env s₁ s₂ y value') (hs : Situated env s)
    (hv : ∀ regs regs', Keeps s₁.temps regs regs' → value regs' = value regs) :
    Computes P env s s₂ (fun scope ↦ x scope >>= fun a ↦ y scope >>= fun b ↦ pure (a, b))
      fun regs ↦ (value regs, value' regs) := by
  obtain ⟨code₁, ts₁, e₁, hb₁, hr₁⟩ := h
  obtain ⟨code₂, ts₂, e₂, hb₂, hr₂⟩ := h'
  refine ⟨code₁ ++ code₂, ts₁ ++ ts₂, e₁.trans e₂, hb₂.trans hb₁, fun regs w ↦ ?_⟩
  refine (hr₁ regs w).bind e₁.temps_le fun a regs₁ w₁ hk ha ↦ ?_
  rw [← hs.scopeOf_eq hb₁ hk]
  refine (hr₂ regs₁ w₁).map fun b regs₂ hk₂ hb ↦ ?_
  exact Prod.ext ((hv regs₁ regs₂ hk₂).trans ha) hb

end Computes

namespace Delivers

variable {x y z : Scope → Eval ι Word} {a b : Temp}

theorem congr (h : Delivers P env s t s' y) (hx : ∀ scope, x scope = y scope) :
    Delivers P env s t s' x := ⟨h.1, h.2.congr hx⟩

theorem pair (hx : Delivers P env s a s₁ x) (hy : Delivers P env s₁ b s₂ y) (hs : Situated env s) :
    Computes P env s s₂ (fun scope ↦ x scope >>= fun a ↦ y scope >>= fun b ↦ pure (a, b))
      fun regs ↦ (regs a, regs b) :=
  hx.2.pair hy.2 hs fun _ _ hk ↦ hk a hx.1

theorem le (hx : Delivers P env s a s₁ x) (hy : Delivers P env s₁ b s₂ y) :
    a.index ≤ s₂.temps := hx.1.trans hy.2.temps_le

theorem indexed {address : Temp} {s₃ : State} (hx : Delivers P env s a s₁ x)
    (hy : Delivers P env s₁ b s₂ y) (hs : Situated env s)
    (hc : checkedAddress a b s₂ = .ok address s₃) (hl : load address 0 s₃ = .ok t s') :
    Delivers P env s t s' fun scope ↦ x scope >>= fun a ↦ y scope >>= fun i ↦
      Eval.checkRange P a i >>= fun _ ↦ Eval.read (Eval.elementAt a i) := by
  have he : Yields P s₂ t s' fun regs ↦ Eval.checkRange P (regs a) (regs b) >>= fun _ ↦
      Eval.read (Eval.elementAt (regs a) (regs b)) := .element (hx.le hy) hy.1 hc hl
  have h := (hx.pair hy hs).deliver (fun p : Word × Word ↦ Eval.checkRange P p.1 p.2 >>= fun _ ↦
    Eval.read (Eval.elementAt p.1 p.2)) he
  exact h.congr fun _ ↦ by simp only [bind_assoc, pure_bind]

theorem binary {op : BinaryOp} {leftType rightType : DataType} (hx : Delivers P env s a s₁ x)
    (hy : Delivers P env s₁ b s₂ y) (hs : Situated env s)
    (ho : applyOp op leftType rightType a b span s₂ = .ok t s') :
    Delivers P env s t s' fun scope ↦ x scope >>= fun a ↦ y scope >>= fun b ↦
      Eval.apply P op leftType rightType a b := by
  have h := (hx.pair hy hs).deliver (fun p : Word × Word ↦
    Eval.apply P op leftType rightType p.1 p.2)
    (.applyOp ho (hx.le hy) hy.1)
  exact h.congr fun _ ↦ by simp only [bind_assoc, pure_bind]

theorem filled {type : DataType} (hx : Delivers P env s a s₁ x) (hy : Delivers P env s₁ b s₂ y)
    (hs : Situated env s) (hf : fillArray env a b type span s₂ = .ok t s') :
    Delivers P env s t s' fun scope ↦ x scope >>= fun a ↦ y scope >>= fun n ↦
      Eval.request P .newArray [n] >>= fun array ↦
      Eval.fill P env.symbols type a array 0 n.toInt.toNat >>= fun _ ↦ pure array := by
  have h := (hx.pair hy hs).deliver (fun p : Word × Word ↦
    Eval.request P .newArray [p.2] >>= fun array ↦
    Eval.fill P env.symbols type p.1 array 0 p.2.toInt.toNat >>= fun _ ↦ pure array)
    (.fillArray (hx.le hy) hy.1 hf)
  exact h.congr fun _ ↦ by simp only [bind_assoc, pure_bind]

theorem readOr {c : Temp} {s₃ : State} (hx : Delivers P env s a s₁ x)
    (hy : Delivers P env s₁ b s₂ y) (hz : Delivers P env s₂ c s₃ z) (hs : Situated env s)
    (hr : readOr a b c s₃ = .ok t s') :
    Delivers P env s t s' fun scope ↦ x scope >>= fun a ↦ y scope >>= fun i ↦ z scope >>= fun d ↦
      Eval.readOr a i d := by
  have hyz := hy.pair hz (hx.2.situated hs)
  have he : Yields P s₃ t s' fun regs ↦ Eval.readOr (regs a) (regs b) (regs c) :=
    .readOr (hx.1.trans hyz.temps_le) (hy.le hz) hz.1 hr
  have h := (hx.2.pair hyz hs fun _ _ hk ↦ hk a hx.1).deliver
    (fun p : Word × Word × Word ↦ Eval.readOr p.1 p.2.1 p.2.2) he
  exact h.congr fun _ ↦ by simp only [bind_assoc, pure_bind]

theorem cast {object : Temp} {vtable : String} {u : Unit} (hx : Delivers P env s object s₁ x)
    (h : append (.checkClass object vtable) s₁ = .ok u s') :
    Delivers P env s object s' fun scope ↦ x scope >>= fun a ↦
      Eval.request P (.checkClass vtable) [a] >>= fun _ ↦ pure a :=
  hx.2.deliver (fun v : Word ↦ Eval.request P (.checkClass vtable) [v] >>= fun _ ↦ pure v)
    (.checkClass hx.1 h)

end Delivers

theorem Yields.deliver {x : Eval ι Word} (h : Yields P s t s' fun _ ↦ x) :
    Delivers P env s t s' fun _ ↦ x := h

theorem findReceiver_delivers (hs : Situated env s) (h : env.findReceiver span s = .ok t s') :
    Delivers P env s t s' fun scope ↦ Eval.known scope.receiver := by
  obtain ⟨hr, rfl⟩ := Env.findReceiver_ok h
  refine (Yields.known (hs.receiver_le t hr)).congr fun regs ↦ ?_
  simp only [scopeOf, hr]
  rfl

theorem findTemp_delivers {v : VarId} (hs : Situated env s)
    (h : env.findTemp v span s = .ok t s') :
    Delivers P env s t s' fun scope ↦ Eval.known (scope.var v) := by
  obtain ⟨hv, rfl⟩ := Env.findTemp_ok h
  refine (Yields.known (hs.lookup_le hv)).congr fun regs ↦ ?_
  simp only [scopeOf, hv]
  rfl

end ThreeAddress.Machine

namespace ThreeAddress.Checked

open Machine Lowering

mutual

def Expr.BindingFree : Expr → Prop
  | .mk kind _ _ _ =>
    match kind with
    | .literal _ | .null | .this | .readInteger | .readLine | .newClass _ => True
    | .ident owner _ => Expr.BindingFreeOption owner
    | .indexed array index => array.BindingFree ∧ index.BindingFree
    | .call c => c.BindingFree
    | .arrayLength e | .unary _ e | .newArray _ e | .instanceOf e _ | .cast e _ | .shallowCopy e =>
      e.BindingFree
    | .binary _ left right => left.BindingFree ∧ right.BindingFree
    | .newSameArray value count => value.BindingFree ∧ count.BindingFree
    | .defaultIndex array index fallback =>
      array.BindingFree ∧ index.BindingFree ∧ fallback.BindingFree
    | .varBinding _ => False

def Call.BindingFree : Call → Prop
  | .mk receiver _ args => Expr.BindingFreeOption receiver ∧ Expr.BindingFreeAll args

def Expr.BindingFreeOption : Option Expr → Prop
  | some e => e.BindingFree
  | none => True

def Expr.BindingFreeAll : List Expr → Prop
  | [] => True
  | e :: es => e.BindingFree ∧ Expr.BindingFreeAll es

end

variable {ι : Type} {P : Platform ι} {env : Env}

mutual

theorem Expr.delivers {s s' : State} {t : Code.Temp} : (e : Expr) → e.BindingFree →
    Situated env s → e.lower env s = .ok t s' →
    Delivers P env s t s' fun scope ↦ e.eval P env.symbols scope
  | .mk (.literal (.int n)) _ _ _, _, _, h => (Yields.constant h).deliver
  | .mk (.literal (.bool b)) _ _ _, _, _, h => (Yields.constant h).deliver
  | .mk (.literal (.string text)) _ _ _, _, _, h => by
    rw [Expr.lower, literal] at h
    exact Yields.deliver (.compute (fun _ ↦ rfl) h fun ht _ _ ↦ .assign ht rfl rfl)
  | .mk .null _ _ _, _, _, h => (Yields.constant h).deliver
  | .mk .this _ _ _, _, hs, h => findReceiver_delivers hs h
  | .mk .readInteger _ _ _, _, _, h => by
    obtain ⟨r, s₁, hc, hd⟩ := bind_ok_iff.mp h
    exact (Yields.routine hc hd).deliver
  | .mk .readLine _ _ _, _, _, h => by
    obtain ⟨r, s₁, hc, hd⟩ := bind_ok_iff.mp h
    exact (Yields.routine hc hd).deliver
  | .mk (.ident owner symbol) _ .memberVar _, he, hs, h => by
    rw [Expr.lower] at h
    simp only [bind_ok_iff] at h
    obtain ⟨object, s₁, ho, member, s₂, hm, hl⟩ := h
    obtain ⟨hmember, rfl⟩ := Env.findVar_ok hm
    have hobject := Expr.deliversOwner owner he hs ho
    refine (hobject.2.deliver (fun v : Word ↦ Eval.read (v + member.offset))
      (.load hl)).congr fun _ ↦ ?_
    simp only [Expr.eval, hmember, Eval.known, pure_bind]
  | .mk (.ident _ symbol) _ .localVar _, _, hs, h => findTemp_delivers hs h
  | .mk (.ident _ symbol) _ .paramVar _, _, hs, h => findTemp_delivers hs h
  | .mk (.ident _ symbol) _ .notLValue _, _, hs, h => findTemp_delivers hs h
  | .mk (.ident _ symbol) _ .arrayElement _, _, _, h => by cases h
  | .mk (.indexed array index) _ _ _, he, hs, h => by
    rw [Expr.lower] at h
    simp only [bind_ok_iff] at h
    obtain ⟨a, s₁, ha, i, s₂, hi, address, s₃, hc, hl⟩ := h
    have hA := array.delivers he.1 hs ha
    have hI := index.delivers he.2 (hA.2.situated hs) hi
    exact (hA.indexed hI hs hc hl).congr fun _ ↦ by rw [Expr.eval]
  | .mk (.call c) _ _ _, he, hs, h => by
    rw [Expr.lower] at h
    obtain ⟨r, s₁, hc, hd⟩ := bind_ok_iff.mp h
    obtain ⟨rfl, rfl⟩ := demand_ok hd
    exact c.delivers he hs hc
  | .mk (.arrayLength array) _ _ _, he, hs, h => by
    rw [Expr.lower] at h
    obtain ⟨a, s₁, ha, hl⟩ := bind_ok_iff.mp h
    have hA := array.delivers he hs ha
    exact (hA.2.deliver (fun v : Word ↦ Eval.read (v + lengthOffset)) (.load hl)).congr fun _ ↦ by
      rw [Expr.eval]
  | .mk (.binary op left right) _ _ _, he, hs, h => by
    rw [Expr.lower] at h
    simp only [bind_ok_iff] at h
    obtain ⟨l, s₁, hl, r, s₂, hr, ho⟩ := h
    have hL := left.delivers he.1 hs hl
    have hR := right.delivers he.2 (hL.2.situated hs) hr
    exact (hL.binary hR hs ho).congr fun _ ↦ by rw [Expr.eval]
  | .mk (.unary op operand) _ _ _, he, hs, h => by
    rw [Expr.lower] at h
    obtain ⟨a, s₁, ha, ht⟩ := bind_ok_iff.mp h
    have hA := operand.delivers he hs ha
    have hU : Yields P s₁ t s' fun regs ↦ pure (unary op (regs a)) :=
      .compute (fun _ ↦ rfl) ht fun ht _ _ ↦ .assign ht rfl rfl
    exact (hA.2.deliver (fun v : Word ↦ pure (unary op v)) hU).congr fun _ ↦ by rw [Expr.eval]
  | .mk (.newClass c) _ _ _, _, _, h => by
    rw [Expr.lower] at h
    simp only [bind_ok_iff] at h
    obtain ⟨symbol, s₁, hc, r, s₂, hr, hd⟩ := h
    obtain ⟨hsymbol, rfl⟩ := Env.findClass_ok hc
    refine (Yields.allocate hr hd).deliver.congr fun _ ↦ ?_
    simp only [Expr.eval, hsymbol, Eval.known, pure_bind]
  | .mk (.newArray _ length) _ _ _, he, hs, h => by
    rw [Expr.lower] at h
    obtain ⟨n, s₁, hn, ht⟩ := bind_ok_iff.mp h
    have hN := length.delivers he hs hn
    have hA : Yields P s₁ t s' fun regs ↦ Eval.request P .newArray [regs n] :=
      .compute (fun _ ↦ rfl) ht fun ht _ _ ↦ .service ht rfl
    exact (hN.2.deliver (fun v : Word ↦ Eval.request P .newArray [v]) hA).congr fun _ ↦ by
      rw [Expr.eval]
  | .mk (.instanceOf object c) _ _ _, he, hs, h => by
    rw [Expr.lower] at h
    simp only [bind_ok_iff] at h
    obtain ⟨a, s₁, ha, symbol, s₂, hc, ht⟩ := h
    obtain ⟨hsymbol, rfl⟩ := Env.findClass_ok hc
    have hA := object.delivers he hs ha
    have hI : Yields P s₂ t s' fun regs ↦ Eval.request P (.instanceOf symbol.vtable) [regs a] :=
      .compute (fun _ ↦ rfl) ht fun ht _ _ ↦ .service ht rfl
    refine (hA.2.deliver (fun v : Word ↦ Eval.request P (.instanceOf symbol.vtable) [v]) hI).congr
      fun _ ↦ ?_
    simp only [Expr.eval, hsymbol, Eval.known, pure_bind]
  | .mk (.cast object c) _ _ _, he, hs, h => by
    rw [Expr.lower] at h
    simp only [bind_ok_iff] at h
    obtain ⟨a, s₁, ha, symbol, s₂, hc, h⟩ := h
    obtain ⟨hsymbol, rfl⟩ := Env.findClass_ok hc
    have hA := object.delivers he hs ha
    split at h
    · rename_i hcheck
      obtain ⟨_, s₃, hi, hr⟩ := bind_ok_iff.mp h
      obtain ⟨rfl, rfl⟩ := pure_ok_iff.mp hr
      refine (hA.cast hi).congr fun _ ↦ ?_
      simp only [Expr.eval, hsymbol, Eval.known, pure_bind, if_pos hcheck]
    · rename_i hcheck
      obtain ⟨rfl, rfl⟩ := pure_ok_iff.mp h
      refine (hA.2.deliver pure (.known hA.1)).congr fun _ ↦ ?_
      simp only [Expr.eval, hsymbol, Eval.known, pure_bind, if_neg hcheck]
  | .mk (.shallowCopy source) _ _ _, he, hs, h => by
    rw [Expr.lower] at h
    cases hc : source.type.class? with
    | none =>
      rw [hc] at h
      cases h
    | some c =>
      rw [hc] at h
      obtain ⟨a, s₁, ha, hk⟩ := bind_ok_iff.mp h
      have hA := source.delivers he hs ha
      refine (hA.2.deliver (fun v : Word ↦ Eval.known (env.symbols.class? c) >>= fun symbol ↦
        Eval.clone P symbol v) (.cloneObject hA.1 hk)).congr fun _ ↦ ?_
      rw [Expr.eval, hc, Eval.known, pure_bind]
  | .mk (.newSameArray element count) _ _ _, he, hs, h => by
    rw [Expr.lower] at h
    simp only [bind_ok_iff] at h
    obtain ⟨a, s₁, ha, n, s₂, hn, hf⟩ := h
    have hA := element.delivers he.1 hs ha
    have hN := count.delivers he.2 (hA.2.situated hs) hn
    exact (hA.filled hN hs hf).congr fun _ ↦ by rw [Expr.eval]
  | .mk (.defaultIndex array index fallback) _ _ _, he, hs, h => by
    rw [Expr.lower] at h
    simp only [bind_ok_iff] at h
    obtain ⟨a, s₁, ha, i, s₂, hi, d, s₃, hd, hr⟩ := h
    have hA := array.delivers he.1 hs ha
    have hs₁ := hA.2.situated hs
    have hI := index.delivers he.2.1 hs₁ hi
    have hD := fallback.delivers he.2.2 (hI.2.situated hs₁) hd
    exact (hA.readOr hI hD hs hr).congr fun _ ↦ by rw [Expr.eval]
  | .mk (.varBinding symbol) _ _ _, he, _, _ => he.elim

theorem Expr.deliversOwner {span : Span} {s s' : State} {t : Code.Temp} : (owner : Option Expr) →
    Expr.BindingFreeOption owner → Situated env s → Expr.lowerOwner env span owner s = .ok t s' →
    Delivers P env s t s' fun scope ↦ Expr.evalOwner P env.symbols scope owner
  | some owner, he, hs, h => owner.delivers he hs h
  | none, _, hs, h => findReceiver_delivers hs h

theorem Call.delivers {span : Span} {s s' : State} {t : Code.Temp} : (c : Call) → c.BindingFree →
    Situated env s → c.lower env span s = .ok (some t) s' →
    Delivers P env s t s' fun scope ↦ c.eval P env.symbols scope
  | .mk receiver method args, he, hs, h => by
    rw [Call.lower] at h
    simp only [bind_ok_iff] at h
    obtain ⟨symbol, s₁, hm, r, s₂, hr, ts, s₃, hts, hc⟩ := h
    obtain ⟨hsymbol, rfl⟩ := Env.findMethod_ok hm
    obtain ⟨hrle, hR⟩ := Expr.computesOption receiver he.1 hs hr
    have hA := Expr.computesAll args he.2 (hR.situated hs) hts
    have hRA := hR.pair hA.2 hs fun regs regs' hk ↦ Option.map_congr fun t ht ↦ hk t (hrle t ht)
    have hC := hRA.deliver (fun p : Option Word × List Word ↦ Eval.callMethod P symbol p.1 p.2)
      (.callMethod hc)
    refine hC.congr fun _ ↦ ?_
    simp only [Call.eval, hsymbol, Eval.known, bind_assoc, pure_bind]

theorem Expr.computesOption {s s' : State} {r : Option Code.Temp} : (e : Option Expr) →
    Expr.BindingFreeOption e → Situated env s → Expr.lowerOption env e s = .ok r s' →
    (∀ t ∈ r, t.index ≤ s'.temps) ∧
      Computes P env s s' (fun scope ↦ Expr.evalOption P env.symbols scope e)
        fun regs ↦ r.map regs
  | some e, he, hs, h => by
    obtain ⟨t, s₁, ht, hr⟩ := bind_ok_iff.mp h
    obtain ⟨rfl, rfl⟩ := pure_ok_iff.mp hr
    obtain ⟨hle, hc⟩ := e.delivers he hs ht
    refine ⟨by simpa using hle, ?_⟩
    exact hc.finish (fun v ↦ pure (some v)) (.done fun regs ↦ some (regs t))
  | none, _, _, h => by
    obtain ⟨rfl, rfl⟩ := pure_ok_iff.mp h
    exact ⟨by simp, .done fun _ ↦ none⟩

theorem Expr.computesAll {s s' : State} {ts : List Code.Temp} : (es : List Expr) →
    Expr.BindingFreeAll es → Situated env s → Expr.lowerAll env es s = .ok ts s' →
    (∀ t ∈ ts, t.index ≤ s'.temps) ∧
      Computes P env s s' (fun scope ↦ Expr.evalAll P env.symbols scope es)
        fun regs ↦ ts.map regs
  | [], _, _, h => by
    obtain ⟨rfl, rfl⟩ := pure_ok_iff.mp h
    exact ⟨by simp, .done fun _ ↦ []⟩
  | e :: es, he, hs, h => by
    rw [Expr.lowerAll] at h
    simp only [bind_ok_iff] at h
    obtain ⟨t, s₁, ht, us, s₂, hus, hr⟩ := h
    obtain ⟨rfl, rfl⟩ := pure_ok_iff.mp hr
    have hE := e.delivers he.1 hs ht
    obtain ⟨hle, hES⟩ := Expr.computesAll es he.2 (hE.2.situated hs) hus
    have hpair := hE.2.pair hES hs fun _ _ hk ↦ hk t hE.1
    refine ⟨?_, ?_⟩
    · simpa using ⟨hE.1.trans hES.temps_le, hle⟩
    · have hcons := hpair.finish (fun p ↦ pure (p.1 :: p.2))
        (.done fun regs ↦ regs t :: us.map regs)
      exact hcons.congr fun _ ↦ by simp only [Expr.evalAll, bind_assoc, pure_bind]

end

/-- Lowered code does what the evaluation does. Wherever the code of an expression stands, with no
parameter pending in front of it, running it ends where the evaluation halts and otherwise arrives
right behind it, with the value in the temporary returned and all older temporaries as they were. -/
theorem Expr.lower_realises_eval (P : Platform ι) {e : Expr} {s s' : State} {t : Code.Temp}
    (he : e.BindingFree) (hs : Situated env s) (h : e.lower env s = .ok t s') :
    ∃ code, s'.code = s.code ++ code ∧ (Code.labels code).Nodup ∧
      (∀ before rest, (Code.labels (before ++ (code ++ rest))).Nodup → ∀ regs w,
        match e.eval P env.symbols (scopeOf env s.bound regs) w with
        | .ok v w' => ∃ regs',
          Reaches P (before ++ (code ++ rest)) (.running (code ++ rest) ⟨regs, [], w⟩)
            (.running rest ⟨regs', [], w'⟩) ∧
          (∀ u : Code.Temp, u.index ≤ s.temps → regs' u = regs u) ∧ regs' t = v
        | .error .halted w' =>
          Reaches P (before ++ (code ++ rest)) (.running (code ++ rest) ⟨regs, [], w⟩)
            (.ended .halted w')
        | .error .undefined _ => False) ∧
      ∀ regs w w', Reaches P code (.running code ⟨regs, [], w⟩) (.ended .halted w') ↔
        e.eval P env.symbols (scopeOf env s.bound regs) w = .error .halted w' := by
  obtain ⟨-, code, ts, em, -, hrun⟩ := Expr.delivers (P := P) e he hs h
  have hr (regs : Registers) (w : World ι) : Realises P s.temps code regs w
      (e.eval P env.symbols (scopeOf env s.bound regs)) (Holds t) := hrun regs w
  refine ⟨code, em.code_eq, em.labels_nodup, fun before rest hd regs w ↦ ?_,
    fun regs w w' ↦ (hr regs w).halts_iff em.labels_nodup⟩
  have ha := hr regs w hd (List.suffix_append before _)
  unfold Arrives at ha
  cases hx : e.eval P env.symbols (scopeOf env s.bound regs) w with
  | ok v w' => rwa [hx] at ha
  | error stop w' =>
    rw [hx] at ha
    cases stop with
    | halted => exact ha
    | undefined => exact ha

def quotient : Expr :=
  let number (n : Int32) : Expr := .mk (.literal (.int n)) .int .notLValue {}
  .mk (.binary .divide
    (.mk (.binary .add (number 1) (number 2)) .int .notLValue {}) (number 0)) .int
    .notLValue {}

theorem quotient_halts :
    ∃ t s', quotient.lower ⟨{}, none⟩ {} = .ok t s' ∧
      Reaches notebook s'.code (.running s'.code ⟨fun _ ↦ 0, [], ⟨fun _ ↦ 0, []⟩⟩)
        (.ended .halted ⟨fun _ ↦ 0, [44]⟩) := by
  have h : ∃ t s', quotient.lower ⟨{}, none⟩ {} = .ok t s' := ⟨_, _, rfl⟩
  obtain ⟨t, s', h⟩ := h
  have hfree : quotient.BindingFree := by simp [quotient, Expr.BindingFree]
  obtain ⟨code, hc, -, -, hhalt⟩ :=
    Expr.lower_realises_eval notebook hfree ⟨by simp, by simp⟩ h
  refine ⟨t, s', h, ?_⟩
  rw [hc]
  exact (hhalt _ _ _).mpr rfl

end ThreeAddress.Checked
