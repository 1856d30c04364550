import ThreeAddress.Proofs.Lowering.Echo
import ThreeAddress.Proofs.Program.Independence

namespace ThreeAddress.Lowering

open Checked Code

theorem declareReceiver_echo (symbol : MethodSymbol) :
    Echoes id (declareReceiver symbol) (declareReceiver symbol.bare) := by
  have hreceiver : receiverOf symbol.bare = receiverOf symbol := rfl
  unfold declareReceiver
  rw [hreceiver]
  split
  · exact (Echoes.declare _).bind fun t ↦ .pure (some t)
  · exact .pure none

theorem declareParams_echo : (vs : List VarId) → Echoes id (declareParams vs) (declareParams vs)
  | [] => .pure []
  | v :: vs => (Echoes.declare v).bind fun t ↦ (declareParams_echo vs).bind fun ts ↦ .pure (t :: ts)

theorem lowerMethod_echo (symbols : SymbolTable) (m : MethodDef) :
    Echoes id (lowerMethod symbols m) (lowerMethod symbols.bare m.bare) :=
  (@Echoes.findMethod ⟨symbols, none⟩ _ m.method).bind fun symbol ↦
    (Echoes.step (r := id) fun _ _ ↦ ⟨_, rfl⟩).bind fun _ ↦
    (declareReceiver_echo symbol).bind fun receiver ↦
    (declareParams_echo symbol.params).bind fun _ ↦
    (Echoes.step (r := id) fun _ _ ↦ ⟨_, rfl⟩).bind fun _ ↦
    (@Stmt.echoAll ⟨symbols, receiver⟩ none m.body).bind fun _ ↦
    .step fun _ _ ↦ ⟨_, rfl⟩

/-- What a run without annotations has come to, where one with them has come to `done`. -/
structure Progress.Echoed (done done' : Progress) : Prop where
  generator_eq : ∃ log, done'.generator = { done.generator with log }
  functions_eq : done'.functions = done.functions
  defects_eq : done'.defects = done.defects.map Defect.bare

namespace Progress.Echoed

variable {done done' next : Progress} {symbols : SymbolTable}

theorem note (h : done.Echoed done') (event event' : Event) :
    Echoed { done with generator := done.generator.note event }
      { done' with generator := done'.generator.note event' } where
  generator_eq := by
    obtain ⟨log, hlog⟩ := h.generator_eq
    exact ⟨event' :: log, by rw [hlog]; rfl⟩
  functions_eq := h.functions_eq
  defects_eq := h.defects_eq

theorem addMethod (c : ClassDef) (m : MethodDef) (h : done.Echoed done')
    (hnext : done.addMethod symbols c m = .ok next) :
    ∃ next', done'.addMethod symbols.bare c.bare m.bare = .ok next' ∧ next.Echoed next' := by
  obtain ⟨log, hlog⟩ := h.generator_eq
  obtain ⟨log', hm⟩ := lowerMethod_echo symbols m { generator := done.generator } log
  have hstart : State.logged { generator := done.generator } log =
    { generator := done'.generator } :=
    by rw [hlog]; rfl
  rw [hstart] at hm
  unfold Progress.addMethod at hnext ⊢
  cases hr : lowerMethod symbols m { generator := done.generator } with
  | ok f s =>
    rw [hr] at hm hnext
    cases hnext
    rw [hm]
    exact ⟨_, rfl, ⟨log', rfl⟩, congrArg (· ++ [f]) h.functions_eq, h.defects_eq⟩
  | error e s =>
    rw [hr] at hm hnext
    cases e with
    | fault f => cases hnext
    | defect d =>
      cases hnext
      rw [hm]
      exact ⟨_, rfl, ⟨_, rfl⟩, h.functions_eq, by simp [h.defects_eq]⟩

/-- Two runs over lists that correspond keep to each other if every step does. -/
theorem foldlM {α : Type} {r : α → α} {f g : Progress → α → Except Fault Progress}
    (hstep : ∀ {done done' next} a, done.Echoed done' → f done a = .ok next →
      ∃ next', g done' (r a) = .ok next' ∧ next.Echoed next')
    (as : List α) (h : done.Echoed done') (hrun : as.foldlM f done = .ok next) :
    ∃ next', (as.map r).foldlM g done' = .ok next' ∧ next.Echoed next' := by
  induction as generalizing done done' with
  | nil =>
    cases hrun
    exact ⟨done', rfl, h⟩
  | cons a as ih =>
    rw [List.foldlM_cons] at hrun
    obtain ⟨mid, hmid, hrest⟩ := bind_eq_ok hrun
    obtain ⟨mid', hmid', hm⟩ := hstep a h hmid
    obtain ⟨next', hnext', hn⟩ := ih hm hrest
    refine ⟨next', ?_, hn⟩
    rw [List.map_cons, List.foldlM_cons, hmid']
    exact hnext'

theorem addClass (c : ClassDef) (h : done.Echoed done')
    (hnext : done.addClass symbols c = .ok next) :
    ∃ next', done'.addClass symbols.bare c.bare = .ok next' ∧ next.Echoed next' :=
  foldlM (addMethod c) c.methods (h.note _ _) hnext

end Progress.Echoed

end ThreeAddress.Lowering

namespace ThreeAddress.Checked

open Lowering

/-- Without its annotations a unit comes to the same program, or to the same defects without their
annotations. -/
theorem CheckedUnit.lower_bare (u : CheckedUnit) :
    (∃ p, u.lower = .ok (.ok p) ∧ u.bare.lower = .ok (.ok p)) ∨
    ∃ ds, u.lower = .ok (.error ds) ∧ u.bare.lower = .ok (.error (ds.map Defect.bare)) := by
  obtain ⟨done, h⟩ := lowerClasses_ok u.symbols u.program.classes
  obtain ⟨done', h', he⟩ := Progress.Echoed.foldlM (g := Progress.addClass u.symbols.bare)
    Progress.Echoed.addClass u.program.classes ⟨⟨[], rfl⟩, rfl, rfl⟩ h
  have hu : u.lower = .ok done.outcome := by rw [CheckedUnit.lower, h]; rfl
  have hb : u.bare.lower = .ok done'.outcome := by
    rw [CheckedUnit.lower]
    exact congrArg (Except.map Progress.outcome) h'
  unfold Progress.outcome at hu hb
  rw [he.defects_eq, he.functions_eq, List.isEmpty_map] at hb
  by_cases hd : done.defects.isEmpty
  · rw [if_pos hd] at hu hb
    exact .inl ⟨_, hu, hb⟩
  · rw [if_neg hd] at hu hb
    exact .inr ⟨_, hu, hb⟩

theorem forall₂_kind_of_map_bare_eq {ds es : List Defect}
    (h : ds.map Defect.bare = es.map Defect.bare) :
    List.Forall₂ (fun d e ↦ d.kind.bare = e.kind.bare) ds es := by
  rw [← List.forall₂_eq_eq_eq, List.forall₂_map_left_iff, List.forall₂_map_right_iff] at h
  exact h.imp fun _ _ hde ↦ congrArg Defect.kind hde

/-- Units that differ in their annotations only can both be lowered, to the same program, or neither
can, and then their defects are of the same kinds in the same order. -/
theorem CheckedUnit.lower_of_bare_eq {u v : CheckedUnit} (h : u.bare = v.bare) :
    (∃ p, u.lower = .ok (.ok p) ∧ v.lower = .ok (.ok p)) ∨
    ∃ ds es, u.lower = .ok (.error ds) ∧ v.lower = .ok (.error es) ∧
      List.Forall₂ (fun d e ↦ d.kind.bare = e.kind.bare) ds es := by
  obtain ⟨p, hu, hp⟩ | ⟨ds, hu, hds⟩ := u.lower_bare
  · obtain ⟨q, hv, hq⟩ | ⟨es, hv, hes⟩ := v.lower_bare
    · rw [h, hq] at hp
      cases hp
      exact .inl ⟨p, hu, hv⟩
    · rw [h, hes] at hp
      cases hp
  · obtain ⟨q, hv, hq⟩ | ⟨es, hv, hes⟩ := v.lower_bare
    · rw [h, hq] at hds
      cases hds
    · rw [h, hes] at hds
      have hmap : ds.map Defect.bare = es.map Defect.bare :=
        (Except.error.inj (Except.ok.inj hds)).symm
      exact .inr ⟨ds, es, hu, hv, forall₂_kind_of_map_bare_eq hmap⟩

/-- A method that makes an array, prints its length and returns a variable, with annotations of
one's choice. -/
def annotatedUnit (returned : VarId) (name : String) (span : Span) (type : DataType) (c : ClassId)
    (kind : VarKind) : CheckedUnit where
  program := ⟨[⟨name, c, [{
    name := name
    method := ⟨0⟩
    body :=
      let length : Expr := .mk (.ident none ⟨0⟩) type .paramVar span
      let array : Expr := .mk (.ident none ⟨1⟩) type .localVar span
      [.mk (.assign (.mk (.varBinding ⟨1⟩) type .localVar span)
          (.mk (.newArray type length) type .notLValue span)) span,
        .mk (.print [.mk (.arrayLength array) .int .notLValue span]) span,
        .mk (.ret (some (.mk (.ident none returned) type .localVar span))) span]
    span := span }], span⟩]⟩
  symbols := {
    methods := #[⟨name, c, "Main.fill", 0, type, true, none, [⟨0⟩]⟩]
    vars := #[⟨name, kind, type, 0⟩, ⟨name, kind, type, 0⟩, ⟨name, kind, type, 0⟩] }

def annotatedProgram : Code.Program where
  functions := [{
    name := "Main.fill"
    params := [⟨1⟩]
    body := #[.newArray ⟨2⟩ ⟨1⟩, .copy ⟨3⟩ ⟨2⟩, .load ⟨4⟩ ⟨3⟩ (-4), .param ⟨4⟩,
      .call none "_PrintInt", .ret (some ⟨3⟩)] }]

theorem annotatedUnit_bare (returned : VarId) :
    (annotatedUnit returned "main" {} .int ⟨0⟩ .param).bare =
      (annotatedUnit returned "other" ⟨7, 9⟩ (.array .bool) ⟨5⟩ .field).bare := by
  simp only [CheckedUnit.bare, annotatedUnit, SymbolTable.bare, List.map_toArray]
  rfl

/-- The annotations can all be different, in a unit that can be lowered and in one that cannot. -/
theorem annotatedUnit_lower :
    ((annotatedUnit ⟨1⟩ "main" {} .int ⟨0⟩ .param).lower = .ok (.ok annotatedProgram) ∧
      (annotatedUnit ⟨1⟩ "other" ⟨7, 9⟩ (.array .bool) ⟨5⟩ .field).lower =
        .ok (.ok annotatedProgram)) ∧
    ∃ ds es, (annotatedUnit ⟨2⟩ "main" {} .int ⟨0⟩ .param).lower = .ok (.error ds) ∧
      (annotatedUnit ⟨2⟩ "other" ⟨7, 9⟩ (.array .bool) ⟨5⟩ .field).lower = .ok (.error es) ∧
      List.Forall₂ (fun d e ↦ d.kind.bare = e.kind.bare) ds es ∧
      ds.map Defect.diagnostic ≠ es.map Defect.diagnostic := by
  have hu : (annotatedUnit ⟨1⟩ "main" {} .int ⟨0⟩ .param).lower = .ok (.ok annotatedProgram) := by
    decide +kernel
  have hd : (annotatedUnit ⟨2⟩ "main" {} .int ⟨0⟩ .param).lower =
      .ok (.error [⟨.unboundVariable "main", {}⟩]) := by decide +kernel
  have he : (annotatedUnit ⟨2⟩ "other" ⟨7, 9⟩ (.array .bool) ⟨5⟩ .field).lower =
      .ok (.error [⟨.unboundVariable "other", ⟨7, 9⟩⟩]) := by decide +kernel
  obtain ⟨p, hp, hv⟩ | ⟨ds, es, hds, -⟩ := CheckedUnit.lower_of_bare_eq (annotatedUnit_bare ⟨1⟩)
  · obtain ⟨q, hq, -⟩ | ⟨ds, es, hds, hes, h⟩ :=
      CheckedUnit.lower_of_bare_eq (annotatedUnit_bare ⟨2⟩)
    · rw [hd] at hq
      cases hq
    · rw [hu] at hp
      cases hp
      refine ⟨⟨hu, hv⟩, ds, es, hds, hes, h, ?_⟩
      rw [hd] at hds
      rw [he] at hes
      cases hds
      cases hes
      decide
  · rw [hu] at hds
    cases hds

end ThreeAddress.Checked
