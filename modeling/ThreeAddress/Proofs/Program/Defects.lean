import ThreeAddress.Proofs.Lowering.Audit
import ThreeAddress.Proofs.Program.Independence

namespace ThreeAddress.Checked

open Lowering

/-- The points of a method: its symbol, its receiver and parameters, and its body. -/
def MethodDef.points (m : MethodDef) (symbols : SymbolTable) : List Point :=
  .needs (.method m.method) m.span ::
    match symbols.method? m.method with
    | none => []
    | some symbol => (receiverOf symbol).toList.map .declares ++
      (symbol.params.map .declares ++ Stmt.pointsAll false m.body)

def MethodDef.context (m : MethodDef) (symbols : SymbolTable) : Context where
  symbols := symbols
  hasReceiver := ((symbols.method? m.method).bind receiverOf).isSome

def MethodDef.Lowerable (m : MethodDef) (symbols : SymbolTable) : Prop :=
  Fulfilled (m.context symbols) [] (m.points symbols)

/-- The defect is that of the first need of the method that is not met. -/
def MethodDef.FirstDefect (m : MethodDef) (symbols : SymbolTable) (d : Defect) : Prop :=
  FailsFirst (m.context symbols) [] (m.points symbols) d

end ThreeAddress.Checked

namespace ThreeAddress.Lowering

open Checked Code

variable {context : Context}

theorem declareReceiver_audits (symbol : MethodSymbol) :
    Audits context (declareReceiver symbol) ((receiverOf symbol).toList.map .declares)
      fun receiver ↦ receiver.isSome = (receiverOf symbol).isSome := by
  unfold declareReceiver
  cases receiverOf symbol with
  | none => exact .pure rfl
  | some v => exact (Audits.declare v).andThen fun _ _ ↦ .pure rfl

theorem declareParams_audits (vs : List VarId) :
    Audits context (declareParams vs) (vs.map .declares) := by
  induction vs with
  | nil => exact .pure trivial
  | cons v vs ih => exact (Audits.declare v).bind fun _ _ ↦ ih.andThen fun _ _ ↦ .pure trivial

theorem lowerMethod_audits (symbols : SymbolTable) (m : MethodDef) :
    Audits (m.context symbols) (lowerMethod symbols m) (m.points symbols) := by
  unfold lowerMethod MethodDef.points
  rw [Env.findMethod_eq]
  show Audits _ (lookUp (symbols.method? m.method) _ _ >>= _) _
  cases hm : symbols.method? m.method with
  | none =>
    have hn (declared : List VarId) :
        ¬ Need.Met (m.context symbols) declared (.method m.method) := by
      simp [Need.Met, MethodDef.context, hm]
    exact Audits.andThen (Q := fun _ ↦ False) (.reject hn rfl) fun _ h ↦ h.elim
  | some symbol =>
    refine .met (fun _ ↦ by simp [Need.Met, MethodDef.context, hm]) ?_
    refine Audits.before (x := pure symbol) (.pure rfl) fun _ h ↦ ?_
    subst h
    refine Audits.before (Q := fun _ ↦ True) (.step fun _ ↦ trivial) fun _ _ ↦ ?_
    refine (declareReceiver_audits symbol).bind fun receiver hr ↦
      (declareParams_audits symbol.params).bind fun params _ ↦
      .before (Q := fun _ ↦ True) (.step fun _ ↦ trivial) fun _ _ ↦ ?_
    have hcontext : m.context symbols = Env.context ⟨symbols, receiver⟩ := by
      simp [MethodDef.context, Env.context, hm, hr]
    rw [hcontext]
    exact (Stmt.auditsAll none m.body).andThen fun _ _ ↦ .step fun _ ↦ trivial

/-- After any methods, and whatever became of them, a method can be lowered exactly if its needs are
met, and its defect is that of the first need that is not met. -/
theorem lowerMethod_reports_first_unmet (symbols : SymbolTable) (earlier : List MethodDef)
    (m : MethodDef) :
    ((∃ f s, lowerMethod symbols m { generator := generatorBehind symbols earlier } = .ok f s) ↔
      m.Lowerable symbols) ∧
    ∀ d, (∃ s, lowerMethod symbols m { generator := generatorBehind symbols earlier } =
      .error (.defect d) s) ↔ m.FirstDefect symbols d := by
  have ha := lowerMethod_audits symbols m { generator := generatorBehind symbols earlier }
  have hs := lowerMethod_safe symbols m (settled_generatorBehind symbols earlier)
  cases hr : lowerMethod symbols m { generator := generatorBehind symbols earlier } with
  | ok f s =>
    rw [hr] at ha
    obtain ⟨-, hful, -⟩ := ha
    refine ⟨⟨fun _ ↦ hful, fun _ ↦ ⟨f, s, rfl⟩⟩, fun d ↦ ⟨fun ⟨_, h⟩ ↦ ?_, fun h ↦ ?_⟩⟩
    · cases h
    · exact (h.not_fulfilled hful).elim
  | error e s =>
    rw [hr] at ha hs
    cases e with
    | fault f => exact hs.elim
    | defect d =>
      refine ⟨⟨fun ⟨_, _, h⟩ ↦ ?_, fun h ↦ (ha.not_fulfilled h).elim⟩, fun d' ↦ ⟨fun ⟨_, h⟩ ↦ ?_,
        fun h ↦ ?_⟩⟩
      · cases h
      · cases h
        exact ha
      · obtain rfl := ha.unique h
        exact ⟨s, rfl⟩

end ThreeAddress.Lowering
