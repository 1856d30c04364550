import ThreeAddress.Proofs.Checked.Hierarchy
import ThreeAddress.Proofs.Lowering.Emission
import ThreeAddress.Proofs.Machine.Basic

namespace ThreeAddress.Machine

open Checked Code Lowering

variable {ι : Type} {P : Platform ι} {symbols : SymbolTable} {w : World ι} {v : Word}
variable {type : DataType} {c d k : ClassId}

/-- Tells the class of the object at an address, if there is one. -/
abbrev Classifier (ι : Type) := World ι → Word → Option ClassId

variable {classOf : Classifier ι}

/-- An object whose static type is below a class is of that class or of one that descends from it.
-/
def Truthful (symbols : SymbolTable) (classOf : Classifier ι) (w : World ι) (v : Word)
    (type : DataType) : Prop :=
  ∀ k d, symbols.Below type (.object k) → classOf w v = some d → symbols.Descends d k

/-- A platform that halts in a check unless the class of the object descends from the one named. -/
def Checks (P : Platform ι) (symbols : SymbolTable) (classOf : Classifier ι) (vtable : String)
    (k : ClassId) : Prop :=
  ∀ w v d, classOf w v = some d → ¬ symbols.Descends d k →
    ∃ w', P.serve (.checkClass vtable) [v] w = .halted w'

theorem truthful_object_iff : Truthful symbols classOf w v (.object c) ↔
    ∀ d, classOf w v = some d → symbols.Descends d c := by
  constructor
  · exact fun h d hd ↦ h c d .refl hd
  · intro h k d hb hd
    obtain ⟨p, hp, hc⟩ := hb.of_object
    cases hp
    exact (h d hd).trans hc

theorem step_checkClass {t : Temp} {vtable : String} {listing rest : List Instr} {σ : Store ι}
    (hc : Checks P symbols classOf vtable k) (hd : classOf σ.world (σ.regs t) = some d)
    (hk : ¬ symbols.Descends d k) :
    ∃ w', step P listing (.running ([.checkClass t vtable] ++ rest) σ) =
      some (.ended .halted w') := by
  obtain ⟨w', hw⟩ := hc _ _ d hd hk
  refine ⟨w', ?_⟩
  simp only [List.singleton_append, step, effect, hw, Store.receive]

end ThreeAddress.Machine

namespace ThreeAddress.Checked

open Code Lowering Machine

/-- What a cast is lowered to: the code of the operand, whose temporary is the result, and a check
exactly where the type of the operand is not below the class. -/
theorem Expr.lower_cast_ok {env : Env} {object : Expr} {k : ClassId} {type : DataType}
    {lvalue : LValue} {span : Span} {s s' : State} {t : Temp}
    (h : (Expr.mk (.cast object k) type lvalue span).lower env s = .ok t s') :
    ∃ symbol s₁ check, env.symbols.class? k = some symbol ∧ object.lower env s = .ok t s₁ ∧
      Emission s₁ s' check [] ∧
      (¬ env.symbols.Below object.type (.object k) ∧ check = [.checkClass t symbol.vtable] ∨
        env.symbols.Below object.type (.object k) ∧ check = []) := by
  rw [Expr.lower] at h
  simp only [bind_ok_iff] at h
  obtain ⟨a, s₁, ha, symbol, s₂, hc, h⟩ := h
  obtain ⟨hsymbol, rfl⟩ := Env.findClass_ok hc
  split at h
  · rename_i hcheck
    obtain ⟨_, s₃, hi, hr⟩ := bind_ok_iff.mp h
    obtain ⟨rfl, rfl⟩ := pure_ok_iff.mp hr
    refine ⟨symbol, s₂, _, hsymbol, ha, append_ok rfl hi, .inl ⟨?_, rfl⟩⟩
    rw [← SymbolTable.assignable_iff]
    simpa using hcheck
  · rename_i hcheck
    obtain ⟨rfl, rfl⟩ := pure_ok_iff.mp h
    refine ⟨symbol, s₂, _, hsymbol, ha, .refl s₂, .inr ⟨?_, rfl⟩⟩
    rw [← SymbolTable.assignable_iff]
    simpa using hcheck

/-- The types that need no check form the least preorder with null below every class and a class
below its parent. A cast to a class leaves its operand where it is and checks it unless the static
type is below the class. So an object whose class does not descend from the class of the cast does
not get past it: the next step halts. -/
theorem SymbolTable.assignable_least_casts_sound (symbols : SymbolTable) :
    (∀ x y, symbols.assignable x y = true ↔ Relation.ReflTransGen symbols.Widens x y) ∧
    ∀ (receiver : Option Temp) (object : Expr) (k : ClassId) (type : DataType) (lvalue : LValue)
      (span : Span) (s s' : State) (t : Temp),
      (Expr.mk (.cast object k) type lvalue span).lower ⟨symbols, receiver⟩ s = .ok t s' →
      ∃ symbol s₁ check, symbols.class? k = some symbol ∧
        object.lower ⟨symbols, receiver⟩ s = .ok t s₁ ∧ Emission s₁ s' check [] ∧
        (¬ Relation.ReflTransGen symbols.Widens object.type (.object k) ∧
            check = [.checkClass t symbol.vtable] ∨
          Relation.ReflTransGen symbols.Widens object.type (.object k) ∧ check = []) ∧
        ∀ (ι : Type) (P : Platform ι) (classOf : Classifier ι),
          Checks P symbols classOf symbol.vtable k →
          ∀ (listing rest : List Instr) (σ : Store ι) (d : ClassId),
            Truthful symbols classOf σ.world (σ.regs t) object.type →
            classOf σ.world (σ.regs t) = some d → ¬ symbols.Descends d k →
            ∃ w, step P listing (.running (check ++ rest) σ) = some (.ended .halted w) := by
  refine ⟨fun x y ↦ SymbolTable.assignable_iff,
    fun receiver object k type lvalue span s s' t h ↦ ?_⟩
  obtain ⟨symbol, s₁, check, hsymbol, ho, he, hb⟩ := Expr.lower_cast_ok h
  refine ⟨symbol, s₁, check, hsymbol, ho, he, hb, fun ι P classOf hP listing rest σ d ht hd hk ↦ ?_⟩
  rcases hb with ⟨-, rfl⟩ | ⟨hb, rfl⟩
  · exact step_checkClass hP hd hk
  · exact absurd (ht k d hb hd) hk

def ringTable : SymbolTable where
  classes := #[⟨"Even", some ⟨1⟩, 4, "Even", "_Even_New"⟩, ⟨"Odd", some ⟨0⟩, 4, "Odd", "_Odd_New"⟩,
    ⟨"Prime", some ⟨1⟩, 4, "Prime", "_Prime_New"⟩]

/-- A platform on which the first word of an object tells its class: 1 for the first one in the
table, 2 for the second one and so on. -/
def ringPlatform : Platform Unit where
  serve service args w :=
    if service = .call Routine.halt.name ∨
        service = .checkClass "Prime" ∧ args.map w.heap ≠ [3] then .halted w
    else .returned 0 w
  stringAt _ := 0
  tableAt _ := 0
  outOfRange w := w
  halts _ w := ⟨w, if_pos (.inl rfl)⟩

def ringClass : Classifier Unit := fun w v ↦
  if w.heap v = 1 then some ⟨0⟩
  else if w.heap v = 2 then some ⟨1⟩
  else if w.heap v = 3 then some ⟨2⟩
  else none

def ringCast : Expr :=
  .mk (.cast (.mk .this (.object ⟨0⟩) .notLValue {}) ⟨2⟩) (.object ⟨2⟩) .notLValue {}

theorem ringPlatform_checks : Checks ringPlatform ringTable ringClass "Prime" ⟨2⟩ := by
  intro w v d hd hk
  refine ⟨w, if_pos (.inr ⟨rfl, fun h ↦ hk ?_⟩)⟩
  have hv : w.heap v = 3 := by simpa using h
  have hd' : some (⟨2⟩ : ClassId) = some d := by simpa [ringClass, hv] using hd
  cases hd'
  exact .refl

theorem ringCast_halts :
    ∃ s' w, ringCast.lower ⟨ringTable, some ⟨1⟩⟩ {} = .ok ⟨1⟩ s' ∧
      s'.code = [.checkClass ⟨1⟩ "Prime"] ∧
      step ringPlatform s'.code (.running s'.code ⟨fun _ ↦ 8, [], ⟨fun _ ↦ 1, ()⟩⟩) =
        some (.ended .halted w) := by
  have hlower : ∃ s', ringCast.lower ⟨ringTable, some ⟨1⟩⟩ {} = .ok ⟨1⟩ s' := ⟨_, rfl⟩
  obtain ⟨s', hlower⟩ := hlower
  obtain ⟨symbol, s₁, check, hsymbol, ho, he, hcheck, hrun⟩ :=
    (SymbolTable.assignable_least_casts_sound ringTable).2 _ _ _ _ _ _ _ _ _ hlower
  cases hsymbol
  cases ho
  have hbelow : ¬ Relation.ReflTransGen ringTable.Widens (.object ⟨0⟩) (.object ⟨2⟩) :=
    fun h ↦ absurd (SymbolTable.assignable_iff.mpr h) (by decide)
  obtain ⟨-, rfl⟩ := hcheck.resolve_right fun h ↦ hbelow h.1
  have htruth : Truthful ringTable ringClass ⟨fun _ ↦ 1, ()⟩ 8 (.object ⟨0⟩) := by
    refine truthful_object_iff.mpr fun d hd ↦ ?_
    cases hd
    exact .refl
  obtain ⟨w, hw⟩ := hrun Unit ringPlatform ringClass ringPlatform_checks s'.code []
    ⟨fun _ ↦ 8, [], ⟨fun _ ↦ 1, ()⟩⟩ ⟨0⟩ htruth rfl
    fun h ↦ absurd (SymbolTable.derives_iff.mpr h) (by decide)
  have hcode : s'.code = [.checkClass ⟨1⟩ "Prime"] := he.code_eq
  exact ⟨s', w, hlower, hcode, by rw [hcode] at hw ⊢; exact hw⟩

end ThreeAddress.Checked
