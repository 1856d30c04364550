import ThreeAddress.Proofs.Program.Survey

namespace ThreeAddress.Lowering

open Checked Code Control Machine

variable {symbols : SymbolTable} {m : MethodDef} {f : Function} {g : Generator} {s' : State}
variable {before rest : List Instr} {i : Instr}

theorem lowerMethod_guards (h : lowerMethod symbols m { generator := g } = .ok f s')
    (hf : f.body.toList = before ++ i :: rest) (hi : i.divides) :
    ∃ (guard : Guard) (front : List Instr), guard.Protects i ∧ before = front ++ guard.code ∧
      Sealed f.body.toList front (guard.code ++ [i]) rest ∧ settle 0 f.body.toList = some 0 := by
  obtain ⟨symbol, receiver, s₁, s₂, sites, -, hopen, hv⟩ := lowerMethod_survey h
  have hstart := hopen.code_eq
  have hplace : f.body.toList[before.length]? = some i := by simp [hf]
  obtain ⟨guard, start, hprotects, hlen, hh⟩ := hv.survey.divisions _ i hplace hi
  obtain ⟨front, behind, hs, hfront⟩ := hh.toSealed hv.emission hstart
  have hcut : (front ++ guard.code) ++ i :: behind = before ++ i :: rest := by
    rw [← hf, hs.listing_eq]
    simp
  have hlength : (front ++ guard.code).length = before.length := by
    rw [List.length_append, hfront, hlen, hstart, List.length_nil, Nat.zero_add]
  obtain ⟨hbefore, hrest⟩ := List.append_inj hcut hlength
  obtain rfl := (List.cons.inj hrest).2
  exact ⟨guard, front, hprotects, hbefore.symm, hs, hv.survey.settles⟩

end ThreeAddress.Lowering

namespace ThreeAddress.Checked

open Code Lowering Machine

/-- Wherever a function divides, the divisor has just been tested by a guard whose label is jumped
to from the guard alone. On no platform does a run divide by zero; where the divisor is zero at the
guard, the run prints the message, halts, and does not come to the division. -/
theorem CheckedUnit.lower_divisions_guarded {u : CheckedUnit} {p : Code.Program} {f : Function}
    {before rest : List Instr} {dst left right : Temp} {op : BinaryOp} (h : u.lower = .ok (.ok p))
    (hf : f ∈ p.functions) (hop : op = .divide ∨ op = .modulo)
    (hi : f.body.toList = before ++ .binary dst op left right :: rest) :
    ∃ (g : Guard) (front : List Instr), g.divisor = right ∧ before = front ++ g.code ∧
      (∀ l ∈ labels (g.code ++ [.binary dst op left right]), l ∉ targets front ∧ l ∉ targets rest) ∧
      ∀ {ι : Type} (P : Platform ι) (regs : Registers) (w : World ι),
        Averts P f.body.toList ⟨regs, [], w⟩ g (.binary dst op left right :: rest) := by
  obtain ⟨m, gen, s, hm⟩ := CheckedUnit.lower_of_mem h hf
  have hd : (Instr.binary dst op left right).divides = true := by
    rcases hop with rfl | rfl <;> rfl
  obtain ⟨g, front, hg, hbefore, hs, hsettle⟩ := lowerMethod_guards hm hi hd
  obtain ⟨dst', op', left', he⟩ := hg.right
  obtain ⟨-, -, -, rfl⟩ := Instr.binary.inj he
  exact ⟨g, front, rfl, hbefore, fun l hl ↦ ⟨hs.before_targets l hl, hs.rest_targets l hl⟩,
    fun P regs w ↦ hs.averts hg hsettle⟩

/-- Divides by a remainder, and does so in the condition of a loop. -/
def ratioUnit : CheckedUnit where
  program := ⟨[⟨"Main", ⟨0⟩, [{
    name := "ratio"
    method := ⟨0⟩
    body :=
      let a : Expr := .mk (.ident none ⟨0⟩) .int .paramVar {}
      let b : Expr := .mk (.ident none ⟨1⟩) .int .paramVar {}
      let remainder : Expr := .mk (.binary .modulo a b) .int .notLValue {}
      let quotient : Expr := .mk (.binary .divide a remainder) .int .notLValue {}
      [.mk (.whileLoop quotient (.mk .leave {})) {}]
    span := {} }], {}⟩]⟩
  symbols := {
    methods := #[⟨"ratio", ⟨0⟩, "Main.ratio", 0, .void, true, none, [⟨0⟩, ⟨1⟩]⟩]
    vars := #[⟨"a", .param, .int, 0⟩, ⟨"b", .param, .int, 0⟩] }

def ratioFront : List Instr :=
  [.label ⟨"loop", 1⟩, .string ⟨3⟩ divisionMessage, .constant ⟨4⟩ 0, .binary ⟨5⟩ .equal ⟨2⟩ ⟨4⟩,
    .jumpIfZero ⟨5⟩ ⟨"nonzero", 1⟩, .param ⟨3⟩, .call none "_PrintString", .call none "_Halt",
    .label ⟨"nonzero", 1⟩, .binary ⟨6⟩ .modulo ⟨1⟩ ⟨2⟩, .string ⟨7⟩ divisionMessage,
    .constant ⟨8⟩ 0, .binary ⟨9⟩ .equal ⟨6⟩ ⟨8⟩, .jumpIfZero ⟨9⟩ ⟨"nonzero", 2⟩, .param ⟨7⟩,
    .call none "_PrintString", .call none "_Halt", .label ⟨"nonzero", 2⟩]

def ratioBehind : List Instr :=
  [.jumpIfZero ⟨10⟩ ⟨"loop_exit", 1⟩, .jump ⟨"loop_exit", 1⟩, .jump ⟨"loop", 1⟩,
    .label ⟨"loop_exit", 1⟩]

def ratioFunction : Function where
  name := "Main.ratio"
  params := [⟨1⟩, ⟨2⟩]
  body := (ratioFront ++ .binary ⟨10⟩ .divide ⟨1⟩ ⟨6⟩ :: ratioBehind).toArray

theorem ratioUnit_divisions_guarded :
    ratioUnit.lower = .ok (.ok ⟨[ratioFunction]⟩) ∧
    ∃ (g : Guard) (front : List Instr), g.divisor = ⟨6⟩ ∧ ratioFront = front ++ g.code ∧
      (∀ l ∈ labels (g.code ++ [.binary ⟨10⟩ .divide ⟨1⟩ ⟨6⟩]),
        l ∉ targets front ∧ l ∉ targets ratioBehind) ∧
      ∀ {ι : Type} (P : Platform ι) (regs : Registers) (w : World ι),
        Averts P ratioFunction.body.toList ⟨regs, [], w⟩ g
          (.binary ⟨10⟩ .divide ⟨1⟩ ⟨6⟩ :: ratioBehind) := by
  have h : ratioUnit.lower = .ok (.ok ⟨[ratioFunction]⟩) := by decide +kernel
  exact ⟨h, CheckedUnit.lower_divisions_guarded h List.mem_cons_self (.inl rfl) rfl⟩

end ThreeAddress.Checked
