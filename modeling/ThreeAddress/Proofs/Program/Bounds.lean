import ThreeAddress.Proofs.Program.Survey

namespace ThreeAddress.Lowering

open Checked Code Control Machine

variable {symbols : SymbolTable} {m : MethodDef} {f : Function} {g : Generator} {s' : State}

/-- The body of a function is that of a method. Every access that the method makes has its site in
the body, one behind the other, and no run gets there with an address outside of the array. -/
structure Bounded (env : Env) (m : MethodDef) (s : State) (f : Function) (s' : State)
    (sites : List Site) : Prop where
  lowered : Stmt.lowerAll env none m.body s = .ok () s'
  body_eq : f.body.toList = s'.code
  stands : Accounts (Stands env s s') s.bound.length (Stmt.accessesAll m.body) sites s'.bound.length
  ascending : sites.Pairwise fun site later ↦ site.place < later.place
  inBounds : ∀ site ∈ sites, site.InBounds f.body.toList

theorem lowerMethod_bounded (h : lowerMethod symbols m { generator := g } = .ok f s') :
    ∃ symbol receiver s₁ s₂ sites, symbols.method? m.method = some symbol ∧
      Entered g symbol receiver f.params s₁ ∧ Bounded ⟨symbols, receiver⟩ m s₁ f s₂ sites := by
  obtain ⟨symbol, receiver, s₁, s₂, sites, hsymbol, hopen, hs⟩ := lowerMethod_survey h
  refine ⟨symbol, receiver, s₁, s₂, sites, hsymbol, hopen, hs.lowered, hs.body_eq, hs.stands,
    hs.survey.ascending, fun site hm ↦ ?_⟩
  obtain ⟨code, hguarded, hhoused⟩ := hs.survey.guarded site hm
  obtain ⟨before, rest, hsealed, hlen⟩ := hhoused.toSealed hs.emission hopen.code_eq
  exact hguarded.inBounds hsealed hlen

end ThreeAddress.Lowering

namespace ThreeAddress.Checked

open Code Control Lowering

/-- In each function there is a place for every access that the method makes, one behind the other,
where the value of the array is that of the operand, and no run gets there with an address outside
of the array. -/
theorem CheckedUnit.lower_accesses_inBounds {u : CheckedUnit} {p : Code.Program}
    (h : u.lower = .ok (.ok p)) :
    List.Forall₂ (fun m f ↦ ∃ g t symbol receiver s s' sites,
        lowerMethod u.symbols m { generator := g } = .ok f t ∧
        u.symbols.method? m.method = some symbol ∧ Entered g symbol receiver f.params s ∧
        Bounded ⟨u.symbols, receiver⟩ m s f s' sites)
      (methodsOf u.program.classes) p.functions := by
  refine (u.lower_functions h).imp fun m f hm ↦ ?_
  obtain ⟨g, t, hm⟩ := hm
  obtain ⟨symbol, receiver, s, s', sites, hsymbol, hopen, hbounded⟩ := lowerMethod_bounded hm
  exact ⟨g, t, symbol, receiver, s, s', sites, hm, hsymbol, hopen, hbounded⟩

/-- Accesses of all kinds: the array, the index and the element are assigned to on the way. -/
def tour : MethodDef where
  name := "tour"
  method := ⟨0⟩
  body :=
    let a : Expr := .mk (.ident none ⟨0⟩) (.array .int) .paramVar {}
    let i : Expr := .mk (.ident none ⟨1⟩) .int .paramVar {}
    let x : Expr := .mk (.ident none ⟨2⟩) .int .localVar {}
    let element : Expr := .mk (.indexed a i) .int .arrayElement {}
    [.mk (.forEach ⟨2⟩ a none (.mk (.block [
        .mk (.assign i (.mk (.defaultIndex a x i) .int .notLValue {})) {},
        .mk (.assign a (.mk (.newSameArray x i) (.array .int) .notLValue {})) {},
        .mk (.assign x element) {},
        .mk (.assign element x) {},
        .mk .leave {}]) {})) {}]
  span := {}

def tourUnit : CheckedUnit where
  program := ⟨[⟨"Main", ⟨0⟩, [tour], {}⟩]⟩
  symbols := {
    methods := #[⟨"tour", ⟨0⟩, "Main.tour", 0, .void, true, none, [⟨0⟩, ⟨1⟩]⟩]
    vars := #[⟨"a", .param, .array .int, 0⟩, ⟨"i", .param, .int, 0⟩, ⟨"x", .localVar, .int, 0⟩] }

def tourProgram : Code.Program where
  functions := [{
    name := "Main.tour"
    params := [⟨1⟩, ⟨2⟩]
    body := #[.constant ⟨4⟩ 4, .constant ⟨5⟩ 1, .copy ⟨6⟩ ⟨1⟩, .load ⟨7⟩ ⟨1⟩ (-4), .constant ⟨8⟩ 0,
      .label ⟨"loop", 1⟩, .binary ⟨9⟩ .less ⟨8⟩ ⟨7⟩, .binary ⟨10⟩ .add ⟨8⟩ ⟨5⟩, .copy ⟨8⟩ ⟨10⟩,
      .jumpIfZero ⟨9⟩ ⟨"loop_exit", 1⟩, .load ⟨11⟩ ⟨6⟩ 0, .copy ⟨3⟩ ⟨11⟩, .binary ⟨12⟩ .add ⟨6⟩ ⟨4⟩,
      .copy ⟨6⟩ ⟨12⟩, .load ⟨13⟩ ⟨1⟩ (-4), .binary ⟨15⟩ .less ⟨3⟩ ⟨13⟩,
      .jumpIfZero ⟨15⟩ ⟨"use_default", 1⟩, .constant ⟨16⟩ 0, .binary ⟨17⟩ .less ⟨3⟩ ⟨16⟩,
      .jumpIfZero ⟨17⟩ ⟨"in_bounds", 1⟩, .label ⟨"use_default", 1⟩, .copy ⟨14⟩ ⟨2⟩,
      .jump ⟨"default_end", 1⟩, .label ⟨"in_bounds", 1⟩, .constant ⟨18⟩ 4,
      .binary ⟨19⟩ .multiply ⟨3⟩ ⟨18⟩, .binary ⟨20⟩ .add ⟨1⟩ ⟨19⟩, .load ⟨21⟩ ⟨20⟩ 0,
      .copy ⟨14⟩ ⟨21⟩, .label ⟨"default_end", 1⟩, .copy ⟨2⟩ ⟨14⟩, .newArray ⟨22⟩ ⟨2⟩,
      .constant ⟨23⟩ 4, .constant ⟨24⟩ 1, .constant ⟨25⟩ 0, .copy ⟨26⟩ ⟨22⟩, .label ⟨"fill", 1⟩,
      .binary ⟨27⟩ .less ⟨25⟩ ⟨2⟩, .jumpIfZero ⟨27⟩ ⟨"fill_end", 1⟩, .store ⟨3⟩ ⟨26⟩ 0,
      .binary ⟨28⟩ .add ⟨26⟩ ⟨23⟩, .copy ⟨26⟩ ⟨28⟩, .binary ⟨29⟩ .add ⟨25⟩ ⟨24⟩, .copy ⟨25⟩ ⟨29⟩,
      .jump ⟨"fill", 1⟩, .label ⟨"fill_end", 1⟩, .copy ⟨1⟩ ⟨22⟩, .checkBounds ⟨1⟩ ⟨2⟩,
      .constant ⟨30⟩ 4, .binary ⟨31⟩ .multiply ⟨2⟩ ⟨30⟩, .binary ⟨32⟩ .add ⟨1⟩ ⟨31⟩,
      .load ⟨33⟩ ⟨32⟩ 0, .copy ⟨3⟩ ⟨33⟩, .checkBounds ⟨1⟩ ⟨2⟩, .constant ⟨34⟩ 4,
      .binary ⟨35⟩ .multiply ⟨2⟩ ⟨34⟩, .binary ⟨36⟩ .add ⟨1⟩ ⟨35⟩, .store ⟨3⟩ ⟨36⟩ 0,
      .jump ⟨"loop_exit", 1⟩, .jump ⟨"loop", 1⟩, .label ⟨"loop_exit", 1⟩] }]

theorem tourUnit_accesses_inBounds :
    tourUnit.lower = .ok (.ok tourProgram) ∧ (things (Stmt.accessesAll tour.body)).length = 5 ∧
    List.Forall₂ (fun m f ↦ ∃ g t symbol receiver s s' sites,
        lowerMethod tourUnit.symbols m { generator := g } = .ok f t ∧
        tourUnit.symbols.method? m.method = some symbol ∧
        Entered g symbol receiver f.params s ∧
        Bounded ⟨tourUnit.symbols, receiver⟩ m s f s' sites)
      [tour] tourProgram.functions := by
  have h : tourUnit.lower = .ok (.ok tourProgram) := by decide +kernel
  exact ⟨h, rfl, CheckedUnit.lower_accesses_inBounds h⟩

end ThreeAddress.Checked
