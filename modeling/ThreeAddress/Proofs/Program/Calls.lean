import ThreeAddress.Proofs.Control.Calls
import ThreeAddress.Proofs.Program.Survey

namespace ThreeAddress.Lowering

open Checked Code

/-- Where a call of a method has a receiver, the method takes one, and conversely; and it has as
many arguments as the method has parameters. -/
def CallSite.Agrees (symbols : SymbolTable) : CallSite → Prop
  | .method receiver m args => ∀ symbol ∈ symbols.method? m,
    receiver.isSome = (receiverOf symbol).isSome ∧ args.length = symbol.params.length
  | .routine _ | .allocator _ => True

instance (symbols : SymbolTable) : (c : CallSite) → Decidable (c.Agrees symbols)
  | .method receiver m args => inferInstanceAs (Decidable (∀ symbol ∈ symbols.method? m,
    receiver.isSome = (receiverOf symbol).isSome ∧ args.length = symbol.params.length))
  | .routine _ | .allocator _ => inferInstanceAs (Decidable True)

/-- The body of a function is that of a method, and the groups in it serve the calls of the method
one by one. -/
structure HandedOver (env : Env) (m : MethodDef) (s : State) (f : Function) (s' : State)
    (groups : List CallGroup) : Prop where
  lowered : Stmt.lowerAll env none m.body s = .ok () s'
  body_eq : f.body.toList = s'.code
  grouped : Grouped [] groups f.body.toList
  served : Accounts (Serves env s s') s.bound.length (Stmt.callsAll m.body) groups s'.bound.length

/-- Each call of a method passes as many parameters as the function of that method takes. -/
def Saturated (functions : List (MethodDef × Function)) (calls : List CallSite)
    (groups : List CallGroup) : Prop :=
  ∀ receiver method args group, (CallSite.method receiver method args, group) ∈ calls.zip groups →
    ∀ m f, (m, f) ∈ functions → m.method = method → group.params.length = f.params.length

variable {symbols : SymbolTable} {m : MethodDef} {f : Function} {g : Generator} {s s' : State}
variable {env : Env} {n : Nat}

theorem lowerAll_length {es : List Expr} {ts : List Temp}
    (h : Expr.lowerAll env es s = .ok ts s') : ts.length = es.length := by
  induction es generalizing s ts with
  | nil =>
    obtain ⟨rfl, -⟩ := pure_ok_iff.mp h
    rfl
  | cons e es ih =>
    obtain ⟨t, s₁, -, h⟩ := bind_ok_iff.mp h
    obtain ⟨us, s₂, hs, h⟩ := bind_ok_iff.mp h
    obtain ⟨rfl, rfl⟩ := pure_ok_iff.mp h
    rw [List.length_cons, List.length_cons, ih hs]

theorem length_toList {α β : Type} {a : Option α} {b : Option β} (h : a.isSome = b.isSome) :
    a.toList.length = b.toList.length := by
  cases a <;> cases b <;> trivial

theorem Serves.length_params {receiver : Option Expr} {m : MethodId} {args : List Expr}
    {group : CallGroup} (h : Serves env s s' n (.method receiver m args) group) :
    group.params.length = receiver.toList.length + args.length := by
  cases h with
  | direct hm hs ha hn hc hs' => exact (lowerAll_length ha).trans (Nat.zero_add _).symm
  | virtual hm hs hr ha hn hc hs' =>
    rw [List.length_cons, lowerAll_length ha, Nat.add_comm]
    rfl

theorem Serves.length_parametersOf {receiver : Option Expr} {m : MethodId} {args : List Expr}
    {symbol : MethodSymbol} {group : CallGroup}
    (h : Serves env s s' n (.method receiver m args) group)
    (ha : (CallSite.method receiver m args).Agrees symbols)
    (hm : symbols.method? m = some symbol) :
    group.params.length = (parametersOf symbol).length := by
  obtain ⟨hr, hlen⟩ := ha symbol hm
  rw [h.length_params, parametersOf, List.length_append, hlen, length_toList hr]

theorem lowerMethod_handsOver (h : lowerMethod symbols m { generator := g } = .ok f s') :
    ∃ symbol receiver s₁ s₂ groups, symbols.method? m.method = some symbol ∧
      Entered g symbol receiver f.params s₁ ∧
      HandedOver ⟨symbols, receiver⟩ m s₁ f s₂ groups := by
  obtain ⟨symbol, receiver, s₁, s₂, hsymbol, hopen, hb, hcode, -, -⟩ := lowerMethod_ok h
  obtain ⟨new, e, groups, hg, hs⟩ := Stmt.handsOverAll none m.body hb
  have hnew : f.body.toList = new := by rw [hcode, e.code_eq, hopen.code_eq, List.nil_append]
  rw [hopen.code_eq, ← hnew] at hg
  exact ⟨symbol, receiver, s₁, s₂, groups, hsymbol, hopen, hb, hcode, hg, hs⟩

end ThreeAddress.Lowering

namespace ThreeAddress.Checked

open Code Lowering

/-- All calls of the program are made as the methods were declared. -/
def CheckedUnit.CallsAgree (u : CheckedUnit) : Prop :=
  ∀ m ∈ methodsOf u.program.classes, ∀ c ∈ things (Stmt.callsAll m.body), c.Agrees u.symbols

instance (u : CheckedUnit) : Decidable u.CallsAgree :=
  inferInstanceAs (Decidable (∀ m ∈ methodsOf u.program.classes,
    ∀ c ∈ things (Stmt.callsAll m.body),
    c.Agrees u.symbols))

/-- In each function, every call stands right behind its parameters, which are those of the call
that the method makes there, and no parameter is passed to nothing. The function takes the receiver
and then the parameters of its method; where all calls are made as the methods were declared, a call
passes as many parameters as the function of its method takes. -/
theorem CheckedUnit.lower_calls_grouped {u : CheckedUnit} {p : Code.Program}
    (h : u.lower = .ok (.ok p)) :
    List.Forall₂ (fun m f ↦ ∃ g t symbol receiver s s' groups,
        lowerMethod u.symbols m { generator := g } = .ok f t ∧
        u.symbols.method? m.method = some symbol ∧ Entered g symbol receiver f.params s ∧
        HandedOver ⟨u.symbols, receiver⟩ m s f s' groups ∧
        (u.CallsAgree → Saturated ((methodsOf u.program.classes).zip p.functions)
          (things (Stmt.callsAll m.body)) groups))
      (methodsOf u.program.classes) p.functions := by
  have hall := u.lower_functions h
  refine List.forall₂_iff_zip.mpr ⟨hall.length_eq, fun {m f} hmem ↦ ?_⟩
  obtain ⟨g, t, hm⟩ := List.forall₂_zip hall hmem
  obtain ⟨symbol, receiver, s, s', groups, hsymbol, hopen, hover⟩ := lowerMethod_handsOver hm
  refine ⟨g, t, symbol, receiver, s, s', groups, hm, hsymbol, hopen, hover, ?_⟩
  intro hagree object method args group hcall m' f' hmem' hmethod
  obtain ⟨g', t', hm'⟩ := List.forall₂_zip hall hmem'
  obtain ⟨symbol', receiver', s₁, s₂, hsymbol', hopen', -⟩ := lowerMethod_ok hm'
  obtain ⟨n, hserved⟩ := List.forall₂_zip hover.served.forall₂_things hcall
  have ha := hagree m (List.of_mem_zip hmem).1 _ (List.of_mem_zip hcall).1
  rw [hmethod] at hsymbol'
  rw [hopen'.length_eq]
  exact hserved.length_parametersOf ha hsymbol'

/-- Calls within calls: the operands of the outer call make an object, copy one, call a method and
compare strings. -/
def relaySymbols : SymbolTable where
  classes := #[⟨"Main", none, 8, "Main", "_Main_New"⟩]
  methods := #[⟨"ask", ⟨0⟩, "Main.ask", 8, .int, false, some ⟨0⟩, [⟨1⟩, ⟨2⟩]⟩,
    ⟨"relay", ⟨0⟩, "Main.relay", 0, .void, true, none, [⟨3⟩, ⟨4⟩]⟩]
  vars := #[⟨"this", .param, .object ⟨0⟩, 0⟩, ⟨"x", .param, .int, 0⟩, ⟨"y", .param, .int, 0⟩,
    ⟨"o", .param, .object ⟨0⟩, 0⟩, ⟨"s", .param, .string, 0⟩]

def ask : MethodDef where
  name := "ask"
  method := ⟨0⟩
  body :=
    let x : Expr := .mk (.ident none ⟨1⟩) .int .paramVar {}
    let y : Expr := .mk (.ident none ⟨2⟩) .int .paramVar {}
    [.mk (.ret (some (.mk (.binary .divide x y) .int .notLValue {}))) {}]
  span := {}

def relay : MethodDef where
  name := "relay"
  method := ⟨1⟩
  body :=
    let o : Expr := .mk (.ident none ⟨3⟩) (.object ⟨0⟩) .paramVar {}
    let s : Expr := .mk (.ident none ⟨4⟩) .string .paramVar {}
    let one : Expr := .mk (.literal (.int 1)) .int .notLValue {}
    let new : Expr := .mk (.newClass ⟨0⟩) (.object ⟨0⟩) .notLValue {}
    let clone : Expr := .mk (.shallowCopy o) (.object ⟨0⟩) .notLValue {}
    let same : Expr := .mk (.binary .equal s s) .bool .notLValue {}
    let inner : Expr := .mk (.call (.mk (some new) ⟨0⟩ [one, one])) .int .notLValue {}
    let outer : Expr := .mk (.call (.mk (some clone) ⟨0⟩ [inner, same])) .int .notLValue {}
    [.mk (.print [outer]) {},
      .mk (.exec (.mk (.call (.mk none ⟨1⟩ [o, s])) .void .notLValue {})) {}]
  span := {}

def relayUnit : CheckedUnit := ⟨⟨[⟨"Main", ⟨0⟩, [ask, relay], {}⟩]⟩, relaySymbols⟩

def relayProgram : Code.Program where
  functions := [
    { name := "Main.ask"
      params := [⟨1⟩, ⟨2⟩, ⟨3⟩]
      body := #[.string ⟨4⟩ divisionMessage, .constant ⟨5⟩ 0, .binary ⟨6⟩ .equal ⟨3⟩ ⟨5⟩,
        .jumpIfZero ⟨6⟩ ⟨"nonzero", 1⟩, .param ⟨4⟩, .call none "_PrintString", .call none "_Halt",
        .label ⟨"nonzero", 1⟩, .binary ⟨7⟩ .divide ⟨2⟩ ⟨3⟩, .ret (some ⟨7⟩)] },
    { name := "Main.relay"
      params := [⟨8⟩, ⟨9⟩]
      body := #[.constant ⟨10⟩ 8, .param ⟨10⟩, .call (some ⟨11⟩) "_Alloc", .load ⟨12⟩ ⟨8⟩ 4,
        .store ⟨12⟩ ⟨11⟩ 4, .vtable ⟨13⟩ "Main", .store ⟨13⟩ ⟨11⟩ 0, .call (some ⟨14⟩) "_Main_New",
        .constant ⟨15⟩ 1, .constant ⟨16⟩ 1, .param ⟨14⟩, .param ⟨15⟩, .param ⟨16⟩,
          .load ⟨17⟩ ⟨14⟩ 0,
        .load ⟨18⟩ ⟨17⟩ 8, .callTemp (some ⟨19⟩) ⟨18⟩, .param ⟨9⟩, .param ⟨9⟩,
        .call (some ⟨20⟩) "_StringEqual", .param ⟨11⟩, .param ⟨19⟩, .param ⟨20⟩, .load ⟨21⟩ ⟨11⟩ 0,
        .load ⟨22⟩ ⟨21⟩ 8, .callTemp (some ⟨23⟩) ⟨22⟩, .param ⟨23⟩, .call none "_PrintInt",
        .param ⟨8⟩, .param ⟨9⟩, .call none "Main.relay"] }]

theorem relayUnit_calls_grouped :
    relayUnit.lower = .ok (.ok relayProgram) ∧ relayUnit.CallsAgree ∧
    List.Forall₂ (fun m f ↦ ∃ g t symbol receiver s s' groups,
        lowerMethod relayUnit.symbols m { generator := g } = .ok f t ∧
        relayUnit.symbols.method? m.method = some symbol ∧
        Entered g symbol receiver f.params s ∧
        HandedOver ⟨relayUnit.symbols, receiver⟩ m s f s' groups ∧
        Saturated ((methodsOf relayUnit.program.classes).zip relayProgram.functions)
          (things (Stmt.callsAll m.body)) groups)
      (methodsOf relayUnit.program.classes) relayProgram.functions := by
  have h : relayUnit.lower = .ok (.ok relayProgram) := by decide +kernel
  have hagree : relayUnit.CallsAgree := by decide +kernel
  refine ⟨h, hagree, (CheckedUnit.lower_calls_grouped h).imp fun m f hm ↦ ?_⟩
  obtain ⟨g, t, symbol, receiver, s, s', groups, hlower, hsymbol, hopen, hover, hsaturated⟩ := hm
  exact ⟨g, t, symbol, receiver, s, s', groups, hlower, hsymbol, hopen, hover, hsaturated hagree⟩

end ThreeAddress.Checked
