import Mathlib.Data.List.Basic
import ThreeAddress.Proofs.Lowering.Emission

namespace ThreeAddress.Lowering

open Checked Code

inductive Need where
  | receiver
  | variable (v : VarId)
  | declared (v : VarId)
  | method (m : MethodId)
  | result (m : MethodId)
  | classSymbol (c : ClassId)
  | object (type : DataType)
  | printer (type : DataType)
  | loop (inside : Bool)
  | place (kind : LValue)
deriving DecidableEq

inductive Point where
  | declares (v : VarId)
  | needs (n : Need) (span : Span)
deriving DecidableEq

/-- What the needs of a method are held against. -/
structure Context where
  symbols : SymbolTable
  hasReceiver : Bool

namespace Need

/-- Whether a need is met behind the declarations so far. Nothing makes a place of an expression
that is none. -/
def Met (context : Context) (declared : List VarId) : Need → Prop
  | .receiver => context.hasReceiver = true
  | .variable v => (context.symbols.var? v).isSome
  | .declared v => v ∈ declared
  | .method m => (context.symbols.method? m).isSome
  | .result m => ∀ symbol, context.symbols.method? m = some symbol → symbol.returnType ≠ .void
  | .classSymbol c => (context.symbols.class? c).isSome
  | .object type => ∃ c, type = .object c
  | .printer type => type = .int ∨ type = .bool ∨ type = .string
  | .loop inside => inside = true
  | .place _ => False

/-- What is reported where a need is not met. A variable that is not declared is named, if its name
is known. -/
def defect (symbols : SymbolTable) : Need → DefectKind
  | .receiver => .missingReceiver
  | .variable v => .unknownVariable v
  | .declared v =>
    match symbols.var? v with
    | some symbol => .unboundVariable symbol.name
    | none => .unknownVariable v
  | .method m => .unknownMethod m
  | .result _ => .voidValue
  | .classSymbol c => .unknownClass c
  | .object type => .expectedClass type
  | .printer type => .unprintable type
  | .loop _ => .breakOutsideLoop
  | .place kind => .invalidLValue kind

end Need

end ThreeAddress.Lowering

namespace ThreeAddress.Checked

open Lowering

def Call.method : Call → MethodId
  | .mk _ method _ => method

mutual

def Expr.points : Expr → List Point
  | .mk kind _ lvalue span =>
    match kind with
    | .literal _ | .null | .readInteger | .readLine => []
    | .this => [.needs .receiver span]
    | .ident owner symbol =>
      match lvalue with
      | .memberVar => Expr.pointsOwner span owner ++ [.needs (.variable symbol) span]
      | .localVar | .paramVar | .notLValue => [.needs (.declared symbol) span]
      | .arrayElement => [.needs (.place .arrayElement) span]
    | .indexed array index => array.points ++ index.points
    | .call c => c.points span ++ [.needs (.result c.method) span]
    | .arrayLength array => array.points
    | .binary _ left right => left.points ++ right.points
    | .unary _ operand => operand.points
    | .newClass c => [.needs (.classSymbol c) span]
    | .newArray _ length => length.points
    | .instanceOf object c | .cast object c => object.points ++ [.needs (.classSymbol c) span]
    | .shallowCopy source =>
      .needs (.object source.type) source.span :: (source.points ++
        source.type.class?.toList.map fun c => .needs (.classSymbol c) source.span)
    | .newSameArray value count =>
      value.points ++ (count.points ++
        value.type.class?.toList.map fun c => .needs (.classSymbol c) value.span)
    | .defaultIndex array index fallback => array.points ++ (index.points ++ fallback.points)
    | .varBinding symbol => [.declares symbol]

def Expr.pointsOwner (span : Span) : Option Expr → List Point
  | some owner => owner.points
  | none => [.needs .receiver span]

/-- The points of a call, whether or not its result is needed. -/
def Call.points (span : Span) : Call → List Point
  | .mk receiver method args =>
    .needs (.method method) span :: (Expr.pointsOption receiver ++ Expr.pointsAll args)

def Expr.pointsOption : Option Expr → List Point
  | some e => e.points
  | none => []

def Expr.pointsAll : List Expr → List Point
  | [] => []
  | e :: es => e.points ++ Expr.pointsAll es

end

def Expr.pointsEffects (e : Expr) : List Point :=
  match e.kind with
  | .call c => c.points e.span
  | _ => e.points

def Expr.pointsTarget (target : Expr) : List Point :=
  match target.lvalue, target.kind with
  | .arrayElement, .indexed array index => array.points ++ index.points
  | .memberVar, .ident owner symbol =>
    Expr.pointsOwner target.span owner ++ [.needs (.variable symbol) target.span]
  | .localVar, .ident _ symbol | .paramVar, .ident _ symbol =>
    [.needs (.declared symbol) target.span]
  | .localVar, .varBinding symbol => [.declares symbol]
  | kind, _ => [.needs (.place kind) target.span]

def Expr.pointsPrint (e : Expr) : List Point :=
  e.points ++ [.needs (.printer e.type) e.span]

mutual

/-- The points of a statement; `inside` tells whether it lies in the body of a loop. -/
def Stmt.points (inside : Bool) : Stmt → List Point
  | .mk kind span =>
    match kind with
    | .varDef symbol => [.declares symbol]
    | .block statements => Stmt.pointsAll inside statements
    | .exec e => e.pointsEffects
    | .assign target source => source.points ++ target.pointsTarget
    | .cond condition thenBranch elseBranch =>
      condition.points ++ (thenBranch.points inside ++ Stmt.pointsOption inside elseBranch)
    | .whileLoop condition body => condition.points ++ body.points true
    | .forLoop init condition update body =>
      Stmt.pointsOption inside init ++ (Stmt.pointsOption inside update ++
        (condition.points ++ body.points true))
    | .forEach binding array guard body =>
      .declares binding :: (array.points ++ (Expr.pointsOption guard ++ body.points true))
    | .ret value => Expr.pointsOption value
    | .leave => [.needs (.loop inside) span]
    | .print args => args.flatMap Expr.pointsPrint
    | .guarded alternatives last => Branch.pointsAll inside alternatives ++ last.points inside

def Stmt.pointsOption (inside : Bool) : Option Stmt → List Point
  | none => []
  | some s => s.points inside

def Stmt.pointsAll (inside : Bool) : List Stmt → List Point
  | [] => []
  | s :: rest => s.points inside ++ Stmt.pointsAll inside rest

def Branch.points (inside : Bool) : Branch → List Point
  | .mk guard body => guard.points ++ body.points inside

def Branch.pointsAll (inside : Bool) : List Branch → List Point
  | [] => []
  | b :: rest => b.points inside ++ Branch.pointsAll inside rest

end

end ThreeAddress.Checked

namespace ThreeAddress.Lowering

open Checked Code

def Point.declares? : Point → Option VarId
  | .declares v => some v
  | .needs _ _ => none

def declaredAt (points : List Point) : List VarId := points.filterMap Point.declares?

section spec

variable (context : Context) (declared : List VarId)

/-- Every need is met by what was declared before it. -/
def Fulfilled (points : List Point) : Prop :=
  ∀ before n span behind, points = before ++ .needs n span :: behind →
    n.Met context (declared ++ declaredAt before)

/-- The defect is that of the first need that is not met. -/
def FailsFirst (points : List Point) (d : Defect) : Prop :=
  ∃ before n span behind, points = before ++ .needs n span :: behind ∧
    Fulfilled context declared before ∧
    ¬ n.Met context (declared ++ declaredAt before) ∧ d = ⟨n.defect context.symbols, span⟩

end spec

variable {context : Context} {declared : List VarId} {ps qs : List Point}
variable {d d' : Defect}

theorem declaredAt_append : declaredAt (ps ++ qs) = declaredAt ps ++ declaredAt qs :=
  List.filterMap_append

theorem fulfilled_nil : Fulfilled context declared [] := by
  intro before n span behind h
  simp at h

theorem Fulfilled.append (hp : Fulfilled context declared ps)
    (hq : Fulfilled context (declared ++ declaredAt ps) qs) :
    Fulfilled context declared (ps ++ qs) := by
  intro before n span behind h
  rcases List.append_eq_append_iff.mp h with ⟨c, rfl, hc⟩ | ⟨c, rfl, hc⟩
  · have hmet := hq c n span behind hc
    rwa [List.append_assoc, ← declaredAt_append] at hmet
  · cases c with
    | nil =>
      have hmet := hq [] n span behind (by simpa using hc.symm)
      simpa [declaredAt] using hmet
    | cons p c =>
      obtain ⟨rfl, -⟩ := List.cons.inj hc
      exact hp before n span c rfl

theorem fulfilled_declares (v : VarId) : Fulfilled context declared [.declares v] := by
  intro before n span behind h
  have hm : Point.needs n span ∈ [Point.declares v] :=
    h ▸ List.mem_append_right _ List.mem_cons_self
  cases List.mem_singleton.mp hm

theorem fulfilled_needs {n : Need} (span : Span) (h : n.Met context declared) :
    Fulfilled context declared [.needs n span] := by
  intro before n' span' behind hs
  cases before with
  | nil =>
    obtain ⟨⟨rfl, -⟩, -⟩ := by simpa using hs
    simpa [declaredAt] using h
  | cons p before =>
    obtain ⟨-, hs⟩ := List.cons.inj hs
    simp at hs

theorem FailsFirst.append_left (h : FailsFirst context declared ps d) :
    FailsFirst context declared (ps ++ qs) d := by
  obtain ⟨before, n, span, behind, rfl, hf, hn, hd⟩ := h
  exact ⟨before, n, span, behind ++ qs, by simp, hf, hn, hd⟩

theorem FailsFirst.append_right (hp : Fulfilled context declared ps)
    (h : FailsFirst context (declared ++ declaredAt ps) qs d) :
    FailsFirst context declared (ps ++ qs) d := by
  obtain ⟨before, n, span, behind, rfl, hf, hn, hd⟩ := h
  refine ⟨ps ++ before, n, span, behind, by simp, hp.append hf, ?_, hd⟩
  rwa [declaredAt_append, ← List.append_assoc]

theorem failsFirst_needs {n : Need} (span : Span) (h : ¬ n.Met context declared) :
    FailsFirst context declared [.needs n span] ⟨n.defect context.symbols, span⟩ :=
  ⟨[], n, span, [], rfl, fulfilled_nil, by simpa [declaredAt] using h, rfl⟩

theorem FailsFirst.not_fulfilled (h : FailsFirst context declared ps d) :
    ¬ Fulfilled context declared ps := by
  obtain ⟨before, n, span, behind, rfl, -, hn, -⟩ := h
  exact fun hf ↦ hn (hf before n span behind rfl)

theorem FailsFirst.unique (h : FailsFirst context declared ps d)
    (h' : FailsFirst context declared ps d') : d = d' := by
  obtain ⟨before, n, span, behind, rfl, hf, hn, rfl⟩ := h
  obtain ⟨before', n', span', behind', hs, hf', hn', rfl⟩ := h'
  rcases List.append_eq_append_iff.mp hs with ⟨c, rfl, hc⟩ | ⟨c, rfl, hc⟩
  · cases c with
    | nil =>
      obtain ⟨⟨rfl, rfl⟩, -⟩ := by simpa using hc
      rfl
    | cons p c =>
      obtain ⟨rfl, -⟩ := List.cons.inj hc
      exact absurd (hf' before n span c rfl) hn
  · cases c with
    | nil =>
      obtain ⟨⟨rfl, rfl⟩, -⟩ := by simpa using hc
      rfl
    | cons p c =>
      obtain ⟨rfl, -⟩ := List.cons.inj hc
      exact absurd (hf before' n' span' c rfl) hn'

end ThreeAddress.Lowering
