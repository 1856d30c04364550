import Mathlib.Logic.Function.Basic
import Mathlib.Logic.Relation
import ThreeAddress.Code.Routine
import ThreeAddress.Proofs.Code.Shift

namespace ThreeAddress.Machine

open Checked (BinaryOp UnaryOp)
open Code

abbrev Word := Int32

structure World (ι : Type) where
  heap : Word → Word
  io : ι

/-- What code asks of the platform. -/
inductive Service where
  | call (name : String)
  | callAt (address : Word)
  | newArray
  | instanceOf (vtable : String)
  | checkClass (vtable : String)
deriving DecidableEq

inductive Reply (ι : Type) where
  | returned (value : Word) (w : World ι)
  | halted (w : World ι)

/-- Services are functions of their parameters, the memory and the state of input and output. The
routine that halts does not return. -/
structure Platform (ι : Type) where
  serve : Service → List Word → World ι → Reply ι
  stringAt : String → Word
  tableAt : String → Word
  outOfRange : World ι → World ι
  halts : ∀ args w, ∃ w', serve (.call Routine.halt.name) args w = .halted w'

def notebook : Platform (List Word) where
  serve service args w :=
    if service = .call Routine.halt.name then .halted w
    else .returned 0 { w with io := w.io ++ args }
  stringAt text := .ofNat text.length
  tableAt _ := 0
  outOfRange w := w
  halts _ w := ⟨w, if_pos rfl⟩

def truth (p : Prop) [Decidable p] : Word := if p then 1 else 0

def binary : BinaryOp → Word → Word → Word
  | .add, a, b => a + b
  | .subtract, a, b => a - b
  | .multiply, a, b => a * b
  | .divide, a, b => a / b
  | .modulo, a, b => a % b
  | .less, a, b => truth (a < b)
  | .lessEqual, a, b => truth (a ≤ b)
  | .greater, a, b => truth (b < a)
  | .greaterEqual, a, b => truth (b ≤ a)
  | .equal, a, b => truth (a = b)
  | .notEqual, a, b => truth (a ≠ b)
  | .and, a, b => truth (a ≠ 0 ∧ b ≠ 0)
  | .or, a, b => truth (a ≠ 0 ∨ b ≠ 0)

def unary : UnaryOp → Word → Word
  | .negate, a => -a
  | .not, a => truth (a = 0)

/-- An index is in range of an array if it is below the word in front of the first element. -/
def InRange {ι : Type} (w : World ι) (array index : Word) : Prop :=
  0 ≤ index ∧ index < w.heap (array + -wordSize)

instance {ι : Type} (w : World ι) (array index : Word) : Decidable (InRange w array index) :=
  inferInstanceAs (Decidable (_ ∧ _))

abbrev Registers := Temp → Word

/-- The parameters are those passed since the last call. -/
structure Store (ι : Type) where
  regs : Registers
  params : List Word
  world : World ι

def World.write {ι : Type} (w : World ι) (address value : Word) : World ι :=
  { w with heap := Function.update w.heap address value }

/-- How a run ends: behind the last instruction, with a return, or by halting. -/
inductive Ending where
  | fellOff
  | returned (value : Option Word)
  | halted

inductive Effect (ι : Type) where
  | next (σ : Store ι)
  | jump (target : Label) (σ : Store ι)
  | stop (e : Ending) (w : World ι)

namespace Store

variable {ι : Type}

def set (σ : Store ι) (dst : Temp) (value : Word) : Store ι :=
  { σ with regs := Function.update σ.regs dst value }

/-- Takes an answer of the platform; `params` are the parameters that are left. -/
def receive (σ : Store ι) (params : List Word) (dst : Option Temp) : Reply ι → Effect ι
  | .returned value w => .next ⟨dst.elim σ.regs (Function.update σ.regs · value), params, w⟩
  | .halted w => .stop .halted w

end Store

variable {ι : Type} (P : Platform ι)

def effect (σ : Store ι) : Instr → Effect ι
  | .copy dst src => .next (σ.set dst (σ.regs src))
  | .binary dst op left right => .next (σ.set dst (binary op (σ.regs left) (σ.regs right)))
  | .unary dst op src => .next (σ.set dst (unary op (σ.regs src)))
  | .constant dst value => .next (σ.set dst value)
  | .string dst value => .next (σ.set dst (P.stringAt value))
  | .vtable dst name => .next (σ.set dst (P.tableAt name))
  | .load dst base offset => .next (σ.set dst (σ.world.heap (σ.regs base + offset)))
  | .store src base offset =>
    .next { σ with world := σ.world.write (σ.regs base + offset) (σ.regs src) }
  | .param value => .next { σ with params := σ.params ++ [σ.regs value] }
  | .call dst callee => σ.receive [] dst (P.serve (.call callee) σ.params σ.world)
  | .callTemp dst callee =>
    σ.receive [] dst (P.serve (.callAt (σ.regs callee)) σ.params σ.world)
  | .jump target => .jump target σ
  | .jumpIfZero value target => if σ.regs value = 0 then .jump target σ else .next σ
  | .label _ => .next σ
  | .ret value => .stop (.returned (value.map σ.regs)) σ.world
  | .newArray dst length =>
    σ.receive σ.params dst (P.serve .newArray [σ.regs length] σ.world)
  | .instanceOf dst object table =>
    σ.receive σ.params dst (P.serve (.instanceOf table) [σ.regs object] σ.world)
  | .checkClass object table =>
    σ.receive σ.params none (P.serve (.checkClass table) [σ.regs object] σ.world)
  | .checkBounds array index =>
    if InRange σ.world (σ.regs array) (σ.regs index) then .next σ
    else .stop .halted (P.outOfRange σ.world)

/-- A run in progress has code left; what has ended has only the world left. -/
inductive Config (ι : Type) where
  | running (rest : List Instr) (σ : Store ι)
  | ended (e : Ending) (w : World ι)

/-- One step in a listing. A jump to a label that is nowhere placed gets stuck. -/
def step (listing : List Instr) : Config ι → Option (Config ι)
  | .running [] σ => some (.ended .fellOff σ.world)
  | .running (i :: rest) σ =>
    match effect P σ i with
    | .next σ' => some (.running rest σ')
    | .jump l σ' => (behind l listing).map (.running · σ')
    | .stop e w => some (.ended e w)
  | .ended _ _ => none

def Reaches (listing : List Instr) : Config ι → Config ι → Prop :=
  Relation.ReflTransGen fun c c' ↦ step P listing c = some c'

variable {P} {listing code rest : List Instr} {σ σ' : Store ι} {c : Config ι} {e e' : Ending}
variable {w w' : World ι} {l : Label} {i : Instr}

namespace Reaches

theorem refl (c : Config ι) : Reaches P listing c c := Relation.ReflTransGen.refl

theorem trans {c₁ c₂ c₃ : Config ι} (h₁ : Reaches P listing c₁ c₂) (h₂ : Reaches P listing c₂ c₃) :
    Reaches P listing c₁ c₃ := Relation.ReflTransGen.trans h₁ h₂

theorem next (h : effect P σ i = .next σ') (hr : Reaches P listing (.running rest σ') c) :
    Reaches P listing (.running (i :: rest) σ) c :=
  .head (by simp only [step, h]) hr

theorem jump {found : List Instr} (h : effect P σ i = .jump l σ')
    (hl : behind l listing = some found)
    (hr : Reaches P listing (.running found σ') c) :
    Reaches P listing (.running (i :: rest) σ) c :=
  .head (by simp only [step, h, hl, Option.map_some]) hr

theorem stop (h : effect P σ i = .stop e w) :
    Reaches P listing (.running (i :: rest) σ) (.ended e w) :=
  .single (by simp only [step, h])

theorem fellOff : Reaches P listing (.running [] σ) (.ended .fellOff σ.world) := .single rfl

theorem ended_unique (h : Reaches P listing c (.ended e w))
    (h' : Reaches P listing c (.ended e' w')) :
    e = e' ∧ w = w' := by
  have hstuck {d : Config ι} {e : Ending} {w : World ι} (h : Reaches P listing (.ended e w) d) :
      d = .ended e w := by
    rcases Relation.ReflTransGen.cases_head h with rfl | ⟨b, hb, -⟩
    · rfl
    · cases hb
  have hunique : Relator.RightUnique fun c c' : Config ι ↦ step P listing c = some c' :=
    fun _ _ _ h₁ h₂ ↦ Option.some.inj (h₁.symm.trans h₂)
  rcases Relation.ReflTransGen.total_of_right_unique hunique h h' with hd | hd
  · cases hstuck hd
    exact ⟨rfl, rfl⟩
  · cases hstuck hd
    exact ⟨rfl, rfl⟩

end Reaches

variable (P) in
/-- Runs code up to its end or to the first instruction that leaves it. -/
def exec (σ : Store ι) : List Instr → Effect ι
  | [] => .next σ
  | i :: code =>
    match effect P σ i with
    | .next σ' => exec σ' code
    | .jump l σ' => .jump l σ'
    | .stop e w => .stop e w

theorem exec_cons (h : effect P σ i = .next σ') : exec P σ (i :: code) = exec P σ' code := by
  rw [exec, h]

theorem Reaches.of_exec_next (h : exec P σ code = .next σ') (rest : List Instr) :
    Reaches P listing (.running (code ++ rest) σ) (.running rest σ') := by
  induction code generalizing σ with
  | nil =>
    cases h
    exact .refl _
  | cons i code ih =>
    unfold exec at h
    cases he : effect P σ i with
    | next σ₁ =>
      rw [he] at h
      exact .next he (ih h)
    | jump l σ₁ =>
      rw [he] at h
      cases h
    | stop e w =>
      rw [he] at h
      cases h

theorem Reaches.of_exec_stop (h : exec P σ code = .stop e w) (rest : List Instr) :
    Reaches P listing (.running (code ++ rest) σ) (.ended e w) := by
  induction code generalizing σ with
  | nil => cases h
  | cons i code ih =>
    unfold exec at h
    cases he : effect P σ i with
    | next σ₁ =>
      rw [he] at h
      exact .next he (ih h)
    | jump l σ₁ =>
      rw [he] at h
      cases h
    | stop e' w' =>
      rw [he] at h
      cases h
      exact .stop he

theorem Reaches.of_exec_jump {found : List Instr} (h : exec P σ code = .jump l σ')
    (hl : behind l listing = some found) (rest : List Instr) :
    Reaches P listing (.running (code ++ rest) σ) (.running found σ') := by
  induction code generalizing σ with
  | nil => cases h
  | cons i code ih =>
    unfold exec at h
    cases he : effect P σ i with
    | next σ₁ =>
      rw [he] at h
      exact .next he (ih h)
    | jump l' σ₁ =>
      rw [he] at h
      cases h
      exact .jump he hl (.refl _)
    | stop e w =>
      rw [he] at h
      cases h

end ThreeAddress.Machine
