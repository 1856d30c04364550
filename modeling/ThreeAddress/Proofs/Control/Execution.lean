import ThreeAddress.Proofs.Control.Outline
import ThreeAddress.Proofs.Machine.Evaluation

namespace ThreeAddress.Control

open Code Lowering Machine

variable {ι : Type}

/-- How a statement comes to an end: behind its last part, with a jump out of the innermost loop
around it, or together with the whole run. -/
inductive Outcome (ι : Type) where
  | normal (σ : Store ι)
  | broke (σ : Store ι)
  | ended (e : Ending) (w : World ι)

namespace Outcome

def Abrupt : Outcome ι → Prop
  | normal _ => False
  | broke _ | ended _ _ => True

/-- A jump out of a loop is a normal end of the loop. -/
def ofLoop : Outcome ι → Outcome ι
  | broke σ => normal σ
  | out => out

def ending? : Outcome ι → Option (Ending × World ι)
  | normal σ => some (.fellOff, σ.world)
  | broke _ => none
  | ended e w => some (e, w)

end Outcome

/-- What is there to be executed: a statement, the turns of a loop, or the rounds of a loop over the
array at `base` from number `k` on. -/
inductive Task where
  | whole (o : Outline)
  | turns (test : Segment) (update body : Outline)
  | rounds (loop : Each) (guard : Option Segment) (body : Outline) (base length : Word) (k : Nat)

variable (P : Platform ι)

/-- Code on its own runs up to its end. -/
def RunsThrough (code : List Instr) (σ σ' : Store ι) : Prop :=
  Reaches P code (.running code σ) (.running [] σ')

def HaltsIn (code : List Instr) (σ : Store ι) (w : World ι) : Prop :=
  Reaches P code (.running code σ) (.ended .halted w)

theorem RunsThrough.of_exec {P : Platform ι} {code : List Instr} {σ σ' : Store ι}
    (h : exec P σ code = .next σ') : RunsThrough P code σ σ' := by
  have hr : Reaches P code (.running (code ++ []) σ) (.running [] σ') := .of_exec_next h []
  rwa [List.append_nil] at hr

/-- A guard that is not there lets every element pass. -/
def Passes (σ σ' : Store ι) : Option Segment → Prop
  | none => σ' = σ
  | some guard => RunsThrough P guard.code σ σ' ∧ σ'.regs guard.value ≠ 0

def Each.bind (loop : Each) (base : Word) (k : Nat) (σ : Store ι) : Store ι :=
  σ.set loop.element (σ.world.heap (Eval.elementAt base (.ofNat k)))

inductive Executes : Task → Store ι → Outcome ι → Prop
  | skip {σ : Store ι} : Executes (.whole .skip) σ (.normal σ)
  | leaf {code : List Instr} {σ σ' : Store ι} (h : RunsThrough P code σ σ') :
      Executes (.whole (.leaf code)) σ (.normal σ')
  | leafHalts {code : List Instr} {σ : Store ι} {w : World ι} (h : HaltsIn P code σ w) :
      Executes (.whole (.leaf code)) σ (.ended .halted w)
  | seq {first rest : Outline} {σ σ₁ : Store ι} {out : Outcome ι}
      (hf : Executes (.whole first) σ (.normal σ₁)) (hr : Executes (.whole rest) σ₁ out) :
      Executes (.whole (.seq first rest)) σ out
  | seqAbrupt {first rest : Outline} {σ : Store ι} {out : Outcome ι}
      (hf : Executes (.whole first) σ out) (ho : out.Abrupt) :
      Executes (.whole (.seq first rest)) σ out
  -- one branch at most is run
  | whenHolds {test : Segment} {done : Label} {body : Outline} {σ σ₁ : Store ι} {out : Outcome ι}
      (ht : RunsThrough P test.code σ σ₁) (hv : σ₁.regs test.value ≠ 0)
      (hb : Executes (.whole body) σ₁ out) : Executes (.whole (.when test done body)) σ out
  | whenFails {test : Segment} {done : Label} {body : Outline} {σ σ₁ : Store ι}
      (ht : RunsThrough P test.code σ σ₁) (hv : σ₁.regs test.value = 0) :
      Executes (.whole (.when test done body)) σ (.normal σ₁)
  | whenHalts {test : Segment} {done : Label} {body : Outline} {σ : Store ι} {w : World ι}
      (ht : HaltsIn P test.code σ w) : Executes (.whole (.when test done body)) σ (.ended .halted w)
  | chooseYes {test : Segment} {otherwise done : Label} {yes no : Outline} {σ σ₁ : Store ι}
      {out : Outcome ι} (ht : RunsThrough P test.code σ σ₁) (hv : σ₁.regs test.value ≠ 0)
      (hy : Executes (.whole yes) σ₁ out) :
      Executes (.whole (.choose test otherwise done yes no)) σ out
  | chooseNo {test : Segment} {otherwise done : Label} {yes no : Outline} {σ σ₁ : Store ι}
      {out : Outcome ι} (ht : RunsThrough P test.code σ σ₁) (hv : σ₁.regs test.value = 0)
      (hn : Executes (.whole no) σ₁ out) :
      Executes (.whole (.choose test otherwise done yes no)) σ out
  | chooseHalts {test : Segment} {otherwise done : Label} {yes no : Outline} {σ : Store ι}
      {w : World ι} (ht : HaltsIn P test.code σ w) :
      Executes (.whole (.choose test otherwise done yes no)) σ (.ended .halted w)
  | whileLoop {again exit : Label} {test : Segment} {body : Outline} {σ : Store ι} {out : Outcome ι}
      (hl : Executes (.turns test .skip body) σ out) :
      Executes (.whole (.whileLoop again exit test body)) σ out
  | forLoop {check again exit : Label} {test : Segment} {update body : Outline} {σ : Store ι}
      {out : Outcome ι} (hl : Executes (.turns test update body) σ out) :
      Executes (.whole (.forLoop check again exit test update body)) σ out
  -- test, body and update take turns, and a jump in the update leaves the loop around this one
  | turnsAgain {test : Segment} {update body : Outline} {σ σ₁ σ₂ σ₃ : Store ι} {out : Outcome ι}
      (ht : RunsThrough P test.code σ σ₁) (hv : σ₁.regs test.value ≠ 0)
      (hb : Executes (.whole body) σ₁ (.normal σ₂)) (hu : Executes (.whole update) σ₂ (.normal σ₃))
      (hl : Executes (.turns test update body) σ₃ out) : Executes (.turns test update body) σ out
  | turnsFail {test : Segment} {update body : Outline} {σ σ₁ : Store ι}
      (ht : RunsThrough P test.code σ σ₁) (hv : σ₁.regs test.value = 0) :
      Executes (.turns test update body) σ (.normal σ₁)
  | turnsAbrupt {test : Segment} {update body : Outline} {σ σ₁ : Store ι} {out : Outcome ι}
      (ht : RunsThrough P test.code σ σ₁) (hv : σ₁.regs test.value ≠ 0)
      (hb : Executes (.whole body) σ₁ out) (ho : out.Abrupt) :
      Executes (.turns test update body) σ out.ofLoop
  | updateAbrupt {test : Segment} {update body : Outline} {σ σ₁ σ₂ : Store ι} {out : Outcome ι}
      (ht : RunsThrough P test.code σ σ₁) (hv : σ₁.regs test.value ≠ 0)
      (hb : Executes (.whole body) σ₁ (.normal σ₂)) (hu : Executes (.whole update) σ₂ out)
      (ho : out.Abrupt) : Executes (.turns test update body) σ out
  | turnsHalt {test : Segment} {update body : Outline} {σ : Store ι} {w : World ι}
      (ht : HaltsIn P test.code σ w) : Executes (.turns test update body) σ (.ended .halted w)
  -- the array is evaluated once, and its length is read once
  | forEach {loop : Each} {array : Segment} {guard : Option Segment} {body : Outline}
      {σ σ₁ : Store ι} {out : Outcome ι} (ha : RunsThrough P array.code σ σ₁)
      (hr : Executes (.rounds loop guard body (σ₁.regs array.value)
        (σ₁.world.heap (σ₁.regs array.value + lengthOffset)) 0) σ₁ out) :
      Executes (.whole (.forEach loop array guard body)) σ out
  | forEachHalts {loop : Each} {array : Segment} {guard : Option Segment} {body : Outline}
      {σ : Store ι} {w : World ι} (ha : HaltsIn P array.code σ w) :
      Executes (.whole (.forEach loop array guard body)) σ (.ended .halted w)
  | roundsDone {loop : Each} {guard : Option Segment} {body : Outline}
      {base length : Word} {k : Nat}
      {σ : Store ι} (hk : length.toInt ≤ k) :
      Executes (.rounds loop guard body base length k) σ (.normal σ)
  | roundsAgain {loop : Each} {guard : Option Segment} {body : Outline} {base length : Word}
      {k : Nat} {σ σ₁ σ₂ : Store ι} {out : Outcome ι} (hk : k < length.toInt)
      (hg : Passes P (loop.bind base k σ) σ₁ guard) (hb : Executes (.whole body) σ₁ (.normal σ₂))
      (hr : Executes (.rounds loop guard body base length (k + 1)) σ₂ out) :
      Executes (.rounds loop guard body base length k) σ out
  | roundsAbrupt {loop : Each} {guard : Option Segment} {body : Outline} {base length : Word}
      {k : Nat} {σ σ₁ : Store ι} {out : Outcome ι} (hk : k < length.toInt)
      (hg : Passes P (loop.bind base k σ) σ₁ guard) (hb : Executes (.whole body) σ₁ out)
      (ho : out.Abrupt) : Executes (.rounds loop guard body base length k) σ out.ofLoop
  | roundsFail {loop : Each} {guard : Segment} {body : Outline} {base length : Word} {k : Nat}
      {σ σ₁ : Store ι} (hk : k < length.toInt)
      (hg : RunsThrough P guard.code (loop.bind base k σ) σ₁) (hv : σ₁.regs guard.value = 0) :
      Executes (.rounds loop (some guard) body base length k) σ (.normal σ₁)
  | roundsHalt {loop : Each} {guard : Segment} {body : Outline} {base length : Word} {k : Nat}
      {σ : Store ι} {w : World ι} (hk : k < length.toInt)
      (hg : HaltsIn P guard.code (loop.bind base k σ) w) :
      Executes (.rounds loop (some guard) body base length k) σ (.ended .halted w)
  | ret {σ : Store ι} : Executes (.whole (.ret none)) σ (.ended (.returned none) σ.world)
  | retValue {value : Segment} {σ σ₁ : Store ι} (hv : RunsThrough P value.code σ σ₁) :
      Executes (.whole (.ret (some value))) σ
        (.ended (.returned (some (σ₁.regs value.value))) σ₁.world)
  | retHalts {value : Segment} {σ : Store ι} {w : World ι} (hv : HaltsIn P value.code σ w) :
      Executes (.whole (.ret (some value))) σ (.ended .halted w)
  | leave {target : Label} {σ : Store ι} : Executes (.whole (.leave target)) σ (.broke σ)

end ThreeAddress.Control
