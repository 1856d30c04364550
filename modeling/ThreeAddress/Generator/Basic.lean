import ThreeAddress.Code.Function
import ThreeAddress.Code.Routine

namespace ThreeAddress

open Checked (DataType)
open Code

/-- Something worth a line in the log. -/
inductive Event where
  | labelIssued (l : Label)
  | functionOpened (name : String)
  | functionClosed (name : String) (length : Nat)
  | appended (i : Instr)
  | noted (message : String)
deriving DecidableEq

/-- The generator's state. `temps` counts the temporaries issued, `labels` the labels issued per
stem, and `log` holds the latest event first. -/
structure Generator where
  temps : Nat := 0
  labels : List (String × Nat) := []
  placed : List Label := []
  pending : Nat := 0
  current : Function := {}
  log : List Event := []
deriving DecidableEq

namespace Generator

def note (g : Generator) (event : Event) : Generator :=
  { g with log := event :: g.log }

def freshTemp (g : Generator) : Temp × Generator :=
  (⟨g.temps + 1⟩, { g with temps := g.temps + 1 })

def issued (g : Generator) (stem : String) : Nat :=
  (g.labels.lookup stem).getD 0

def countUp (stem : String) : List (String × Nat) → List (String × Nat)
  | [] => [(stem, 1)]
  | (s, n) :: rest => if s = stem then (s, n + 1) :: rest else (s, n) :: countUp stem rest

/-- The labels of a stem are numbered from 1, apart from those of other stems. -/
def freshLabel (g : Generator) (stem : String) : Label × Generator :=
  let l : Label := ⟨stem, g.issued stem + 1⟩
  (l, { g with labels := countUp stem g.labels }.note (.labelIssued l))

/-- Starts a function; the code of an unfinished one is dropped. -/
def openFunction (g : Generator) (name : String) (params : List Temp) : Generator :=
  { g with current := { name := name, params := params }, pending := 0 }.note (.functionOpened name)

def closeFunction (g : Generator) : Function × Generator :=
  let f := g.current
  (f, { g with current := {} }.note (.functionClosed f.name f.body.size))

def append (g : Generator) (i : Instr) : Generator :=
  { g with current := { g.current with body := g.current.body.push i } }.note (.appended i)

def compute (g : Generator) (instr : Temp → Instr) : Temp × Generator :=
  let (t, g) := g.freshTemp
  (t, g.append (instr t))

def pass (g : Generator) (t : Temp) : Generator :=
  { g with pending := g.pending + 1 }.append (.param t)

def resultTemp (g : Generator) (type : DataType) : Option Temp × Generator :=
  if type.isVoid then (none, g)
  else
    let (t, g) := g.freshTemp
    (some t, g)

/-- Appends a call, which takes all pending parameters. -/
def call (g : Generator) (instr : Option Temp → Instr) (type : DataType) :
    Option Temp × Generator :=
  let (dst, g) := { g with pending := 0 }.resultTemp type
  (dst, g.append (instr dst))

/-- Calls a routine, which has to get as many parameters as it takes. -/
def callRoutine (g : Generator) (r : Routine) : Except Fault (Option Temp × Generator) :=
  if g.pending = r.arity then .ok (g.call (.call · r.name) r.result)
  else .error (.wrongArity r.name r.arity g.pending)

/-- Binds a label to the current position, at most once in a run. -/
def place (g : Generator) (l : Label) : Except Fault Generator :=
  if l ∈ g.placed then .error (.placedTwice l)
  else .ok ({ g with placed := l :: g.placed }.append (.label l))

end Generator

end ThreeAddress
