import ThreeAddress.Proofs.Code.Labels

namespace ThreeAddress.Code

namespace Instr

def dst? : Instr → Option Temp
  | copy dst _ | binary dst _ _ _ | unary dst _ _ | constant dst _ | string dst _ | vtable dst _
  | load dst _ _ | newArray dst _ | instanceOf dst _ _ => some dst
  | call dst _ | callTemp dst _ => dst
  | store _ _ _ | param _ | jump _ | jumpIfZero _ _ | label _ | ret _ | checkClass _ _
  | checkBounds _ _ => none

def reads : Instr → List Temp
  | copy _ t | unary _ _ t | load _ t _ | param t | callTemp _ t | jumpIfZero t _ | newArray _ t
  | instanceOf _ t _ | checkClass t _ => [t]
  | binary _ _ t u | store t u _ | checkBounds t u => [t, u]
  | ret t => t.toList
  | constant _ _ | string _ _ | vtable _ _ | call _ _ | jump _ | label _ => []

def temps (i : Instr) : List Temp := i.dst?.toList ++ i.reads

def copied? : Instr → Option Temp
  | copy dst _ => some dst
  | _ => none

/-- The temporary that an instruction other than a copy writes. -/
def result? : Instr → Option Temp
  | copy _ _ => none
  | i => i.dst?

/-- A plain instruction other than a copy that writes one temporary or none and reads those
listed. -/
structure Yields (i : Instr) (dst : Option Temp) (reads : List Temp) : Prop where
  isPlain : i.isPlain
  copied?_eq : i.copied? = none
  dst?_eq : i.dst? = dst
  reads_eq : i.reads = reads

namespace Yields

variable {i : Instr} {dst : Option Temp} {us : List Temp}

theorem label?_eq (h : i.Yields dst us) : i.label? = none := label?_of_isPlain h.isPlain

theorem target?_eq (h : i.Yields dst us) : i.target? = none := target?_of_isPlain h.isPlain

theorem temps_eq (h : i.Yields dst us) : i.temps = dst.toList ++ us := by
  rw [temps, h.dst?_eq, h.reads_eq]

theorem result?_eq (h : i.Yields dst us) : i.result? = dst := by
  cases i with
  | copy => cases h.copied?_eq
  | _ => exact h.dst?_eq

end Yields

end Instr

/-- How far numbers are raised: those of temporaries, and those of labels per stem. -/
structure Offsets where
  temps : Nat := 0
  labels : String → Nat := fun _ ↦ 0

def Temp.shift (o : Offsets) (t : Temp) : Temp := ⟨t.index + o.temps⟩

def Label.shift (o : Offsets) (l : Label) : Label := ⟨l.stem, l.number + o.labels l.stem⟩

def Instr.shift (o : Offsets) : Instr → Instr
  | copy dst src => copy (dst.shift o) (src.shift o)
  | binary dst op left right => binary (dst.shift o) op (left.shift o) (right.shift o)
  | unary dst op src => unary (dst.shift o) op (src.shift o)
  | constant dst value => constant (dst.shift o) value
  | string dst value => string (dst.shift o) value
  | vtable dst name => vtable (dst.shift o) name
  | load dst base offset => load (dst.shift o) (base.shift o) offset
  | store src base offset => store (src.shift o) (base.shift o) offset
  | param value => param (value.shift o)
  | call dst callee => call (dst.map (Temp.shift o)) callee
  | callTemp dst callee => callTemp (dst.map (Temp.shift o)) (callee.shift o)
  | jump target => jump (target.shift o)
  | jumpIfZero value target => jumpIfZero (value.shift o) (target.shift o)
  | label l => label (l.shift o)
  | ret value => ret (value.map (Temp.shift o))
  | newArray dst length => newArray (dst.shift o) (length.shift o)
  | instanceOf dst object table => instanceOf (dst.shift o) (object.shift o) table
  | checkClass object table => checkClass (object.shift o) table
  | checkBounds array index => checkBounds (array.shift o) (index.shift o)

def Function.shift (o : Offsets) (f : Function) : Function where
  name := f.name
  params := f.params.map (Temp.shift o)
  body := f.body.map (Instr.shift o)

variable {o : Offsets}

theorem Label.shift_injective : Function.Injective (Label.shift o) := by
  intro l l' h
  cases l
  cases l'
  simp only [Label.shift, Label.mk.injEq] at h ⊢
  obtain ⟨rfl, hn⟩ := h
  exact ⟨rfl, by omega⟩

theorem Temp.shift_zero : Temp.shift {} = id := rfl

theorem Instr.shift_zero (i : Instr) : i.shift {} = i := by
  cases i <;> simp only [Instr.shift, Temp.shift_zero, Option.map_id, id_eq] <;> rfl

theorem Function.shift_zero (f : Function) : f.shift {} = f := by
  have hb : f.body.map (Instr.shift {}) = f.body := by
    rw [show Instr.shift {} = id from funext Instr.shift_zero, Array.map_id]
  rw [Function.shift, hb, Temp.shift_zero, List.map_id]

end ThreeAddress.Code
