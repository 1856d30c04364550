import ThreeAddress.Code.Instr

namespace ThreeAddress.Code

def Instr.isSilent : Instr → Bool
  | .param _ | .call _ _ | .callTemp _ _ => false
  | _ => true

/-- What is called: code with a name, or an entry of the virtual table of an object, which is looked
up by way of two temporaries. -/
inductive Callee where
  | named (name : String)
  | entry (object vtable method : Temp) (offset : Int32)

/-- The call itself. An entry is looked up when all parameters have been passed. -/
def Callee.code (dst : Option Temp) : Callee → List Instr
  | .named name => [.call dst name]
  | .entry object vtable method offset =>
    [.load vtable object 0, .load method vtable offset, .callTemp dst method]

/-- A call of a listing and the code in front of its first parameter. -/
structure CallGroup where
  before : List Instr
  params : List Temp
  callee : Callee
  dst : Option Temp

def CallGroup.code (g : CallGroup) : List Instr := g.params.map .param ++ g.callee.code g.dst

/-- Behind `before` the code consists of the groups, with silent code around them. So the parameters
passed since the last call are those of the next one, and none are left over. -/
inductive Grouped : List Instr → List CallGroup → List Instr → Prop
  | done {before code : List Instr} (h : code.all Instr.isSilent) : Grouped before [] code
  | call {before gap code : List Instr} {g : CallGroup} {groups : List CallGroup}
      (h : gap.all Instr.isSilent) (hb : g.before = before ++ gap)
      (rest : Grouped (g.before ++ g.code) groups code) :
      Grouped before (g :: groups) (gap ++ (g.code ++ code))

namespace Grouped

variable {before gap code code₁ code₂ : List Instr} {groups groups₁ groups₂ : List CallGroup}

theorem skip (h : gap.all Instr.isSilent) (hg : Grouped (before ++ gap) groups code) :
    Grouped before groups (gap ++ code) := by
  cases hg with
  | done hc =>
    apply done
    rw [List.all_append, h, hc]
    rfl
  | call hgap hb rest =>
    rw [← List.append_assoc]
    apply call
    · rw [List.all_append, h, hgap]
      rfl
    · rw [hb, List.append_assoc]
    · exact rest

theorem append (h₁ : Grouped before groups₁ code₁) (h₂ : Grouped (before ++ code₁) groups₂ code₂) :
    Grouped before (groups₁ ++ groups₂) (code₁ ++ code₂) := by
  induction h₁ with
  | done h => exact skip h h₂
  | call h hb rest ih =>
    rw [List.cons_append, List.append_assoc, List.append_assoc]
    refine .call h hb (ih ?_)
    rwa [hb, List.append_assoc, List.append_assoc]

end Grouped

end ThreeAddress.Code
