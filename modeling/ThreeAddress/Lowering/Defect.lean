import ThreeAddress.Checked.Symbols

namespace ThreeAddress.Lowering

open Checked

inductive DefectKind where
  | unknownClass (c : ClassId)
  | unknownMethod (m : MethodId)
  | unknownVariable (v : VarId)
  | unboundVariable (name : String)
  | missingReceiver
  | breakOutsideLoop
  | voidValue
  | expectedClass (found : DataType)
  | unprintable (type : DataType)
  | invalidLValue (kind : LValue)
deriving DecidableEq

def DefectKind.message : DefectKind → String
  | .unknownClass c => "unknown class symbol " ++ c.text
  | .unknownMethod m => "unknown method symbol " ++ m.text
  | .unknownVariable v => "unknown variable symbol " ++ v.text
  | .unboundVariable name => "variable '" ++ name ++ "' is used before its declaration was lowered"
  | .missingReceiver => "'this' is not available in a static method"
  | .breakOutsideLoop => "'break' outside of a loop"
  | .voidValue => "the result of a call returning 'void' is used as a value"
  | .expectedClass found => "expected an object of class type, found '" ++ found.text ++ "'"
  | .unprintable type => "cannot print a value of type '" ++ type.text ++ "'"
  | .invalidLValue kind => "expression cannot be assigned to as " ++ kind.text

structure Defect where
  kind : DefectKind
  span : Span
deriving DecidableEq

def diagnostic (span : Span) (message : String) : String :=
  "at " ++ span.text ++ ": " ++ message

def Defect.diagnostic (d : Defect) : String :=
  Lowering.diagnostic d.span d.kind.message

end ThreeAddress.Lowering
