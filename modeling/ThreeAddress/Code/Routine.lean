import ThreeAddress.Checked.Basic

namespace ThreeAddress.Code

open Checked (DataType)

inductive Routine where
  | allocate
  | readLine
  | readInt
  | stringEqual
  | printInt
  | printString
  | printBool
  | halt
deriving DecidableEq

namespace Routine

def name : Routine → String
  | .allocate => "_Alloc"
  | .readLine => "_ReadLine"
  | .readInt => "_ReadInteger"
  | .stringEqual => "_StringEqual"
  | .printInt => "_PrintInt"
  | .printString => "_PrintString"
  | .printBool => "_PrintBool"
  | .halt => "_Halt"

def arity : Routine → Nat
  | .stringEqual => 2
  | .allocate | .printInt | .printString | .printBool => 1
  | .readLine | .readInt | .halt => 0

def result : Routine → DataType
  | .allocate | .readInt => .int
  | .readLine => .string
  | .stringEqual => .bool
  | .printInt | .printString | .printBool | .halt => .void

def printer? : DataType → Option Routine
  | .int => some .printInt
  | .bool => some .printBool
  | .string => some .printString
  | _ => none

end Routine

end ThreeAddress.Code
