import ThreeAddress.Text.Hidden

namespace ThreeAddress.Text

def hex (n : Nat) : List Char :=
  Nat.toDigits 16 n

/-- A character inside quotes: six characters have a short escape, hidden ones are shown by their
number, the rest stand for themselves. -/
def escape (c : Char) : List Char :=
  if c = '\x00' then ['\\', '0']
  else if c = '\t' then ['\\', 't']
  else if c = '\r' then ['\\', 'r']
  else if c = '\n' then ['\\', 'n']
  else if c = '\\' then ['\\', '\\']
  else if c = '"' then ['\\', '"']
  else if isHidden c then ['\\', 'u', '\x7b'] ++ hex c.toNat ++ ['\x7d']
  else [c]

def quoted (s : String) : String :=
  String.ofList ('"' :: s.toList.flatMap escape ++ ['"'])

end ThreeAddress.Text
