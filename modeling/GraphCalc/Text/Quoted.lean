import GraphCalc.Text.Unprintable

/-!
# Quoted text

A quoted text stands between double quotes. A quote, a backslash and the usual controls have a
two-character escape, every other unprintable character its code point in braces, and all else
stands for itself.
-/

namespace GraphCalc.Text

/-- One character inside quotes. -/
def escape (c : Char) : List Char :=
  if c = '\x00' then ['\\', '0']
  else if c = '\t' then ['\\', 't']
  else if c = '\r' then ['\\', 'r']
  else if c = '\n' then ['\\', 'n']
  else if c = '"' then ['\\', '"']
  else if c = '\\' then ['\\', '\\']
  else if isUnprintable c then '\\' :: 'u' :: '\x7b' :: Nat.toDigits 16 c.toNat ++ ['\x7d']
  else [c]

/-- The text between double quotes. -/
def quote (s : String) : String :=
  String.ofList ('"' :: s.toList.flatMap escape ++ ['"'])

end GraphCalc.Text
