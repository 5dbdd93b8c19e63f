/-!
# Compound values in text

How several texts are written as one: `[a, b]` for a list, `{k: v}` for a dictionary, `None` or
`Some(a)` for what may be missing, `Ok(a)` or `Err(e)` for what may fail.
-/

namespace GraphCalc.Text

/-- The items between brackets. -/
def bracketed (items : List String) : String :=
  "[" ++ String.intercalate ", " items ++ "]"

/-- Keys with their values, between braces. -/
def braced (entries : List (String × String)) : String :=
  "\x7b" ++ String.intercalate ", " (entries.map fun (k, v) => k ++ ": " ++ v) ++ "\x7d"

/-- An item that may be missing. -/
def maybe : Option String → String
  | none => "None"
  | some a => "Some(" ++ a ++ ")"

/-- A result or what went wrong. -/
def verdict (ok : α → String) (error : ε → String) : Except ε α → String
  | .ok a => "Ok(" ++ ok a ++ ")"
  | .error e => "Err(" ++ error e ++ ")"

/-- A yes or a no. -/
def truth (b : Bool) : String := if b then "true" else "false"

end GraphCalc.Text
