/-!
# Paths

When two texts are the same path: repeated and trailing slashes do not matter, and neither do dots
between slashes. A leading slash and a leading dot do.
-/

namespace GraphCalc.Text.Path

/-- The parts of a path: the root or the current directory if the path starts there, then names. -/
def parts (s : String) : List String :=
  let pieces := s.splitOn "/"
  let names := pieces.filter fun p => p ≠ "" && p ≠ "."
  match pieces with
  | "" :: _ :: _ => "/" :: names
  | "." :: _ => "." :: names
  | _ => names

/-- Whether two texts have the same parts. -/
def same (s t : String) : Bool := parts s == parts t

end GraphCalc.Text.Path
