import GraphCalc.Tour
import Std.Time.Format

/-!
# The command line

An optional argument names a file with settings. The program opens its log as they say and takes the
stop of the tour that plots, shows and saves samples. Settings that cannot be used are reported on
the error output and end the program with exit code 1.
-/

namespace GraphCalc.CommandLine

/-- The bytes of a file, or the reason why it cannot be read. -/
def contents (path : String) : IO (Except String ByteArray) :=
  try Except.ok <$> IO.FS.readBinFile path catch e => return .error (toString e)

/-- Two digits. -/
def two (n : Nat) : String := (if n < 10 then "0" else "") ++ toString n

/-- The names under which the log mentions the parts of the program. -/
def path : Origin → String
  | .logging => "GraphCalc.Log"
  | .simplification => "GraphCalc.Simplification"
  | .plot => "GraphCalc.Plot"

/-- The time of day, and the time as part of a file name. -/
def now : IO (String × String) := do
  let t ← Std.Time.PlainDateTime.now
  let hour := t.hour.val.toNat
  let minute := t.minute.val.toNat
  let second := t.second.val.toNat
  let date := toString t.year ++ "-" ++ two t.month.val.toNat ++ "-" ++ two t.day.val.toNat
  let clock (separator : String) := separator.intercalate [two hour, two minute, two second]
  return (clock ":", date ++ "_" ++ clock "-")

/-- Performs the tour under the settings. -/
def run (settings : Settings) : IO Unit := do
  let (clock, fileClock) ← now
  let file := if settings.logToFile then some ("log_" ++ fileClock ++ ".txt") else none
  let console := Console.ofActions ⟨clock, path⟩
    (.openLog settings.logLevel file :: (file.map fun name => .report (.kept name)).toList
      ++ Tour.actions 2)
  IO.print console.outText
  IO.eprint console.errText
  for (name, content) in console.files do
    IO.FS.writeFile name content

/-- Reads the settings and performs the tour. -/
def main (args : List String) : IO UInt32 := do
  let settings ← match args with
    | [] => pure (.ok Settings.default)
    | file :: _ => Settings.ofFile <$> contents file
  match settings with
  | .ok settings =>
    run settings
    return 0
  | .error e =>
    IO.eprintln e.message
    return 1

end GraphCalc.CommandLine

/-- The program. -/
def main (args : List String) : IO UInt32 := GraphCalc.CommandLine.main args
