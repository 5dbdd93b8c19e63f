import GraphCalc.Log.Event
import GraphCalc.Plot.Chart
import GraphCalc.Plot.Sweep
import GraphCalc.Settings.Document
import GraphCalc.Text.Path

/-!
# Settings

Twelve things can be set. Each has a place in a document, a default, and a rule for its value
(`Setting.update`). The rule of one setting sees neither the other settings nor what was set before,
so settings do not depend on the order of a document.
-/

namespace GraphCalc

/-- A value for everything that can be set. -/
structure Settings where
  logLevel : Level
  logToFile : Bool
  backend : Backend
  output : String
  width : Nat
  height : Nat
  stepping : Stepping
  unbindOnFailure : Bool
  maxSamples : Option Nat
  csv : Option String
  maxDepth : Nat
  initialCapacity : Nat
  deriving DecidableEq, Repr

/-- What holds where a document says nothing. -/
def Settings.default : Settings where
  logLevel := .info
  logToFile := false
  backend := .plotters
  output := "plot.png"
  width := 800
  height := 600
  stepping := .accumulate
  unbindOnFailure := false
  maxSamples := none
  csv := none
  maxDepth := defaultDepth
  initialCapacity := Store.defaultCapacity

/-- What can be set. -/
inductive Setting where
  | logLevel
  | logToFile
  | backend
  | output
  | width
  | height
  | stepping
  | unbindOnFailure
  | maxSamples
  | csv
  | maxDepth
  | initialCapacity
  deriving DecidableEq, Repr

/-- The level of this name. -/
def Level.parse (s : String) : Except SettingsError Level :=
  match Level.ofName? s with
  | some l => .ok l
  | none => .error (.invalidValue "loglevel" s)

namespace Setting

/-- All settings, by section. -/
def all : List Setting :=
  [logLevel, logToFile, backend, output, width, height, stepping, unbindOnFailure, maxSamples, csv,
    maxDepth, initialCapacity]

/-- Where a document sets it. -/
def place : Setting → Place
  | logLevel => ⟨"logging", "loglevel"⟩
  | logToFile => ⟨"logging", "log_to_file"⟩
  | backend => ⟨"plot", "backend"⟩
  | output => ⟨"plot", "output"⟩
  | width => ⟨"plot", "width"⟩
  | height => ⟨"plot", "height"⟩
  | stepping => ⟨"plot", "stepping"⟩
  | unbindOnFailure => ⟨"plot", "unbind_on_failure"⟩
  | maxSamples => ⟨"plot", "max_samples"⟩
  | csv => ⟨"plot", "csv"⟩
  | maxDepth => ⟨"evaluation", "max_depth"⟩
  | initialCapacity => ⟨"evaluation", "initial_capacity"⟩

/-- The setting at a place. An unknown key is told from an unknown section. -/
def ofPlace (p : Place) : Except SettingsError Setting :=
  match all.find? fun s => s.place == p with
  | some s => .ok s
  | none =>
    if all.any fun s => s.place.title == p.title then .error (.unknownKey p.title p.key)
    else .error (.unknownSection p.title)

/-- The value, or the refusal that quotes it. -/
def accept (s : Setting) (v : Scalar) : Option α → Except SettingsError α
  | some a => .ok a
  | none => .error (.invalidValue s.place.key v.text)

/-- An integer from zero up to a bound. -/
def count? (bound : Nat) (v : Scalar) : Option Nat :=
  v.integerValue?.bind fun i => if 0 ≤ i ∧ i ≤ bound then some i.toNat else none

/-- The largest width and height of a picture. -/
def maxPixels : Nat := Nat.pow 2 32 - 1

/-- The largest count: that of the integers of a document. -/
def maxCount : Nat := Nat.pow 2 63 - 1

/-- What a value changes. -/
def update (s : Setting) (v : Scalar) : Except SettingsError (Settings → Settings) :=
  match s with
  | logLevel => do
    let l ← Level.parse v.text
    return fun t => { t with logLevel := l }
  | logToFile => do
    let b ← s.accept v v.booleanValue?
    return fun t => { t with logToFile := b }
  | backend => do
    let b ← s.accept v (Backend.ofName? v.text)
    return fun t => { t with backend := b }
  | output => return fun t => { t with output := v.text }
  | width => do
    let n ← s.accept v (count? maxPixels v)
    return fun t => { t with width := n }
  | height => do
    let n ← s.accept v (count? maxPixels v)
    return fun t => { t with height := n }
  | stepping => do
    let x ← s.accept v (Stepping.ofName? v.text)
    return fun t => { t with stepping := x }
  | unbindOnFailure => do
    let b ← s.accept v v.booleanValue?
    return fun t => { t with unbindOnFailure := b }
  | maxSamples => do
    let n ← s.accept v (count? maxCount v)
    return fun t => { t with maxSamples := some n }
  | csv => return fun t => { t with csv := some v.text }
  | maxDepth => do
    let n ← s.accept v (count? maxCount v)
    return fun t => { t with maxDepth := n }
  | initialCapacity => do
    let n ← s.accept v (count? maxCount v)
    return fun t => { t with initialCapacity := n }

end Setting

namespace Settings

/-- What an entry changes. It must have exactly one value, which is checked first. -/
def change (p : Place) (vs : List Scalar) : Except SettingsError (Settings → Settings) :=
  match vs with
  | [v] => do
    let s ← Setting.ofPlace p
    s.update v
  | _ => .error (.invalidValue p.key (String.intercalate ", " (vs.map Scalar.text)))

/-- Applies an entry. -/
def apply (t : Settings) (p : Place) (vs : List Scalar) : Except SettingsError Settings :=
  (change p vs).map fun f => f t

/-- The defaults with every entry applied, in the order given. -/
def ofEntries (entries : List (Place × List Scalar)) : Except SettingsError Settings :=
  entries.foldlM (fun t (p, vs) => t.apply p vs) default

/-- The settings that a document asks for. -/
def ofDocument (d : Document) : Except SettingsError Settings := ofEntries d.entries

/-- The settings that a text asks for. -/
def ofText (text : String) : Except SettingsError Settings := do
  ofDocument (← Document.parse text)

/-- The settings in a file, given its bytes or the reason why it could not be read. -/
def ofFile (bytes : Except String ByteArray) : Except SettingsError Settings :=
  match bytes with
  | .error reason => .error (.unreadable reason)
  | .ok b =>
    match String.fromUTF8? b with
    | none => .error (.unreadable "the file is not valid UTF-8")
    | some text => ofText text

/-- Whether two settings agree. Files are compared as paths. -/
def agree (s t : Settings) : Bool :=
  Text.Path.same s.output t.output && decide ({ s with output := t.output, csv := t.csv } = t)
    && (match s.csv, t.csv with
      | none, none => true
      | some p, some q => Text.Path.same p q
      | _, _ => false)

/-- How plots are carried out under these settings. -/
def plotOptions (t : Settings) : PlotOptions :=
  ⟨t.stepping, t.unbindOnFailure, t.maxDepth, t.maxSamples⟩

/-- The bindings to start with. -/
def bindings (t : Settings) : Bindings := Store.withCapacity t.initialCapacity

end Settings

end GraphCalc
