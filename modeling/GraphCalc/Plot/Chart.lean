/-!
# Charts and who draws them

A plot ends with a chart: a title, two labels and two columns of equal length. A renderer is a
function from the chart and its own state to a refusal or an acceptance, and its new state.
-/

namespace GraphCalc

/-- What is drawn. -/
structure Chart where
  title : String
  xLabel : String
  yLabel : String
  xs : Array Float
  ys : Array Float
  deriving DecidableEq, Repr

/-- What draws charts. A refusal is a message. -/
abbrev Renderer (σ : Type) := Chart → σ → Except String Unit × σ

/-! ## Recording -/

/-- What a recording renderer knows: how many charts it took and the last of them. -/
structure Record where
  calls : Nat
  last : Option Chart
  deriving DecidableEq, Repr

/-- Before the first chart. -/
def Record.empty : Record := ⟨0, none⟩

/-- Takes every chart and keeps the last. -/
def Renderer.recording : Renderer Record :=
  fun chart r => (.ok (), ⟨r.calls + 1, some chart⟩)

/-- Refuses every chart. -/
def Renderer.refusing (message : String) : Renderer σ :=
  fun _ s => (.error message, s)

/-! ## Backends -/

/-- The programs that can draw a chart as a picture. -/
inductive Backend where
  | plotters
  | gnuplot
  | none
  deriving DecidableEq, Repr, Inhabited

namespace Backend

/-- All backends. -/
def all : List Backend := [plotters, gnuplot, none]

/-- The name in settings. -/
def name : Backend → String
  | plotters => "plotters"
  | gnuplot => "gnuplot"
  | none => "none"

/-- The backend of this name. -/
def ofName? (s : String) : Option Backend := all.find? fun b => b.name == s

/-- Whether a pair of the columns can be placed on paper: both coordinates are finite. -/
def hasPoint (chart : Chart) : Bool :=
  (chart.xs.zip chart.ys).any fun (x, y) => x.isFinite && y.isFinite

/-- Why a backend cannot draw a chart. `plotters` needs a point to fit its axes to. -/
def refusal? (b : Backend) (chart : Chart) : Option String :=
  match b with
  | plotters => if hasPoint chart then Option.none else some "no finite samples to plot"
  | gnuplot | none => Option.none

/-- The backend as a renderer. It leaves nothing behind that a later chart depends on. -/
def renderer (b : Backend) : Renderer σ :=
  fun chart s =>
    match b.refusal? chart with
    | some message => (.error message, s)
    | Option.none => (.ok (), s)

end Backend

end GraphCalc
