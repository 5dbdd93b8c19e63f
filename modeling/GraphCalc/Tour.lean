import GraphCalc.Log.Console
import GraphCalc.Plot.Run
import GraphCalc.Request
import GraphCalc.Samples
import GraphCalc.Settings.Basic

/-!
# A tour

Worked examples of what the calculator does, as lists of actions. They have numbers; a number
without an example says so.
-/

namespace GraphCalc.Tour

/-- The positions within which every plot of the tour ends. -/
def patience : Nat := 1000

/-- The expression that asks for a plot over a literal range. -/
def plotOf (e : Expr) (x : String) (min max step : Float) : Expr :=
  .operation "plot" [e, .var x, .number min, .number max, .number step]

/-- A simplification, reported. -/
def simplified (b : Bindings) (e : Expr) : Except EvalError Expr × List Action :=
  let r := b.simplify defaultDepth e
  (r, (Event.ofSimplification e r).map .report)

/-- A value or a failure, spelt out. -/
def valueText (r : Except EvalError Float) : String :=
  Text.verdict Decimal.explicit EvalError.outline r

/-- An expression or a failure, spelt out. -/
def exprText (r : Except EvalError Expr) : String :=
  Text.verdict Expr.outline EvalError.outline r

/-- Values: an ordinary one, an infinite one, none, a variable without a value, and a request. -/
def evaluation : List Action :=
  let b : Bindings := Store.empty.put "x" (.number 3.0)
  let e : Expr := .operation "/"
    [.operation "-" [.operation "^" [.var "x", .number 2.0], .number 1.0], .number 2.0]
  let infinite : Expr := .operation "/" [.number 1.0, .number 0.0]
  let undefined : Expr :=
    .operation "^" [.number (-8.0), .operation "/" [.number 1.0, .number 3.0]]
  let request : Expr := .operation "toDouble" [.operation "cos" [.number 0.0]]
  let shown (e : Expr) : Action :=
    .print (e.text ++ " = " ++ valueText (b.evaluate defaultDepth e))
  [ .print <| match b.evaluate defaultDepth e with
      | .ok v => e.text ++ " = " ++ Decimal.plain v
      | .error err => e.text ++ " failed: " ++ err.message,
    shown infinite, shown undefined, shown (.var "y"),
    .print (request.text ++ " -> " ++ exprText (Request.toDouble b request)) ]

/-- A binding that is taken as it stands, and the same binding once everything in it is known. -/
def simplification : List Action :=
  let z : Expr := .operation "+" [.number 2.0, .var "x"]
  let before : Bindings := Store.empty.put "z" z
  let after : Bindings := before.put "x" (.number 3.0)
  let request : Expr := .operation "simplify"
    [.operation "/" [.operation "*" [.var "z", .operation "negate" [.number 2.0]], .number 3.0]]
  let shown (b : Bindings) : List Action :=
    let (r, told) := simplified b (.var "z")
    told ++ [.print ("z -> " ++ exprText r)]
  let (r, told) := Request.simplify after request
  let last := match r with
    | .ok s => request.text ++ " -> " ++ s.text
    | .error err => request.text ++ " failed: " ++ err.message
  shown before ++ shown after ++ told.map .report ++ [.print last]

/-- A plot with its events, and what is done with its result and the bindings it leaves. -/
def plotted (o : PlotOptions) (b : Bindings) (draw : Renderer Record) (node : Expr)
    (done : Except EvalError Outcome → Bindings → List Action) : List Action :=
  match o.run draw patience b .empty node with
  | none => []
  | some report => report.log.map .report ++ done report.result report.bindings

/-- The last position of a range in tenths, under both kinds of stepping. -/
def steppings : List Action :=
  Stepping.all.flatMap fun s =>
    plotted { PlotOptions.default with stepping := s } Store.empty Renderer.recording
      (plotOf (.var "x") "x" 0.0 1.0 0.1) fun r _ =>
        match r with
        | .ok outcome =>
          [.print (s.name ++ " stepping: " ++ toString outcome.xs.size ++ " samples, last x = "
            ++ Text.maybe (outcome.xs.back?.map Decimal.explicit))]
        | .error _ => []

/-- What a failed sample leaves bound, unless it is asked to leave nothing. -/
def failures : List Action :=
  [false, true].flatMap fun u =>
    plotted { PlotOptions.default with unbindOnFailure := u } Store.empty Renderer.recording
      (plotOf (.operation "+" [.var "x", .var "w"]) "x" 0.0 1.0 0.5) fun r b =>
        [.print ("unbind_on_failure = " ++ Text.truth u ++ ": "
          ++ exprText (r.map Outcome.simplified) ++ ", x still bound: "
          ++ Text.truth (b.contains "x"))]

/-- A plot whose samples are shown and saved. -/
def samples : List Action :=
  plotted PlotOptions.default Store.empty Backend.plotters.renderer
    (plotOf (.operation "*" [.number 3.0, .var "x"]) "x" 2.0 5.0 0.5) fun r _ =>
      match r with
      | .ok outcome =>
        let xs := outcome.xs.toList
        let ys := outcome.ys.toList
        [ .print ("result: " ++ outcome.simplified.text), .print (Samples.table xs ys),
          .save "plot_3x.csv" (Samples.csv outcome.name Plan.valueLabel xs ys) ]
      | .error _ => []

/-- The examples by number. -/
def actions : Nat → List Action
  | 0 => evaluation
  | 1 => simplification
  | 2 => samples
  | 3 => steppings
  | 4 => failures
  | _ => [.print "example not found"]

/-- Opening a log, and saying which file it has and which events are considered. -/
def opening (level : Level) (file : Option String) (opened : Option String) : List Action :=
  [ .openLog level file,
    .print (match opened with
      | some name => "file " ++ name
      | none => "no file"),
    .print ("max level " ++ level.label) ]

/-- Examples under a log, which may be opened a second time before them. -/
def logged (level : Level) (file : Option String) (again : Option Level) (numbers : List Nat) :
    List Action :=
  opening level file file ++ (again.toList.flatMap fun l => opening l none none)
    ++ numbers.flatMap actions

end GraphCalc.Tour
