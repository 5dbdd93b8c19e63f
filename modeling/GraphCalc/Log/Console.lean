import GraphCalc.Log.Event

/-!
# The console and the log

A program acts: it opens the log, prints lines, reports events, saves files. `Console.perform` says
what each action leaves on the standard output, on the error output, in the log file and among the
saved files.

A log is opened once. Opening it again changes neither its level nor its file, but it does change
the level above which events are considered at all, so that both levels have to admit an event.
-/

namespace GraphCalc

/-- What a program does that can be seen. -/
inductive Action where
  /-- opens the log at a level, with a file of this name if it is to be kept -/
  | openLog (level : Level) (file : Option String)
  | print (line : String)
  | report (e : Event)
  | save (file content : String)

/-- An open log. -/
structure Logger where
  threshold : Level
  maximum : Level
  file : Option String
  deriving DecidableEq, Repr

namespace Logger

/-- Whether an event of this level is written. -/
def writes (lg : Logger) (l : Level) : Bool := lg.maximum.admits l && lg.threshold.admits l

end Logger

/-- What lines of the log need to know besides the event: the time, and under which name the parts
of the program are known. -/
structure Stamp where
  clock : String
  path : Origin → String

/-- The line of an event. Only the most detailed level names the thread and the origin. -/
def Stamp.line (stamp : Stamp) (e : Event) : String :=
  let detail := if e.level = .debug then "(1) " ++ stamp.path e.origin ++ ": " else ""
  stamp.clock ++ " [" ++ e.level.label ++ "] " ++ detail ++ e.message

/-- What can be seen of a program: the log once it is open, lines on both outputs and in the log file,
and the saved files. -/
structure Console where
  logger : Option Logger
  out : Array String
  err : Array String
  log : Array String
  saved : Array (String × String)

namespace Console

/-- Before the first action. -/
def empty : Console := ⟨none, #[], #[], #[], #[]⟩

/-- Writes an event that the log takes: errors to the error output, all else to the standard output,
and everything to the log file. -/
def write (c : Console) (stamp : Stamp) (e : Event) : Console :=
  match c.logger with
  | none => c
  | some lg =>
    if lg.writes e.level then
      let line := stamp.line e
      let c := { c with log := c.log.push line }
      if e.level = .error then { c with err := c.err.push line }
      else { c with out := c.out.push line }
    else c

/-- Opens the log, or has the open one consider events of another level. Only the former is told. -/
def openLog (c : Console) (stamp : Stamp) (level : Level) (file : Option String) : Console :=
  match c.logger with
  | none => { c with logger := some ⟨level, level, file⟩ }.write stamp (.started level)
  | some lg => { c with logger := some { lg with maximum := level } }

/-- What an action leaves behind. -/
def perform (stamp : Stamp) (c : Console) : Action → Console
  | .openLog level file => c.openLog stamp level file
  | .print line => { c with out := c.out.push line }
  | .report e => c.write stamp e
  | .save file content => { c with saved := c.saved.push (file, content) }

/-- What a series of actions leaves behind. -/
def ofActions (stamp : Stamp) (actions : List Action) : Console :=
  actions.foldl (perform stamp) empty

/-- Lines as text. -/
def linesText (lines : Array String) : String := String.join (lines.toList.map (· ++ "\n"))

/-- The text on the standard output. -/
def outText (c : Console) : String := linesText c.out

/-- The text on the error output. -/
def errText (c : Console) : String := linesText c.err

/-- The files left behind: that of the log, if it has one, and the saved ones. -/
def files (c : Console) : List (String × String) :=
  ((c.logger.bind Logger.file).map fun name => (name, linesText c.log)).toList ++ c.saved.toList

end Console

end GraphCalc
