import GridRover.CommandLine.Usage
import GridRover.Console.Diagnostic
import GridRover.Expedition
import GridRover.Settings

/-!
# A session

A session answers a command line with what it prints and the code it exits with. Files are
read from a disk; nothing else is looked at.
-/
namespace GridRover.CommandLine

open Console Journal Script

/-- A piece of text for standard output or for the error stream. -/
inductive Chunk
  | out (text : String)
  | err (text : String)
  deriving DecidableEq

/-- What a session prints, and its exit code; without one the session never ends. -/
structure Outcome where
  output : List Chunk
  exit : Option Nat
  deriving DecidableEq

namespace Outcome

/-- All text for standard output. -/
def stdout (o : Outcome) : String :=
  String.join (o.output.map fun
    | .out text => text
    | .err _ => "")

/-- All text for the error stream. -/
def stderr (o : Outcome) : String :=
  String.join (o.output.map fun
    | .out _ => ""
    | .err text => text)

/-- The same outcome after some earlier output. -/
def after (earlier : List Chunk) (o : Outcome) : Outcome := { o with output := earlier ++ o.output }

end Outcome

def outLine (text : String) : Chunk := .out (text ++ "\n")

/-- The events that are not below the threshold. -/
def narrate (threshold : Level) (events : List Event) : List Chunk :=
  (events.filter (Event.isShown threshold)).map fun e => .err (e.printed ++ "\n")

/-- Gives up with a message. -/
def giveUp (color : Bool) (message : String) : Outcome :=
  ⟨[.err (paint color .redBold "error" ++ ": " ++ message ++ "\n")], some 1⟩

/-- Everything from `trace` on is told to those who want it, else only from `info` on. -/
def threshold (wanted : Bool) : Level := if wanted then .trace else .info

/-- The lines of a script. -/
def readProgram (disk : Disk) (path : String) : Except String (List String) :=
  match disk.text path with
  | .ok source => .ok (Text.lines source)
  | .error cause => .error ("Could not read " ++ path ++ ": " ++ cause.message)

/-- The line that describes a variable. -/
def describe (entry : String × Variable) : String :=
  entry.2.type.name ++ " " ++ entry.1 ++ " = " ++ Number.text entry.2.value

/-- One line per variable, by name. -/
def describeVariables (store : Store) : List String := store.entries.map describe

/-- The grid as it is printed between steps. -/
def gridChunk (grid : Grid) : Chunk := outLine grid.text

/-- What is printed for one step: its account, then the grid if the run goes on. -/
def stepNote (level : Level) (showGrid : Bool) (before : Expedition) (next : Option Expedition) :
    List Chunk :=
  narrate level before.account ++
    match next with
    | some e => if showGrid then [gridChunk e.grid] else []
    | none => []

/-- The diagnostic of a journey that did not complete. A step limit is reported on the line
that would have run next. -/
def diagnostic? (path : String) (journey : Journey) : Option Diagnostic :=
  let program := journey.last.machine.program
  match journey.ending with
  | some (.failed failure) => some (.ofFailure path program failure)
  | some (.outOfSteps limit) =>
    some ⟨path, program, journey.last.machine.counter + 1, limitMessage limit, none⟩
  | _ => none

/-- What is printed at the end of a journey. -/
def farewell (color : Bool) (level : Level) (path : String) (journey : Journey) : Outcome :=
  match journey.ending with
  | none => ⟨[], none⟩
  | some .completed =>
    let rover := journey.last.grid.rover
    ⟨narrate level [.finished journey.steps] ++
      outLine ("Rover at (" ++ toString rover.x ++ ", " ++ toString rover.y ++ ")") ::
        (describeVariables journey.last.machine.store).map outLine, some 0⟩
  | some _ =>
    ⟨(diagnostic? path journey).toList.map fun d => .err (d.render color), some 2⟩

/-- The grid that the settings describe. -/
def gridOf (s : GridSettings) : Except GridError Grid :=
  Grid.create s.width s.height ⟨s.startX, s.startY⟩

def runScript (color : Bool) (disk : Disk) (level : Level) (settings : Settings) (path : String)
    (showGrid : Bool) (maxSteps : Option Nat) : Outcome :=
  match readProgram disk path with
  | .error message => giveUp color message
  | .ok program =>
    match gridOf settings.grid with
    | .error e => giveUp color e.message
    | .ok grid =>
      let start := Expedition.ofProgram program grid
      let opening := if showGrid then [gridChunk grid] else []
      (farewell color level path (start.travel maxSteps)).after
        (opening ++ start.chronicle (stepNote level showGrid) maxSteps)

/-- The lines that are no statements, as failures, in order. -/
def problems (program : List String) : List Failure :=
  (program.zipIdx 1).filterMap fun (text, line) =>
    if (Statement.ofLine? text).isSome then none else some ⟨line, text, .unrecognised⟩

/-- The number of problems, counted in a word of 32 bits with a sign. Behind the greatest word
the count goes on with the least one. -/
def tally (found : List Failure) : Int32 := found.foldl (fun n _ => n + 1) 0

/-- What a check says in the end. -/
def verdict (color : Bool) (lineCount : Nat) (problemCount : Int32) : Outcome :=
  if problemCount = 0 then
    ⟨[outLine (toString lineCount ++ " line(s) checked, no problems found")], some 0⟩
  else if problemCount = 1 then giveUp color "1 problem found"
  else giveUp color (toString problemCount ++ " problems found")

def checkScript (color : Bool) (disk : Disk) (path : String) : Outcome :=
  match readProgram disk path with
  | .error message => giveUp color message
  | .ok program =>
    let found := problems program
    let reports := found.map fun f => Chunk.err ((Diagnostic.ofFailure path program f).render color)
    (verdict color program.length (tally found)).after reports

/-- The store of the given variables, or the first name that is given twice. -/
def bindAll (store : Store) : List Binding → Except String Store
  | [] => .ok store
  | (name, value) :: rest =>
    match store.declare? name .float value with
    | some next => bindAll next rest
    | none => .error ("Variable `" ++ name ++ "` given twice")

def evalExpression (color : Bool) (level : Level) (expression : String) (bindings : List Binding) :
    Outcome :=
  match bindAll .empty bindings with
  | .error message => giveUp color message
  | .ok store =>
    match Expression.tokenize expression with
    | .error e => giveUp color e.message
    | .ok tokens =>
      let scanned := narrate level [.scanned expression tokens]
      match Expression.Postfix.ofKinds store (tokens.map Expression.Token.kind) with
      | .error e => (giveUp color e.message).after scanned
      | .ok order =>
        let shown := scanned ++ [outLine ("postfix: " ++ order.text)]
        match order.value store with
        | .error e => (giveUp color e.message).after shown
        | .ok x => ⟨shown ++ [outLine (Number.text x)], some 0⟩

/-- What is told before the task begins: the level, if it is told at all, and the settings file. -/
def preamble (disk : Disk) (request : Request) : List Chunk :=
  let level := threshold request.verbose
  let directory := request.task.script?.bind Disk.parent?
  narrate level [.installed level] ++
    narrate level ((Settings.path? disk request.config directory).toList.map .loading)

def perform (color : Bool) (disk : Disk) (request : Request) : Outcome :=
  let directory := request.task.script?.bind Disk.parent?
  let outcome := match Settings.load disk request.config directory with
    | .error e => giveUp color e.message
    | .ok settings =>
      let level := threshold (request.verbose || settings.log.debug)
      match request.task with
      | .run file showGrid maxSteps =>
        runScript color disk level settings file (showGrid || settings.run.showGrid)
          (maxSteps.or settings.run.maxSteps)
      | .check file => checkScript color disk file
      | .eval expression bindings => evalExpression color level expression bindings
  outcome.after (preamble disk request)

/-- Answers a command line. -/
def respond (color : Bool) (disk : Disk) (arguments : List String) : Outcome :=
  match Request.ofArguments arguments with
  | .ok request => perform color disk request
  | .error (.help scope) => ⟨[.out scope.help], some 0⟩
  | .error .version => ⟨[.out versionText], some 0⟩
  | .error refusal => ⟨[.err (refusal.text color)], some 2⟩

/-- The files that a command line may read. -/
def paths (arguments : List String) : List String :=
  match Request.ofArguments arguments with
  | .error _ => []
  | .ok request =>
    let beside := (request.task.script?.bind Disk.parent?).map (Disk.join · Settings.fileName)
    request.config.toList ++ beside.toList ++ request.task.script?.toList

end GridRover.CommandLine
