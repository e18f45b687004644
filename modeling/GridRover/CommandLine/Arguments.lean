import GridRover.CommandLine.Request

/-!
# Reading arguments

Arguments are read from left to right. A value given apart from its flag, and the argument
of a task, are looked at only when the next one has been recognised, so an unknown argument
is refused before a bad value in front of it. After `--` nothing is a flag.
-/
namespace GridRover.CommandLine

/-- What a value is for. -/
inductive Slot
  | flag (flag : Flag)
  | argument
  deriving DecidableEq, Repr

/-- What has been read in one scope. The last slot may still wait for its value, or its value
for being looked at. -/
structure Reading where
  flags : List Flag
  config : Option String
  maxSteps : Option Nat
  bindings : List Binding
  argument : Option String
  pending : Option (Slot × Option String)
  deriving DecidableEq

namespace Reading

def empty : Reading := ⟨[], none, none, [], none, none⟩

/-- The last flag still needs a value. -/
def awaitsValue (r : Reading) : Bool :=
  match r.pending with
  | some (_, none) => true
  | _ => false

/-- Sets a flag that may be given once. -/
def raise (r : Reading) (flag : Flag) : Except Refusal Reading :=
  if r.flags.contains flag then .error (.repeated flag)
  else .ok { r with flags := flag :: r.flags }

/-- A number of steps, up to 64 bits, with an optional plus. -/
def stepCount? (text : String) : Option Nat :=
  let digits := match text.toList with
    | '+' :: rest => rest
    | cs => cs
  if digits ≠ [] ∧ digits.all Char.isDigit ∧ Number.naturalOf digits < Nat.pow 2 64 then
    some (Number.naturalOf digits)
  else none

/-- Looks at the value of a slot. Paths must not be empty, expressions may be. -/
def accept (scope : Scope) (r : Reading) (slot : Slot) (value : String) : Except Refusal Reading :=
  match slot with
  | .argument =>
    if value = "" && scope != .eval then .error (.missingValue "<FILE>")
    else .ok { r with argument := some value }
  | .flag .maxSteps => do
    let r ← r.raise .maxSteps
    match stepCount? value with
    | some n => return { r with maxSteps := some n }
    | none => throw (.invalidNumber value)
  | .flag .variable =>
    match Binding.ofText value with
    | .ok binding => .ok { r with bindings := r.bindings ++ [binding] }
    | .error cause => .error (.invalidVariable value cause)
  | .flag flag => do
    let r ← r.raise flag
    if value = "" then throw (.missingValue flag.shown)
    return { r with config := some value }

/-- Looks at what is pending. -/
def settle (scope : Scope) (r : Reading) : Except Refusal Reading :=
  match r.pending with
  | none => .ok r
  | some (.flag flag, none) => .error (.missingValue flag.shown)
  | some (.argument, none) => .ok { r with pending := none }
  | some (slot, some value) => accept scope { r with pending := none } slot value

/-- Meets a flag without a value. -/
def meet (scope : Scope) (r : Reading) (flag : Flag) : Except Refusal Reading := do
  let r ← r.settle scope
  match flag with
  | .help => throw (.help scope)
  | .version => throw .version
  | flag => r.raise flag

/-- Meets a flag that takes a value, given with it or to come. -/
def meetValued (scope : Scope) (r : Reading) (flag : Flag) (value : Option String) :
    Except Refusal Reading := do
  let r ← r.settle scope
  match value with
  | some value => accept scope r (.flag flag) value
  | none => return { r with pending := some (.flag flag, none) }

/-- Reads a flag word with the value behind its equals sign. -/
def word (scope : Scope) (r : Reading) (argument : String) (cs : List Char) :
    Except Refusal Reading :=
  let value := match cs.dropWhile (· != '=') with
    | [] => none
    | _ :: rest => some (String.ofList rest)
  match Flag.ofWord? scope (String.ofList (cs.takeWhile (· != '='))) with
  | none => .error (.unexpected argument)
  | some flag =>
    if flag.takesValue then r.meetValued scope flag value
    else
      match value with
      | some value => .error (.needlessValue flag value)
      | none => r.meet scope flag

/-- Reads flag letters in a row. One that takes a value takes what is left of the argument. -/
def letters (scope : Scope) (r : Reading) : List Char → Except Refusal Reading
  | [] => .ok r
  | c :: cs =>
    match Flag.ofLetter? scope c with
    | none => .error (.unexpected (String.ofList ['-', c]))
    | some flag =>
      if flag.takesValue then
        r.meetValued scope flag <|
          match cs with
          | [] => none
          | '=' :: rest => some (String.ofList rest)
          | rest => some (String.ofList rest)
      else do letters scope (← r.meet scope flag) cs

/-- Reads an argument that is no flag. -/
def plain (scope : Scope) (r : Reading) (argument : String) : Except Refusal Reading :=
  let taken := r.argument.isSome || match r.pending with
    | some (.argument, _) => true
    | _ => false
  if scope = .front then .error (.unknownTask argument)
  else if taken then .error (.unexpected argument)
  else do
    let r ← r.settle scope
    return { r with pending := some (.argument, some argument) }

end Reading

/-- The scope of a task. -/
def taskScope? : String → Option Scope
  | "run" => some .run
  | "check" => some .check
  | "eval" => some .eval
  | _ => none

/-- What help is asked for by the arguments after `help`. -/
def helpTopic : List String → Refusal
  | [] => .help .front
  | ["help"] => .help .front
  | name :: rest =>
    match taskScope? name, rest with
    | some scope, [] => .help scope
    | some _, other :: _ => .unknownTask other
    | none, _ => .unknownTask name

/-- Reads the arguments of a scope; `literal` after `--`. The front stops at the name of a
task, and the arguments behind it are left over. -/
def readScope (scope : Scope) (literal : Bool) (r : Reading) :
    List String → Except Refusal (Reading × Option (Scope × List String))
  | [] => .ok (r, none)
  | argument :: rest =>
    let cs := argument.toList
    if literal then do readScope scope true (← r.plain scope argument) rest
    else if scope = .front && !r.awaitsValue && argument = "help" then .error (helpTopic rest)
    else if scope = .front && !r.awaitsValue && (taskScope? argument).isSome then
      .ok (r, (taskScope? argument).map (·, rest))
    else if argument = "--" then readScope scope true r rest
    else
      match cs with
      | '-' :: '-' :: name => do readScope scope false (← r.word scope argument name) rest
      | '-' :: c :: more => do readScope scope false (← r.letters scope (c :: more)) rest
      | _ =>
        match r.pending with
        | some (slot, none) => readScope scope false { r with pending := some (slot, some argument) } rest
        | _ => do readScope scope false (← r.plain scope argument) rest

/-- The task of a scope that has been read. -/
def taskOf (scope : Scope) (r : Reading) : Except Refusal Task :=
  match scope, r.argument with
  | .front, _ => .error .missingTask
  | scope, none => .error (.missingArgument scope)
  | .run, some file => .ok (.run file (r.flags.contains .showGrid) r.maxSteps)
  | .check, some file => .ok (.check file)
  | .eval, some expression => .ok (.eval expression r.bindings)

/-- What the arguments ask for. Flags of the front hold for the task as well, unless it gives
its own. -/
def Request.ofArguments (arguments : List String) : Except Refusal Request := do
  match ← readScope .front false .empty arguments with
  | (front, none) =>
    let _ ← front.settle .front
    throw .missingTask
  | (front, some (scope, rest)) =>
    let (inner, _) ← readScope scope false .empty rest
    let inner ← inner.settle scope
    let task ← taskOf scope inner
    let front ← front.settle .front
    return ⟨front.flags.contains .verbose || inner.flags.contains .verbose,
      inner.config.or front.config, task⟩

end GridRover.CommandLine
