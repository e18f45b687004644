import GridRover.CommandLine.Arguments
import GridRover.Console.Terminal

/-!
# Help, version and refusals
-/
namespace GridRover.CommandLine

/-- The name under which the program states its version. -/
def versionText : String := "roverscript-interpreter 0.1.0\n"

/-- How a scope is called. -/
def Scope.usage : Scope → String
  | .front => "Usage: roverscript [OPTIONS] <COMMAND>"
  | .run => "Usage: roverscript run [OPTIONS] <FILE>"
  | .check => "Usage: roverscript check [OPTIONS] <FILE>"
  | .eval => "Usage: roverscript eval [OPTIONS] <EXPRESSION>"

/-- A list of terms with their explanations in one column. -/
def glossary (entries : List (String × String)) : String :=
  let width := (entries.map (·.1.length)).foldl max 0
  String.join (entries.map fun (term, meaning) =>
    "  " ++ term ++ String.ofList (List.replicate (width - term.length + 2) ' ') ++ meaning ++ "\n")

def configHelp : String := "Configuration file, instead of the `rover.toml` next to the script"

/-- The help of a scope: what it does, how it is called, its arguments and its flags. -/
def Scope.help : Scope → String
  | .front => Scope.front.usage ++ "\n\nCommands:\n" ++
      glossary [("run", "Execute a script and drive the rover"),
        ("check", "Report every line that is not a valid statement"),
        ("eval", "Evaluate a single expression"),
        ("help", "Print this message or the help of the given subcommand(s)")] ++
      "\nOptions:\n" ++
      glossary [("-v, --verbose", ""), ("-c, --config <CONFIG>", configHelp),
        ("-h, --help", "Print help"), ("-V, --version", "Print version")]
  | .run => "Execute a script and drive the rover\n\n" ++ Scope.run.usage ++
      "\n\nArguments:\n" ++ glossary [("<FILE>", "")] ++ "\nOptions:\n" ++
      glossary [("    --show-grid", "Print the grid after every step"), ("-v, --verbose", ""),
        ("    --max-steps <MAX_STEPS>", ""), ("-c, --config <CONFIG>", configHelp),
        ("-h, --help", "Print help")]
  | .check => "Report every line that is not a valid statement\n\n" ++ Scope.check.usage ++
      "\n\nArguments:\n" ++ glossary [("<FILE>", "")] ++ "\nOptions:\n" ++
      glossary [("-v, --verbose", ""), ("-c, --config <CONFIG>", configHelp),
        ("-h, --help", "Print help")]
  | .eval => "Evaluate a single expression\n\n" ++ Scope.eval.usage ++
      "\n\nArguments:\n" ++ glossary [("<EXPRESSION>", "")] ++ "\nOptions:\n" ++
      glossary [("    --var <VARIABLES>", "Variable available to the expression, as `name=value`"),
        ("-v, --verbose", ""), ("-c, --config <CONFIG>", configHelp), ("-h, --help", "Print help")]

/-- A part of a refusal that is set off from the rest. -/
def setOff (codes text : String) : String := codes ++ text ++ "\x1b[0m"

def quotedFlag (shown : String) : String := "'" ++ setOff "\x1b[1m" shown ++ "'"

def quotedInput (text : String) : String := "'" ++ setOff "\x1b[33m" text ++ "'"

def invalidValue (argument shown cause : String) : String :=
  "invalid value " ++ quotedInput argument ++ " for " ++ quotedFlag shown ++ ": " ++ cause

/-- Why nothing is done. -/
def Refusal.reason : Refusal → String
  | .help _ | .version => ""
  | .unexpected argument => "unexpected argument " ++ quotedInput argument ++ " found"
  | .unknownTask argument => "unrecognized subcommand " ++ quotedInput argument
  | .missingTask => "a subcommand is required but none was provided"
  | .missingArgument scope =>
    "the following required arguments were not provided:\n  " ++
      (if scope = .eval then "<EXPRESSION>" else "<FILE>")
  | .missingValue shown => "a value is required for " ++ quotedFlag shown ++ " but none was supplied"
  | .needlessValue flag value =>
    "unexpected value " ++ quotedInput value ++ " for " ++ quotedFlag flag.shown ++
      " found; no more were expected"
  | .repeated flag => "the argument " ++ quotedFlag flag.shown ++ " cannot be used multiple times"
  | .invalidNumber argument =>
    invalidValue argument Flag.maxSteps.shown "invalid digit found in string"
  | .invalidVariable argument cause => invalidValue argument Flag.variable.shown cause.message

/-- The text of a refusal as a terminal shows it in colour. -/
def Refusal.coloured (r : Refusal) : String :=
  setOff "\x1b[1m\x1b[31m" "error:" ++ " " ++ r.reason ++ "\n\nFor more information, try " ++
    quotedFlag "--help" ++ ".\n"

/-- The text of a refusal on the error stream. Without colour no escape sequence is left in
it, not even one that came with an argument. -/
def Refusal.text (color : Bool) (r : Refusal) : String :=
  if color then r.coloured else Console.plain r.coloured

end GridRover.CommandLine
