import ExprLang.Console.Loop
import ExprLang.Text.DecimalDigit

/-!
Command line arguments: an optional level for the log, then a command with its own arguments. Long
options may be shortened as long as one option alone starts so. What stands after `--` is no option.
Asking for help ends the reading at once; strange arguments are refused at its end.
-/

namespace ExprLang.Console

inductive Command where
  | loop (mode : LoopMode)
  | run (path : String)
  | parse (path : String)
  | tokens (path : String)
deriving DecidableEq, Repr

structure Invocation where
  command : Command
  logLevel : Option String
deriving DecidableEq, Repr

/-- Why a command line names no command to carry out. -/
inductive Usage where
  | help | misuse
deriving DecidableEq, Repr

/-- What an argument is to a command that knows certain long options. -/
inductive Argument where
  | plain
  | long (option : String) (value : Option String)
  | help
  | malformed
  | strange
deriving DecidableEq, Repr

/-- Digits of any script, possibly with a decimal point before some of them. -/
def isDecimal (chars : List Char) : Bool :=
  match chars.dropWhile Text.isDecimalDigit with
  | [] => !chars.isEmpty
  | c :: fraction => c = '.' && !fraction.isEmpty && fraction.all Text.isDecimalDigit

/-- Whether a text looks like a number behind its sign; a newline may end it. -/
def looksNumeric (chars : List Char) : Bool :=
  isDecimal (if chars.getLast? = some '\n' then chars.dropLast else chars)

/-- The short help option. Nothing follows it but itself, the first time also behind an equals
sign. -/
def shortHelp : List Char → Argument
  | [] => .help
  | 'h' :: cs | '=' :: 'h' :: cs => if cs.all (· = 'h') then .help else .malformed
  | _ => .malformed

/-- A long option, shortened or not, with the value after its equals sign. -/
def longOption (options : List String) (chars : List Char) : Argument :=
  let name := chars.takeWhile (· ≠ '=')
  let value := match chars.dropWhile (· ≠ '=') with
    | [] => none
    | _ :: value => some (String.ofList value)
  match options.filter fun option => name.isPrefixOf option.toList with
  | [option] => .long option value
  | [] => if ' ' ∈ chars then .plain else .strange
  | _ => .malformed

def classify (options : List String) (argument : String) : Argument :=
  match argument.toList with
  | '-' :: '-' :: cs => longOption options ('-' :: '-' :: cs)
  | '-' :: 'h' :: cs => shortHelp cs
  | '-' :: c :: cs =>
    if looksNumeric (c :: cs) || (c :: cs).contains ' ' then .plain else .strange
  | _ => .plain

/-- Reads the arguments of the loop; `refused` tells of strange ones before. -/
def readLoop (mode : LoopMode) (refused : Bool) : List String → Except Usage Command
  | [] => if refused then .error .misuse else .ok (.loop mode)
  | "--" :: _ => .error .misuse
  | argument :: rest =>
    match classify ["--help", "--ast"] argument with
    | .help | .long "--help" none => .error .help
    | .long "--ast" none => readLoop .trees refused rest
    | .long _ _ | .malformed => .error .misuse
    | .plain | .strange => readLoop mode true rest

def readPath (path : Option String) (refused : Bool) : List String → Except Usage String
  | [] =>
    match path with
    | some path => if refused then .error .misuse else .ok path
    | none => .error .misuse
  | "--" :: rest =>
    match path.toList ++ rest with
    | [path] => if refused then .error .misuse else .ok path
    | _ => .error .misuse
  | argument :: rest =>
    match classify ["--help"] argument with
    | .help | .long "--help" none => .error .help
    | .long _ _ | .malformed => .error .misuse
    | .strange => readPath path true rest
    | .plain =>
      match path with
      | none => readPath (some argument) refused rest
      | some _ => readPath path true rest

def readCommand (name : String) (arguments : List String) : Except Usage Command :=
  match name with
  | "repl" => readLoop .values false arguments
  | "run" => return .run (← readPath none false arguments)
  | "parse" => return .parse (← readPath none false arguments)
  | "tokens" => return .tokens (← readPath none false arguments)
  | _ => .error .misuse

def logLevels : List String := ["debug", "info", "warning", "error"]

def mainOptions : List String := ["--help", "--log-level"]

/-- A level for the log behind an equals sign; an end marker there stands for none. -/
def levelBehindEquals (value : String) : Except Usage (Option String) :=
  if value = "--" then .ok none
  else if value ∈ logLevels then .ok (some value)
  else .error .misuse

def readMain (logLevel : Option String) (refused : Bool) : List String → Except Usage Invocation
  | [] => if refused then .error .misuse else .ok { command := .loop .values, logLevel }
  | "--" :: _ => .error .misuse
  | argument :: rest =>
    match classify mainOptions argument with
    | .help | .long "--help" none => .error .help
    | .long "--log-level" (some value) => do
      let logLevel ← levelBehindEquals value
      readMain logLevel refused rest
    | .long "--log-level" none =>
      match rest with
      | level :: rest =>
        if level ∈ logLevels then readMain (some level) refused rest else .error .misuse
      | [] => .error .misuse
    | .long _ _ | .malformed => .error .misuse
    | .strange => readMain logLevel true rest
    | .plain => do
      let command ← readCommand argument rest
      if refused then .error .misuse else .ok { command, logLevel }

/-- Whether an argument could be short for several options; such a line is not read at all. -/
def isAmbiguous (argument : String) : Bool :=
  "--=".toList.isPrefixOf argument.toList

def readArguments (arguments : List String) : Except Usage Invocation :=
  if (arguments.takeWhile (· ≠ "--")).any isAmbiguous then .error .misuse
  else readMain none false arguments

end ExprLang.Console
