import ExprLang.Console.Arguments
import ExprLang.Console.Path
import ExprLang.Tree.Dump

/-!
Commands: the loop over the standard input, and evaluating, parsing or listing the tokens of a file.
Results go to the output, problems of a file to the error output after the log.
-/

namespace ExprLang.Console

structure Finish where
  exit : Nat := 0
  out : String := ""
  complaint : String := ""
  log : List LogRecord := []

namespace Finish

def ofProblem (p : Problem) (out : String) (log : List LogRecord) : Finish :=
  { exit := 1, out, complaint := withNewline p.text, log }

/-- The error output; the log shows only if it is wanted. -/
def err (verbose : Bool) (finish : Finish) : String :=
  (if verbose then String.join (finish.log.map (withNewline ·.line)) else "") ++ finish.complaint

end Finish

def linesText (lines : List String) : String :=
  String.join (lines.map withNewline)

def runFile (text : String) : Except Fault Finish := do
  let execution ← Execution.ofText text
  match execution.outcome with
  | .error p => return .ofProblem p "" execution.log
  | .ok none => return { log := execution.log }
  | .ok (some value) => return { out := withNewline value.inspect, log := execution.log }

def parseFile (text : String) : Except Fault Finish :=
  match Program.ofText text with
  | .ok program =>
    .ok { out := linesText ((Node.program program).dump 0), log := [.parsed program.length] }
  | .error (.problem p) => .ok (.ofProblem p "" [])
  | .error fault => .error fault

/-- Lists the tokens of the text of a file, up to the first problem. -/
def tokensFile (text : String) : Except Fault Finish :=
  let pass := Pass.over text.toList
  let out := linesText (pass.tokens.map Token.listed)
  match pass.fault with
  | none => .ok { out }
  | some (.problem p) => .ok (.ofProblem p out [])
  | some fault => .error fault

namespace Command

def name : Command → String
  | loop _ => "repl"
  | run _ => "run"
  | parse _ => "parse"
  | tokens _ => "tokens"

def path? : Command → Option Path
  | loop _ => none
  | run path | parse path | tokens path => some (.ofString path)

/-- A command on a file, whose text is given if there is such a file. -/
def onFile (path : String) (source : Option String) (action : String → Except Fault Finish) :
    Except Fault Finish :=
  match source with
  | some text => action (String.ofList (Text.unifyNewlines text.toList))
  | none =>
    .ok
      { exit := 1
        complaint := withNewline ("Error: File not found: " ++ (Path.ofString path).text) }

/-- Carries out a command on the text of its file and on the standard input. -/
def perform (command : Command) (source : Option String) (input : String) :
    Except Fault Finish := do
  let finish ← match command with
    | loop mode => do
      let answer ← Console.loop mode false (Text.unifyNewlines input.toList)
      pure { out := answer.out, log := answer.log }
    | run path => onFile path source runFile
    | parse path => onFile path source parseFile
    | tokens path => onFile path source tokensFile
  return { finish with log := .action command.name :: finish.log }

end Command

/-- Upper case, as far as it can lead to the name of a level. -/
def upperLetter (c : Char) : Char :=
  if c = 'ſ' then 'S' else c.toUpper

/-- Whether a level lets all records through. The level given as an argument wins over the one from
the environment, which may be in any case. -/
def isVerbose (argument environment : Option String) : Bool :=
  let level := (argument.or environment).getD "warning"
  let upper := String.ofList (level.toList.map upperLetter)
  upper = "DEBUG" || upper = "NOTSET"

/-- What can be seen of a finished command. -/
structure Report where
  exit : Nat
  out : String
  err : String
deriving DecidableEq, Repr

/-- Carries out an invocation in a directory, on a standard input and with a level from the
environment. -/
def Invocation.report (invocation : Invocation) (directory : Directory) (input : String)
    (environment : Option String) : Except Fault Report := do
  let source := invocation.command.path?.bind directory.read
  let finish ← invocation.command.perform source input
  return {
    exit := finish.exit
    out := finish.out
    err := finish.err (isVerbose invocation.logLevel environment) }

end ExprLang.Console
