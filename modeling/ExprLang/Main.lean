import ExprLang.Console.Command

/-!
The program: reads its arguments, its environment, its file and its input, and carries out a
command.
-/

namespace ExprLang.Console

def usageText : String :=
  "usage: exprlang [-h] [--log-level LEVEL] [repl [--ast] | run FILE | parse FILE | tokens FILE]"

/-- The loop on the standard input, line by line. -/
partial def loopIO (mode : LoopMode) (verbose : Bool) : IO UInt32 := do
  let stdin ← IO.getStdin
  let stdout ← IO.getStdout
  if ← stdin.isTty then
    stdout.putStr prompt
    stdout.flush
  let line ← stdin.getLine
  if line.isEmpty then return 0
  match answerLines mode "" (Text.lines (Text.unifyNewlines line.toList)) with
  | .ok answer =>
    stdout.putStr answer.out
    if verbose then
      for entry in answer.log do
        IO.eprintln entry.line
    loopIO mode verbose
  | .error _ =>
    IO.eprintln "a number has too many digits"
    return 1

def readIfThere (path : String) : IO (Option String) := do
  try
    return some (← IO.FS.readFile path)
  catch _ => return none

def performIO (invocation : Invocation) (verbose : Bool) : IO UInt32 := do
  match invocation.command with
  | .loop mode =>
    if verbose then
      IO.eprintln (LogRecord.action "repl").line
    loopIO mode verbose
  | command =>
    let source ← match command.path? with
      | some path => readIfThere path.text
      | none => pure none
    match command.perform source "" with
    | .ok finish =>
      IO.print finish.out
      IO.eprint (finish.err verbose)
      return finish.exit.toUInt32
    | .error _ =>
      IO.eprintln "a number has too many digits"
      return 1

end ExprLang.Console

open ExprLang.Console in
def main (arguments : List String) : IO UInt32 := do
  match readArguments arguments with
  | .ok invocation =>
    let environment ← IO.getEnv "MONKEY_LOG_LEVEL"
    performIO invocation (isVerbose invocation.logLevel environment)
  | .error .help =>
    IO.println usageText
    return 0
  | .error .misuse =>
    IO.eprintln usageText
    return 2
