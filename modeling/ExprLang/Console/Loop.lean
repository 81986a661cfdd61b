import ExprLang.Execution
import ExprLang.Text.Lines
import ExprLang.Tree.Render

/-!
The line loop: each line is a program of its own, answered before the next one is read. A problem is
an answer; blank lines have none. Answers are results, or the programs as they group.
-/

namespace ExprLang.Console

inductive LoopMode where
  | values | trees
deriving DecidableEq, Repr

structure Answer where
  out : String := ""
  log : List LogRecord := []

instance : Append Answer :=
  ⟨fun a b => { out := a.out ++ b.out, log := a.log ++ b.log }⟩

def withNewline (text : String) : String :=
  text ++ "\n"

def answerTree (text : String) : Except Fault Answer :=
  match Program.ofText text with
  | .ok program => do
    return { out := withNewline (← program.render), log := [.parsed program.length] }
  | .error (.problem p) => .ok { out := withNewline p.text }
  | .error fault => .error fault

def answerValue (text : String) : Except Fault Answer := do
  let execution ← Execution.ofText text
  let out := match execution.outcome with
    | .ok none => ""
    | .ok (some value) => withNewline value.inspect
    | .error p => withNewline p.text
  return { out, log := execution.log }

def answerLine (mode : LoopMode) (line : List Char) : Except Fault Answer :=
  if Text.isBlankLine line then .ok {}
  else match mode with
    | .trees => answerTree (String.ofList line)
    | .values => answerValue (String.ofList line)

def prompt : String := ">> "

/-- The answers to some lines, each after a prompt, and a last prompt before the end. -/
def answerLines (mode : LoopMode) (prompt : String) : List (List Char) → Except Fault Answer
  | [] => .ok { out := prompt }
  | line :: lines => do
    let first ← answerLine mode line
    let others ← answerLines mode prompt lines
    return { out := prompt } ++ first ++ others

/-- The loop over a text. Prompts are written to a terminal only. -/
def loop (mode : LoopMode) (interactive : Bool) (text : List Char) : Except Fault Answer :=
  answerLines mode (if interactive then prompt else "") (Text.lines text)

end ExprLang.Console
