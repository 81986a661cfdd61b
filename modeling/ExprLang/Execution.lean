import ExprLang.Evaluation
import ExprLang.Parser.Grammar

/-!
Executions: a text read and evaluated, with a record of each step that came to an end. A problem is
an outcome like any other; other faults are not.
-/

namespace ExprLang

inductive LogRecord where
  | action (name : String)
  | parsed (statements : Nat)
  | evaluated (statements : Nat) (result : Option Value)
  | failed (code : String)
deriving DecidableEq, Repr

def LogRecord.line : LogRecord → String
  | action name => "monkey.cli: DEBUG: action: " ++ name
  | parsed n => "monkey.parser: DEBUG: parsed program with " ++ n.repr ++ " statement(s)"
  | evaluated n result =>
    "monkey.interpreter: DEBUG: evaluated " ++ n.repr ++ " statement(s) -> "
      ++ (match result with
        | some value => value.describe
        | none => "None")
  | failed code => "monkey.interpreter: DEBUG: compile_and_run failed: " ++ code

structure Execution where
  outcome : Except Problem (Option Value)
  log : List LogRecord

namespace Execution

/-- An execution that ends in a fault after the given records. -/
def stopped (log : List LogRecord) : Fault → Except Fault Execution
  | .problem p => .ok { outcome := .error p, log := log ++ [.failed p.code] }
  | fault => .error fault

def ofText (text : String) : Except Fault Execution :=
  match Program.ofText text with
  | .error fault => stopped [] fault
  | .ok program =>
    match program.eval with
    | .error fault => stopped [.parsed program.length] fault
    | .ok result =>
      .ok
        { outcome := .ok result
          log := [.parsed program.length, .evaluated program.length result] }

/-- What is shown of a result; no value shows as nothing. -/
def shown : Option Value → String
  | some value => value.inspect
  | none => ""

end Execution

def runText (text : String) : Except Fault (Except Problem (Option Value)) :=
  (Execution.ofText text).map Execution.outcome

end ExprLang
