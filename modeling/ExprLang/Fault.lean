import ExprLang.Problem
import ExprLang.Token.Kind

/-!
Faults: all that stops an operation. A problem is the user's and is reported; the other faults come
from inputs that are no text of the language, and end whatever runs.
-/

namespace ExprLang

inductive Fault where
  | problem (p : Problem)
  /-- The tokens ran out before the end of the input was seen. -/
  | endMissing
  /-- A number has more digits than are read. -/
  | numberTooLong
  /-- A kind that is no operator was to be written as one. -/
  | noSymbol
  /-- A name without a text was to be written. -/
  | noName
  /-- A number without a value was to be written or evaluated. -/
  | noNumber
  /-- A kind other than a minus or a bang stands before a value. -/
  | notBeforeOperand (kind : TokenKind)
  /-- A kind that joins no two integers stands between them. -/
  | notBetweenOperands (kind : TokenKind)
  /-- No handler is given for a tree of this class. -/
  | noHandler (label : String)
deriving DecidableEq, Repr

end ExprLang
