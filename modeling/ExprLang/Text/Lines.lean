import ExprLang.Text.Blank

/-!
Texts as lines.
-/

namespace ExprLang.Text

/-- The lines of a text, each with the newline that ends it; the last one may lack it. -/
def lines : List Char → List (List Char)
  | [] => []
  | c :: cs =>
    if c = '\n' then [c] :: lines cs
    else match lines cs with
      | [] => [[c]]
      | line :: rest => (c :: line) :: rest

/-- A carriage return, alone or before a newline, read as a newline. -/
def unifyNewlines : List Char → List Char
  | [] => []
  | '\r' :: '\n' :: cs => '\n' :: unifyNewlines cs
  | c :: cs => (if c = '\r' then '\n' else c) :: unifyNewlines cs

def isBlankLine (line : List Char) : Bool :=
  line.all isBlank

end ExprLang.Text
