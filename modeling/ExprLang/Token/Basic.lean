import ExprLang.Token.Kind
import ExprLang.Text.Quoted

/-!
Tokens: a kind, what the kind carries, and the source text.
-/

namespace ExprLang

/-- What a token carries besides its kind. -/
inductive Payload where
  | absent
  | text (value : String)
  | number (value : Int)
deriving DecidableEq, Repr, Inhabited

namespace Payload

def quoted : Payload → String
  | absent => "None"
  | text value => Text.quoted value
  | number value => value.repr

def plain : Payload → String
  | absent => "None"
  | text value => value
  | number value => value.repr

end Payload

/-- A token; its lexeme is empty where no source text stands for it. -/
structure Token where
  kind : TokenKind
  payload : Payload := .absent
  lexeme : String := ""
deriving DecidableEq, Repr, Inhabited

namespace Token

def endOfInput : Token :=
  { kind := .endOfInput }

def text? (token : Token) : Option String :=
  match token.payload with
  | .text value => some value
  | _ => none

def number? (token : Token) : Option Int :=
  match token.payload with
  | .number value => some value
  | _ => none

/-- The token as a listing shows it. -/
def listed (token : Token) : String :=
  match token.kind with
  | .number | .name => token.kind.label ++ "(" ++ token.payload.quoted ++ ")"
  | kind => kind.label

/-- The token as a message shows it where something else was expected. -/
def found (token : Token) : String :=
  match token.kind with
  | .number | .name => token.kind.describe ++ " '" ++ token.payload.plain ++ "'"
  | kind => kind.describe

end Token

end ExprLang
