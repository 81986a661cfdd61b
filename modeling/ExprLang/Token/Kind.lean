/-!
Kinds of tokens, with their spellings, their names and the reserved words.
-/

namespace ExprLang

/-- What a token is. Only numbers, names and the end of the input have no fixed spelling. -/
inductive TokenKind where
  | number | name
  | letWord | returnWord | ifWord | elseWord | fnWord | trueWord | falseWord
  | whileWord | forWord | loopWord
  | plus | minus | star | slash
  | less | greater | equal | notEqual
  | bang | assign
  | comma | semicolon | openParen | closeParen | openBrace | closeBrace
  | endOfInput
deriving DecidableEq, Repr, Inhabited

namespace TokenKind

def spelling? : TokenKind → Option String
  | letWord => some "let"
  | returnWord => some "return"
  | ifWord => some "if"
  | elseWord => some "else"
  | fnWord => some "fn"
  | trueWord => some "true"
  | falseWord => some "false"
  | whileWord => some "while"
  | forWord => some "for"
  | loopWord => some "loop"
  | plus => some "+"
  | minus => some "-"
  | star => some "*"
  | slash => some "/"
  | less => some "<"
  | greater => some ">"
  | equal => some "=="
  | notEqual => some "!="
  | bang => some "!"
  | assign => some "="
  | comma => some ","
  | semicolon => some ";"
  | openParen => some "("
  | closeParen => some ")"
  | openBrace => some "\x7b"
  | closeBrace => some "\x7d"
  | number | name | endOfInput => none

/-- The reserved words; the last three have no grammar yet. -/
def keywords : List TokenKind :=
  [letWord, returnWord, ifWord, elseWord, fnWord, trueWord, falseWord, whileWord, forWord, loopWord]

def ofKeyword? (word : String) : Option TokenKind :=
  keywords.find? fun kind => kind.spelling? = some word

def isOperator : TokenKind → Bool
  | plus | minus | star | slash | less | greater | equal | notEqual | bang => true
  | _ => false

def symbol? (kind : TokenKind) : Option String :=
  if kind.isOperator then kind.spelling? else none

/-- How a message names a kind: its spelling between quotes, or a few words. -/
def describe (kind : TokenKind) : String :=
  match kind.spelling? with
  | some text => "'" ++ text ++ "'"
  | none => match kind with
    | number => "int literal"
    | name => "identifier"
    | _ => "end of input"

/-- How listings of tokens and trees name a kind. -/
def label : TokenKind → String
  | number => "INT_LITERAL"
  | name => "IDENTIFIER"
  | letWord => "LET"
  | returnWord => "RETURN"
  | ifWord => "IF"
  | elseWord => "ELSE"
  | fnWord => "FN"
  | trueWord => "TRUE"
  | falseWord => "FALSE"
  | whileWord => "WHILE"
  | forWord => "FOR"
  | loopWord => "LOOP"
  | plus => "PLUS"
  | minus => "MINUS"
  | star => "STAR"
  | slash => "SLASH"
  | less => "LT"
  | greater => "GT"
  | equal => "EQ"
  | notEqual => "NE"
  | bang => "BANG"
  | assign => "ASSIGN"
  | comma => "COMMA"
  | semicolon => "SEMICOLON"
  | openParen => "LPAREN"
  | closeParen => "RPAREN"
  | openBrace => "LBRACE"
  | closeBrace => "RBRACE"
  | endOfInput => "EOF"

def all : List TokenKind :=
  [number, name, letWord, returnWord, ifWord, elseWord, fnWord, trueWord, falseWord, whileWord,
   forWord, loopWord, plus, minus, star, slash, less, greater, equal, notEqual, bang, assign, comma,
   semicolon, openParen, closeParen, openBrace, closeBrace, endOfInput]

def ofLabel? (text : String) : Option TokenKind :=
  all.find? fun kind => kind.label = text

theorem ofLabel?_label (kind : TokenKind) : ofLabel? kind.label = some kind := by
  cases kind <;> rfl

theorem label_injective {a b : TokenKind} (h : a.label = b.label) : a = b := by
  have ha := ofLabel?_label a
  rw [h, ofLabel?_label b] at ha
  exact (Option.some.inj ha).symm

theorem spelling_of_ofKeyword {word : String} {kind : TokenKind} (h : ofKeyword? word = some kind) :
    kind.spelling? = some word := by
  have hk := List.find?_some h
  exact of_decide_eq_true hk

end TokenKind

end ExprLang
