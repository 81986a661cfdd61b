import ExprLang.Token.Scan

/-!
Lexers: a place in a text from which tokens are scanned one after another. A lexer goes on after a
fault with the text behind it; a pass over its tokens ends at the end of the input or at a fault.
-/

namespace ExprLang

/-- A place in a text: what lies ahead, and the number of characters behind. -/
structure Lexer where
  rest : List Char
  position : Nat := 0

namespace Lexer

def ofText (text : String) : Lexer :=
  { rest := text.toList }

def moveTo (lexer : Lexer) (rest : List Char) : Lexer :=
  { rest, position := lexer.position + (lexer.rest.length - rest.length) }

def next (lexer : Lexer) : Except Fault Token × Lexer :=
  let (result, rest) := scan lexer.rest
  (result, lexer.moveTo rest)

end Lexer

/-- What a pass over a text yields: its tokens, the fault that cut it short, and the text ahead. -/
structure Pass where
  tokens : List Token
  fault : Option Fault
  rest : List Char

/-- All tokens up to the end of the input or the first fault. -/
def Pass.over (text : List Char) : Pass :=
  match h : scan text with
  | (.error fault, rest) => { tokens := [], fault := some fault, rest }
  | (.ok token, rest) =>
    if ht : token.kind = .endOfInput then { tokens := [token], fault := none, rest }
    else
      have : rest.length < text.length :=
        length_lt_of_scan h fun he => ht (congrArg Token.kind (Except.ok.inj he))
      let later := Pass.over rest
      { later with tokens := token :: later.tokens }
termination_by text.length

def Pass.result (pass : Pass) : Except Fault (List Token) :=
  match pass.fault with
  | some fault => .error fault
  | none => .ok pass.tokens

namespace Lexer

def tokenize (lexer : Lexer) : Except Fault (List Token) × Lexer :=
  let pass := Pass.over lexer.rest
  (pass.result, lexer.moveTo pass.rest)

end Lexer

def tokenize (text : String) : Except Fault (List Token) :=
  (Pass.over text.toList).result

/-- A lexer and an iterator over it, which is live until it meets the end or a fault. -/
structure LexerSession where
  lexer : Lexer
  live : Bool := true

namespace LexerSession

inductive Step where
  | next | restart | tokenize

inductive Reply where
  | token (token : Token)
  | finished
  | restarted
  | tokens (tokens : List Token)
  | fault (fault : Fault)

/-- One step. A finished iterator stays so and moves nothing; a fresh one starts where the lexer
stands; `tokenize` has an iterator of its own. -/
def step (session : LexerSession) : Step → Reply × LexerSession
  | .next =>
    if session.live then
      match session.lexer.next with
      | (.ok token, lexer) => (.token token, { lexer, live := token.kind ≠ .endOfInput })
      | (.error fault, lexer) => (.fault fault, { lexer, live := false })
    else (.finished, session)
  | .restart => (.restarted, { session with live := true })
  | .tokenize =>
    match session.lexer.tokenize with
    | (.ok tokens, lexer) => (.tokens tokens, { session with lexer })
    | (.error fault, lexer) => (.fault fault, { session with lexer })

end LexerSession

end ExprLang
