import ExprLang.Token.Stream

/-!
Parsers: computations on a token stream that end in a result or a fault, and leave a stream either
way. No parser adds tokens, so the loop `repeatWhile`, which consumes a token in each round, ends.
-/

namespace ExprLang

/-- A computation on a token stream that never adds to it. -/
structure Parser (α : Type) where
  run : TokenStream → Except Fault α × TokenStream
  size_run_le (s : TokenStream) : (run s).2.size ≤ s.size

namespace Parser

variable {α β : Type}

instance : Monad Parser where
  pure a := ⟨fun s => (.ok a, s), fun _ => Nat.le_refl _⟩
  bind p f :=
    { run := fun s =>
        match p.run s with
        | (.ok a, s') => (f a).run s'
        | (.error fault, s') => (.error fault, s')
      size_run_le := fun s => by
        have hp := p.size_run_le s
        split
        · rename_i a s' h
          rw [h] at hp
          exact Nat.le_trans ((f a).size_run_le s') hp
        · rename_i h
          rw [h] at hp
          exact hp }

def fail (p : Problem) : Parser α :=
  ⟨fun s => (.error (.problem p), s), fun _ => Nat.le_refl _⟩

def peek : Parser Token :=
  ⟨TokenStream.peek, TokenStream.size_peek_le⟩

def advance : Parser Token :=
  ⟨TokenStream.advance, TokenStream.size_advance_le⟩

/-- Consumes a token of an accepted kind; any other stays, and is the problem. -/
def take (accepts : TokenKind → Bool) (problem : Token → Problem) : Parser Token := do
  let token ← peek
  if accepts token.kind then advance else fail (problem token)

def expect (kind : TokenKind) : Parser Token :=
  take (· = kind) fun token =>
    if token.kind = .endOfInput then .unexpectedEnd kind.describe
    else .unexpectedToken kind.describe token.found

/-- Consumes a token if it is of the given kind, and tells whether it was. -/
def skip (kind : TokenKind) : Parser Bool := do
  let token ← peek
  if token.kind = kind then
    let _ ← advance
    pure true
  else pure false

def repeatRun (accepts : TokenKind → Bool) (step : α → Token → Parser α) (a : α)
    (s : TokenStream) : Except Fault α × TokenStream :=
  match h : s.peek with
  | (.error fault, s₁) => (.error fault, s₁)
  | (.ok token, s₁) =>
    if accepts token.kind && token.kind ≠ .endOfInput then
      match hs : (step a token).run s₁.drop with
      | (.error fault, s₂) => (.error fault, s₂)
      | (.ok a', s₂) =>
        have : s₂.size < s.size := by
          have hle := (step a token).size_run_le s₁.drop
          rw [hs] at hle
          exact Nat.lt_of_le_of_lt hle (TokenStream.size_drop_lt h)
        repeatRun accepts step a' s₂
    else (.ok a, s₁)
termination_by s.size

theorem size_repeatRun_le (accepts : TokenKind → Bool) (step : α → Token → Parser α) (a : α)
    (s : TokenStream) : (repeatRun accepts step a s).2.size ≤ s.size := by
  fun_induction repeatRun accepts step a s with
  | case1 a s fault s₁ h =>
    have hp := TokenStream.size_peek_le s
    rw [h] at hp
    exact hp
  | case2 a s token s₁ h _ fault s₂ hs =>
    have hle := (step a token).size_run_le s₁.drop
    rw [hs] at hle
    exact Nat.le_of_lt (Nat.lt_of_le_of_lt hle (TokenStream.size_drop_lt h))
  | case3 a s token s₁ h _ a' s₂ hs hlt ih => exact Nat.le_trans ih (Nat.le_of_lt hlt)
  | case4 a s token s₁ h =>
    have hp := TokenStream.size_peek_le s
    rw [h] at hp
    exact hp

/-- While the current token is of an accepted kind, consumes it and lets `step` go on from there. -/
def repeatWhile (accepts : TokenKind → Bool) (step : α → Token → Parser α) (a : α) : Parser α :=
  ⟨repeatRun accepts step a, size_repeatRun_le accepts step a⟩

/-- While the current token is of an accepted kind, consumes it and reads an item from there. -/
def many (accepts : TokenKind → Bool) (item : Token → Parser α) : Parser (List α) := do
  let items ← repeatWhile accepts (fun items token => do return (← item token) :: items) []
  return items.reverse

/-- Items with commas between them, up to a closing parenthesis, which is consumed. -/
def commaList (item : Parser α) : Parser (List α) := do
  let token ← peek
  let items ←
    if token.kind = .closeParen then pure []
    else do
      let first ← item
      let others ← many (· = .comma) fun _ => item
      pure (first :: others)
  let _ ← expect .closeParen
  return items

end Parser

end ExprLang
