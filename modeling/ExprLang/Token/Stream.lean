import ExprLang.Token.Lexer

/-!
Token streams: tokens pulled from a source when they are needed, with one token of lookahead. The
end of the input stays current once it is seen. A source may end in a fault, which is met once;
after that, as after any other end, there is nothing left to pull.
-/

namespace ExprLang

/-- What is left to pull: tokens, then possibly a fault. -/
structure Source where
  tokens : List Token
  fault : Option Fault := none

namespace Source

def ofText (text : String) : Source :=
  let pass := Pass.over text.toList
  { tokens := pass.tokens, fault := pass.fault }

def pull : Source → Except Fault Token × Source
  | ⟨token :: tokens, fault⟩ => (.ok token, ⟨tokens, fault⟩)
  | ⟨[], some fault⟩ => (.error fault, ⟨[], none⟩)
  | ⟨[], none⟩ => (.error .endMissing, ⟨[], none⟩)

end Source

/-- A source, and the token that was pulled from it and not yet consumed. -/
structure TokenStream where
  source : Source
  current : Option Token := none

namespace TokenStream

def ofTokens (tokens : List Token) : TokenStream :=
  { source := { tokens } }

def ofText (text : String) : TokenStream :=
  { source := .ofText text }

/-- The number of tokens that may still be consumed. -/
def size (s : TokenStream) : Nat :=
  s.current.toList.length + s.source.tokens.length

def peek (s : TokenStream) : Except Fault Token × TokenStream :=
  match s.current with
  | some token => (.ok token, s)
  | none =>
    match s.source.pull with
    | (.ok token, source) => (.ok token, { source, current := some token })
    | (.error fault, source) => (.error fault, { source })

def drop (s : TokenStream) : TokenStream :=
  { s with current := none }

/-- The current token, consumed unless it is the end of the input. -/
def advance (s : TokenStream) : Except Fault Token × TokenStream :=
  match s.peek with
  | (.ok token, s) => (.ok token, if token.kind = .endOfInput then s else s.drop)
  | (.error fault, s) => (.error fault, s)

theorem size_peek_le (s : TokenStream) : s.peek.2.size ≤ s.size := by
  obtain ⟨⟨tokens, fault⟩, current⟩ := s
  cases current with
  | some token => exact Nat.le_refl _
  | none =>
    cases tokens with
    | cons token tokens => simp [peek, Source.pull, size]; omega
    | nil => cases fault <;> simp [peek, Source.pull, size]

theorem current_of_peek {s s' : TokenStream} {token : Token} (h : s.peek = (.ok token, s')) :
    s'.current = some token := by
  obtain ⟨⟨tokens, fault⟩, current⟩ := s
  cases current with
  | some t =>
    obtain ⟨ht, rfl⟩ := Prod.mk.inj h
    exact congrArg some (Except.ok.inj ht)
  | none =>
    cases tokens with
    | cons t tokens =>
      obtain ⟨ht, rfl⟩ := Prod.mk.inj h
      exact congrArg some (Except.ok.inj ht)
    | nil => cases fault <;> simp [peek, Source.pull] at h

theorem size_drop_le (s : TokenStream) : s.drop.size ≤ s.size := by
  simp [drop, size]

/-- A token that was looked at is there to be consumed. -/
theorem size_drop_lt {s s' : TokenStream} {token : Token} (h : s.peek = (.ok token, s')) :
    s'.drop.size < s.size := by
  have hc := current_of_peek h
  have hs := size_peek_le s
  rw [h] at hs
  simp only [size, hc, drop, Option.toList_some, Option.toList_none, List.length_cons,
    List.length_nil] at hs ⊢
  omega

theorem size_advance_le (s : TokenStream) : s.advance.2.size ≤ s.size := by
  have hs := size_peek_le s
  unfold advance
  split
  · rename_i token s' h
    rw [h] at hs
    split
    · exact hs
    · exact Nat.le_trans (size_drop_le s') hs
  · rename_i h
    rw [h] at hs
    exact hs

end TokenStream

end ExprLang
