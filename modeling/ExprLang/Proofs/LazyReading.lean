import ExprLang.Proofs.ParsedPrograms

/-!
Tokens pulled from a lexer while they are parsed, and tokens scanned first and parsed then. The
outcomes are the same for a text without a fault. In any other text whichever comes first is met: a
problem that the parser finds in the tokens in front of the fault, or the fault.
-/

namespace ExprLang

open ExprLang.Parser TokenStream

variable {α β : Type}

/-- The next token of an iterator over a lexer. A finished iterator has none. -/
def LexerSession.pull (session : LexerSession) : Except Fault Token × LexerSession :=
  match session.step .next with
  | (.token token, session) => (.ok token, session)
  | (.fault fault, session) => (.error fault, session)
  | (_, session) => (.error .endMissing, session)

/-- What an iterator over a lexer has yet to yield. -/
def Source.ofSession (session : LexerSession) : Source :=
  if session.live then
    { tokens := (Pass.over session.lexer.rest).tokens
      fault := (Pass.over session.lexer.rest).fault }
  else { tokens := [] }

/-- To pull from the source is to let the lexer scan just one more token. -/
theorem Source.pull_ofSession (session : LexerSession) :
    (ofSession session).pull = (session.pull.1, ofSession session.pull.2) := by
  obtain ⟨lexer, live⟩ := session
  cases live with
  | false => rfl
  | true =>
    cases hs : scan lexer.rest with
    | mk result rest =>
      cases result with
      | error fault =>
        simp [LexerSession.pull, LexerSession.step, Lexer.next, ofSession, hs, Pass.over_eq lexer.rest,
          pull]
      | ok token =>
        by_cases ht : token.kind = .endOfInput
        · simp [LexerSession.pull, LexerSession.step, Lexer.next, ofSession, hs,
            Pass.over_eq lexer.rest, pull, ht]
        · simp [LexerSession.pull, LexerSession.step, Lexer.next, ofSession, hs,
            Pass.over_eq lexer.rest, pull, ht, Lexer.moveTo]

namespace TokenStream

/-- A fresh iterator over a lexer, of which nothing is pulled yet. -/
def ofLexer (lexer : Lexer) : TokenStream :=
  { source := .ofSession { lexer } }

end TokenStream

namespace Parser

variable {s s' : TokenStream}

/-- A run that wants for a token ends in the fault that stands where the tokens end. -/
def DryAt (p : Parser α) (s : TokenStream) : Prop :=
  ∀ s', p.run s = (.error .endMissing, s') →
    ∀ fault, (p.run { s with source := ⟨s.source.tokens, some fault⟩ }).1 = .error fault

theorem dryAt_of_stays {p : Parser α} {result : Except Fault α}
    (h : ∀ s, p.run s = (result, s)) (hr : result ≠ .error .endMissing) : p.DryAt s :=
  fun _ hm => absurd (Prod.mk.inj ((h s).symm.trans hm)).1 hr

theorem eq_nil_of_peek (hf : s.source.fault = none) (h : s.peek = (.error .endMissing, s')) :
    s = .ofTokens [] := by
  obtain ⟨hp, _⟩ := of_peek_error h
  obtain ⟨⟨tokens, fault⟩, current⟩ := s
  cases current <;> simp_all [pending, ofTokens]

theorem dryAt_peek (hf : s.source.fault = none) : peek.DryAt s := by
  intro s' h fault
  rw [eq_nil_of_peek hf h]
  rfl

theorem dryAt_advance (hf : s.source.fault = none) : advance.DryAt s := by
  intro s' h fault
  cases hp : s.peek with
  | mk result s₁ =>
    cases result with
    | ok t => simp [advance, TokenStream.advance, hp] at h
    | error fault' =>
      simp only [advance, TokenStream.advance, hp, Prod.mk.injEq, Except.error.injEq] at h
      rw [eq_nil_of_peek hf (h.1 ▸ hp)]
      rfl

theorem dryAt_bind {p : Parser α} {f : α → Parser β} (hm : Made p) (hp : p.DryAt s)
    (hs : s.source.fault = none)
    (hf : ∀ a s', p.run s = (.ok a, s') → s'.source.fault = none → (f a).DryAt s') :
    (p >>= f).DryAt s := by
  intro s₂ hr fault
  cases hrun : p.run s with
  | mk first s₁ =>
    cases first with
    | error fault' =>
      rw [run_bind_error hrun] at hr
      obtain ⟨hd, rfl⟩ := Prod.mk.inj hr
      obtain rfl := Except.error.inj hd
      have hfirst := hp _ hrun fault
      rw [run_bind_error (Prod.ext hfirst rfl)]
    | ok a =>
      rw [run_bind_ok hrun] at hr
      -- The first part pulls the same tokens in front of the fault as in front of nothing.
      obtain ⟨hn, pulled, ht, hl⟩ := hm.localAt hs _ _ hrun (by simp)
      have hfirst := hl ⟨s₁.source.tokens, some fault⟩
      rw [← ht] at hfirst
      rw [run_bind_ok hfirst]
      exact hf a s₁ hrun hn s₂ hr fault

theorem Made.dryAt {p : Parser α} (h : Made p) (hf : s.source.fault = none) : p.DryAt s :=
  h.induct_at (fun hs hr _ => dryAt_of_stays hs hr) dryAt_peek dryAt_advance dryAt_bind hf

theorem Made.run_append {p : Parser α} (h : Made p) (hf : s.source.fault = none)
    {result : Except Fault α} (hr : p.run s = (result, s')) (hm : result ≠ .error .endMissing)
    (more : Source) :
    p.run { s with source := ⟨s.source.tokens ++ more.tokens, more.fault⟩ } =
      (result, { s' with source := ⟨s'.source.tokens ++ more.tokens, more.fault⟩ }) := by
  obtain ⟨_, pulled, ht, hl⟩ := h.localAt hf _ _ hr hm
  rw [ht, List.append_assoc]
  exact hl ⟨s'.source.tokens ++ more.tokens, more.fault⟩

theorem keeps_faultless {p : Parser α} (h : Made p) :
    p.Keeps (fun s => s.source.fault = none) fun fault =>
      (∃ problem, fault = .problem problem) ∨ fault = .endMissing := by
  apply keeps_of_peek h
  · intro s s' t hf hp
    have hs := (pending_of_peek hp).2.2.trans hf
    exact ⟨hs, fun _ => hs⟩
  · intro s s' fault hf hp
    obtain ⟨_, hs | ⟨_, hm⟩⟩ := of_peek_error hp
    · rw [hf] at hs
      cases hs
    · exact .inr hm
  · exact fun problem => .inl ⟨problem, rfl⟩

end Parser

namespace Lexer

/-- The program in the text ahead. Each token is scanned when the parser needs it. -/
def readLazily (levels : Nat) (lexer : Lexer) : Except Fault Program :=
  ((programWithin levels).run (.ofLexer lexer)).1

/-- The program in the text ahead. All tokens are scanned before the parser starts. -/
def readAtOnce (levels : Nat) (lexer : Lexer) : Except Fault Program := do
  let tokens ← lexer.tokenize.1
  ((programWithin levels).run (.ofTokens tokens)).1

end Lexer

/-- What a lexer yields up to a fault, and what the parser makes of just that. -/
theorem read_of_fault (levels : Nat) {yielded : List Token} {fault : Fault}
    (he : EndsIn (some fault) { source := ⟨yielded, some fault⟩ }) :
    match ((programWithin levels).run (.ofTokens yielded)).1 with
    | .error (.problem problem) =>
      ∀ more : Source, ((programWithin levels).run
        { source := ⟨yielded ++ more.tokens, more.fault⟩ }).1 = .error (.problem problem)
    | result => result = .error .endMissing ∧
      ((programWithin levels).run { source := ⟨yielded, some fault⟩ }).1 = .error fault := by
  have hm := Made.programWithin levels
  have hk := keeps_faultless hm (.ofTokens yielded) rfl
  cases hr : (programWithin levels).run (.ofTokens yielded) with
  | mk result s =>
    have happend := hm.run_append (s := .ofTokens yielded) rfl hr
    rw [hr] at hk
    cases result with
    | ok program =>
      -- A program would be read from the lexer too, past a fault.
      have hlazy := happend (by simp) ⟨[], some fault⟩
      rw [List.append_nil] at hlazy
      cases final_of_run he hlazy
    | error fault' =>
      obtain ⟨problem, rfl⟩ | rfl := hk
      · exact fun more => congrArg Prod.fst (happend (by simp) more)
      · exact ⟨rfl, hm.dryAt (s := .ofTokens yielded) rfl s hr fault⟩

/-- Without a fault in the text it makes no difference when its tokens are scanned. A fault is what
reading at once ends in, and lazy reading too, unless the parser meets a problem in the tokens in
front of it; that problem it meets there whatever follows. -/
theorem read_lazily_or_at_once (levels : Nat) (lexer : Lexer) :
    (∀ session : LexerSession, (Source.ofSession session).pull =
      (session.pull.1, .ofSession session.pull.2)) ∧
    (∀ text, Program.ofText text = (Lexer.ofText text).readLazily maxLevels) ∧
    let yielded := (Pass.over lexer.rest).tokens
    match lexer.tokenize.1 with
    | .ok tokens => tokens = yielded ∧ lexer.readLazily levels = lexer.readAtOnce levels
    | .error fault =>
      lexer.readAtOnce levels = .error fault ∧
      (∀ program, lexer.readLazily levels ≠ .ok program) ∧
      match ((programWithin levels).run (.ofTokens yielded)).1 with
      | .error (.problem problem) =>
        lexer.readLazily levels = .error (.problem problem) ∧
        ∀ more : Source, ((programWithin levels).run
          { source := ⟨yielded ++ more.tokens, more.fault⟩ }).1 = .error (.problem problem)
      | result => result = .error .endMissing ∧ lexer.readLazily levels = .error fault := by
  refine ⟨Source.pull_ofSession, fun _ => rfl, ?_⟩
  have hof := Pass.over_of lexer.rest
  have hs : TokenStream.ofLexer lexer =
      { source := ⟨(Pass.over lexer.rest).tokens, (Pass.over lexer.rest).fault⟩ } := rfl
  simp only [Lexer.readLazily, Lexer.readAtOnce, Lexer.tokenize, Pass.result, hs]
  cases hf : (Pass.over lexer.rest).fault with
  | none => exact ⟨rfl, rfl⟩
  | some fault =>
    have he : EndsIn (some fault) { source := ⟨(Pass.over lexer.rest).tokens, some fault⟩ } := by
      simpa only [hf] using hof.endsIn
    refine ⟨rfl, ?_, ?_⟩
    · intro program hr
      cases final_of_run he (Prod.ext hr rfl)
    · have hread := read_of_fault levels he
      split <;> rename_i heq
      · simp only [heq] at hread
        have hlazy := hread ⟨[], some fault⟩
        rw [List.append_nil] at hlazy
        exact ⟨hlazy, hread⟩
      · split at hread
        · rename_i problem hp
          exact absurd hp (heq problem)
        · exact hread

/-- The stray parenthesis is met in front of the stray character, and the other way round. -/
example :
    (Lexer.ofText ") $").readLazily 1 = .error (.problem (.noExpression "')'")) ∧
      (Lexer.ofText "! $ )").readLazily 1 = .error (.problem (.unexpectedCharacter "$")) := by
  constructor <;> with_unfolding_all rfl

end ExprLang
