import ExprLang.Proofs.ParserRuns

/-!
A run depends on no more of its source than the tokens that it pulls. This holds of every parser
that is put together from the ones that look at a token or consume it.
-/

namespace ExprLang

open TokenStream

namespace Parser

variable {α β : Type}

/-- Parsers made of the basic ones, in sequence and in loops. -/
inductive Made : {α : Type} → Parser α → Prop where
  | pure {α : Type} (a : α) : Made (Pure.pure a)
  | bind {α β : Type} {p : Parser α} {f : α → Parser β} (hp : Made p) (hf : ∀ a, Made (f a)) :
      Made (p >>= f)
  | fail {α : Type} (problem : Problem) : Made (Parser.fail (α := α) problem)
  | peek : Made Parser.peek
  | advance : Made Parser.advance
  | repeatWhile {α : Type} {accepts : TokenKind → Bool} {step : α → Token → Parser α} (a : α)
      (hs : ∀ a t, Made (step a t)) : Made (Parser.repeatWhile accepts step a)

namespace Made

theorem ite {c : Prop} [Decidable c] {p q : Parser α} (hp : Made p) (hq : Made q) :
    Made (if c then p else q) := by
  split
  · exact hp
  · exact hq

theorem take (accepts : TokenKind → Bool) (problem : Token → Problem) :
    Made (Parser.take accepts problem) :=
  peek.bind fun _ => advance.ite (fail _)

theorem expect (kind : TokenKind) : Made (Parser.expect kind) :=
  take _ _

theorem skip (kind : TokenKind) : Made (Parser.skip kind) :=
  peek.bind fun _ => (advance.bind fun _ => pure _).ite (pure _)

theorem many {accepts : TokenKind → Bool} {item : Token → Parser α} (hi : ∀ t, Made (item t)) :
    Made (Parser.many accepts item) :=
  (repeatWhile _ fun _ t => (hi t).bind fun _ => pure _).bind fun _ => pure _

theorem commaList {item : Parser α} (hi : Made item) : Made (Parser.commaList item) := by
  have hc : ∀ items : List α, Made (do let _ ← Parser.expect .closeParen; Pure.pure items) :=
    fun items => (expect _).bind fun _ => pure _
  apply peek.bind
  intro token
  apply ite
  · exact (pure _).bind hc
  · exact hi.bind fun _ => (many fun _ => hi).bind fun _ => (pure _).bind hc

section
variable {inner : Inner} (he : ∀ power, Made (inner.expr power)) (hs : Made inner.statements)
include he

theorem operand (op : Token) (power : Precedence) : Made (Parser.operand inner op power) :=
  peek.bind fun _ => (he _).ite (fail _)

theorem extend (left : Expr) (op : Token) : Made (Parser.extend inner left op) :=
  ((commaList (he _)).bind fun _ => pure _).ite ((operand he op _).bind fun _ => pure _)

theorem climb (power : Precedence) (left : Expr) : Made (Parser.climb inner power left) :=
  repeatWhile _ fun left op => extend he left op

omit he in
theorem boundName : Made Parser.boundName :=
  (expect _).bind fun _ => pure _

include hs

omit he in
theorem blockBody : Made (Parser.blockBody inner) :=
  hs.bind fun _ => (take _ _).bind fun _ => pure _

omit he in
theorem block : Made (Parser.block inner) :=
  (expect _).bind fun _ => blockBody hs

theorem conditional : Made (Parser.conditional inner) := by
  apply (expect _).bind
  intro _
  apply (he _).bind
  intro condition
  apply (expect _).bind
  intro _
  apply (block hs).bind
  intro consequence
  apply (skip _).bind
  intro found
  exact ((block hs).bind fun _ => pure _).ite (pure _)

omit he in
theorem functionLiteral : Made (Parser.functionLiteral inner) :=
  (expect _).bind fun _ => (commaList boundName).bind fun _ => (block hs).bind fun _ => pure _

theorem operandFrom (token : Token) : Made (Parser.operandFrom inner token) := by
  unfold Parser.operandFrom
  split
  · exact pure _
  · exact pure _
  · exact pure _
  · exact pure _
  · exact (operand he token _).bind fun _ => pure _
  · exact (operand he token _).bind fun _ => pure _
  · exact (he _).bind fun _ => (expect _).bind fun _ => pure _
  · exact conditional he hs
  · exact functionLiteral hs
  · exact fail _

theorem exprFrom (power : Precedence) (token : Token) : Made (Parser.exprFrom inner power token) :=
  (operandFrom he hs token).bind fun left => climb he power left

theorem expression (power : Precedence) : Made (Parser.expression inner power) :=
  (take _ _).bind fun token => exprFrom he hs power token

theorem bareStmt (token : Token) : Made (Parser.bareStmt inner token) := by
  unfold Parser.bareStmt
  split
  · exact boundName.bind fun _ => (expect _).bind fun _ => (expression he hs _).bind fun _ => pure _
  · exact peek.bind fun _ => (pure _).ite ((expression he hs _).bind fun _ => pure _)
  · exact (blockBody hs).bind fun _ => pure _
  · exact (exprFrom he hs _ token).bind fun _ => pure _

theorem statements : Made (Parser.statements inner) :=
  many fun token => (bareStmt he hs token).bind fun _ => (skip _).bind fun _ => pure _

end

theorem level (n : Nat) :
    (∀ power, Made ((Parser.level n).expr power)) ∧ Made (Parser.level n).statements := by
  induction n with
  | zero => exact ⟨fun _ => fail _, fail _⟩
  | succ n ih => exact ⟨fun power => expression ih.1 ih.2 power, statements ih.1 ih.2⟩

theorem programWithin (levels : Nat) : Made (Parser.programWithin levels) :=
  (statements (level levels).1 (level levels).2).bind fun _ => (take _ _).bind fun _ => pure _

end Made

/-- Whatever else follows the tokens that a run pulls, the run ends in the same way, and leaves what
follows as it is. -/
def LocalAt (p : Parser α) (s : TokenStream) : Prop :=
  ∀ result s', p.run s = (result, s') → result ≠ .error .endMissing →
    s'.source.fault = none ∧ ∃ pulled, s.source.tokens = pulled ++ s'.source.tokens ∧
      ∀ more : Source, p.run { s with source := ⟨pulled ++ more.tokens, more.fault⟩ } =
        (result, { s' with source := more })

section
variable {s : TokenStream}

theorem localAt_of_stays {p : Parser α} {result : Except Fault α}
    (h : ∀ s, p.run s = (result, s)) (hf : s.source.fault = none) : p.LocalAt s := by
  intro r s' hr _
  rw [h] at hr
  obtain ⟨rfl, rfl⟩ := Prod.mk.inj hr
  exact ⟨hf, [], rfl, fun more => h _⟩

theorem localAt_bind {p : Parser α} {f : α → Parser β} (hp : p.LocalAt s)
    (hf : ∀ a s', p.run s = (.ok a, s') → s'.source.fault = none → (f a).LocalAt s') :
    (p >>= f).LocalAt s := by
  intro result s₂ hr hm
  cases hrun : p.run s with
  | mk first s₁ =>
    cases first with
    | error fault =>
      rw [run_bind_error hrun] at hr
      obtain ⟨rfl, rfl⟩ := Prod.mk.inj hr
      have hm' : Except.error fault ≠ (.error .endMissing : Except Fault α) := fun he =>
        hm (congrArg Except.error (Except.error.inj he))
      obtain ⟨hn, pulled, ht, hl⟩ := hp _ _ hrun hm'
      exact ⟨hn, pulled, ht, fun more => run_bind_error (hl more)⟩
    | ok a =>
      rw [run_bind_ok hrun] at hr
      obtain ⟨hn₁, pulled₁, ht₁, hl₁⟩ := hp _ _ hrun (by simp)
      obtain ⟨hn₂, pulled₂, ht₂, hl₂⟩ := hf a s₁ hrun hn₁ _ _ hr hm
      refine ⟨hn₂, pulled₁ ++ pulled₂, by rw [ht₁, ht₂, List.append_assoc], ?_⟩
      intro more
      rw [List.append_assoc, run_bind_ok (hl₁ ⟨pulled₂ ++ more.tokens, more.fault⟩)]
      exact hl₂ more

theorem localAt_peek (hf : s.source.fault = none) : peek.LocalAt s := by
  obtain ⟨⟨tokens, fault⟩, current⟩ := s
  obtain rfl : fault = none := hf
  intro result s' hr hm
  cases current with
  | some t =>
    obtain ⟨rfl, rfl⟩ := Prod.mk.inj hr
    exact ⟨rfl, [], rfl, fun more => rfl⟩
  | none =>
    cases tokens with
    | nil =>
      obtain ⟨rfl, rfl⟩ := Prod.mk.inj hr
      exact absurd rfl hm
    | cons t tokens =>
      obtain ⟨rfl, rfl⟩ := Prod.mk.inj hr
      exact ⟨rfl, [t], rfl, fun more => rfl⟩

theorem localAt_advance (hf : s.source.fault = none) : advance.LocalAt s := by
  intro result s' hr hm
  cases hp : s.peek with
  | mk first s₁ =>
    have hne : first ≠ .error .endMissing := by
      rintro rfl
      simp only [advance, TokenStream.advance, hp] at hr
      exact hm (Prod.mk.inj hr).1.symm
    obtain ⟨hn, pulled, ht, hl⟩ := localAt_peek hf first s₁ hp hne
    have hpeek (more : Source) :
        TokenStream.peek { s with source := ⟨pulled ++ more.tokens, more.fault⟩ } =
          (first, { s₁ with source := more }) := hl more
    cases first with
    | error fault =>
      simp only [advance, TokenStream.advance, hp] at hr
      obtain ⟨rfl, rfl⟩ := Prod.mk.inj hr
      refine ⟨hn, pulled, ht, fun more => ?_⟩
      simp only [advance, TokenStream.advance, hpeek]
    | ok t =>
      by_cases hk : t.kind = .endOfInput
      · simp only [advance, TokenStream.advance, hp, if_pos hk] at hr
        obtain ⟨rfl, rfl⟩ := Prod.mk.inj hr
        refine ⟨hn, pulled, ht, fun more => ?_⟩
        simp only [advance, TokenStream.advance, hpeek, if_pos hk]
      · simp only [advance, TokenStream.advance, hp, if_neg hk] at hr
        obtain ⟨rfl, rfl⟩ := Prod.mk.inj hr
        refine ⟨hn, pulled, ht, fun more => ?_⟩
        simp only [advance, TokenStream.advance, hpeek, if_neg hk, drop]

/-- Induction along a run. What holds of the basic parsers wherever a stream has no fault, and of a
sequence if it holds of its parts where they run, holds of every made parser. -/
theorem Made.induct_at {P : {α : Type} → Parser α → TokenStream → Prop}
    (stays : ∀ {α : Type} {p : Parser α} {result : Except Fault α} {s : TokenStream},
      (∀ s, p.run s = (result, s)) → result ≠ .error .endMissing → s.source.fault = none → P p s)
    (peek : ∀ {s : TokenStream}, s.source.fault = none → P Parser.peek s)
    (advance : ∀ {s : TokenStream}, s.source.fault = none → P Parser.advance s)
    (bind : ∀ {α β : Type} {p : Parser α} {f : α → Parser β} {s : TokenStream}, Made p → P p s →
      s.source.fault = none →
      (∀ a s', p.run s = (.ok a, s') → s'.source.fault = none → P (f a) s') → P (p >>= f) s)
    {p : Parser α} (h : Made p) {s : TokenStream} (hf : s.source.fault = none) : P p s := by
  induction h generalizing s with
  | pure a => exact stays (fun _ => rfl) (by simp) hf
  | bind hp _ ihp ihf => exact bind hp (ihp hf) hf fun a s' _ hf' => ihf a hf'
  | fail problem => exact stays (fun _ => rfl) (by simp) hf
  | peek => exact peek hf
  | advance => exact advance hf
  | @repeatWhile α accepts step a hs ih =>
    induction hl : s.size using Nat.strongRecOn generalizing s a with
    | ind n ihn =>
      rw [repeatWhile_eq]
      apply bind .peek (peek hf) hf
      intro t s₁ hp hf₁
      by_cases ht : (accepts t.kind && t.kind ≠ .endOfInput) = true
      · have he := of_decide_eq_true (Bool.and_eq_true_iff.mp ht).2
        rw [if_pos ht]
        apply bind .advance (advance hf₁) hf₁
        intro u s₂ ha hf₂
        -- The token that was looked at is gone, so the next round starts on fewer tokens.
        have hlt : s₂.size < n := by
          have hd : Parser.advance.run s₁ = (.ok t, s₁.drop) := by
            simp [Parser.advance, TokenStream.advance, TokenStream.peek, current_of_peek hp, he]
          obtain ⟨_, rfl⟩ := Prod.mk.inj (ha.symm.trans hd)
          exact hl ▸ size_drop_lt hp
        apply bind (hs a t) (ih a t hf₂) hf₂
        intro b s₃ hb hf₃
        have hle := (step a t).size_run_le s₂
        rw [hb] at hle
        exact ihn s₃.size (Nat.lt_of_le_of_lt hle hlt) b hf₃ rfl
      · rw [if_neg ht]
        exact stays (fun _ => rfl) (by simp) hf₁

theorem Made.localAt {p : Parser α} (h : Made p) (hf : s.source.fault = none) : p.LocalAt s :=
  h.induct_at (fun hs _ => localAt_of_stays hs) localAt_peek localAt_advance
    (fun _ hp _ hf => localAt_bind hp hf) hf

end

end Parser

end ExprLang
