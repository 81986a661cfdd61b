import ExprLang.Proofs.ParserCompleteness
import ExprLang.Proofs.ParserSoundness
import ExprLang.Proofs.Unambiguity

/-!
The parser accepts exactly its grammar: the tokens that it accepts are those of a derivation, the
only one that obeys the boundary rule, and its tree is the result. The bound on the levels is apart.
-/

namespace ExprLang

open ExprLang.Parser TokenStream

/-- Tokens that end where the end of the input is first seen. -/
def Finished (ts : List Token) : Prop :=
  ∃ (body : List Token) (finish : Mark .endOfInput), ts = body ++ [finish.token] ∧
    ∀ t ∈ body, t.kind ≠ .endOfInput

/-- Tokens with exactly one derivation that obeys the boundary rule, which builds the program. -/
def Derived (ts : List Token) (program : Program) : Prop :=
  ∃ d : Derivation .program, d.tokens = ts ∧ d.Bounded ∧ d.tree = program ∧
    ∀ d' : Derivation .program, d'.tokens = ts → d'.Bounded → d' = d

theorem Derivation.derived {d : Derivation .program} (hb : d.Bounded) :
    Derived d.tokens d.tree :=
  ⟨d, rfl, hb, rfl, fun _ ht hb' => eq_of_tokens_eq hb' hb ht⟩

/-- Tokens of the language: with the end of the input behind them, they are derived. -/
def Valid (body : List Token) : Prop :=
  ∃ (finish : Mark .endOfInput) (program : Program), Derived (body ++ [finish.token]) program

theorem Derivation.valid {d : Derivation .statements} (hb : d.Bounded) (finish : Mark .endOfInput) :
    Valid d.tokens :=
  ⟨finish, d.tree, Derivation.derived (d := .program d finish) hb⟩

theorem Finished.eq_nil_of_append {d : Derivation .program} {rest : List Token}
    (h : Finished (d.tokens ++ rest)) : rest = [] := by
  obtain ⟨body, finish, hts, hb⟩ := h
  cases d with
  | program statements finish' =>
    rcases List.eq_nil_or_concat rest with rfl | ⟨front, last, rfl⟩
    · rfl
    · exfalso
      have hi : body ++ [finish.token] =
          (statements.tokens ++ finish'.token :: front) ++ [last] := by
        simpa [Derivation.tokens] using hts.symm
      obtain ⟨rfl, _⟩ := List.append_inj' hi rfl
      exact hb finish'.token (by simp) finish'.kind_eq

namespace Parser

theorem run_of_derivation (levels : Nat) {s : TokenStream} (d : Derivation .program)
    (hb : d.Bounded) (hf : s.source.fault = none) (hs : s.pending = d.tokens) :
    ((programWithin levels).run s).1 = .ok d.tree ∨
      levels < d.tokens.length ∧
        ((programWithin levels).run s).1 = .error (.problem .nestingTooDeepToParse) := by
  have he := d.ends_programWithin hb levels s hf hs
  split at he <;> rename_i heq <;> rw [heq]
  · exact .inl (congrArg _ he.2)
  · exact .inr ⟨he.1, congrArg _ he.2⟩

theorem derived_of_run {levels : Nat} {ts : List Token} {program : Program} (hts : Finished ts)
    (h : ((programWithin levels).run (.ofTokens ts)).1 = .ok program) : Derived ts program := by
  have he := programWithin_sound levels ts (.ofTokens ts) rfl rfl
  cases hr : (programWithin levels).run (.ofTokens ts) with
  | mk result s' =>
    rw [hr] at h he
    obtain rfl : result = .ok program := h
    obtain ⟨_, d, t, rest, hb, rfl, _, _, rfl⟩ := he
    rw [hts.eq_nil_of_append, List.append_nil]
    exact Derivation.derived hb

end Parser

/-- With enough levels the parser succeeds on just the derived tokens, and with the levels that it
has wherever they suffice. -/
theorem parse_iff_derived {ts : List Token} (hts : Finished ts) (program : Program) :
    (∀ levels, ts.length ≤ levels →
      (((programWithin levels).run (.ofTokens ts)).1 = .ok program ↔ Derived ts program)) ∧
    (Program.ofTokens ts ≠ .error (.problem .nestingTooDeepToParse) →
      (Program.ofTokens ts = .ok program ↔ Derived ts program)) := by
  constructor
  · intro levels hl
    refine ⟨derived_of_run hts, ?_⟩
    rintro ⟨d, rfl, hb, rfl, _⟩
    rcases run_of_derivation _ (s := .ofTokens d.tokens) d hb rfl rfl with hr | ⟨hlt, _⟩
    · exact hr
    · omega
  · intro hn
    refine ⟨derived_of_run hts, ?_⟩
    rintro ⟨d, rfl, hb, rfl, _⟩
    rcases run_of_derivation _ (s := .ofTokens d.tokens) d hb rfl rfl with hr | ⟨_, hr⟩
    · exact hr
    · exact absurd hr hn

theorem parse_iff_derived_call :
    let tokens : List Token :=
      [⟨.name, .text "f", "f"⟩, ⟨.openParen, .absent, "("⟩, ⟨.minus, .absent, "-"⟩,
        ⟨.number, .number 1, "1"⟩, ⟨.closeParen, .absent, ")"⟩, .endOfInput]
    Finished tokens ∧ Derived tokens
      [.expr (.call (.name (some "f")) [.unary .minus (some (.number (some 1)))])] := by
  intro tokens
  have hf : Finished tokens := by
    refine ⟨tokens.dropLast, ⟨.endOfInput, rfl⟩, rfl, ?_⟩
    decide
  have hr : ((programWithin 6).run (.ofTokens tokens)).1 =
      .ok [.expr (.call (.name (some "f")) [.unary .minus (some (.number (some 1)))])] := by
    with_unfolding_all rfl
  exact ⟨hf, ((parse_iff_derived hf _).1 6 (Nat.le_refl 6)).mp hr⟩

end ExprLang
