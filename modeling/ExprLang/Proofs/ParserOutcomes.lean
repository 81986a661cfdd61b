import ExprLang.Proofs.LexicalGrammar
import ExprLang.Proofs.ParsedPrograms
import ExprLang.Proofs.RenderedMeaning

/-!
What the parser makes of any tokens at all: a whole tree, a problem of the grammar, or the fault of
tokens without an end. The rules for what stands behind an expression may be kept in a table: it has
a rule for each kind that is looked up in it.
-/

namespace ExprLang

open ExprLang.Parser TokenStream

/-- The binding powers as a table. What continues no expression is not in it. -/
def TokenKind.power? : TokenKind → Option Precedence
  | equal | notEqual => some .equality
  | less | greater => some .comparison
  | plus | minus => some .sum
  | star | slash => some .product
  | openParen => some .call
  | _ => none

theorem TokenKind.precedence_eq (kind : TokenKind) :
    kind.precedence = kind.power?.getD .lowest := by
  cases kind <;> rfl

theorem TokenKind.power?_eq_some {kind : TokenKind} {power : Precedence}
    (h : power < kind.precedence) : kind.power? = some kind.precedence := by
  cases hk : kind.power? with
  | some p => rw [precedence_eq, hk, Option.getD_some]
  | none =>
    rw [precedence_eq, hk, Option.getD_none] at h
    cases power <;> exact absurd h (by decide)

namespace Parser

/-- An expression extended by the rule in the table; `missing` is a look-up that fails. -/
def extendByTable (missing : Token → Parser Expr) (inner : Inner) (left : Expr) (op : Token) :
    Parser Expr :=
  match op.kind.power? with
  | none => missing op
  | some power => do
    if op.kind = .openParen then
      return .call left (← commaList (inner.expr .lowest))
    else
      return .binary op.kind left (some (← operand inner op power))

/-- An expression extended by all operators that bind tighter than a threshold, by the table. -/
def climbByTable (missing : Token → Parser Expr) (inner : Inner) (power : Precedence)
    (left : Expr) : Parser Expr :=
  repeatWhile (power < ·.power?.getD .lowest) (extendByTable missing inner) left

section
variable {α : Type} {accepts : TokenKind → Bool} {step step' : α → Token → Parser α}

theorem repeatRun_eq (a : α) (s : TokenStream) :
    repeatRun accepts step a s =
      match s.peek with
      | (.error fault, s₁) => (.error fault, s₁)
      | (.ok t, s₁) =>
        if accepts t.kind && t.kind ≠ .endOfInput then
          match (step a t).run s₁.drop with
          | (.error fault, s₂) => (.error fault, s₂)
          | (.ok a', s₂) => repeatRun accepts step a' s₂
        else (.ok a, s₁) := by
  rw [repeatRun.eq_def]
  split <;> rename_i hp
  · simp only [hp]
  · simp only [hp]
    split
    · split <;> rename_i hs <;> simp only [hs]
    · rfl

theorem repeatRun_congr (h : ∀ a t, accepts t.kind = true → step a t = step' a t) (a : α)
    (s : TokenStream) : repeatRun accepts step a s = repeatRun accepts step' a s := by
  fun_induction repeatRun accepts step a s with
  | case1 a s fault s₁ hp => rw [repeatRun_eq, hp]
  | case2 a s t s₁ hp hc fault s₂ hs =>
    rw [h a t (Bool.and_eq_true_iff.mp hc).1] at hs
    simp only [repeatRun_eq a s, hp, if_pos hc, hs]
  | case3 a s t s₁ hp hc a' s₂ hs hlt ih =>
    rw [h a t (Bool.and_eq_true_iff.mp hc).1] at hs
    simp only [repeatRun_eq a s, hp, if_pos hc, hs, ih]
  | case4 a s t s₁ hp hc => simp only [repeatRun_eq a s, hp, if_neg hc]

end

theorem climbByTable_eq (missing : Token → Parser Expr) (inner : Inner) (power : Precedence)
    (left : Expr) : climbByTable missing inner power left = climb inner power left := by
  apply ext
  intro s
  simp only [climbByTable, climb, ← TokenKind.precedence_eq]
  apply repeatRun_congr
  intro left op hop
  rw [extendByTable, TokenKind.power?_eq_some (of_decide_eq_true hop)]
  rfl

end Parser

theorem Problem.Blames.code_mem {problem : Problem} {t : Token} (h : problem.Blames t) :
    problem.code ∈ ["E101", "E102", "E103", "E104", "E105"] := by
  cases problem with
  | unexpectedToken | unexpectedEnd | noExpression | missingOperand => simp [code]
  | _ => cases h

section
variable {levels : Nat} {ts : List Token}

theorem Parser.fault_of_run {fault : Fault}
    (h : ((programWithin levels).run (.ofTokens ts)).1 = .error fault) :
    (∃ problem : Problem, fault = .problem problem ∧
      problem.code ∈ ["E101", "E102", "E103", "E104", "E105"]) ∨
    fault = .endMissing ∧ ∀ t ∈ ts, t.kind ≠ .endOfInput := by
  have he := programWithin_sound levels ts (.ofTokens ts) rfl rfl
  cases hr : (programWithin levels).run (.ofTokens ts) with
  | mk result s =>
    rw [hr] at h he
    obtain rfl : result = .error fault := h
    obtain rfl | ⟨rfl, _⟩ | ⟨_, t, _, problem, _, _, _, rfl, hb⟩ := he
    · refine .inr ⟨rfl, ?_⟩
      intro t ht hk
      have hends : (TokenStream.ofTokens ts).EndsIn none :=
        ⟨rfl, fun _ => rfl, fun _ => ⟨t, ht, hk⟩⟩
      have hkeeps := keeps_endsIn (Made.programWithin levels) _ hends
      rw [hr] at hkeeps
      obtain ⟨_, hp⟩ | hn := hkeeps
      · cases hp
      · cases hn
    · exact .inl ⟨_, rfl, by decide⟩
    · exact .inl ⟨problem, rfl, hb.code_mem⟩

theorem Parser.whole_of_run {program : Program}
    (h : ((programWithin levels).run (.ofTokens ts)).1 = .ok program) :
    ∀ s ∈ program, s.Whole (.ofTokens ts) := by
  have he := programWithin_sound levels ts (.ofTokens ts) rfl rfl
  cases hr : (programWithin levels).run (.ofTokens ts) with
  | mk result s =>
    rw [hr] at h he
    obtain rfl : result = .ok program := h
    obtain ⟨_, d, t, rest, _, rfl, _, _, rfl⟩ := he
    exact d.whole fun u hu => List.mem_append_left rest hu

end

end ExprLang
