import ExprLang.Proofs.ParserOutcomes

/-!
Precedence climbing in two steps. The operators behind an expression are those that bind tighter
than a threshold. To read them is to read those that bind tighter than another threshold first, and
then to go on from there; what stays current in the end does not bind tighter than the threshold.
-/

namespace ExprLang

open ExprLang.Parser TokenStream

theorem TokenStream.peek_of_peek {s s' : TokenStream} {t : Token} (h : s.peek = (.ok t, s')) :
    s'.peek = (.ok t, s') := by
  simp only [peek, current_of_peek h]

namespace Parser

theorem bind_bind {α β γ : Type} (p : Parser α) (f : α → Parser β) (g : β → Parser γ) :
    p >>= f >>= g = p >>= fun a => f a >>= g := by
  apply ext
  intro s
  cases hp : p.run s with
  | mk result s₁ =>
    cases result with
    | ok a =>
      rw [run_bind_ok hp]
      cases hf : (f a).run s₁ with
      | mk result s₂ =>
        have hpf := (run_bind_ok hp).trans hf
        cases result with
        | ok b => rw [run_bind_ok hpf, run_bind_ok hf]
        | error fault => rw [run_bind_error hpf, run_bind_error hf]
    | error fault => rw [run_bind_error hp, run_bind_error (run_bind_error hp)]

section
variable {α : Type} {accepts fewer : TokenKind → Bool} {step : α → Token → Parser α}

section
variable (h : ∀ kind, fewer kind = true → accepts kind = true) {a b : α} {s s' : TokenStream}

include h

theorem goes_on_of_fewer {t : Token} (hc : (fewer t.kind && t.kind ≠ .endOfInput) = true) :
    (accepts t.kind && t.kind ≠ .endOfInput) = true := by
  rw [Bool.and_eq_true_iff] at hc ⊢
  exact ⟨h _ hc.1, hc.2⟩

theorem repeatRun_of_ok (hr : repeatRun fewer step a s = (.ok b, s')) :
    repeatRun accepts step a s = repeatRun accepts step b s' := by
  fun_induction repeatRun fewer step a s with
  | case1 | case2 => cases (Prod.mk.inj hr).1
  | case3 a s t s₁ hp hc a' s₂ hs hlt ih =>
    simp only [repeatRun_eq a s, hp, if_pos (goes_on_of_fewer h hc), hs, ih hr]
  | case4 a s t s₁ hp hc =>
    obtain ⟨ha, rfl⟩ := Prod.mk.inj hr
    obtain rfl := Except.ok.inj ha
    simp only [repeatRun_eq a s, repeatRun_eq a s₁, hp, peek_of_peek hp]

theorem repeatRun_of_error {fault : Fault} (hr : repeatRun fewer step a s = (.error fault, s')) :
    repeatRun accepts step a s = (.error fault, s') := by
  fun_induction repeatRun fewer step a s with
  | case1 a s fault s₁ hp =>
    rw [← hr]
    simp only [repeatRun_eq a s, hp]
  | case2 a s t s₁ hp hc fault s₂ hs =>
    rw [← hr]
    simp only [repeatRun_eq a s, hp, if_pos (goes_on_of_fewer h hc), hs]
  | case3 a s t s₁ hp hc a' s₂ hs hlt ih =>
    simp only [repeatRun_eq a s, hp, if_pos (goes_on_of_fewer h hc), hs, ih hr]
  | case4 => cases (Prod.mk.inj hr).1

/-- A loop that is left early and then taken up again goes on as if it had not been left. -/
theorem repeatWhile_of_fewer (a : α) :
    repeatWhile fewer step a >>= repeatWhile accepts step = repeatWhile accepts step a := by
  apply ext
  intro s
  cases hr : (repeatWhile fewer step a).run s with
  | mk result s' =>
    cases result with
    | ok b => exact (run_bind_ok hr).trans (repeatRun_of_ok h hr).symm
    | error fault => exact (run_bind_error hr).trans (repeatRun_of_error h hr).symm

end

/-- A loop ends in front of a token that it does not accept, and which stays current. -/
theorem current_of_repeatWhile {a b : α} {s s' : TokenStream}
    (h : (repeatWhile accepts step a).run s = (.ok b, s')) :
    ∃ t, s'.current = some t ∧ (accepts t.kind = true → t.kind = .endOfInput) := by
  change repeatRun accepts step a s = (.ok b, s') at h
  fun_induction repeatRun accepts step a s with
  | case1 | case2 => cases (Prod.mk.inj h).1
  | case3 a s t s₁ hp hc a' s₂ hs hlt ih => exact ih h
  | case4 a s t s₁ hp hc =>
    obtain ⟨_, rfl⟩ := Prod.mk.inj h
    refine ⟨t, current_of_peek hp, fun ha => ?_⟩
    by_contra hne
    exact hc (by simp [ha, hne])

end

section
variable {α : Type} {p : Parser α} {s s' : TokenStream} {a : α}

/-- Made parsers consume tokens from the front only. -/
theorem Made.pending_suffix (h : Made p) (hr : p.run s = (.ok a, s')) :
    s'.pending <:+ s.pending := by
  have hk : p.Keeps (fun s' => s'.pending <:+ s.pending) fun _ => True := by
    apply keeps_of_peek h
    · intro s₁ s₂ t hs hp
      obtain ⟨hsame, hd, _⟩ := pending_of_peek hp
      refine ⟨hsame ▸ hs, fun _ => ?_⟩
      exact (hd ▸ List.suffix_cons t _).trans hs
    · exact fun _ _ => trivial
    · exact fun _ => trivial
  have hs := hk s (List.suffix_refl _)
  rwa [hr] at hs

/-- A token that is taken is consumed, unless it is the end of the input. -/
theorem pending_of_take {accepts : TokenKind → Bool} {problem : Token → Problem} {t : Token}
    (ha : accepts .endOfInput = false) (h : (take accepts problem).run s = (.ok t, s')) :
    s.pending = t :: s'.pending := by
  obtain ⟨u, s₁, hp, hr⟩ := of_run_bind h
  obtain ⟨_, hd, _⟩ := pending_of_peek hp
  split at hr
  · rename_i hu
    have hk : u.kind ≠ .endOfInput := fun hk => by
      rw [hk, ha] at hu
      cases hu
    simp only [advance, TokenStream.advance, peek_of_peek hp, if_neg hk] at hr
    obtain ⟨ht, rfl⟩ := Prod.mk.inj hr
    rw [← Except.ok.inj ht]
    exact hd
  · cases (Prod.mk.inj hr).1

end

section
variable {inner : Inner} {power tighter : Precedence}

theorem climb_climb (h : power ≤ tighter) (left : Expr) :
    climb inner tighter left >>= climb inner power = climb inner power left := by
  apply repeatWhile_of_fewer
  intro kind hk
  have hlt : tighter.toNat < kind.precedence.toNat := of_decide_eq_true hk
  exact decide_eq_true (Nat.lt_of_le_of_lt h hlt)

/-- The operand is read once, and the operators behind it in two loops instead of one. -/
theorem expression_climb (h : power ≤ tighter) :
    expression inner tighter >>= climb inner power = expression inner power := by
  simp only [expression, exprFrom, bind_bind, climb_climb h]

theorem run_expression_eq (h : power ≤ tighter) (s : TokenStream) :
    (expression inner power).run s =
      match (expression inner tighter).run s with
      | (.ok left, s₁) => (climb inner power left).run s₁
      | (.error fault, s₁) => (.error fault, s₁) := by
  rw [← expression_climb h]
  split <;> rename_i hr
  · exact run_bind_ok hr
  · exact run_bind_error hr

end

/-- An expression takes its first token, and ends in front of one that does not bind tighter than
the threshold. -/
theorem of_run_expression {levels : Nat} {power : Precedence} {s s' : TokenStream} {e : Expr}
    (h : (expression (level levels) power).run s = (.ok e, s')) :
    ∃ consumed t behind, consumed ≠ [] ∧ s.pending = consumed ++ t :: behind ∧
      s'.pending = t :: behind ∧ s'.current = some t ∧ t.kind.precedence ≤ power := by
  obtain ⟨he, hs⟩ := Made.level levels
  obtain ⟨first, s₁, ht, hr⟩ := of_run_bind h
  obtain ⟨left, s₂, ho, hc⟩ := of_run_bind hr
  obtain ⟨t, hcur, ha⟩ := current_of_repeatWhile hc
  have hp : s'.pending = t :: s'.source.tokens := by
    simp [pending, hcur]
  obtain ⟨passed, hpassed⟩ := (Made.exprFrom he hs power first).pending_suffix hr
  refine ⟨first :: passed, t, s'.source.tokens, by simp, ?_, hp, hcur, ?_⟩
  · rw [pending_of_take rfl ht, ← hpassed, hp, List.cons_append]
  · apply Nat.le_of_not_lt
    intro hlt
    have hk := ha (decide_eq_true hlt)
    rw [hk] at hlt
    cases power <;> exact absurd hlt (by decide)

end Parser

/-- To read an expression at a threshold is to read one at a higher threshold and to go on from
there: the tree, what is left of the stream and the problem are the same. At least one token is
consumed, and what is then current continues no expression or binds no tighter than the
threshold. -/
theorem climbing_goes_on (levels : Nat) {power tighter : Precedence} (h : power ≤ tighter) :
    let inner := level levels
    (∀ s, (expression inner power).run s =
      match (expression inner tighter).run s with
      | (.ok left, s₁) => (climb inner power left).run s₁
      | (.error fault, s₁) => (.error fault, s₁)) ∧
    ∀ s e s', (expression inner power).run s = (.ok e, s') →
      ∃ consumed t behind, consumed ≠ [] ∧ s.pending = consumed ++ t :: behind ∧
        s'.pending = t :: behind ∧ s'.current = some t ∧
        ∀ power', t.kind.power? = some power' → power' ≤ power := by
  refine ⟨run_expression_eq h, ?_⟩
  intro s e s' hr
  obtain ⟨consumed, t, behind, hne, hs, hs', hcur, hle⟩ := of_run_expression hr
  refine ⟨consumed, t, behind, hne, hs, hs', hcur, ?_⟩
  intro power' hp
  rwa [TokenKind.precedence_eq, hp, Option.getD_some] at hle

/-- A product is what is read at the threshold of sums, and the sum goes on from there. -/
theorem climbing_goes_on_sum :
    let name := Token.sample .name
    let s : TokenStream := .ofTokens [name, .sample .star, name, .sample .plus, name, .endOfInput]
    let x : Expr := .name name.text?
    let product : Expr := .binary .star x (some x)
    Precedence.lowest ≤ .sum ∧
      (expression (level 1) .lowest).run s =
        (climb (level 1) .lowest product).run (looking (.sample .plus) [name, .endOfInput]) ∧
      ((expression (level 1) .lowest).run s).1 = .ok (.binary .plus product (some x)) := by
  intro name s x product
  have h : Precedence.lowest ≤ .sum := by decide
  have hproduct : (expression (level 1) .sum).run s =
      (.ok product, looking (.sample .plus) [name, .endOfInput]) := by
    with_unfolding_all rfl
  have hgo := (climbing_goes_on 1 h).1 s
  rw [hproduct] at hgo
  refine ⟨h, hgo, ?_⟩
  with_unfolding_all rfl

end ExprLang
