import ExprLang.Parser.Grammar

/-!
What runs of parsers end in. A statement `p.Ends ts good bad` is about all runs of `p` on the tokens
`ts`; there is a rule for each way in which parsers are put together.
-/

namespace ExprLang

namespace TokenStream

def pending (s : TokenStream) : List Token :=
  s.current.toList ++ s.source.tokens

def looking (t : Token) (ts : List Token) : TokenStream :=
  { source := { tokens := ts }, current := some t }

theorem peek_cons {s : TokenStream} {t : Token} {ts : List Token} (hf : s.source.fault = none)
    (hs : s.pending = t :: ts) : s.peek = (.ok t, looking t ts) := by
  obtain ⟨⟨tokens, fault⟩, current⟩ := s
  cases current <;> simp_all [pending, peek, Source.pull, looking]

theorem peek_nil {s : TokenStream} (hf : s.source.fault = none) (hs : s.pending = []) :
    s.peek = (.error .endMissing, ofTokens []) := by
  obtain ⟨⟨tokens, fault⟩, current⟩ := s
  cases current <;> simp_all [pending, peek, Source.pull, ofTokens]

end TokenStream

open TokenStream

namespace Parser

variable {α β : Type}

section
variable {p : Parser α} {f : α → Parser β} {s s' : TokenStream}

theorem run_bind_ok {a : α} (h : p.run s = (.ok a, s')) : (p >>= f).run s = (f a).run s' := by
  simp only [bind, h]

theorem run_bind_error {fault : Fault} (h : p.run s = (.error fault, s')) :
    (p >>= f).run s = (.error fault, s') := by
  simp only [bind, h]

end

theorem ext {p q : Parser α} (h : ∀ s, p.run s = q.run s) : p = q := by
  cases p
  cases q
  congr
  exact funext h

theorem repeatWhile_eq (accepts : TokenKind → Bool) (step : α → Token → Parser α) (a : α) :
    repeatWhile accepts step a = (do
      let token ← peek
      if accepts token.kind && token.kind ≠ .endOfInput then
        let _ ← advance
        repeatWhile accepts step (← step a token)
      else pure a) := by
  apply ext
  intro s
  simp only [repeatWhile]
  rw [repeatRun.eq_def]
  split
  · rename_i hp
    rw [run_bind_error hp]
  · rename_i token s₁ hp
    rw [run_bind_ok hp]
    by_cases ht : (accepts token.kind && token.kind ≠ .endOfInput) = true
    · have he := of_decide_eq_true (Bool.and_eq_true_iff.mp ht).2
      have ha : advance.run s₁ = (.ok token, s₁.drop) := by
        simp [advance, TokenStream.advance, TokenStream.peek, current_of_peek hp, he]
      rw [if_pos ht, if_pos ht, run_bind_ok ha]
      split <;> rename_i hs
      · rw [run_bind_error hs]
      · rw [run_bind_ok hs]
    · rw [if_neg ht, if_neg ht]
      rfl

/-- Every run on the tokens `ts` ends well, with a result and the tokens then pending, or badly,
with a fault and the stream then left. -/
def Ends (p : Parser α) (ts : List Token) (good : α → List Token → Prop)
    (bad : Fault → TokenStream → Prop) : Prop :=
  ∀ s : TokenStream, s.source.fault = none → s.pending = ts →
    match p.run s with
    | (.ok a, s') => s'.source.fault = none ∧ good a s'.pending
    | (.error fault, s') => bad fault s'

section
variable {p : Parser α} {f : α → Parser β} {ts : List Token} {good good' : α → List Token → Prop}
  {goal : β → List Token → Prop} {bad bad' : Fault → TokenStream → Prop}

theorem Ends.mono (h : p.Ends ts good bad) (hg : ∀ a us, good a us → good' a us)
    (hb : ∀ fault s, bad fault s → bad' fault s) : p.Ends ts good' bad' := by
  intro s hf hs
  have hr := h s hf hs
  split at hr
  · exact ⟨hr.1, hg _ _ hr.2⟩
  · exact hb _ _ hr

theorem Ends.imp (h : p.Ends ts good bad) (hg : ∀ a us, good a us → good' a us) :
    p.Ends ts good' bad :=
  h.mono hg fun _ _ hb => hb

theorem Ends.shrinks (h : p.Ends ts good bad) :
    p.Ends ts (fun a us => us.length ≤ ts.length ∧ good a us) bad := by
  intro s hf hs
  have hr := h s hf hs
  have hl := p.size_run_le s
  cases hp : p.run s with
  | mk result s' =>
    rw [hp] at hr hl
    cases result with
    | ok a =>
      refine ⟨hr.1, ?_, hr.2⟩
      simpa [← hs, pending, TokenStream.size] using hl
    | error fault => exact hr

theorem ends_pure {a : α} (h : good a ts) : (pure a : Parser α).Ends ts good bad := by
  intro s hf hs
  subst hs
  exact ⟨hf, h⟩

theorem ends_bind (h : p.Ends ts (fun a us => (f a).Ends us goal bad) bad) :
    (p >>= f).Ends ts goal bad := by
  intro s hf hs
  have hr := h s hf hs
  cases hp : p.run s with
  | mk result s' =>
    rw [hp] at hr
    cases result with
    | ok a =>
      rw [run_bind_ok hp]
      exact hr.2 s' hr.1 rfl
    | error fault =>
      rw [run_bind_error hp]
      exact hr

theorem ends_fail {problem : Problem} (h : ∀ s, s.pending = ts → bad (.problem problem) s) :
    (fail problem : Parser α).Ends ts good bad := by
  intro s _ hs
  exact h s hs

theorem ends_peek {t : Token} {us : List Token} {good : Token → List Token → Prop}
    (ht : ts = t :: us) (h : good t ts) : peek.Ends ts good bad := by
  subst ht
  intro s hf hs
  simp only [peek, peek_cons hf hs]
  exact ⟨rfl, h⟩

theorem ends_peek_nil {good : Token → List Token → Prop} (h : bad .endMissing (ofTokens [])) :
    peek.Ends [] good bad := by
  intro s hf hs
  simp only [peek, peek_nil hf hs]
  exact h

theorem ends_peek_else {accepts : TokenKind → Bool} {p : Token → Parser α}
    {problem : Token → Problem} {t : Token} {us : List Token}
    (hp : accepts t.kind = true → (p t).Ends (t :: us) good bad)
    (hb : accepts t.kind = false → bad (.problem (problem t)) (looking t us)) :
    (do let token ← peek; if accepts token.kind then p token else fail (problem token)).Ends
      (t :: us) good bad := by
  intro s hf hs
  rw [run_bind_ok (peek_cons hf hs)]
  by_cases ht : accepts t.kind = true
  · rw [if_pos ht]
    exact hp ht (looking t us) rfl rfl
  · rw [if_neg ht]
    exact hb (Bool.eq_false_iff.mpr ht)

theorem ends_advance {t : Token} {us : List Token} {good : Token → List Token → Prop}
    (h : good t (if t.kind = .endOfInput then t :: us else us)) :
    advance.Ends (t :: us) good bad := by
  intro s hf hs
  simp only [advance, TokenStream.advance, peek_cons hf hs]
  by_cases ht : t.kind = .endOfInput
  · rw [if_pos ht] at h ⊢
    exact ⟨rfl, h⟩
  · rw [if_neg ht] at h ⊢
    exact ⟨rfl, h⟩

end

section
variable {accepts : TokenKind → Bool} {problem : Token → Problem} {t : Token} {ts : List Token}
  {bad : Fault → TokenStream → Prop}

theorem ends_take {good : Token → List Token → Prop} (ha : accepts t.kind = true)
    (ht : t.kind ≠ .endOfInput) (h : good t ts) :
    (take accepts problem).Ends (t :: ts) good bad := by
  apply ends_peek_else
  · intro _
    apply ends_advance
    simpa only [ht, if_false] using h
  · intro hn
    rw [ha] at hn
    cases hn

theorem ends_take_not {good : Token → List Token → Prop} (ha : accepts t.kind = false)
    (hb : bad (.problem (problem t)) (looking t ts)) :
    (take accepts problem).Ends (t :: ts) good bad := by
  apply ends_peek_else
  · intro ht
    rw [ha] at ht
    cases ht
  · exact fun _ => hb

theorem ends_take_end {good : Token → List Token → Prop} (ha : accepts t.kind = true)
    (ht : t.kind = .endOfInput) (h : good t (t :: ts)) :
    (take accepts problem).Ends (t :: ts) good bad := by
  apply ends_peek_else
  · intro _
    apply ends_advance
    simpa only [ht, if_true] using h
  · intro hn
    rw [ha] at hn
    cases hn

theorem ends_expect {kind : TokenKind} {good : Token → List Token → Prop} (hk : t.kind = kind)
    (ht : kind ≠ .endOfInput) (h : good t ts) : (expect kind).Ends (t :: ts) good bad :=
  ends_take (decide_eq_true hk) (hk ▸ ht) h

theorem ends_skip {kind : TokenKind} {good : Bool → List Token → Prop} (hk : t.kind = kind)
    (ht : kind ≠ .endOfInput) (h : good true ts) : (skip kind).Ends (t :: ts) good bad := by
  apply ends_bind
  apply ends_peek rfl
  rw [if_pos hk]
  apply ends_bind
  apply ends_advance
  rw [if_neg (hk ▸ ht)]
  exact ends_pure h

theorem ends_skip_not {kind : TokenKind} {good : Bool → List Token → Prop} (hk : t.kind ≠ kind)
    (h : good false (t :: ts)) : (skip kind).Ends (t :: ts) good bad := by
  apply ends_bind
  apply ends_peek rfl
  rw [if_neg hk]
  exact ends_pure h

variable {step : α → Token → Parser α} {a : α} {good : α → List Token → Prop}

theorem ends_repeatWhile_stop (h : (accepts t.kind && t.kind ≠ .endOfInput) = false)
    (hg : good a (t :: ts)) : (repeatWhile accepts step a).Ends (t :: ts) good bad := by
  rw [repeatWhile_eq]
  apply ends_bind
  apply ends_peek rfl
  rw [if_neg (Bool.eq_false_iff.mp h)]
  exact ends_pure hg

theorem ends_repeatWhile_nil (h : bad .endMissing (ofTokens [])) :
    (repeatWhile accepts step a).Ends [] good bad := by
  rw [repeatWhile_eq]
  apply ends_bind
  exact ends_peek_nil h

theorem ends_repeatWhile_step (ha : accepts t.kind = true) (ht : t.kind ≠ .endOfInput)
    (h : (step a t).Ends ts (fun b us => (repeatWhile accepts step b).Ends us good bad) bad) :
    (repeatWhile accepts step a).Ends (t :: ts) good bad := by
  rw [repeatWhile_eq]
  apply ends_bind
  apply ends_peek rfl
  rw [if_pos (by simp [ha, ht])]
  apply ends_bind
  apply ends_advance
  rw [if_neg ht]
  exact ends_bind h

theorem ends_repeatWhile {invariant : α → List Token → Prop} (hn : bad .endMissing (ofTokens []))
    (hs : ∀ a t us, invariant a (t :: us) → accepts t.kind = true → t.kind ≠ .endOfInput →
      (step a t).Ends us invariant bad) (hi : invariant a ts) :
    (repeatWhile accepts step a).Ends ts (fun b us => invariant b us ∧
      ∀ t ∈ us.head?, (accepts t.kind && t.kind ≠ .endOfInput) = false) bad := by
  induction hl : ts.length using Nat.strongRecOn generalizing ts a with
  | ind m ih =>
    cases ts with
    | nil => exact ends_repeatWhile_nil hn
    | cons t us =>
      by_cases ha : (accepts t.kind && t.kind ≠ .endOfInput) = true
      · obtain ⟨hk, he⟩ := Bool.and_eq_true_iff.mp ha
        have he := of_decide_eq_true he
        apply ends_repeatWhile_step hk he
        apply (hs a t us hi hk he).shrinks.imp
        rintro b vs ⟨hv, hb⟩
        rw [List.length_cons] at hl
        exact ih vs.length (by omega) hb rfl
      · apply ends_repeatWhile_stop (Bool.eq_false_iff.mpr ha)
        refine ⟨hi, ?_⟩
        rintro u hu
        obtain rfl := Option.some.inj hu
        exact Bool.eq_false_iff.mpr ha

end

theorem operandFrom_signed {inner : Inner} {t : Token} (h : t.kind = .minus ∨ t.kind = .bang) :
    operandFrom inner t = do return .unary t.kind (some (← operand inner t .unary)) := by
  rcases h with h | h
  · simp only [operandFrom, h]
  · simp only [operandFrom, h]

theorem operandFrom_truth {inner : Inner} {t : Token}
    (h : t.kind = .trueWord ∨ t.kind = .falseWord) :
    operandFrom inner t = pure (.truth (t.kind = .trueWord)) := by
  rcases h with h | h
  · simp [operandFrom, h]
  · simp [operandFrom, h]

theorem bareStmt_expr {inner : Inner} {t : Token} (h : t.kind.startsExpr = true) :
    bareStmt inner t = do return .expr (← exprFrom inner .lowest t) := by
  unfold bareStmt
  split <;> rename_i hk
  · rw [hk] at h
    cases h
  · rw [hk] at h
    cases h
  · rw [hk] at h
    cases h
  · rfl

def otherwise (inner : Inner) (c : Expr) (t : List Stmt) : Parser Expr := do
  if ← skip .elseWord then
    return .conditional c t (some (← block inner))
  else
    return .conditional c t none

def collect (accepts : TokenKind → Bool) (item : Token → Parser α) (items : List α) :
    Parser (List α) :=
  repeatWhile accepts (fun items token => do return (← item token) :: items) items

section
variable {accepts : TokenKind → Bool} {item : Token → Parser α} {items : List α} {t : Token}
  {ts : List Token} {good : List α → List Token → Prop} {bad : Fault → TokenStream → Prop}

theorem ends_many
    (h : (collect accepts item []).Ends ts (fun items us => good items.reverse us) bad) :
    (many accepts item).Ends ts good bad := by
  apply ends_bind
  apply h.imp
  intro items us hg
  exact ends_pure hg

theorem ends_collect_step (ha : accepts t.kind = true) (ht : t.kind ≠ .endOfInput)
    (h : (item t).Ends ts (fun a us => (collect accepts item (a :: items)).Ends us good bad) bad) :
    (collect accepts item items).Ends (t :: ts) good bad := by
  apply ends_repeatWhile_step ha ht
  apply ends_bind
  apply h.imp
  intro a us hg
  exact ends_pure hg

theorem ends_collect_stop (h : (accepts t.kind && t.kind ≠ .endOfInput) = false)
    (hg : good items (t :: ts)) : (collect accepts item items).Ends (t :: ts) good bad :=
  ends_repeatWhile_stop h hg

/-- The rule for a loop that gathers items, from the last one back: what a step finds goes in front
of what the steps after it find. -/
theorem ends_collect {found : List Token → List α → List Token → Prop}
    {bad : List Token → Fault → TokenStream → Prop} (hn : bad [] .endMissing (ofTokens []))
    (hstop : ∀ t us, (accepts t.kind && t.kind ≠ .endOfInput) = false →
      found (t :: us) [] (t :: us))
    (hstep : ∀ t us, accepts t.kind = true → (item t).Ends us (fun a vs =>
      (∀ as ws, found vs as ws → found (t :: us) (a :: as) ws) ∧
        ∀ fault s, bad vs fault s → bad (t :: us) fault s) (bad (t :: us))) :
    (collect accepts item items).Ends ts (fun out us =>
      ∃ as, out = as.reverse ++ items ∧ found ts as us) (bad ts) := by
  induction hl : ts.length using Nat.strongRecOn generalizing ts items with
  | ind m ih =>
    cases ts with
    | nil => exact ends_repeatWhile_nil hn
    | cons t us =>
      by_cases ha : (accepts t.kind && t.kind ≠ .endOfInput) = true
      · obtain ⟨hk, he⟩ := Bool.and_eq_true_iff.mp ha
        apply ends_collect_step hk (of_decide_eq_true he)
        apply (hstep t us hk).shrinks.imp
        rintro a vs ⟨hv, hf, hb⟩
        rw [List.length_cons] at hl
        have hi : (collect accepts item (a :: items)).Ends vs
            (fun out us => ∃ as, out = as.reverse ++ (a :: items) ∧ found vs as us) (bad vs) :=
          ih vs.length (by omega) rfl
        apply hi.mono
        · rintro out ws ⟨as, rfl, has⟩
          exact ⟨a :: as, by simp, hf as ws has⟩
        · exact hb
      · have ha := Bool.eq_false_iff.mpr ha
        apply ends_collect_stop ha
        exact ⟨[], rfl, hstop t us ha⟩

end

end Parser

end ExprLang
