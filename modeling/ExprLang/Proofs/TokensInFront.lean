import ExprLang.Proofs.ParserSoundness

/-!
Tokens in front. What the parser takes, and the problem that it finds, depend on the kind in front
of the token that it looks at. Behind an operator it takes what starts an expression and misses an
operand otherwise, and it takes a semicolon only behind what may end a clause. Each level that is
opened has a token of its own in front.
-/

namespace ExprLang

open ExprLang.Parser

/-- The last kind of some tokens, or the kind in front of them if there are none. -/
def lastKind (front : Option TokenKind) : List Token → Option TokenKind
  | [] => front
  | t :: ts => lastKind (some t.kind) ts

theorem lastKind_append (front : Option TokenKind) (xs ys : List Token) :
    lastKind front (xs ++ ys) = lastKind (lastKind front xs) ys := by
  induction xs generalizing front with
  | nil => rfl
  | cons x xs ih => exact ih (some x.kind)

theorem lastKind_concat (front : Option TokenKind) (read : List Token) (t : Token) :
    lastKind front (read ++ [t]) = some t.kind := by
  rw [lastKind_append]
  rfl

/-- The kinds that end expressions, and the one that ends a bare `return`. -/
def TokenKind.closes : TokenKind → Bool
  | number | name | trueWord | falseWord | closeParen | closeBrace | returnWord => true
  | _ => false

section
variable {front : Option TokenKind} {k : TokenKind}

def Plain (front : Option TokenKind) : Prop :=
  ∀ k ∈ front, k.isOperator = false

/-- In front is neither an operator nor a place where a statement would start. -/
def Firm (front : Option TokenKind) : Prop :=
  ∃ k, front = some k ∧ k.isOperator = false ∧ k ≠ .semicolon ∧ k ≠ .openBrace

def Closed (front : Option TokenKind) : Prop :=
  ∃ k, front = some k ∧ k.closes = true

theorem Closed.firm (h : Closed front) : Firm front := by
  obtain ⟨k, rfl, hk⟩ := h
  refine ⟨k, rfl, ?_⟩
  revert hk
  cases k <;> decide

theorem Firm.plain (h : Firm front) : Plain front := by
  obtain ⟨k, rfl, hk, _⟩ := h
  intro j hj
  obtain rfl := Option.some.inj hj
  exact hk

theorem Closed.plain (h : Closed front) : Plain front :=
  h.firm.plain

/-- Which kinds may stand behind another one. -/
structure Joins (front : Option TokenKind) (k : TokenKind) : Prop where
  operand : Plain front ∨ k.startsExpr = true
  semicolon : k = .semicolon → Firm front

theorem Plain.joins (h : Plain front) (hk : k ≠ .semicolon) : Joins front k :=
  ⟨.inl h, fun he => absurd he hk⟩

theorem Firm.joins (h : Firm front) : Joins front k :=
  ⟨.inl h.plain, fun _ => h⟩

theorem joins_of_startsExpr (h : k.startsExpr = true) : Joins front k := by
  refine ⟨.inr h, ?_⟩
  rintro rfl
  cases h

/-- Each token may stand behind the one in front of it, and none is the end of the input. -/
def Joined (front : Option TokenKind) : List Token → Prop
  | [] => True
  | t :: ts => t.kind ≠ .endOfInput ∧ Joins front t.kind ∧ Joined (some t.kind) ts

theorem joined_append {xs ys : List Token} :
    Joined front (xs ++ ys) ↔ Joined front xs ∧ Joined (lastKind front xs) ys := by
  induction xs generalizing front with
  | nil => simp [Joined, lastKind]
  | cons x xs ih => simp only [List.cons_append, Joined, lastKind, ih, and_assoc]

theorem Joined.ne_endOfInput {ts : List Token} (h : Joined front ts) :
    ∀ t ∈ ts, t.kind ≠ .endOfInput := by
  induction ts generalizing front with
  | nil => simp
  | cons t ts ih => exact List.forall_mem_cons.mpr ⟨h.1, ih h.2.2⟩

end

/-- Whether a problem may be found behind a kind. An operator in front, and nothing else, misses its
operand. -/
def Problem.Suits (front : Option TokenKind) : Problem → Prop
  | .unexpectedToken _ _ => Firm front
  | .unexpectedEnd _ | .noExpression _ => Plain front
  | .missingOperand op _ => ∃ k, front = some k ∧ k.isOperator = true ∧ op = k.describe
  | _ => False

namespace Parser

variable {α β : Type} {m n : Nat} {front : Option TokenKind} {ts us : List Token}

/-- A run on `ts` that stops: so many levels had no token each, or the problem suits the kind in
front of what is pending. -/
def Halted (n : Nat) (front : Option TokenKind) (ts : List Token) (fault : Fault)
    (s : TokenStream) : Prop :=
  (fault = .problem .nestingTooDeepToParse → n ≤ ts.length) ∧
    ∀ problem, fault = .problem problem → problem ≠ .nestingTooDeepToParse →
      ∃ read, ts = read ++ s.pending ∧ problem.Suits (lastKind front read)

/-- Runs that take joined tokens, with what holds of the result and the kind that is then in front,
or stop with a problem that suits the kind in front. -/
def Heeds (n : Nat) (front : Option TokenKind) (p : Parser α) (ts : List Token)
    (good : α → Option TokenKind → Prop) : Prop :=
  p.Ends ts
    (fun a us => ∃ read, ts = read ++ us ∧ Joined front read ∧ good a (lastKind front read))
    (Halted n front ts)

theorem Halted.lift (read : List Token) {fault : Fault} {s : TokenStream}
    (h : Halted n (lastKind front read) us fault s) (hts : ts = read ++ us)
    (hn : m ≤ n + read.length) : Halted m front ts fault s := by
  constructor
  · intro hf
    have hl := h.1 hf
    rw [hts, List.length_append]
    omega
  · intro problem hf hp
    obtain ⟨more, rfl, hs⟩ := h.2 problem hf hp
    refine ⟨read ++ more, ?_, ?_⟩
    · rw [hts, List.append_assoc]
    · rwa [lastKind_append]

section
variable {p : Parser α} {f : α → Parser β} {good good' : α → Option TokenKind → Prop}
  {goal : β → Option TokenKind → Prop}

theorem Heeds.imp (h : p.Heeds n front ts good) (hg : ∀ a k, good a k → good' a k) :
    p.Heeds n front ts good' := by
  apply Ends.imp h
  rintro a us ⟨read, hts, hj, ha⟩
  exact ⟨read, hts, hj, hg _ _ ha⟩

theorem Heeds.fewer (h : p.Heeds n front ts good) (hm : m ≤ n) : p.Heeds m front ts good := by
  apply h.mono
  · exact fun _ _ ha => ha
  · intro fault s hs
    exact hs.lift [] rfl hm

theorem heeds_pure {a : α} (h : good a front) : (pure a : Parser α).Heeds n front ts good :=
  ends_pure ⟨[], rfl, trivial, h⟩

theorem heeds_bind (hp : p.Heeds n front ts good)
    (hf : ∀ a k us, good a k → (f a).Heeds n k us goal) : (p >>= f).Heeds n front ts goal := by
  apply ends_bind
  apply Ends.imp hp
  rintro a us ⟨read, rfl, hj, ha⟩
  apply (hf a _ us ha).mono
  · rintro b vs ⟨more, rfl, hj', hb⟩
    refine ⟨read ++ more, (List.append_assoc ..).symm, joined_append.mpr ⟨hj, hj'⟩, ?_⟩
    rwa [lastKind_append]
  · intro fault s h
    exact h.lift read rfl (Nat.le_add_right ..)

theorem heeds_fail {problem : Problem} (h : problem.Suits front) :
    (fail problem : Parser α).Heeds n front ts good := by
  apply ends_fail
  intro s hs
  constructor
  · intro hf
    rw [Fault.problem.inj hf] at h
    cases h
  · intro problem' hf _
    obtain rfl := Fault.problem.inj hf
    exact ⟨[], hs.symm, h⟩

theorem heeds_peek {f : Token → Parser α}
    (h : ∀ t us, ts = t :: us → (f t).Heeds n front ts good) :
    (do f (← peek)).Heeds n front ts good := by
  apply ends_bind
  cases ts with
  | nil => exact ends_peek_nil ⟨nofun, nofun⟩
  | cons t us => exact ends_peek rfl (h t us rfl)

/-- A token that is taken is in front of what follows, and counts for a level. -/
theorem ends_taken {t : Token} {us : List Token} (ht : t.kind ≠ .endOfInput)
    (hj : Joins front t.kind) (h : p.Heeds n (some t.kind) us good) :
    p.Ends us
      (fun a vs => ∃ read, t :: us = read ++ vs ∧ Joined front read ∧ good a (lastKind front read))
      (Halted (n + 1) front (t :: us)) := by
  apply h.mono
  · rintro a vs ⟨read, rfl, hr, ha⟩
    exact ⟨t :: read, rfl, ⟨ht, hj, hr⟩, ha⟩
  · intro fault s hs
    exact hs.lift [t] rfl (Nat.le_refl _)

end

section
variable {accepts : TokenKind → Bool} {problem : Token → Problem} {f : Token → Parser β}
  {goal : β → Option TokenKind → Prop}

theorem heeds_take (he : accepts .endOfInput = false)
    (hp : ∀ t us, ts = t :: us → accepts t.kind = false → (problem t).Suits front)
    (hj : ∀ k, accepts k = true → Joins front k)
    (hf : ∀ t us, accepts t.kind = true → (f t).Heeds n (some t.kind) us goal) :
    (take accepts problem >>= f).Heeds (n + 1) front ts goal := by
  apply ends_bind
  cases ts with
  | nil =>
    apply ends_bind
    exact ends_peek_nil ⟨nofun, nofun⟩
  | cons t us =>
    by_cases ha : accepts t.kind = true
    · have ht := TokenKind.ne_of_accepts he ha
      exact ends_take ha ht (ends_taken ht (hj _ ha) (hf t us ha))
    · have hn := Bool.eq_false_iff.mpr ha
      apply ends_take_not hn
      have hs := hp t us rfl hn
      constructor
      · intro hfault
        rw [Fault.problem.inj hfault] at hs
        cases hs
      · intro problem' hfault _
        obtain rfl := Fault.problem.inj hfault
        exact ⟨[], rfl, hs⟩

theorem heeds_expect {kind : TokenKind} (hk : kind ≠ .endOfInput) (h : Firm front)
    (hf : ∀ t us, (f t).Heeds n (some kind) us goal) :
    (expect kind >>= f).Heeds n front ts goal := by
  have ht : (expect kind >>= f).Heeds (n + 1) front ts goal := by
    apply heeds_take
    · simpa using hk.symm
    · intro t us _ _
      by_cases he : t.kind = .endOfInput
      · rw [if_pos he]
        exact h.plain
      · rw [if_neg he]
        exact h
    · exact fun k _ => h.joins
    · intro t us ha
      rw [of_decide_eq_true ha]
      exact hf t us
  exact ht.fewer (Nat.le_succ n)

theorem heeds_skip {kind : TokenKind} {f : Bool → Parser β} (hk : kind ≠ .endOfInput)
    (h : Firm front) (hyes : ∀ us, (f true).Heeds n (some kind) us goal)
    (hno : ∀ us, (f false).Heeds n front us goal) :
    (skip kind >>= f).Heeds n front ts goal := by
  apply ends_bind
  cases ts with
  | nil =>
    apply ends_bind
    exact ends_peek_nil ⟨nofun, nofun⟩
  | cons t us =>
    by_cases ht : t.kind = kind
    · apply ends_skip ht hk
      have hs := ends_taken (ht ▸ hk) h.joins (ht ▸ hyes us)
      exact hs.mono (fun _ _ ha => ha) fun _ _ hb => hb.lift [] rfl (Nat.le_succ n)
    · exact ends_skip_not ht (hno _)

theorem heeds_repeatWhile (good : α → Option TokenKind → Prop) {step : α → Token → Parser α}
    {a : α} (hj : ∀ a front k, good a front → accepts k = true → Joins front k)
    (hs : ∀ a front t us, good a front → accepts t.kind = true →
      (step a t).Heeds n (some t.kind) us good)
    (ha : good a front) : (repeatWhile accepts step a).Heeds (n + 1) front ts good := by
  induction hl : ts.length using Nat.strongRecOn generalizing ts front a with
  | ind m ih =>
    cases ts with
    | nil => exact ends_repeatWhile_nil ⟨nofun, nofun⟩
    | cons t us =>
      by_cases hk : (accepts t.kind && t.kind ≠ .endOfInput) = true
      · obtain ⟨hk, he⟩ := Bool.and_eq_true_iff.mp hk
        have he := of_decide_eq_true he
        have hst := ends_taken he (hj a front _ ha hk) (hs a front t us ha hk)
        apply ends_repeatWhile_step hk he
        apply hst.shrinks.imp
        rintro b vs ⟨hv, read, hread, hr, hb⟩
        rw [List.length_cons] at hl
        apply (ih vs.length (by omega) hb rfl).mono
        · rintro c ws ⟨more, rfl, hm, hc⟩
          refine ⟨read ++ more, ?_, joined_append.mpr ⟨hr, hm⟩, ?_⟩
          · rw [hread, List.append_assoc]
          · rwa [lastKind_append]
        · intro fault s h
          exact h.lift read hread (Nat.le_add_right ..)
      · exact ends_repeatWhile_stop (Bool.eq_false_iff.mpr hk) ⟨[], rfl, trivial, ha⟩

theorem heeds_many {item : Token → Parser α} {good : Option TokenKind → Prop}
    (hj : ∀ front k, good front → accepts k = true → Joins front k)
    (hi : ∀ t us, accepts t.kind = true → (item t).Heeds n (some t.kind) us fun _ => good)
    (hg : good front) : (many accepts item).Heeds (n + 1) front ts fun _ => good := by
  have hr : (collect accepts item []).Heeds (n + 1) front ts fun _ => good := by
    apply heeds_repeatWhile fun _ => good
    · exact fun _ => hj
    · intro _ _ t us _ ht
      apply heeds_bind (hi t us ht)
      exact fun _ _ _ hk => heeds_pure hk
    · exact hg
  apply heeds_bind hr
  exact fun _ _ _ hk => heeds_pure hk

end

structure Inner.Heeds (n : Nat) (inner : Inner) : Prop where
  expr {power : Precedence} {front : Option TokenKind} {ts : List Token}
    (h : Plain front ∨ ∀ t ∈ ts.head?, t.kind.startsExpr = true) :
    (inner.expr power).Heeds n front ts fun _ => Closed
  statements {front : Option TokenKind} {ts : List Token} (h : Plain front) :
    inner.statements.Heeds n front ts fun _ => Plain

section
variable {inner : Inner} {power : Precedence}

theorem heeds_operand (hi : inner.Heeds n) {op : Token} (hop : op.kind.isOperator = true) :
    (operand inner op power).Heeds n (some op.kind) ts fun _ => Closed := by
  apply heeds_peek
  rintro t us rfl
  by_cases ht : t.kind.startsExpr = true
  · rw [if_pos ht]
    apply hi.expr
    right
    rintro u hu
    obtain rfl := Option.some.inj hu
    exact ht
  · rw [if_neg ht]
    exact heeds_fail ⟨op.kind, rfl, hop, rfl⟩

theorem plain_some {k : TokenKind} (h : k.isOperator = false) : Plain (some k) := by
  intro j hj
  obtain rfl := Option.some.inj hj
  exact h

theorem firm_some {k : TokenKind} (h : k.isOperator = false) (hs : k ≠ .semicolon)
    (ho : k ≠ .openBrace) : Firm (some k) :=
  ⟨k, rfl, h, hs, ho⟩

theorem heeds_blockBody (hi : inner.Heeds n) (hf : Plain front) :
    (blockBody inner).Heeds n front ts fun _ => Closed := by
  apply heeds_bind (hi.statements hf)
  intro body k us hk
  apply Heeds.fewer _ (Nat.le_succ n)
  apply heeds_take rfl
  · intro t us _ _
    by_cases ht : t.kind = .endOfInput
    · rw [if_pos ht]
      exact hk
    · rw [if_neg ht]
      exact hk
  · intro j hj
    rw [of_decide_eq_true hj]
    exact hk.joins (by decide)
  · intro t us ht
    rw [of_decide_eq_true ht]
    exact heeds_pure ⟨_, rfl, rfl⟩

theorem heeds_block (hi : inner.Heeds n) (hf : Firm front) :
    (block inner).Heeds n front ts fun _ => Closed := by
  apply heeds_expect (by decide) hf
  intro _ us
  exact heeds_blockBody hi (plain_some rfl)

theorem heeds_boundName (hf : Firm front) : boundName.Heeds n front ts fun _ => Closed := by
  apply heeds_expect (by decide) hf
  intro _ us
  exact heeds_pure ⟨_, rfl, rfl⟩

theorem heeds_commaList {item : Parser α}
    (hi : ∀ {front : Option TokenKind} {ts : List Token}, Firm front →
      item.Heeds n front ts fun _ => Closed)
    (hf : Firm front) : (commaList item).Heeds n front ts fun _ => Closed := by
  have hclose {items : List α} {front : Option TokenKind} {ts : List Token} (h : Firm front) :
      (do let _ ← expect .closeParen; return items).Heeds n front ts fun _ => Closed := by
    apply heeds_expect (by decide) h
    intro _ us
    exact heeds_pure ⟨_, rfl, rfl⟩
  apply heeds_peek
  intro t us _
  by_cases ht : t.kind = .closeParen
  · rw [if_pos ht]
    have hp : (pure [] : Parser (List α)).Heeds n front ts fun _ => Firm := heeds_pure hf
    exact heeds_bind hp fun _ _ _ hk => hclose hk
  · rw [if_neg ht]
    apply heeds_bind (hi hf)
    intro first k vs hk
    apply heeds_bind (Heeds.fewer _ (Nat.le_succ n))
    · intro others k ws hk
      have hp : (pure (first :: others) : Parser (List α)).Heeds n k ws fun _ => Closed :=
        heeds_pure hk
      exact heeds_bind hp fun _ _ _ hk => hclose hk.firm
    · apply heeds_many _ _ hk
      · exact fun _ _ hc _ => hc.firm.joins
      · intro t us hc
        rw [of_decide_eq_true hc]
        exact hi (firm_some rfl (by decide) (by decide))

theorem heeds_conditional (hi : inner.Heeds n) (hf : Firm front) :
    (conditional inner).Heeds n front ts fun _ => Closed := by
  apply heeds_expect (by decide) hf
  intro _ us
  apply heeds_bind (hi.expr (.inl (plain_some rfl)))
  intro c k vs hk
  apply heeds_expect (by decide) hk.firm
  intro _ ws
  apply heeds_bind (heeds_block hi (firm_some rfl (by decide) (by decide)))
  intro b j xs hj
  apply heeds_skip (by decide) hj.firm
  · intro ys
    apply heeds_bind (heeds_block hi (firm_some rfl (by decide) (by decide)))
    exact fun _ _ _ hk => heeds_pure hk
  · intro ys
    exact heeds_pure hj

theorem heeds_functionLiteral (hi : inner.Heeds n) (hf : Firm front) :
    (functionLiteral inner).Heeds n front ts fun _ => Closed := by
  apply heeds_expect (by decide) hf
  intro _ us
  apply heeds_bind (heeds_commaList (fun h => heeds_boundName h)
    (firm_some rfl (by decide) (by decide)))
  intro ps k vs hk
  apply heeds_bind (heeds_block hi hk.firm)
  exact fun _ _ _ hk => heeds_pure hk

theorem heeds_group (hi : inner.Heeds n) (hf : Plain front) :
    (do
      let e ← inner.expr .lowest
      let _ ← expect .closeParen
      return e).Heeds n front ts fun _ => Closed := by
  apply heeds_bind (hi.expr (.inl hf))
  intro e k us hk
  apply heeds_expect (by decide) hk.firm
  intro _ vs
  exact heeds_pure ⟨_, rfl, rfl⟩

theorem heeds_operandFrom (hi : inner.Heeds n) {t : Token} (ht : t.kind.startsExpr = true) :
    (operandFrom inner t).Heeds n (some t.kind) ts fun _ => Closed := by
  cases hk : t.kind with
  | name | number | trueWord | falseWord =>
    simp only [operandFrom, hk]
    exact heeds_pure ⟨_, rfl, rfl⟩
  | minus | bang =>
    simp only [operandFrom, hk]
    rw [← hk]
    apply heeds_bind (heeds_operand hi (by rw [hk]; rfl))
    exact fun _ _ _ hc => heeds_pure hc
  | openParen =>
    simp only [operandFrom, hk]
    exact heeds_group hi (plain_some rfl)
  | ifWord =>
    simp only [operandFrom, hk]
    exact heeds_conditional hi (firm_some rfl (by decide) (by decide))
  | fnWord =>
    simp only [operandFrom, hk]
    exact heeds_functionLiteral hi (firm_some rfl (by decide) (by decide))
  | _ =>
    rw [hk] at ht
    cases ht

theorem heeds_extend (hi : inner.Heeds n) {left : Expr} {op : Token}
    (hp : power < op.kind.precedence) :
    (extend inner left op).Heeds n (some op.kind) ts fun _ => Closed := by
  rcases exists_layer hp with ho | ⟨l, ho⟩
  · simp only [extend, if_pos ho]
    rw [ho]
    apply heeds_bind (heeds_commaList (fun h => hi.expr (.inl h.plain))
      (firm_some rfl (by decide) (by decide)))
    exact fun _ _ _ hk => heeds_pure hk
  · have hparen : l.has .openParen = false := by cases l <;> rfl
    simp only [extend, if_neg (TokenKind.ne_of_accepts hparen ho)]
    apply heeds_bind (heeds_operand hi (isOperator_of_has ho))
    exact fun _ _ _ hk => heeds_pure hk

theorem heeds_exprFrom (hi : inner.Heeds n) {t : Token} (ht : t.kind.startsExpr = true) :
    (exprFrom inner power t).Heeds n (some t.kind) ts fun _ => Closed := by
  apply heeds_bind (heeds_operandFrom hi ht)
  intro left k us hk
  apply Heeds.fewer _ (Nat.le_succ n)
  apply heeds_repeatWhile fun _ => Closed
  · exact fun _ _ _ hc _ => hc.firm.joins
  · intro _ _ op vs _ hop
    exact heeds_extend hi (of_decide_eq_true hop)
  · exact hk

theorem heeds_expression (hi : inner.Heeds n)
    (h : Plain front ∨ ∀ t ∈ ts.head?, t.kind.startsExpr = true) :
    (expression inner power).Heeds (n + 1) front ts fun _ => Closed := by
  apply heeds_take rfl
  · rintro t us rfl ht
    rcases h with hp | hs
    · exact hp
    · rw [hs t rfl] at ht
      cases ht
  · exact fun k hk => joins_of_startsExpr hk
  · intro t us ht
    exact heeds_exprFrom hi ht

theorem heeds_bareStmt (hi : inner.Heeds n) {t : Token} (ht : t.kind.startsStmt = true) :
    (bareStmt inner t).Heeds n (some t.kind) ts fun _ => Closed := by
  simp only [TokenKind.startsStmt, Bool.or_eq_true, decide_eq_true_eq] at ht
  obtain ((hk | hk) | hk) | hk := ht
  · rw [bareStmt_expr hk]
    apply heeds_bind (heeds_exprFrom hi hk)
    exact fun _ _ _ hc => heeds_pure hc
  · simp only [bareStmt, hk]
    apply heeds_bind (heeds_boundName (firm_some rfl (by decide) (by decide)))
    intro name k us hn
    apply heeds_expect (by decide) hn.firm
    intro _ vs
    apply heeds_bind ((heeds_expression hi (.inl (plain_some rfl))).fewer (Nat.le_succ n))
    exact fun _ _ _ hc => heeds_pure hc
  · simp only [bareStmt, hk]
    apply heeds_peek
    intro u us _
    by_cases hu : u.kind.endsReturn = true
    · rw [if_pos hu]
      exact heeds_pure ⟨_, rfl, rfl⟩
    · rw [if_neg hu]
      apply heeds_bind ((heeds_expression hi (.inl (plain_some rfl))).fewer (Nat.le_succ n))
      exact fun _ _ _ hc => heeds_pure hc
  · simp only [bareStmt, hk]
    apply heeds_bind (heeds_blockBody hi (plain_some rfl))
    exact fun _ _ _ hc => heeds_pure hc

theorem heeds_statements (hi : inner.Heeds n) (hf : Plain front) :
    (statements inner).Heeds (n + 1) front ts fun _ => Plain := by
  apply heeds_many _ _ hf
  · intro k j hk hj
    exact hk.joins (TokenKind.ne_of_accepts rfl hj)
  · intro t us ht
    apply heeds_bind (heeds_bareStmt hi ht)
    intro stmt k vs hk
    apply heeds_skip (by decide) hk.firm
    · exact fun _ => heeds_pure (plain_some rfl)
    · exact fun _ => heeds_pure hk.plain

end

theorem heeds_level (n : Nat) : (level n).Heeds n := by
  induction n with
  | zero =>
    have hz {α : Type} {front : Option TokenKind} {ts : List Token}
        {good : α → Option TokenKind → Prop} :
        (fail .nestingTooDeepToParse : Parser α).Heeds 0 front ts good := by
      apply ends_fail
      intro s _
      refine ⟨fun _ => Nat.zero_le _, ?_⟩
      intro problem hf hp
      exact absurd (Fault.problem.inj hf).symm hp
    exact ⟨fun _ => hz, fun _ => hz⟩
  | succ n ih => exact ⟨heeds_expression ih, heeds_statements ih⟩

/-- A program takes joined tokens up to the end of the input. -/
theorem programWithin_heeds (levels : Nat) (ts : List Token) :
    (programWithin levels).Ends ts
      (fun _ _ => ∃ read finish more, ts = read ++ finish :: more ∧
        finish.kind = .endOfInput ∧ Joined none read)
      (Halted (levels + 1) none ts) := by
  have hn : Plain none := by simp [Plain]
  apply ends_bind
  apply Ends.imp (heeds_statements (heeds_level levels) hn)
  rintro program us ⟨read, rfl, hj, hk⟩
  cases us with
  | nil =>
    apply ends_bind
    apply ends_bind
    exact ends_peek_nil ⟨nofun, nofun⟩
  | cons t us =>
    by_cases ht : t.kind = .endOfInput
    · apply ends_bind
      apply ends_take_end (decide_eq_true ht) ht
      exact ends_pure ⟨read, t, us, rfl, ht, hj⟩
    · apply ends_bind
      apply ends_take_not (decide_eq_false ht)
      refine ⟨nofun, ?_⟩
      intro problem hf _
      obtain rfl := Fault.problem.inj hf
      exact ⟨read, rfl, hk⟩

end Parser

end ExprLang
