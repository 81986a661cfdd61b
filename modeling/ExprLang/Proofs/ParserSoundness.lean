import ExprLang.Proofs.Beginnings
import ExprLang.Proofs.ParserRuns

/-!
What the parser reads is a derivation that obeys the boundary rule, with the tree that the parser
builds. Where it stops with a problem, it has read the beginning of a derivation, looks at the token
that the problem is about, and has pulled nothing behind that token.
-/

namespace ExprLang

open ExprLang.Parser TokenStream

/-- Whether a problem may be put down to a token, which it names. -/
def Problem.Blames (t : Token) : Problem → Prop
  | .unexpectedToken _ found => t.kind ≠ .endOfInput ∧ found = t.found
  | .unexpectedEnd _ => t.kind = .endOfInput
  | .noExpression found | .missingOperand _ found => found = t.found
  | _ => False

/-- A run on `ts` that does not end well: the tokens or the levels do not suffice, or a token is to
blame, and the stream looks at this one. In front of what is pending then, `begun` holds. -/
def Stuck (begun : List Token → Prop) (ts : List Token) (fault : Fault) (s : TokenStream) : Prop :=
  fault = .endMissing ∨
    (fault = .problem .nestingTooDeepToParse ∧ ∃ read, ts = read ++ s.pending ∧ begun read) ∨
    ∃ read t rest problem, ts = read ++ t :: rest ∧ begun read ∧ s = looking t rest ∧
      fault = .problem problem ∧ problem.Blames t

/-- A derivation in front of the tokens that are still pending, and what holds of it and the kind
behind it. -/
def Found {n : Nonterminal} (follows : Derivation n → TokenKind → Prop) (ts : List Token)
    (a : n.Tree) (us : List Token) : Prop :=
  ∃ d : Derivation n, d.Bounded ∧ d.tree = a ∧ ts = d.tokens ++ us ∧
    ∀ t ∈ us.head?, follows d t.kind

section
variable {begun begun' : List Token → Prop} {ts us : List Token} {fault : Fault} {s : TokenStream}

theorem Stuck.lift (h : Stuck begun' us fault s) (pre : List Token) (hts : ts = pre ++ us)
    (hb : ∀ r, r <+: us → begun' r → begun (pre ++ r)) : Stuck begun ts fault s := by
  obtain h | ⟨hf, read, hu, hr⟩ | ⟨read, t, rest, problem, rfl, hr, hs, hf, hp⟩ := h
  · exact .inl h
  · refine .inr (.inl ⟨hf, pre ++ read, ?_, ?_⟩)
    · rw [hts, List.append_assoc, ← hu]
    · exact hb read (hu ▸ List.prefix_append _ _) hr
  · refine .inr (.inr ⟨pre ++ read, t, rest, problem, ?_, ?_, hs, hf, hp⟩)
    · rw [hts, List.append_assoc]
    · exact hb read (List.prefix_append _ _) hr

theorem Stuck.imp (h : Stuck begun' ts fault s) (hb : ∀ r, r <+: ts → begun' r → begun r) :
    Stuck begun ts fault s :=
  h.lift [] rfl hb

end

namespace Parser

variable {α β : Type} {begun begun' : List Token → Prop} {ts us : List Token}

theorem ends_bind_lift {p : Parser α} {f : α → Parser β} {good : α → List Token → Prop}
    {goal : β → List Token → Prop} (pre : List Token) (hp : p.Ends us good (Stuck begun' us))
    (hts : ts = pre ++ us)
    (hb : ∀ r, r <+: us → begun' r → begun (pre ++ r))
    (hg : ∀ a vs, good a vs → (f a).Ends vs goal (Stuck begun ts)) :
    (p >>= f).Ends us goal (Stuck begun ts) := by
  apply ends_bind
  apply hp.mono
  · exact hg
  · intro fault s h
    exact h.lift pre hts hb

theorem ends_bind_imp {p : Parser α} {f : α → Parser β} {good : α → List Token → Prop}
    {goal : β → List Token → Prop} (hp : p.Ends us good (Stuck begun' ts))
    (hb : ∀ r, r <+: ts → begun' r → begun r)
    (hg : ∀ a vs, good a vs → (f a).Ends vs goal (Stuck begun ts)) :
    (p >>= f).Ends us goal (Stuck begun ts) := by
  apply ends_bind
  apply hp.mono
  · exact hg
  · intro fault s h
    exact h.imp hb

theorem ends_take_or {accepts : TokenKind → Bool} {problem : Token → Problem}
    {good : Token → List Token → Prop} (pre : List Token) (hts : ts = pre ++ us) (hb : begun pre)
    (he : accepts .endOfInput = false)
    (hp : ∀ t, accepts t.kind = false → (problem t).Blames t)
    (hg : ∀ t vs, us = t :: vs → accepts t.kind = true → good t vs) :
    (take accepts problem).Ends us good (Stuck begun ts) := by
  cases us with
  | nil =>
    apply ends_bind
    apply ends_peek_nil
    exact .inl rfl
  | cons t vs =>
    by_cases ha : accepts t.kind = true
    · exact ends_take ha (TokenKind.ne_of_accepts he ha) (hg t vs rfl ha)
    · have ht := Bool.eq_false_iff.mpr ha
      apply ends_take_not ht
      exact .inr (.inr ⟨pre, t, vs, problem t, hts, hb, rfl, rfl, hp t ht⟩)

theorem ends_expect_or {kind : TokenKind} {good : Token → List Token → Prop} (pre : List Token)
    (hts : ts = pre ++ us) (hb : begun pre) (hk : kind ≠ .endOfInput)
    (hg : ∀ (m : Mark kind) vs, us = m.token :: vs → good m.token vs) :
    (expect kind).Ends us good (Stuck begun ts) := by
  apply ends_take_or pre hts hb
  · simpa using hk.symm
  · intro t _
    by_cases ht : t.kind = .endOfInput
    · simp [Problem.Blames, ht]
    · simp [Problem.Blames, ht]
  · intro t vs hu ha
    exact hg ⟨t, ha⟩ vs hu

structure Inner.Sound (inner : Inner) : Prop where
  expr {g : Grade} {power : Precedence} (hg : g.ReadAt power) (ts : List Token) :
    (inner.expr power).Ends ts
      (Found (fun (_ : Derivation (.expr g)) k => k.precedence ≤ power) ts)
      (Stuck (Begins (.expr g)) ts)
  statements (ts : List Token) :
    inner.statements.Ends ts (Found (fun (_ : Derivation .statements) _ => True) ts)
      (Stuck (Begins .statements) ts)

section
variable {inner : Inner} {g : Grade} {power : Precedence} {t : Token}

theorem operand_sound (hi : inner.Sound) (hg : g.ReadAt power) (op : Token) (ts : List Token) :
    (operand inner op power).Ends ts
      (Found (fun (_ : Derivation (.expr g)) k => k.precedence ≤ power) ts)
      (Stuck (Begins (.expr g)) ts) := by
  cases ts with
  | nil =>
    apply ends_bind
    apply ends_peek_nil
    exact .inl rfl
  | cons t us =>
    apply ends_peek_else
    · intro _
      exact hi.expr hg _
    · intro _
      exact .inr (.inr ⟨[], t, us, _, rfl, .expr_nil g, rfl, rfl, rfl⟩)

theorem blockBody_sound (hi : inner.Sound) (ts : List Token) :
    (blockBody inner).Ends ts
      (fun b us => ∃ (d : Derivation .statements) (closing : Mark .closeBrace),
        d.Bounded ∧ d.tree = b ∧ ts = d.tokens ++ closing.token :: us)
      (Stuck (Begins .statements) ts) := by
  apply ends_bind
  apply (hi.statements ts).imp
  rintro b us ⟨d, hb, rfl, hts, _⟩
  apply ends_bind
  apply ends_take_or _ hts (Begins.of_bounded hb) rfl
  · intro t _
    by_cases ht : t.kind = .endOfInput
    · simp [Problem.Blames, ht]
    · simp [Problem.Blames, ht]
  · intro t vs hu ha
    apply ends_pure
    exact ⟨d, ⟨t, ha⟩, hb, rfl, hts.trans (congrArg _ hu)⟩

theorem block_sound (hi : inner.Sound) (ts : List Token) :
    (block inner).Ends ts (Found (fun (_ : Derivation .block) _ => True) ts)
      (Stuck (Begins .block) ts) := by
  apply ends_bind
  apply ends_expect_or [] rfl Begins.block_nil (by decide)
  rintro opening us rfl
  apply (blockBody_sound hi us).mono
  · rintro b vs ⟨d, closing, hb, rfl, rfl⟩
    exact ⟨.block opening d closing, hb, rfl, by simp [Derivation.tokens], fun _ _ => trivial⟩
  · intro fault s h
    exact h.lift [opening.token] rfl fun r _ => Begins.block opening

theorem boundName_sound (ts : List Token) :
    boundName.Ends ts (Found (fun (_ : Derivation .parameter) _ => True) ts)
      (Stuck (Begins .parameter) ts) := by
  apply ends_bind
  apply ends_expect_or [] rfl
  · exact ⟨.parameter (.sample .name), trivial, List.nil_prefix⟩
  · decide
  · rintro leaf us rfl
    apply ends_pure
    exact ⟨.parameter leaf, trivial, rfl, rfl, fun _ _ => trivial⟩

section
variable {n : Nonterminal} {item : Parser n.Tree}

theorem many_comma_sound (hn : n.isItem = true)
    (hi : ∀ ts, item.Ends ts (Found (fun (_ : Derivation n) _ => True) ts) (Stuck (Begins n) ts))
    (ts : List Token) :
    (many (· = .comma) fun _ => item).Ends ts
      (Found (fun (_ : Derivation (.more n)) _ => True) ts) (Stuck (Begins (.more n)) ts) := by
  have hc : (collect (· = .comma) (fun _ => item) []).Ends ts
      (fun out us => ∃ as, out = as.reverse ++ [] ∧
        Found (fun (_ : Derivation (.more n)) _ => True) ts as us)
      (Stuck (Begins (.more n)) ts) := by
    apply ends_collect
    · exact .inl rfl
    · intro t us _
      exact ⟨.noMore, trivial, rfl, rfl, fun _ _ => trivial⟩
    · intro t us ht
      apply (hi us).mono
      · rintro a vs ⟨d, hb, rfl, rfl, _⟩
        constructor
        · rintro as ws ⟨ds, hbs, rfl, rfl, _⟩
          exact ⟨.next hn ⟨t, ht⟩ d ds, ⟨hb, hbs⟩, rfl, by simp [Derivation.tokens],
            fun _ _ => trivial⟩
        · intro fault s h
          exact h.lift (t :: d.tokens) (by simp) fun r _ => Begins.next hn ⟨t, ht⟩ d hb
      · intro fault s h
        exact h.lift [t] rfl fun r _ => Begins.item hn ⟨t, ht⟩
  apply ends_many
  apply hc.imp
  rintro out us ⟨as, rfl, has⟩
  simpa using has

theorem commaList_sound (hn : n.isItem = true)
    (hi : ∀ ts, item.Ends ts (Found (fun (_ : Derivation n) _ => True) ts) (Stuck (Begins n) ts))
    (ts : List Token) :
    (commaList item).Ends ts
      (fun as us => ∃ (d : Derivation (.list n)) (closing : Mark .closeParen),
        d.Bounded ∧ d.tree = as ∧ ts = d.tokens ++ closing.token :: us)
      (Stuck (Begins (.list n)) ts) := by
  cases ts with
  | nil =>
    apply ends_bind
    apply ends_peek_nil
    exact .inl rfl
  | cons t us =>
    apply ends_bind
    apply ends_peek rfl
    by_cases ht : t.kind = .closeParen
    · rw [if_pos ht]
      apply ends_bind
      apply ends_pure
      apply ends_bind
      apply ends_expect_or [] rfl (Begins.list_nil n) (by decide)
      intro closing vs hts
      apply ends_pure
      exact ⟨.noItems, closing, trivial, rfl, hts⟩
    · rw [if_neg ht]
      apply ends_bind_lift [] (hi _) rfl fun r _ => Begins.first hn
      rintro a vs ⟨d, hb, rfl, hts, _⟩
      rw [hts]
      apply ends_bind_lift _ (many_comma_sound hn hi vs) rfl fun r _ => Begins.items hn d hb
      rintro as ws ⟨ds, hbs, rfl, rfl, _⟩
      apply ends_bind
      apply ends_pure
      apply ends_bind
      apply ends_expect_or _ (List.append_assoc _ _ _).symm
        (Begins.of_bounded (d := .items hn d ds) ⟨hb, hbs⟩) (by decide)
      rintro closing xs rfl
      apply ends_pure
      exact ⟨.items hn d ds, closing, ⟨hb, hbs⟩, rfl, by simp [Derivation.tokens]⟩

end

theorem group_sound (hi : inner.Sound) (opening : Mark .openParen) (us : List Token) :
    (do
      let e ← inner.expr .lowest
      let _ ← expect .closeParen
      return e).Ends us
      (Found (fun (_ : Derivation (.expr .primary)) _ => True) (opening.token :: us))
      (Stuck (Begins (.expr .primary)) (opening.token :: us)) := by
  apply ends_bind_lift [opening.token] (hi.expr .loosest us) rfl fun r _ =>
    Begins.group opening
  rintro e vs ⟨d, hb, rfl, rfl, _⟩
  apply ends_bind
  apply ends_expect_or (opening.token :: d.tokens) (by simp)
    (Begins.group opening (.of_bounded hb)) (by decide)
  rintro closing ws rfl
  apply ends_pure
  exact ⟨.group opening d closing, hb, rfl, by simp [Derivation.tokens], fun _ _ => trivial⟩

theorem otherwise_sound (hi : inner.Sound) {ts us : List Token} {c : Expr} {b : List Stmt}
    {begun : List Token → Prop} {good : Expr → List Token → Prop} (pre : List Token)
    (hts : ts = pre ++ us) (hn : good (.conditional c b none) us)
    (ha : ∀ (word : Mark .elseWord) (d : Derivation .block) vs, d.Bounded →
      us = word.token :: (d.tokens ++ vs) → good (.conditional c b (some d.tree)) vs)
    (hb : ∀ (word : Mark .elseWord) r, Begins .block r → begun (pre ++ word.token :: r)) :
    (otherwise inner c b).Ends us good (Stuck begun ts) := by
  cases us with
  | nil =>
    apply ends_bind
    apply ends_bind
    apply ends_peek_nil
    exact .inl rfl
  | cons t us =>
    by_cases ht : t.kind = .elseWord
    · apply ends_bind
      apply ends_skip ht (by decide)
      rw [if_pos rfl]
      apply ends_bind_lift (pre ++ [t]) (block_sound hi us) (by simpa using hts)
      · intro r _ hr
        simpa using hb ⟨t, decide_eq_true ht⟩ r hr
      · rintro e vs ⟨d, hd, rfl, rfl, _⟩
        apply ends_pure
        exact ha ⟨t, decide_eq_true ht⟩ d vs hd rfl
    · apply ends_bind
      apply ends_skip_not ht
      rw [if_neg (by simp)]
      exact ends_pure hn

theorem conditional_sound (hi : inner.Sound) (word : Mark .ifWord) (us : List Token) :
    (conditional inner).Ends us
      (Found (fun (_ : Derivation (.expr .primary)) _ => True) (word.token :: us))
      (Stuck (Begins (.expr .primary)) (word.token :: us)) := by
  apply ends_bind
  apply ends_expect_or [word.token] rfl _ (by decide)
  · rintro opening vs rfl
    apply ends_bind_lift [word.token, opening.token] (hi.expr .loosest vs) rfl fun r _ =>
      Begins.condition word opening
    rintro c ws ⟨d, hb, rfl, rfl, _⟩
    apply ends_bind
    apply ends_expect_or (word.token :: opening.token :: d.tokens) (by simp)
      (Begins.condition word opening (.of_bounded hb)) (by decide)
    rintro closing xs rfl
    apply ends_bind_lift (word.token :: opening.token :: (d.tokens ++ [closing.token]))
      (block_sound hi xs) (by simp)
    · intro r _ hr
      simpa using Begins.consequence word opening d closing hb hr
    rintro b ys ⟨t, ht, rfl, rfl, _⟩
    apply otherwise_sound hi
      (word.token :: opening.token :: (d.tokens ++ closing.token :: t.tokens)) (by simp)
    · exact ⟨.conditional word opening d closing t .noAlternative, ⟨hb, ht, trivial⟩, rfl,
        by simp [Derivation.tokens], fun _ _ => trivial⟩
    · rintro other e zs he rfl
      exact ⟨.conditional word opening d closing t (.alternative other e), ⟨hb, ht, he⟩, rfl,
        by simp [Derivation.tokens], fun _ _ => trivial⟩
    · intro other r hr
      simpa using Begins.alternative word opening d closing t other hb ht hr
  · exact (Begins.condition word (.sample .openParen) (.expr_nil _)).shorten ⟨_, rfl⟩

theorem functionLiteral_sound (hi : inner.Sound) (word : Mark .fnWord) (us : List Token) :
    (functionLiteral inner).Ends us
      (Found (fun (_ : Derivation (.expr .primary)) _ => True) (word.token :: us))
      (Stuck (Begins (.expr .primary)) (word.token :: us)) := by
  apply ends_bind
  apply ends_expect_or [word.token] rfl _ (by decide)
  · rintro opening vs rfl
    apply ends_bind_lift [word.token, opening.token]
      (commaList_sound rfl boundName_sound vs) rfl fun r _ => Begins.parameters word opening
    rintro ps ws ⟨d, closing, hb, rfl, rfl⟩
    apply ends_bind_lift (word.token :: opening.token :: (d.tokens ++ [closing.token]))
      (block_sound hi ws) (by simp)
    · intro r _ hr
      simpa using Begins.body word opening d closing hb hr
    rintro b xs ⟨t, ht, rfl, rfl, _⟩
    apply ends_pure
    exact ⟨.function word opening d closing t, ⟨hb, ht⟩, rfl, by simp [Derivation.tokens],
      fun _ _ => trivial⟩
  · exact (Begins.parameters word (.sample .openParen) (.list_nil _)).shorten ⟨_, rfl⟩

/-- An expression in front of what is pending that the loop may extend: its last part was read at
its own power, so nothing that binds tighter stands behind it. -/
def Grown (power : Precedence) (ts : List Token) (e : Expr) (us : List Token) : Prop :=
  ∃ g : Grade, g ≠ .primary ∧ power ≤ g.floor ∧
    Found (fun (_ : Derivation (.expr g)) k => k.precedence ≤ g.precedence) ts e us

theorem grown_of_primary {ts us : List Token} {e : Expr}
    (h : Found (fun (_ : Derivation (.expr .primary)) _ => True) ts e us) :
    Grown .unary ts e us := by
  obtain ⟨d, hb, rfl, rfl, _⟩ := h
  obtain ⟨d', ha⟩ := Grade.loosens_called d
  refine ⟨.called, by decide, by decide, d', ha.bounded hb, ha.tree_eq, ?_, ?_⟩
  · rw [ha.tokens_eq]
  · intro t _
    cases t.kind <;> decide

theorem atom_sound {d : Derivation (.expr .primary)} {begun : List Token → Prop} {us : List Token}
    (hd : d.tokens = [t]) (hb : d.Bounded) (ho : operandFrom inner t = pure d.tree) :
    (operandFrom inner t).Ends us (Grown .unary (t :: us)) (Stuck begun (t :: us)) := by
  rw [ho]
  apply ends_pure
  exact grown_of_primary ⟨d, hb, rfl, by rw [hd, List.singleton_append], fun _ _ => trivial⟩

theorem operandFrom_sound (hi : inner.Sound) (ht : t.kind.startsExpr = true) (us : List Token) :
    (operandFrom inner t).Ends us (Grown .unary (t :: us))
      (Stuck (Begins (.expr .unary)) (t :: us)) := by
  have hp : ∀ r, r <+: t :: us → Begins (.expr .primary) r → Begins (.expr .unary) r :=
    fun r _ => Begins.loosen (Grade.loosens_of_le (by decide) (by decide))
  have hk : t.kind = .name ∨ t.kind = .number ∨ t.kind.isTruth = true ∨ t.kind.isSign = true ∨
      t.kind = .openParen ∨ t.kind = .ifWord ∨ t.kind = .fnWord := by
    revert ht
    cases t.kind <;> decide
  rcases hk with hk | hk | hk | hk | hk | hk | hk
  · have ho : operandFrom inner t = pure (.name t.text?) := by simp only [operandFrom, hk]
    exact atom_sound (d := .name ⟨t, decide_eq_true hk⟩) rfl trivial ho
  · have ho : operandFrom inner t = pure (.number t.number?) := by simp only [operandFrom, hk]
    exact atom_sound (d := .number ⟨t, decide_eq_true hk⟩) rfl trivial ho
  · have ho := @operandFrom_truth inner t (by simpa [TokenKind.isTruth] using hk)
    exact atom_sound (d := .truth ⟨t, hk⟩) rfl trivial ho
  · rw [operandFrom_signed (by simpa [TokenKind.isSign] using hk)]
    apply ends_bind_lift [t] (operand_sound hi .unary t us) rfl fun r _ =>
      Begins.signed ⟨t, hk⟩
    rintro e vs ⟨d, hb, rfl, rfl, hn⟩
    apply ends_pure
    exact ⟨.unary, by decide, by decide, .signed ⟨t, hk⟩ d, hb, rfl, rfl, hn⟩
  · simp only [operandFrom, hk]
    apply (group_sound hi ⟨t, decide_eq_true hk⟩ us).mono
    · exact fun e vs => grown_of_primary
    · exact fun fault s h => h.imp hp
  · simp only [operandFrom, hk]
    apply (conditional_sound hi ⟨t, decide_eq_true hk⟩ us).mono
    · exact fun e vs => grown_of_primary
    · exact fun fault s h => h.imp hp
  · simp only [operandFrom, hk]
    apply (functionLiteral_sound hi ⟨t, decide_eq_true hk⟩ us).mono
    · exact fun e vs => grown_of_primary
    · exact fun fault s h => h.imp hp

theorem arguments_sound (hi : inner.Sound) (us : List Token) :
    (commaList (inner.expr .lowest)).Ends us
      (fun as vs => ∃ (d : Derivation (.list (.expr .loosest))) (closing : Mark .closeParen),
        d.Bounded ∧ d.tree = as ∧ us = d.tokens ++ closing.token :: vs)
      (Stuck (Begins (.list (.expr .loosest))) us) := by
  apply commaList_sound (n := .expr .loosest) rfl
  intro ts
  apply (hi.expr .loosest ts).imp
  rintro a vs ⟨d, hb, ht, hts, _⟩
  exact ⟨d, hb, ht, hts, fun _ _ => trivial⟩

theorem extend_call_sound (hi : inner.Sound) (hg : g.ReadAt power) {us : List Token}
    (d : Derivation (.expr .called)) (hb : d.Bounded) (hp : power ≤ Precedence.unary)
    (ht : t.kind = .openParen) :
    (extend inner d.tree t).Ends us (Grown power (d.tokens ++ t :: us))
      (Stuck (Begins (.expr g)) (d.tokens ++ t :: us)) := by
  have hl : Grade.called.Loosens g :=
    Grade.loosens_of_le hg.ne_primary (hg.precedence_le_of_floor hp)
  simp only [extend, if_pos ht]
  apply ends_bind_lift (d.tokens ++ [t]) (arguments_sound hi us) (by simp)
  · intro r _ hr
    simpa using (Begins.call d ⟨t, decide_eq_true ht⟩ hb hr).loosen hl
  · rintro as vs ⟨a, closing, ha, rfl, rfl⟩
    apply ends_pure
    obtain ⟨d', hb', ht', hd'⟩ := d.exists_call ⟨t, decide_eq_true ht⟩ a closing hb ha
    refine ⟨.called, by decide, hp, d', hb', hd', by simp [ht'], ?_⟩
    intro u _
    cases u.kind <;> decide

theorem extend_operator_sound (hi : inner.Sound) (hg : g.ReadAt power) {us : List Token}
    {l : Layer} (d : Derivation (.expr (.binary l))) (hb : d.Bounded) (hp : power < l.precedence)
    (ht : l.has t.kind = true) :
    (extend inner d.tree t).Ends us (Grown power (d.tokens ++ t :: us))
      (Stuck (Begins (.expr g)) (d.tokens ++ t :: us)) := by
  have hf := Grade.le_floor_of_lt hp
  have hl : (Grade.binary l).Loosens g :=
    Grade.loosens_of_le hg.ne_primary (hg.precedence_le_of_floor hf)
  have hparen : l.has .openParen = false := by cases l <;> rfl
  have hne : t.kind ≠ .openParen := TokenKind.ne_of_accepts hparen ht
  simp only [extend, if_neg hne, Layer.precedence_of_has ht]
  apply ends_bind_lift (d.tokens ++ [t]) (operand_sound hi (.operand l) t us) (by simp)
  · intro r _ hr
    simpa using (Begins.operation d ⟨t, ht⟩ hb hr).loosen hl
  · rintro e vs ⟨right, hr, rfl, rfl, hn⟩
    apply ends_pure
    obtain ⟨d', hb', ht', hd'⟩ := d.exists_operation ⟨t, ht⟩ right hb hr
    exact ⟨.binary l, by simp, hf, d', hb', hd', by simp [ht'], hn⟩

theorem exists_layer {k : TokenKind} (h : power < k.precedence) :
    k = .openParen ∨ ∃ l : Layer, l.has k = true := by
  cases k with
  | equal | notEqual => exact .inr ⟨.equality, rfl⟩
  | less | greater => exact .inr ⟨.comparison, rfl⟩
  | plus | minus => exact .inr ⟨.sum, rfl⟩
  | star | slash => exact .inr ⟨.product, rfl⟩
  | openParen => exact .inl rfl
  | _ => exact absurd h (by cases power <;> decide)

/-- An expression that a token extends is one that is called, or the left operand in its layer. -/
theorem Grown.callee_or_left {ts us : List Token} {left : Expr} (hl : Grown power ts left (t :: us))
    (ht : power < t.kind.precedence) :
    (∃ d : Derivation (.expr .called), d.Bounded ∧ d.tree = left ∧ ts = d.tokens ++ t :: us ∧
      power ≤ Precedence.unary ∧ t.kind = .openParen) ∨
    ∃ (l : Layer) (d : Derivation (.expr (.binary l))), d.Bounded ∧ d.tree = left ∧
      ts = d.tokens ++ t :: us ∧ power < l.precedence ∧ l.has t.kind = true := by
  obtain ⟨f, hf, hp, d, hb, rfl, rfl, hn⟩ := hl
  have hk : t.kind.precedence ≤ f.precedence := hn t rfl
  rcases exists_layer ht with ho | ⟨l, ho⟩
  · have hc : f = .called := by
      rw [ho] at hk
      revert hk hf
      rcases f with ⟨_ | _⟩ | _ | _ | _ <;> decide
    subst hc
    exact .inl ⟨d, hb, rfl, rfl, hp, ho⟩
  · rw [Layer.precedence_of_has ho] at hk ht
    obtain ⟨d', ha⟩ := Grade.loosens_binary l f hk d
    exact .inr ⟨l, d', ha.bounded hb, ha.tree_eq, by rw [ha.tokens_eq], ht, ho⟩

theorem extend_sound (hi : inner.Sound) (hg : g.ReadAt power) {ts us : List Token} {left : Expr}
    (hl : Grown power ts left (t :: us)) (ht : power < t.kind.precedence) :
    (extend inner left t).Ends us (Grown power ts) (Stuck (Begins (.expr g)) ts) := by
  obtain ⟨d, hb, rfl, rfl, hp, ho⟩ | ⟨l, d, hb, rfl, rfl, hp, ho⟩ := hl.callee_or_left ht
  · exact extend_call_sound hi hg d hb hp ho
  · exact extend_operator_sound hi hg d hb hp ho

theorem climb_sound (hi : inner.Sound) (hg : g.ReadAt power) {ts us : List Token} {left : Expr}
    (hl : Grown power ts left us) :
    (climb inner power left).Ends us
      (Found (fun (_ : Derivation (.expr g)) k => k.precedence ≤ power) ts)
      (Stuck (Begins (.expr g)) ts) := by
  have hw : (climb inner power left).Ends us
      (fun e vs => Grown power ts e vs ∧ ∀ t ∈ vs.head?,
        (power < t.kind.precedence && t.kind ≠ .endOfInput) = false)
      (Stuck (Begins (.expr g)) ts) :=
    ends_repeatWhile (.inl rfl)
      (fun a t us ha ht _ => extend_sound hi hg ha (of_decide_eq_true ht)) hl
  apply hw.imp
  rintro e vs ⟨⟨f, hf, hp, d, hb, rfl, rfl, _⟩, hn⟩
  obtain ⟨d', ha⟩ :=
    Grade.loosens_of_le hg.ne_primary (hg.precedence_le_of_floor hp) d
  refine ⟨d', ha.bounded hb, ha.tree_eq, by rw [ha.tokens_eq], ?_⟩
  intro t ht
  have hk := hn t ht
  rw [Bool.and_eq_false_iff, decide_eq_false_iff_not, decide_eq_false_iff_not] at hk
  rcases hk with hk | hk
  · exact Nat.not_lt.mp hk
  · rw [Decidable.not_not.mp hk]
    cases power <;> decide

theorem exprFrom_sound (hi : inner.Sound) (hg : g.ReadAt power) (ht : t.kind.startsExpr = true)
    (us : List Token) :
    (exprFrom inner power t).Ends us
      (Found (fun (_ : Derivation (.expr g)) k => k.precedence ≤ power) (t :: us))
      (Stuck (Begins (.expr g)) (t :: us)) := by
  apply ends_bind_imp (operandFrom_sound hi ht us)
  · intro r _ hr
    have hu : g.precedence ≤ Grade.unary.precedence := hg.precedence_le_of_floor hg.le_unary
    exact hr.loosen (Grade.loosens_of_le hg.ne_primary hu)
  · rintro e vs ⟨f, hf, hp, hd⟩
    exact climb_sound hi hg ⟨f, hf, Nat.le_trans hg.le_unary hp, hd⟩

theorem expression_sound (hi : inner.Sound) (hg : g.ReadAt power) (ts : List Token) :
    (expression inner power).Ends ts
      (Found (fun (_ : Derivation (.expr g)) k => k.precedence ≤ power) ts)
      (Stuck (Begins (.expr g)) ts) := by
  apply ends_bind
  apply ends_take_or [] rfl (Begins.expr_nil g) rfl
  · exact fun t _ => rfl
  · rintro t us rfl ht
    exact exprFrom_sound hi hg ht us

theorem extendsExpr_of_le_lowest {k : TokenKind} (h : k.precedence ≤ Precedence.lowest) :
    k.extendsExpr = false := by
  revert h
  cases k <;> decide

theorem binding_sound (hi : inner.Sound) (word : Mark .letWord) (us : List Token) :
    (do
      let name ← boundName
      let _ ← expect .assign
      return Stmt.binding name (← expression inner .lowest)).Ends us
      (Found Derivation.Before (word.token :: us)) (Stuck (Begins .clause) (word.token :: us)) := by
  have hw : ∀ (bound : Mark .name), Begins .clause [word.token, bound.token] := fun bound =>
    (Begins.binding word bound (.sample .assign) (.expr_nil _)).shorten ⟨_, rfl⟩
  apply ends_bind_lift [word.token] (boundName_sound us) rfl
  · rintro r _ ⟨d, _, hr⟩
    cases d with
    | parameter bound =>
      exact (hw bound).shorten ((List.prefix_append_right_inj [word.token]).mpr hr)
  rintro name vs ⟨d, _, rfl, rfl, _⟩
  cases d with
  | parameter bound =>
    apply ends_bind
    apply ends_expect_or [word.token, bound.token] rfl (hw bound) (by decide)
    rintro assign ws rfl
    apply ends_bind_lift [word.token, bound.token, assign.token]
      (expression_sound hi .loosest ws) rfl fun r _ => Begins.binding word bound assign
    rintro e xs ⟨value, hv, rfl, rfl, hn⟩
    apply ends_pure
    exact ⟨.binding word bound assign value, hv, rfl, rfl,
      fun t ht => extendsExpr_of_le_lowest (hn t ht)⟩

theorem return_sound (hi : inner.Sound) (word : Mark .returnWord) (us : List Token) :
    (do
      if (← peek).kind.endsReturn then return Stmt.ret none
      else return .ret (some (← expression inner .lowest))).Ends us
      (Found Derivation.Before (word.token :: us)) (Stuck (Begins .clause) (word.token :: us)) := by
  cases us with
  | nil =>
    apply ends_bind
    apply ends_peek_nil
    exact .inl rfl
  | cons t us =>
    apply ends_bind
    apply ends_peek rfl
    by_cases ht : t.kind.endsReturn = true
    · rw [if_pos ht]
      apply ends_pure
      refine ⟨.bareReturn word, trivial, rfl, rfl, ?_⟩
      intro u hu
      obtain rfl := Option.some.inj hu
      exact ht
    · rw [if_neg ht]
      apply ends_bind_lift [word.token] (expression_sound hi .loosest (t :: us)) rfl
        fun r _ => Begins.valueReturn word
      rintro e vs ⟨value, hv, rfl, hts, hn⟩
      apply ends_pure
      exact ⟨.valueReturn word value, hv, rfl, congrArg _ hts,
        fun t ht => extendsExpr_of_le_lowest (hn t ht)⟩

theorem bareStmt_sound (hi : inner.Sound) (ht : t.kind.startsStmt = true) (us : List Token) :
    (bareStmt inner t).Ends us (Found Derivation.Before (t :: us))
      (Stuck (Begins .clause) (t :: us)) := by
  simp only [TokenKind.startsStmt, Bool.or_eq_true, decide_eq_true_eq] at ht
  obtain ((hk | hk) | hk) | hk := ht
  · rw [bareStmt_expr hk]
    apply ends_bind_imp (exprFrom_sound hi .loosest hk us) fun r _ => Begins.exprClause
    rintro e vs ⟨d, hb, rfl, hts, hn⟩
    apply ends_pure
    exact ⟨.exprClause d, hb, rfl, hts, fun t ht => extendsExpr_of_le_lowest (hn t ht)⟩
  · simp only [bareStmt, hk]
    exact binding_sound hi ⟨t, decide_eq_true hk⟩ us
  · simp only [bareStmt, hk]
    exact return_sound hi ⟨t, decide_eq_true hk⟩ us
  · simp only [bareStmt, hk]
    apply ends_bind_lift [t] (blockBody_sound hi us) rfl fun r _ hr =>
      Begins.blockClause (.block ⟨t, decide_eq_true hk⟩ hr)
    rintro b vs ⟨d, closing, hb, rfl, rfl⟩
    apply ends_pure
    exact ⟨.blockClause (.block ⟨t, decide_eq_true hk⟩ d closing), hb, rfl,
      by simp [Derivation.tokens], fun _ _ => trivial⟩

theorem stmtFrom_sound (hi : inner.Sound) (ht : t.kind.startsStmt = true) (us : List Token) :
    (stmtFrom inner t).Ends us
      (fun stmt vs => ∃ d : Derivation .clause, d.Bounded ∧ d.tree = stmt ∧
        ((∃ m : Mark .semicolon, t :: us = d.tokens ++ m.token :: vs) ∨
          t :: us = d.tokens ++ vs ∧
            ∀ u ∈ vs.head?, u.kind ≠ .semicolon ∧ d.Before u.kind))
      (Stuck (Begins .clause) (t :: us)) := by
  apply ends_bind
  apply (bareStmt_sound hi ht us).imp
  rintro stmt vs ⟨d, hb, rfl, hts, hn⟩
  cases vs with
  | nil =>
    apply ends_bind
    apply ends_bind
    apply ends_peek_nil
    exact .inl rfl
  | cons v vs =>
    by_cases hv : v.kind = .semicolon
    · apply ends_bind
      apply ends_skip hv (by decide)
      apply ends_pure
      exact ⟨d, hb, rfl, .inl ⟨⟨v, decide_eq_true hv⟩, hts⟩⟩
    · apply ends_bind
      apply ends_skip_not hv
      apply ends_pure
      refine ⟨d, hb, rfl, .inr ⟨hts, ?_⟩⟩
      intro u hu
      obtain rfl := Option.some.inj hu
      exact ⟨hv, hn v rfl⟩

theorem statements_sound (hi : inner.Sound) (ts : List Token) :
    (statements inner).Ends ts (Found (fun (_ : Derivation .statements) _ => True) ts)
      (Stuck (Begins .statements) ts) := by
  have hc : (collect TokenKind.startsStmt (stmtFrom inner) []).Ends ts
      (fun out us => ∃ as, out = as.reverse ++ [] ∧
        Found (fun (_ : Derivation .statements) _ => True) ts as us)
      (Stuck (Begins .statements) ts) := by
    apply ends_collect
    · exact .inl rfl
    · intro t us _
      exact ⟨.noStatements, trivial, rfl, rfl, fun _ _ => trivial⟩
    · intro t us ht
      apply (stmtFrom_sound hi ht us).mono
      · rintro stmt vs ⟨d, hb, rfl, ⟨m, hts⟩ | ⟨hts, hn⟩⟩
        · constructor
          · rintro as ws ⟨ds, hbs, rfl, rfl, _⟩
            exact ⟨.statement d (some m) ds, ⟨hb, hbs⟩, rfl, by simp [Derivation.tokens, hts],
              fun _ _ => trivial⟩
          · intro fault s h
            apply h.lift (d.tokens ++ [m.token]) (by simp [hts])
            intro r _ hr
            simpa using Begins.statement d m hb hr
        · have hhead : ∀ r ws, vs = r ++ ws → ∀ u ∈ r.head?,
              u.kind ≠ .semicolon ∧ d.Before u.kind := by
            rintro r ws rfl u hu
            apply hn
            rw [List.head?_append, Option.mem_def.mp hu]
            rfl
          constructor
          · rintro as ws ⟨ds, hbs, rfl, hvs, _⟩
            exact ⟨.statement d none ds, ⟨hb, hbs, hhead _ _ hvs⟩, rfl,
              by simp [Derivation.tokens, hts, hvs], fun _ _ => trivial⟩
          · intro fault s h
            apply h.lift d.tokens hts
            rintro r ⟨ws, hvs⟩ hr
            exact Begins.statement_bare d hb (hhead r ws hvs.symm) hr
      · intro fault s h
        exact h.imp fun r _ => Begins.clause
  apply ends_many
  apply hc.imp
  rintro out us ⟨as, rfl, has⟩
  simpa using has

end

theorem level_sound (k : Nat) : (level k).Sound := by
  induction k with
  | zero =>
    constructor
    · intro g power _ ts
      exact ends_fail fun s hs => .inr (.inl ⟨rfl, [], hs.symm, .expr_nil g⟩)
    · intro ts
      exact ends_fail fun s hs => .inr (.inl ⟨rfl, [], hs.symm, .statements_nil⟩)
  | succ k ih =>
    constructor
    · intro g power hg ts
      exact expression_sound ih hg ts
    · intro ts
      exact statements_sound ih ts

theorem programWithin_sound (levels : Nat) (ts : List Token) :
    (programWithin levels).Ends ts
      (fun program us => ∃ (d : Derivation .program) (t : Token) (rest : List Token), d.Bounded ∧
        d.tree = program ∧ t.kind = .endOfInput ∧ us = t :: rest ∧ ts = d.tokens ++ rest)
      (Stuck (Begins .program) ts) := by
  apply ends_bind_imp (statements_sound (level_sound levels) ts) fun r _ => Begins.program
  rintro program us ⟨d, hb, rfl, rfl, _⟩
  cases us with
  | nil =>
    apply ends_bind
    apply ends_bind
    apply ends_peek_nil
    exact .inl rfl
  | cons t us =>
    by_cases ht : t.kind = .endOfInput
    · apply ends_bind
      apply ends_take_end (decide_eq_true ht) ht
      apply ends_pure
      exact ⟨.program d ⟨t, decide_eq_true ht⟩, t, us, hb, rfl, ht, rfl,
        by simp [Derivation.tokens]⟩
    · apply ends_bind
      apply ends_take_not (decide_eq_false ht)
      exact .inr (.inr ⟨d.tokens, t, us, _, rfl, .program (.of_bounded hb), rfl, rfl, rfl⟩)

end Parser

end ExprLang
