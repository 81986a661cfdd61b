import ExprLang.Proofs.DeepNesting
import ExprLang.Proofs.ParserSoundness

/-!
Levels of nesting. The parser runs out of levels only where so many constructs are open at once:
statements, arguments and operations that stand behind one another take no levels, however many
there are.
-/

namespace ExprLang

open ExprLang.Parser ExprLang.Derivation TokenStream

/-- Tokens with a beginning behind which exactly so many constructs are open. -/
def Nests (n : Nonterminal) (m : Nat) (ts : List Token) : Prop :=
  ∃ st read, Opens n st read ∧ read <+: ts ∧ st.length = m

section
variable {n n' : Nonterminal} {m : Nat} {ts us : List Token}

theorem nests_zero (n : Nonterminal) (ts : List Token) : Nests n 0 ts :=
  ⟨[], [], .start n, List.nil_prefix, rfl⟩

theorem Nests.lift (h : Nests n m us) (pre : List Token) (hts : ts = pre ++ us)
    (ho : ∀ st r, r <+: us → Opens n st r → Opens n' st (pre ++ r)) : Nests n' m ts := by
  obtain ⟨st, r, hr, hp, hl⟩ := h
  refine ⟨st, pre ++ r, ho st r hp hr, ?_, hl⟩
  rw [hts]
  exact (List.prefix_append_right_inj pre).mpr hp

theorem Nests.enter (h : Nests n m us) (c : Construct) (pre : List Token) (hts : ts = pre ++ us)
    (ho : ∀ st r, Opens n st r → Opens n' (c :: st) (pre ++ r)) : Nests n' (m + 1) ts := by
  obtain ⟨st, r, hr, hp, hl⟩ := h
  refine ⟨c :: st, pre ++ r, ho st r hr, ?_, congrArg (· + 1) hl⟩
  rw [hts]
  exact (List.prefix_append_right_inj pre).mpr hp

theorem Nests.loosen {g h : Grade} (hn : Nests (.expr g) m ts) (hp : h ≠ .primary)
    (hl : h.precedence ≤ g.precedence) : Nests (.expr h) m ts :=
  hn.lift [] rfl fun _ _ _ => Opens.loosen hp hl

end

namespace Parser

section
variable {α β : Type} {p : Parser α} {f : α → Parser β} {ts us : List Token} {P Q : Prop}
  {good : α → List Token → Prop} {bad : Fault → TokenStream → Prop}

/-- A run on the tokens runs out of levels only if `P`. -/
def DeepOnly (p : Parser α) (ts : List Token) (P : Prop) : Prop :=
  p.Ends ts (fun _ _ => True) fun fault s => TooDeep fault s → P

theorem DeepOnly.imp (h : p.DeepOnly ts P) (hq : P → Q) : p.DeepOnly ts Q :=
  h.mono (fun _ _ _ => trivial) fun _ _ hp hf => hq (hp hf)

theorem DeepOnly.found (h : p.DeepOnly ts P) (hp : p.Ends ts good bad) :
    p.Ends ts good fun fault s => TooDeep fault s → P := by
  intro s hf hs
  have h₁ := h s hf hs
  have h₂ := hp s hf hs
  cases hr : p.run s with
  | mk result s' =>
    rw [hr] at h₁ h₂
    cases result with
    | ok a => exact h₂
    | error fault => exact h₁

theorem deepOnly_pure (a : α) : (pure a : Parser α).DeepOnly ts P :=
  ends_pure trivial

theorem deepOnly_bind (hp : p.Ends us good bad) (hd : p.DeepOnly us P)
    (hf : ∀ a vs, good a vs → (f a).DeepOnly vs P) : (p >>= f).DeepOnly us P :=
  ends_bind ((hd.found hp).imp hf)

theorem DeepOnly.bind (hd : p.DeepOnly us P) (hf : ∀ a vs, (f a).DeepOnly vs P) :
    (p >>= f).DeepOnly us P :=
  deepOnly_bind hd hd fun a vs _ => hf a vs

theorem deepOnly_peek {f : Token → Parser β}
    (h : ∀ t vs, us = t :: vs → (f t).DeepOnly us P) : (peek >>= f).DeepOnly us P := by
  apply ends_bind
  cases us with
  | nil =>
    apply ends_peek_nil
    intro hf
    cases hf
  | cons t vs => exact ends_peek rfl (h t vs rfl)

theorem take_deepOnly {accepts : TokenKind → Bool} {problem : Token → Problem}
    (hp : ∀ t, problem t ≠ .nestingTooDeepToParse) : (take accepts problem).DeepOnly us P := by
  apply deepOnly_peek
  rintro t vs rfl
  split
  · exact ends_advance trivial
  · apply ends_fail
    intro s _ hf
    exact absurd (Fault.problem.inj hf) (hp t)

theorem deepOnly_take {accepts : TokenKind → Bool} {problem : Token → Problem}
    {f : Token → Parser β} (he : accepts .endOfInput = false)
    (hp : ∀ t, problem t ≠ .nestingTooDeepToParse)
    (h : ∀ t vs, us = t :: vs → accepts t.kind = true → (f t).DeepOnly vs P) :
    (take accepts problem >>= f).DeepOnly us P := by
  apply ends_bind
  cases us with
  | nil =>
    apply ends_bind
    apply ends_peek_nil
    intro hf
    cases hf
  | cons t vs =>
    by_cases ht : accepts t.kind = true
    · exact ends_take ht (TokenKind.ne_of_accepts he ht) (h t vs rfl ht)
    · apply ends_take_not (Bool.eq_false_iff.mpr ht)
      intro hf
      exact absurd (Fault.problem.inj hf) (hp t)

theorem deepOnly_expect {kind : TokenKind} {f : Token → Parser β} (hk : kind ≠ .endOfInput)
    (h : ∀ (m : Mark kind) vs, us = m.token :: vs → (f m.token).DeepOnly vs P) :
    (expect kind >>= f).DeepOnly us P := by
  apply deepOnly_take
  · simpa using hk.symm
  · intro t
    split <;> simp
  · exact fun t vs hu ht => h ⟨t, ht⟩ vs hu

theorem deepOnly_skip {kind : TokenKind} {f : Bool → Parser β} (hk : kind ≠ .endOfInput)
    (ht : ∀ (m : Mark kind) vs, us = m.token :: vs → (f true).DeepOnly vs P)
    (hn : (f false).DeepOnly us P) : (skip kind >>= f).DeepOnly us P := by
  apply ends_bind
  cases us with
  | nil =>
    apply ends_bind
    apply ends_peek_nil
    intro hf
    cases hf
  | cons t vs =>
    by_cases ht' : t.kind = kind
    · exact ends_skip ht' hk (ht ⟨t, decide_eq_true ht'⟩ vs rfl)
    · exact ends_skip_not ht' hn

/-- The rule for a loop that gathers items: what holds of the tokens behind an item has to hold of
those in front of it too. -/
theorem deepOnly_many {accepts : TokenKind → Bool} {item : Token → Parser α}
    {P : List Token → Prop}
    (h : ∀ t us, accepts t.kind = true → (item t).Ends us (fun _ vs => P vs → P (t :: us))
      fun fault s => TooDeep fault s → P (t :: us)) :
    (many accepts item).DeepOnly ts (P ts) := by
  have hc : (collect accepts item []).Ends ts
      (fun out _ => ∃ as : List α, out = as.reverse ++ [] ∧ True)
      (fun fault s => TooDeep fault s → P ts) := by
    apply ends_collect
    · intro hf
      cases hf
    · exact fun _ _ _ => trivial
    · intro t us ht
      exact (h t us ht).imp fun a vs hp => ⟨fun _ _ _ => trivial, fun fault s hq hf => hp (hq hf)⟩
  apply ends_many
  exact hc.imp fun _ _ _ => trivial

end

structure Inner.DeepOnly (inner : Inner) (m : Nat) : Prop where
  expr {g : Grade} {power : Precedence} (hg : g.ReadAt power) (ts : List Token) :
    (inner.expr power).DeepOnly ts (Nests (.expr g) m ts)
  statements (ts : List Token) : inner.statements.DeepOnly ts (Nests .statements m ts)

section
variable {inner : Inner} {m : Nat} {g : Grade} {power : Precedence} {t : Token} {P : Prop}

theorem operand_deepOnly (hi : inner.DeepOnly m) (hg : g.ReadAt power) (op : Token)
    (ts : List Token) : (operand inner op power).DeepOnly ts (Nests (.expr g) m ts) := by
  apply deepOnly_peek
  intro t vs _
  split
  · exact hi.expr hg ts
  · apply ends_fail
    intro s _ hf
    cases hf

theorem blockBody_deepOnly (hs : inner.Sound) (hi : inner.DeepOnly m) (ts : List Token) :
    (blockBody inner).DeepOnly ts (Nests .statements m ts) := by
  apply deepOnly_bind (hs.statements ts) (hi.statements ts)
  intro b vs _
  apply deepOnly_take rfl
  · intro t
    split <;> simp
  · exact fun _ _ _ _ => deepOnly_pure _

theorem block_deepOnly (hs : inner.Sound) (hi : inner.DeepOnly m) {us : List Token}
    (h : ∀ (brace : Mark .openBrace) vs, us = brace.token :: vs → Nests .statements m vs → P) :
    (block inner).DeepOnly us P := by
  apply deepOnly_expect (by decide)
  intro brace vs hu
  exact (blockBody_deepOnly hs hi vs).imp (h brace vs hu)

theorem boundName_deepOnly (us : List Token) : boundName.DeepOnly us P :=
  deepOnly_expect (by decide) fun _ _ _ => deepOnly_pure _

section
variable {n : Nonterminal} {item : Parser n.Tree} (hn : n.isItem = true)
  (hs : ∀ ts, item.Ends ts (Found (fun (_ : Derivation n) _ => True) ts) (Stuck (Begins n) ts))
  (hi : ∀ ts, item.DeepOnly ts (Nests n m ts))
include hn hs hi

theorem many_comma_deepOnly (ts : List Token) :
    (many (· = .comma) fun _ => item).DeepOnly ts (Nests (.more n) m ts) := by
  apply deepOnly_many (P := Nests (.more n) m)
  intro t us ht
  have hd : item.DeepOnly us (Nests (.more n) m (t :: us)) :=
    (hi us).imp fun h => h.lift [t] rfl fun _ _ _ => Opens.item hn ⟨t, ht⟩
  apply (hd.found (hs us)).imp
  rintro a vs ⟨d, hb, rfl, rfl, _⟩ h
  exact h.lift (t :: d.tokens) (by simp) fun _ _ _ => Opens.next hn ⟨t, ht⟩ d hb

theorem commaList_deepOnly (ts : List Token) :
    (commaList item).DeepOnly ts (Nests (.list n) m ts) := by
  apply deepOnly_peek
  intro t us _
  by_cases ht : t.kind = .closeParen
  · rw [if_pos ht]
    apply ends_bind
    apply ends_pure
    exact deepOnly_expect (by decide) fun _ _ _ => deepOnly_pure _
  · rw [if_neg ht]
    apply deepOnly_bind (hs ts)
    · exact (hi ts).imp fun h => h.lift [] rfl fun _ _ _ => Opens.firstItem hn
    rintro a vs ⟨d, hb, rfl, hts, _⟩
    apply deepOnly_bind (many_comma_sound hn hs vs)
    · exact (many_comma_deepOnly hn hs hi vs).imp fun h =>
        h.lift d.tokens hts fun _ _ _ => Opens.items hn d hb
    intro _ _ _
    apply ends_bind
    apply ends_pure
    exact deepOnly_expect (by decide) fun _ _ _ => deepOnly_pure _

end

variable (hs : inner.Sound) (hi : inner.DeepOnly m)
include hs hi

theorem arguments_deepOnly (us : List Token) :
    (commaList (inner.expr .lowest)).DeepOnly us (Nests (.list (.expr .loosest)) m us) := by
  apply commaList_deepOnly (n := .expr .loosest) rfl
  · intro ts
    apply (hs.expr .loosest ts).imp
    rintro a vs ⟨d, hb, ht, hts, _⟩
    exact ⟨d, hb, ht, hts, fun _ _ => trivial⟩
  · exact hi.expr .loosest

theorem group_deepOnly (opening : Mark .openParen) (us : List Token) :
    (do
      let e ← inner.expr .lowest
      let _ ← expect .closeParen
      return e).DeepOnly us (Nests (.expr .primary) (m + 1) (opening.token :: us)) := by
  apply deepOnly_bind (hs.expr .loosest us)
  · exact (hi.expr .loosest us).imp fun h =>
      h.enter .group [opening.token] rfl fun _ _ => Opens.group opening
  · intro e vs _
    exact deepOnly_expect (by decide) fun _ _ _ => deepOnly_pure _

theorem otherwise_deepOnly {us : List Token} (c : Expr) (b : List Stmt)
    (h : ∀ (other : Mark .elseWord) (brace : Mark .openBrace) vs,
      us = other.token :: brace.token :: vs → Nests .statements m vs → P) :
    (otherwise inner c b).DeepOnly us P := by
  apply deepOnly_skip (by decide)
  · rintro other vs rfl
    apply deepOnly_bind (block_sound hs vs)
    · apply block_deepOnly hs hi
      rintro brace ws rfl
      exact h other brace ws rfl
    · exact fun _ _ _ => deepOnly_pure _
  · exact deepOnly_pure _

theorem conditional_deepOnly (word : Mark .ifWord) (us : List Token) :
    (conditional inner).DeepOnly us (Nests (.expr .primary) (m + 1) (word.token :: us)) := by
  apply deepOnly_expect (by decide)
  rintro opening vs rfl
  apply deepOnly_bind (hs.expr .loosest vs)
  · exact (hi.expr .loosest vs).imp fun h => h.enter .conditional [word.token, opening.token] rfl
      fun _ _ => Opens.condition word opening
  rintro c ws ⟨d, hb, rfl, rfl, _⟩
  apply deepOnly_expect (by decide)
  rintro closing xs rfl
  apply deepOnly_bind (block_sound hs xs)
  · apply block_deepOnly hs hi
    rintro brace ys rfl h
    apply h.enter .conditional
      (word.token :: opening.token :: (d.tokens ++ [closing.token, brace.token])) (by simp)
    intro st r hr
    simpa using Opens.consequence word opening d closing brace hb hr
  rintro b ys ⟨t, ht, rfl, rfl, _⟩
  apply otherwise_deepOnly hs hi
  rintro other brace zs rfl h
  apply h.enter .conditional (word.token :: opening.token ::
    (d.tokens ++ closing.token :: (t.tokens ++ [other.token, brace.token]))) (by simp)
  intro st r hr
  simpa using Opens.alternative word opening d closing t other brace hb ht hr

theorem functionLiteral_deepOnly (word : Mark .fnWord) (us : List Token) :
    (functionLiteral inner).DeepOnly us (Nests (.expr .primary) (m + 1) (word.token :: us)) := by
  apply deepOnly_expect (by decide)
  rintro opening vs rfl
  have hps := commaList_deepOnly (n := .parameter) (m := m) rfl boundName_sound
    (fun _ => boundName_deepOnly _) vs
  apply deepOnly_bind (commaList_sound (n := .parameter) rfl boundName_sound vs)
  · exact hps.imp fun h => h.enter .function [word.token, opening.token] rfl
      fun _ _ => Opens.parameters word opening
  rintro ps ws ⟨d, closing, hb, rfl, rfl⟩
  apply deepOnly_bind (block_sound hs ws)
  · apply block_deepOnly hs hi
    rintro brace xs rfl h
    apply h.enter .function
      (word.token :: opening.token :: (d.tokens ++ [closing.token, brace.token])) (by simp)
    intro st r hr
    simpa using Opens.body word opening d closing brace hb hr
  · exact fun _ _ _ => deepOnly_pure _

theorem signed_deepOnly (sign : Leaf TokenKind.isSign) (us : List Token) :
    (do return Expr.unary sign.token.kind (some (← operand inner sign.token .unary))).DeepOnly us
      (Nests (.expr .unary) (m + 1) (sign.token :: us)) := by
  apply deepOnly_bind (operand_sound hs .unary sign.token us)
  · exact (operand_deepOnly hi .unary sign.token us).imp fun h =>
      h.enter .sign [sign.token] rfl fun _ _ => Opens.signed sign
  · exact fun _ _ _ => deepOnly_pure _

theorem operandFrom_deepOnly (us : List Token) :
    (operandFrom inner t).DeepOnly us (Nests (.expr .unary) (m + 1) (t :: us)) := by
  have hp : Nests (.expr .primary) (m + 1) (t :: us) → Nests (.expr .unary) (m + 1) (t :: us) :=
    fun h => h.loosen (by decide) (by decide)
  by_cases ht : t.kind = .minus ∨ t.kind = .bang
  · rw [operandFrom_signed ht]
    exact signed_deepOnly hs hi ⟨t, by simpa [TokenKind.isSign] using ht⟩ us
  unfold operandFrom
  split <;> rename_i hk
  · exact deepOnly_pure _
  · exact deepOnly_pure _
  · exact deepOnly_pure _
  · exact deepOnly_pure _
  · exact absurd (.inl hk) ht
  · exact absurd (.inr hk) ht
  · exact (group_deepOnly hs hi ⟨t, decide_eq_true hk⟩ us).imp hp
  · exact (conditional_deepOnly hs hi ⟨t, decide_eq_true hk⟩ us).imp hp
  · exact (functionLiteral_deepOnly hs hi ⟨t, decide_eq_true hk⟩ us).imp hp
  · apply ends_fail
    intro s _ hf
    cases hf

theorem extend_call_deepOnly (hg : g.ReadAt power) {us : List Token}
    (d : Derivation (.expr .called)) (hb : d.Bounded) (hp : power ≤ Precedence.unary)
    (ht : t.kind = .openParen) :
    (extend inner d.tree t).DeepOnly us (Nests (.expr g) (m + 1) (d.tokens ++ t :: us)) := by
  have hl : g.precedence ≤ Grade.called.precedence := hg.precedence_le_of_floor hp
  simp only [extend, if_pos ht]
  apply deepOnly_bind (arguments_sound hs us)
  · apply (arguments_deepOnly hs hi us).imp
    intro h
    apply h.enter .arguments (d.tokens ++ [t]) (by simp)
    intro st r hr
    simpa using (Opens.arguments d hb ⟨t, decide_eq_true ht⟩ hr).loosen hg.ne_primary hl
  · exact fun _ _ _ => deepOnly_pure _

theorem extend_operator_deepOnly (hg : g.ReadAt power) {us : List Token} {l : Layer}
    (d : Derivation (.expr (.binary l))) (hb : d.Bounded) (hp : power < l.precedence)
    (ht : l.has t.kind = true) :
    (extend inner d.tree t).DeepOnly us (Nests (.expr g) (m + 1) (d.tokens ++ t :: us)) := by
  have hl : g.precedence ≤ (Grade.binary l).precedence :=
    hg.precedence_le_of_floor (Grade.le_floor_of_lt hp)
  have hparen : l.has .openParen = false := by cases l <;> rfl
  have hne : t.kind ≠ .openParen := TokenKind.ne_of_accepts hparen ht
  simp only [extend, if_neg hne, Layer.precedence_of_has ht]
  apply deepOnly_bind (operand_sound hs (.operand l) t us)
  · apply (operand_deepOnly hi (.operand l) t us).imp
    intro h
    apply h.enter .rightOperand (d.tokens ++ [t]) (by simp)
    intro st r hr
    simpa using (Opens.rightOperand d hb ⟨t, ht⟩ hr).loosen hg.ne_primary hl
  · exact fun _ _ _ => deepOnly_pure _

theorem extend_deepOnly (hg : g.ReadAt power) {ts us : List Token} {left : Expr}
    (hl : Grown power ts left (t :: us)) (ht : power < t.kind.precedence) :
    (extend inner left t).DeepOnly us (Nests (.expr g) (m + 1) ts) := by
  obtain ⟨d, hb, rfl, rfl, hp, ho⟩ | ⟨l, d, hb, rfl, rfl, hp, ho⟩ := hl.callee_or_left ht
  · exact extend_call_deepOnly hs hi hg d hb hp ho
  · exact extend_operator_deepOnly hs hi hg d hb hp ho

theorem climb_deepOnly (hg : g.ReadAt power) {ts us : List Token} {left : Expr}
    (hl : Grown power ts left us) :
    (climb inner power left).DeepOnly us (Nests (.expr g) (m + 1) ts) := by
  have hw : (climb inner power left).Ends us
      (fun e vs => Grown power ts e vs ∧ ∀ t ∈ vs.head?,
        (power < t.kind.precedence && t.kind ≠ .endOfInput) = false)
      (fun fault s => TooDeep fault s → Nests (.expr g) (m + 1) ts) := by
    apply ends_repeatWhile _ _ hl
    · intro hf
      cases hf
    · intro a t us ha ht _
      have ht := of_decide_eq_true ht
      exact (extend_deepOnly hs hi hg ha ht).found (extend_sound hs hg ha ht)
  exact hw.imp fun _ _ _ => trivial

theorem exprFrom_deepOnly (hg : g.ReadAt power) (ht : t.kind.startsExpr = true) (us : List Token) :
    (exprFrom inner power t).DeepOnly us (Nests (.expr g) (m + 1) (t :: us)) := by
  apply deepOnly_bind (operandFrom_sound hs ht us)
  · have hu : g.precedence ≤ Grade.unary.precedence := hg.precedence_le_of_floor hg.le_unary
    exact (operandFrom_deepOnly hs hi us).imp fun h => h.loosen hg.ne_primary hu
  · rintro e vs ⟨f, hf, hp, hd⟩
    exact climb_deepOnly hs hi hg ⟨f, hf, Nat.le_trans hg.le_unary hp, hd⟩

theorem expression_deepOnly (hg : g.ReadAt power) (ts : List Token) :
    (expression inner power).DeepOnly ts (Nests (.expr g) (m + 1) ts) := by
  apply deepOnly_take rfl
  · exact fun t => by simp
  · rintro t us rfl ht
    exact exprFrom_deepOnly hs hi hg ht us

theorem binding_deepOnly (word : Mark .letWord) (us : List Token) :
    (do
      let name ← boundName
      let _ ← expect .assign
      return Stmt.binding name (← expression inner .lowest)).DeepOnly us
      (Nests .clause (m + 1) (word.token :: us)) := by
  apply deepOnly_bind (boundName_sound us) (boundName_deepOnly us)
  rintro name vs ⟨d, _, rfl, rfl, _⟩
  cases d with
  | parameter bound =>
    apply deepOnly_expect (by decide)
    rintro assign ws rfl
    apply deepOnly_bind (expression_sound hs .loosest ws)
    · exact (expression_deepOnly hs hi .loosest ws).imp fun h =>
        h.lift [word.token, bound.token, assign.token] rfl
          fun _ _ _ => Opens.binding word bound assign
    · exact fun _ _ _ => deepOnly_pure _

theorem return_deepOnly (word : Mark .returnWord) (us : List Token) :
    (do
      if (← peek).kind.endsReturn then return Stmt.ret none
      else return .ret (some (← expression inner .lowest))).DeepOnly us
      (Nests .clause (m + 1) (word.token :: us)) := by
  apply deepOnly_peek
  intro t vs _
  split
  · exact deepOnly_pure _
  · apply deepOnly_bind (expression_sound hs .loosest us)
    · exact (expression_deepOnly hs hi .loosest us).imp fun h =>
        h.lift [word.token] rfl fun _ _ _ => Opens.valueReturn word
    · exact fun _ _ _ => deepOnly_pure _

theorem bareStmt_deepOnly (ht : t.kind.startsStmt = true) (us : List Token) :
    (bareStmt inner t).DeepOnly us (Nests .clause (m + 1) (t :: us)) := by
  simp only [TokenKind.startsStmt, Bool.or_eq_true, decide_eq_true_eq] at ht
  obtain ((hk | hk) | hk) | hk := ht
  · rw [bareStmt_expr hk]
    apply deepOnly_bind (exprFrom_sound hs .loosest hk us)
    · exact (exprFrom_deepOnly hs hi .loosest hk us).imp fun h =>
        h.lift [] rfl fun _ _ _ => Opens.exprClause
    · exact fun _ _ _ => deepOnly_pure _
  · simp only [bareStmt, hk]
    exact binding_deepOnly hs hi ⟨t, decide_eq_true hk⟩ us
  · simp only [bareStmt, hk]
    exact return_deepOnly hs hi ⟨t, decide_eq_true hk⟩ us
  · simp only [bareStmt, hk]
    apply deepOnly_bind (blockBody_sound hs us)
    · exact (blockBody_deepOnly hs hi us).imp fun h =>
        h.enter .block [t] rfl fun _ _ => Opens.blockClause ⟨t, decide_eq_true hk⟩
    · exact fun _ _ _ => deepOnly_pure _

theorem stmtFrom_deepOnly (ht : t.kind.startsStmt = true) (us : List Token) :
    (stmtFrom inner t).DeepOnly us (Nests .clause (m + 1) (t :: us)) := by
  apply deepOnly_bind (bareStmt_sound hs ht us) (bareStmt_deepOnly hs hi ht us)
  intro stmt vs _
  apply deepOnly_skip (by decide)
  · exact fun _ _ _ => deepOnly_pure _
  · exact deepOnly_pure _

theorem statements_deepOnly (ts : List Token) :
    (statements inner).DeepOnly ts (Nests .statements (m + 1) ts) := by
  apply deepOnly_many (P := Nests .statements (m + 1))
  intro t us ht
  have hd : (stmtFrom inner t).DeepOnly us (Nests .statements (m + 1) (t :: us)) :=
    (stmtFrom_deepOnly hs hi ht us).imp fun h => h.lift [] rfl fun _ _ _ => Opens.clause
  apply (hd.found (stmtFrom_sound hs ht us)).imp
  rintro stmt vs ⟨d, hb, rfl, ⟨semicolon, hts⟩ | ⟨hts, hn⟩⟩ h
  · apply h.lift (d.tokens ++ [semicolon.token]) (by simp [hts])
    intro st r _ hr
    simpa using Opens.statement d semicolon hb hr
  · apply h.lift d.tokens hts
    rintro st r ⟨ws, rfl⟩ hr
    apply Opens.bareStatement d hb _ hr
    intro u hu
    apply hn
    rw [List.head?_append, Option.mem_def.mp hu]
    rfl

end

theorem level_deepOnly (k : Nat) : (level k).DeepOnly k := by
  induction k with
  | zero =>
    constructor
    · exact fun _ ts => ends_fail fun _ _ _ => nests_zero _ ts
    · exact fun ts => ends_fail fun _ _ _ => nests_zero _ ts
  | succ k ih =>
    constructor
    · exact fun hg ts => expression_deepOnly (level_sound k) ih hg ts
    · exact fun ts => statements_deepOnly (level_sound k) ih ts

theorem programWithin_deepOnly (levels : Nat) (ts : List Token) :
    (programWithin levels).DeepOnly ts (Nests .program (levels + 1) ts) := by
  apply deepOnly_bind (statements_sound (level_sound levels) ts)
  · exact (statements_deepOnly (level_sound levels) (level_deepOnly levels) ts).imp fun h =>
      h.lift [] rfl fun _ _ _ => Opens.program
  · intro program us _
    have hp (t : Token) : Problem.noExpression t.found ≠ .nestingTooDeepToParse := by simp
    exact (take_deepOnly hp).bind fun _ _ => deepOnly_pure _

/-- A fault behind the tokens is another one, so the levels do not suffice for the tokens. -/
theorem nests_of_run {levels : Nat} {source : Source}
    (hf : source.fault ≠ some (.problem .nestingTooDeepToParse))
    (hr : ((programWithin levels).run { source }).1 = .error (.problem .nestingTooDeepToParse)) :
    Nests .program (levels + 1) source.tokens := by
  obtain ⟨ts, fault⟩ := source
  have hm := Made.programWithin levels
  have hd := programWithin_deepOnly levels ts (.ofTokens ts) rfl rfl
  cases ho : (programWithin levels).run (.ofTokens ts) with
  | mk result s' =>
    rw [ho] at hd
    by_cases he : result = .error .endMissing
    · subst he
      cases fault with
      | none => cases hr.symm.trans (congrArg Prod.fst ho)
      | some fault =>
        have hdry := hm.dryAt (s := .ofTokens ts) rfl s' ho fault
        obtain rfl := Except.error.inj (hdry.symm.trans hr)
        exact absurd rfl hf
    · have ha := hm.run_append (s := .ofTokens ts) rfl ho he ⟨[], fault⟩
      simp only [ofTokens, List.append_nil] at ha
      rw [ha] at hr
      subst hr
      exact hd rfl

end Parser

theorem opens_groups (m : Nat) : Opens (.expr .loosest) (List.replicate m .group)
    (List.replicate m (.sample .openParen)) := by
  induction m with
  | zero => exact .start _
  | succ m ih => exact (ih.group (.sample .openParen)).loosen (by decide) (by decide)

end ExprLang
