import ExprLang.Proofs.DerivationEdges
import ExprLang.Proofs.ParserRuns

/-!
The parser reads every derivation that obeys the boundary rule, and builds its tree, as long as the
levels suffice. As many levels as there are tokens always do.
-/

namespace ExprLang

open ExprLang.Parser

def Parser.listItem (inner : Inner) : (n : Nonterminal) → Parser n.Tree
  | .expr _ => inner.expr .lowest
  | .parameter => boundName
  | _ => fail .nestingTooDeepToParse

/-- With too few levels for so many tokens, a fault is allowed that says so. -/
def Cramped (levels length : Nat) (bad : Fault → TokenStream → Prop) : Prop :=
  levels < length → ∀ s, bad (.problem .nestingTooDeepToParse) s

namespace Cramped

variable {k m n : Nat} {bad : Fault → TokenStream → Prop}

theorem part (h : Cramped k m bad) (hn : n ≤ m) : Cramped k n bad :=
  fun hk => h (Nat.lt_of_lt_of_le hk hn)

theorem inner (h : Cramped (k + 1) (n + 1) bad) : Cramped k n bad :=
  fun hk => h (Nat.succ_lt_succ hk)

end Cramped

namespace Derivation

/-- The parser for a nonterminal reads a derivation and goes on from there. What extends an
expression is read by the loop that holds the expression. -/
def Reads : {n : Nonterminal} → Derivation n → Prop
  | .program, d => ∀ {levels good bad}, Cramped levels d.tokens.length bad → d.Bounded →
    (∀ us, good d.tree us) → (programWithin levels).Ends d.tokens good bad
  | .statements, d => ∀ {k items more good bad}, Cramped k d.tokens.length bad → d.Bounded →
    more ≠ [] → d.Ahead more →
    (collect TokenKind.startsStmt (stmtFrom (level k)) (d.tree.reverse ++ items)).Ends
      more good bad →
    (collect TokenKind.startsStmt (stmtFrom (level k)) items).Ends (d.tokens ++ more) good bad
  | .clause, d => ∀ {k t us more good bad}, d.tokens = t :: us → Cramped k d.tokens.length bad →
    d.Bounded → more ≠ [] → d.Ahead more → good d.tree more →
    (bareStmt (level k) t).Ends (us ++ more) good bad
  | .block, d => ∀ {k t us more good bad}, d.tokens = t :: us → Cramped k d.tokens.length bad →
    d.Bounded → good d.tree more → (blockBody (level k)).Ends (us ++ more) good bad
  | .expr g, d => ∀ {k power t us more good bad}, d.tokens = t :: us →
    Cramped k d.tokens.length bad → d.Bounded → more ≠ [] → d.Ahead more → power ≤ g.floor →
    (climb (level k) power d.tree).Ends more good bad →
    (exprFrom (level k) power t).Ends (us ++ more) good bad
  | .operations l, d => ∀ {k power left more good bad}, Cramped k d.tokens.length bad →
    d.Bounded → more ≠ [] → d.Ahead more → power < l.precedence →
    (climb (level k) power (d.tree left)).Ends more good bad →
    (climb (level k) power left).Ends (d.tokens ++ more) good bad
  | .calls, d => ∀ {k power left more good bad}, Cramped k d.tokens.length bad → d.Bounded →
    power < .call → (climb (level k) power (d.tree left)).Ends more good bad →
    (climb (level k) power left).Ends (d.tokens ++ more) good bad
  | .alternative, d => ∀ {k c t more good bad}, Cramped k d.tokens.length bad → d.Bounded →
    more ≠ [] → d.Ahead more → good (.conditional c t d.tree) more →
    (otherwise (level k) c t).Ends (d.tokens ++ more) good bad
  | .parameter, d => ∀ {more good bad}, good d.tree more →
    boundName.Ends (d.tokens ++ more) good bad
  | .list n, d => ∀ {k more good bad} {closing : Mark .closeParen},
    Cramped k (d.tokens.length + 1) bad → d.Bounded → good d.tree more →
    (commaList (listItem (level k) n)).Ends (d.tokens ++ closing.token :: more) good bad
  | .more n, d => ∀ {k items more good bad}, Cramped k (d.tokens.length + 1) bad → d.Bounded →
    more ≠ [] → d.Ahead more →
    (collect (· = .comma) (fun _ => listItem (level k) n) (d.tree.reverse ++ items)).Ends
      more good bad →
    (collect (· = .comma) (fun _ => listItem (level k) n) items).Ends (d.tokens ++ more) good bad

section
variable {k : Nat} {inner : Inner} {power : Precedence} {more : List Token}
  {bad : Fault → TokenStream → Prop}

theorem ends_climb_stop {left : Expr} {good : Expr → List Token → Prop} (hm : more ≠ [])
    (hp : ∀ t us, more = t :: us → t.kind.precedence ≤ power) (hg : good left more) :
    (climb inner power left).Ends more good bad := by
  cases more with
  | nil => exact absurd rfl hm
  | cons t us =>
    refine ends_repeatWhile_stop ?_ hg
    have ht := Nat.not_lt.mpr (hp t us rfl)
    simp [show ¬ power < t.kind.precedence from ht]

variable {g : Grade} {d : Derivation (.expr g)} {good : Expr → List Token → Prop}

theorem ends_expression (hd : d.Reads) (hc : Cramped k d.tokens.length bad) (hb : d.Bounded)
    (hm : more ≠ []) (ha : d.Ahead more) (hp : power ≤ g.floor)
    (h : (climb (level k) power d.tree).Ends more good bad) :
    (expression (level k) power).Ends (d.tokens ++ more) good bad := by
  cases ht : d.tokens with
  | nil => exact absurd ht (d.tokens_ne_nil rfl)
  | cons t us =>
    have hs := Grade.startsExpr_of_starts (d.starts_of_tokens_eq ht)
    apply ends_bind
    apply ends_take hs (TokenKind.ne_of_accepts rfl hs)
    exact hd ht hc hb hm ha hp h

theorem ends_whole (hd : d.Reads) (hg : g.ReadAt power) (hc : Cramped k d.tokens.length bad)
    (hb : d.Bounded) (hm : more ≠ []) (ha : d.Ahead more) (h : good d.tree more) :
    (expression (level k) power).Ends (d.tokens ++ more) good bad := by
  apply ends_expression hd hc hb hm ha hg.le_floor
  apply ends_climb_stop hm _ h
  rintro t us rfl
  exact hg.precedence_le ha

theorem ends_inner_expr (hd : d.Reads) (hg : g.ReadAt power)
    (hc : Cramped k (d.tokens.length + 1) bad) (hb : d.Bounded) (hm : more ≠ []) (ha : d.Ahead more)
    (h : good d.tree more) :
    ((level k).expr power).Ends (d.tokens ++ more) good bad := by
  cases k with
  | zero => exact ends_fail fun s _ => hc (Nat.succ_pos _) s
  | succ k => exact ends_whole hd hg hc.inner hb hm ha h

end

theorem append_ne_nil {n : Nonterminal} (d : Derivation n) {us : List Token} (h : us ≠ []) :
    d.tokens ++ us ≠ [] :=
  fun he => h (List.append_eq_nil_iff.mp he).2

theorem ends_inner_statements {d : Derivation .statements} (hd : d.Reads) {k : Nat}
    {m : Token} {more : List Token} {good : List Stmt → List Token → Prop}
    {bad : Fault → TokenStream → Prop} (hc : Cramped k (d.tokens.length + 1) bad) (hb : d.Bounded)
    (hm : Nonterminal.statements.Stops m.kind) (h : good d.tree (m :: more)) :
    (level k).statements.Ends (d.tokens ++ m :: more) good bad := by
  cases k with
  | zero => exact ends_fail fun s _ => hc (Nat.succ_pos _) s
  | succ k =>
    apply ends_many
    apply hd hc.inner hb (by simp) (show d.Ahead (m :: more) from hm)
    apply ends_collect_stop
    · rcases hm with hm | hm <;> rw [hm] <;> rfl
    · simpa using h

theorem reads_program {body : Derivation .statements} {finish : Mark .endOfInput}
    (hi : body.Reads) : (program body finish).Reads := by
  intro levels good bad hc hb hg
  apply ends_bind
  apply ends_many
  apply hi (hc.part (by simp [tokens])) hb (by simp) (body.ahead_endOfInput finish [])
  apply ends_collect_stop
  · simp
  · apply ends_bind
    apply ends_take_end (by simp) finish.kind_eq
    apply ends_pure
    rw [List.append_nil, List.reverse_reverse]
    exact hg _

theorem reads_noStatements : noStatements.Reads :=
  fun _ _ _ _ h => h

section
variable {first : Derivation .clause} {k : Nat} {items : List Stmt} {more : List Token}
  {good : List Stmt → List Token → Prop} {bad : Fault → TokenStream → Prop}

theorem ends_ended (hf : first.Reads) (semicolon : Mark .semicolon)
    (hc : Cramped k first.tokens.length bad) (hb : first.Bounded)
    (h : (collect TokenKind.startsStmt (stmtFrom (level k)) (first.tree :: items)).Ends
      more good bad) :
    (collect TokenKind.startsStmt (stmtFrom (level k)) items).Ends
      (first.tokens ++ semicolon.token :: more) good bad := by
  obtain ⟨t, us, ht⟩ := List.exists_cons_of_ne_nil (first.tokens_ne_nil rfl)
  have hs := first.starts_of_tokens_eq ht
  rw [ht]
  apply ends_collect_step hs (TokenKind.ne_of_accepts rfl hs)
  apply ends_bind
  apply hf ht hc hb (by simp) (first.ahead_semicolon _ _)
  apply ends_bind
  apply ends_skip semicolon.kind_eq (by decide)
  exact ends_pure h

theorem ends_bare (hf : first.Reads) (hc : Cramped k first.tokens.length bad) (hb : first.Bounded)
    (hm : more ≠ []) (ha : first.Ahead more)
    (hn : ∀ t us, more = t :: us → t.kind ≠ .semicolon)
    (h : (collect TokenKind.startsStmt (stmtFrom (level k)) (first.tree :: items)).Ends
      more good bad) :
    (collect TokenKind.startsStmt (stmtFrom (level k)) items).Ends (first.tokens ++ more)
      good bad := by
  obtain ⟨t, us, ht⟩ := List.exists_cons_of_ne_nil (first.tokens_ne_nil rfl)
  obtain ⟨w, ws, rfl⟩ := List.exists_cons_of_ne_nil hm
  have hs := first.starts_of_tokens_eq ht
  rw [ht]
  apply ends_collect_step hs (TokenKind.ne_of_accepts rfl hs)
  apply ends_bind
  apply hf ht hc hb hm ha
  apply ends_bind
  apply ends_skip_not (hn w ws rfl)
  exact ends_pure h

end

theorem reads_statement {first : Derivation .clause} {semicolon : Option (Mark .semicolon)}
    {others : Derivation .statements} (hf : first.Reads) (ho : others.Reads) :
    (statement first semicolon others).Reads := by
  intro k items more good bad hc hb hm ha h
  rw [tree, List.reverse_cons, List.append_assoc] at h
  cases semicolon with
  | none =>
    simp only [tokens, List.append_assoc]
    apply ends_bare hf (hc.part (by simp [tokens])) hb.1 (others.append_ne_nil hm)
      (ahead_statements hb ha) fun _ _ => others.statements_head_ne_semicolon ha
    exact ho (hc.part (by simp [tokens])) hb.2.1 hm ha h
  | some semicolon =>
    simp only [tokens, List.append_assoc, List.cons_append]
    apply ends_ended hf semicolon (hc.part (by simp [tokens])) hb.1
    exact ho (hc.part (by simp [tokens]; omega)) hb.2 hm ha h

theorem reads_binding {word : Mark .letWord} {bound : Mark .name} {assign : Mark .assign}
    {value : Derivation (.expr .loosest)} (hv : value.Reads) :
    (binding word bound assign value).Reads := by
  intro k t us more good bad ht hc hb hm ha hg
  obtain ⟨rfl, rfl⟩ := List.cons.inj ht
  simp only [bareStmt, word.kind_eq]
  apply ends_bind
  apply ends_bind
  apply ends_expect bound.kind_eq (by decide)
  apply ends_pure
  apply ends_bind
  apply ends_expect assign.kind_eq (by decide)
  apply ends_bind
  apply ends_whole hv .loosest (hc.part (by simp [tokens]; omega)) hb hm
    (ahead_value ha fun _ hk => hk)
  exact ends_pure hg

theorem reads_bareReturn {word : Mark .returnWord} : (bareReturn word).Reads := by
  intro k t us more good bad ht _ _ hm ha hg
  obtain ⟨rfl, rfl⟩ := List.cons.inj ht
  simp only [bareStmt, word.kind_eq]
  cases more with
  | nil => exact absurd rfl hm
  | cons m more =>
    have he : m.kind.endsReturn = true := ha.2
    apply ends_bind
    apply ends_peek rfl
    rw [if_pos he]
    exact ends_pure hg

theorem reads_valueReturn {word : Mark .returnWord} {value : Derivation (.expr .loosest)}
    (hv : value.Reads) : (valueReturn word value).Reads := by
  intro k t us more good bad ht hc hb hm ha hg
  obtain ⟨rfl, rfl⟩ := List.cons.inj ht
  simp only [bareStmt, word.kind_eq]
  obtain ⟨u, vs, hu⟩ := List.exists_cons_of_ne_nil (value.tokens_ne_nil rfl)
  have he : u.kind.endsReturn = false := by
    have hs := value.starts_of_tokens_eq hu
    revert hs
    cases u.kind <;> decide
  apply ends_bind
  apply ends_peek (by rw [hu, List.cons_append])
  rw [if_neg (by simp [he])]
  apply ends_bind
  apply ends_whole hv .loosest (hc.part (by simp [tokens])) hb hm (ahead_value ha fun _ hk => hk)
  exact ends_pure hg

theorem reads_blockClause {body : Derivation .block} (hi : body.Reads) :
    (blockClause body).Reads := by
  intro k t us more good bad ht hc hb _ _ hg
  have hk := of_decide_eq_true (body.starts_of_tokens_eq ht)
  simp only [bareStmt, hk]
  apply ends_bind
  apply hi ht hc hb
  exact ends_pure hg

theorem reads_exprClause {value : Derivation (.expr .loosest)} (hv : value.Reads) :
    (exprClause value).Reads := by
  intro k t us more good bad ht hc hb hm ha hg
  rw [bareStmt_expr (value.starts_of_tokens_eq ht)]
  apply ends_bind
  have hva : value.Ahead more := ahead_value ha fun _ hk => hk
  apply hv ht hc hb hm hva (by decide)
  apply ends_climb_stop hm
  · rintro u vs rfl
    exact Grade.ReadAt.loosest.precedence_le hva
  · exact ends_pure hg

theorem reads_block {opening : Mark .openBrace} {body : Derivation .statements}
    {closing : Mark .closeBrace} (hi : body.Reads) : (block opening body closing).Reads := by
  intro k t us more good bad ht hc hb hg
  obtain ⟨rfl, rfl⟩ := List.cons.inj ht
  rw [List.append_assoc]
  apply ends_bind
  apply ends_inner_statements hi (hc.part (by simp [tokens])) hb (.inl closing.kind_eq)
  apply ends_bind
  apply ends_take (by simp) (by simp)
  exact ends_pure hg

theorem reads_chain {l : Layer} {first : Derivation (.expr l.operand)}
    {others : Derivation (.operations l)} (hf : first.Reads) (ho : others.Reads) :
    (chain first others).Reads := by
  intro k power t us more good bad ht hc hb hm ha hp h
  obtain ⟨vs, hv, rfl⟩ := first.exists_tokens_eq rfl ht
  rw [List.append_assoc]
  apply hf hv (hc.part (by simp [tokens])) hb.1 (others.append_ne_nil hm) (ahead_operations _ ha)
    (Nat.le_trans hp (Grade.floor_le_operand l))
  exact ho (hc.part (by simp [tokens])) hb.2 hm ha
    (Nat.lt_of_le_of_lt hp (Grade.floor_lt_precedence l)) h

theorem reads_noOperations {l : Layer} : (noOperations (l := l)).Reads :=
  fun _ _ _ _ _ h => h

theorem ends_operand {g : Grade} {d : Derivation (.expr g)} {k : Nat} {power : Precedence}
    {op : Token} {more : List Token} {good : Expr → List Token → Prop}
    {bad : Fault → TokenStream → Prop} (hd : d.Reads) (hg : g.ReadAt power)
    (hc : Cramped k (d.tokens.length + 1) bad) (hb : d.Bounded) (hm : more ≠ []) (ha : d.Ahead more)
    (h : good d.tree more) : (operand (level k) op power).Ends (d.tokens ++ more) good bad := by
  obtain ⟨u, us, hu⟩ := List.exists_cons_of_ne_nil (d.tokens_ne_nil rfl)
  have hs := Grade.startsExpr_of_starts (d.starts_of_tokens_eq hu)
  apply ends_bind
  apply ends_peek (by rw [hu, List.cons_append])
  rw [if_pos hs]
  exact ends_inner_expr hd hg hc hb hm ha h

/-- The step of the loop at an operator, in front of its right operand. -/
theorem ends_operator {l : Layer} {op : Leaf l.has} {inner : Inner} {power : Precedence}
    {left : Expr} {ts : List Token} {good : Expr → List Token → Prop}
    {bad : Fault → TokenStream → Prop} (hp : power < l.precedence)
    (h : (operand inner op.token l.precedence).Ends ts (fun right us => (climb inner power
      (.binary op.token.kind left (some right))).Ends us good bad) bad) :
    (climb inner power left).Ends (op.token :: ts) good bad := by
  have hk := Layer.precedence_of_has op.accepted
  have hparen : l.has .openParen = false := by cases l <;> rfl
  have hend : l.has .endOfInput = false := by cases l <;> rfl
  have hne : op.token.kind ≠ .openParen := TokenKind.ne_of_accepts hparen op.accepted
  apply ends_repeatWhile_step (by simpa [hk] using hp) (TokenKind.ne_of_accepts hend op.accepted)
  simp only [extend, if_neg hne, hk]
  apply ends_bind
  apply h.imp
  intro right us hg
  apply ends_pure
  exact hg

theorem reads_operation {l : Layer} {op : Leaf l.has} {right : Derivation (.expr l.operand)}
    {others : Derivation (.operations l)} (hr : right.Reads) (ho : others.Reads) :
    (operation op right others).Reads := by
  intro k power left more good bad hc hb hm ha hp h
  simp only [tokens, List.append_assoc, List.cons_append]
  apply ends_operator hp
  apply ends_operand hr (.operand l) (hc.part (by simp [tokens])) hb.1 (others.append_ne_nil hm)
    (ahead_operations others ha)
  exact ho (hc.part (by simp [tokens]; omega)) hb.2 hm ha hp h

theorem reads_signed {sign : Leaf TokenKind.isSign} {operand : Derivation (.expr .unary)}
    (hi : operand.Reads) : (signed sign operand).Reads := by
  intro k power t us more good bad ht hc hb hm ha _ h
  obtain ⟨rfl, rfl⟩ := List.cons.inj ht
  apply ends_bind
  rw [operandFrom_signed (by simpa [TokenKind.isSign] using sign.accepted)]
  apply ends_bind
  apply ends_operand hi .unary (hc.part (by simp [tokens])) hb hm ha
  exact ends_pure h

theorem reads_unsigned {value : Derivation (.expr .called)} (hv : value.Reads) :
    (unsigned value).Reads := by
  intro k power t us more good bad ht hc hb hm ha hp h
  exact hv ht hc hb hm (ahead_unsigned ha) hp h

theorem reads_called {callee : Derivation (.expr .primary)} {others : Derivation .calls}
    (hf : callee.Reads) (ho : others.Reads) : (called callee others).Reads := by
  intro k power t us more good bad ht hc hb hm ha hp h
  obtain ⟨vs, hv, rfl⟩ := callee.exists_tokens_eq rfl ht
  rw [List.append_assoc]
  apply hf hv (hc.part (by simp [tokens])) hb.1 (others.append_ne_nil hm) (ahead_calls ha) hp
  exact ho (hc.part (by simp [tokens])) hb.2 (Nat.lt_of_le_of_lt hp (by decide)) h

theorem reads_noCalls : noCalls.Reads :=
  fun _ _ _ h => h

theorem ends_opening {opening : Mark .openParen} {inner : Inner} {power : Precedence}
    {left : Expr} {ts : List Token} {good : Expr → List Token → Prop}
    {bad : Fault → TokenStream → Prop} (hp : power < .call)
    (h : (commaList (inner.expr .lowest)).Ends ts
      (fun as us => (climb inner power (.call left as)).Ends us good bad) bad) :
    (climb inner power left).Ends (opening.token :: ts) good bad := by
  have hk : opening.token.kind = .openParen := opening.kind_eq
  apply ends_repeatWhile_step (by simpa [hk, TokenKind.precedence] using hp) (by simp)
  simp only [extend, hk, if_true]
  apply ends_bind
  apply h.imp
  intro as us hg
  apply ends_pure
  exact hg

theorem reads_call {opening : Mark .openParen} {arguments : Derivation (.list (.expr .loosest))}
    {closing : Mark .closeParen} {others : Derivation .calls} (hi : arguments.Reads)
    (ho : others.Reads) : (call opening arguments closing others).Reads := by
  intro k power left more good bad hc hb hp h
  simp only [tokens, List.append_assoc, List.cons_append]
  apply ends_opening hp
  apply hi (hc.part (by simp [tokens])) hb.1
  exact ho (hc.part (by simp [tokens]; omega)) hb.2 hp h

theorem reads_atom {d : Derivation (.expr .primary)} {t : Token} (ht : d.tokens = [t])
    (hp : ∀ inner, operandFrom inner t = pure d.tree) : d.Reads := by
  intro k power u us more good bad hu _ _ _ _ _ h
  obtain ⟨rfl, rfl⟩ := List.cons.inj (ht.symm.trans hu)
  apply ends_bind
  rw [hp]
  exact ends_pure h

theorem reads_name {leaf : Mark .name} : (name leaf).Reads := by
  apply reads_atom rfl
  intro inner
  simp only [operandFrom, leaf.kind_eq, tree]

theorem reads_number {leaf : Mark .number} : (number leaf).Reads := by
  apply reads_atom rfl
  intro inner
  simp only [operandFrom, leaf.kind_eq, tree]

theorem reads_truth {leaf : Leaf TokenKind.isTruth} : (truth leaf).Reads := by
  apply reads_atom rfl
  intro inner
  exact operandFrom_truth (by simpa [TokenKind.isTruth] using leaf.accepted)

theorem reads_group {opening : Mark .openParen} {value : Derivation (.expr .loosest)}
    {closing : Mark .closeParen} (hv : value.Reads) : (group opening value closing).Reads := by
  intro k power t us more good bad ht hc hb hm ha _ h
  obtain ⟨rfl, rfl⟩ := List.cons.inj ht
  rw [List.append_assoc]
  apply ends_bind
  simp only [operandFrom, opening.kind_eq]
  apply ends_bind
  apply ends_inner_expr hv .loosest (hc.part (by simp [tokens])) hb (by simp)
    (value.ahead_closeParen closing more)
  apply ends_bind
  apply ends_expect closing.kind_eq (by decide)
  exact ends_pure h

theorem ends_block {d : Derivation .block} {k : Nat} {more : List Token}
    {good : List Stmt → List Token → Prop} {bad : Fault → TokenStream → Prop} (hd : d.Reads)
    (hc : Cramped k d.tokens.length bad) (hb : d.Bounded) (h : good d.tree more) :
    (Parser.block (level k)).Ends (d.tokens ++ more) good bad := by
  obtain ⟨u, us, hu⟩ := List.exists_cons_of_ne_nil (d.tokens_ne_nil rfl)
  have hk := of_decide_eq_true (d.starts_of_tokens_eq hu)
  apply ends_bind
  rw [hu]
  apply ends_expect hk (by decide)
  exact hd hu hc hb h

/-- A conditional up to its first block. -/
theorem ends_conditional {opening : Mark .openParen} {c : Derivation (.expr .loosest)}
    {closing : Mark .closeParen} {k : Nat} {more : List Token} {good : Expr → List Token → Prop}
    {bad : Fault → TokenStream → Prop} (hi : c.Reads) (hc : Cramped k (c.tokens.length + 1) bad)
    (hb : c.Bounded)
    (h : (do let t ← Parser.block (level k); otherwise (level k) c.tree t).Ends more good bad) :
    (Parser.conditional (level k)).Ends
      (opening.token :: (c.tokens ++ closing.token :: more)) good bad := by
  apply ends_bind
  apply ends_expect opening.kind_eq (by decide)
  apply ends_bind
  apply ends_inner_expr hi .loosest hc hb (by simp) (c.ahead_closeParen closing more)
  apply ends_bind
  apply ends_expect closing.kind_eq (by decide)
  exact h

theorem reads_conditional {word : Mark .ifWord} {opening : Mark .openParen}
    {condition : Derivation (.expr .loosest)} {closing : Mark .closeParen}
    {consequence : Derivation .block} {other : Derivation .alternative} (hi : condition.Reads)
    (ht : consequence.Reads) (ho : other.Reads) :
    (conditional word opening condition closing consequence other).Reads := by
  intro k power t us more good bad hw hc hb hm ha _ h
  obtain ⟨rfl, rfl⟩ := List.cons.inj hw
  simp only [List.append_assoc, List.cons_append]
  apply ends_bind
  simp only [operandFrom, word.kind_eq]
  apply ends_conditional hi (hc.part (by simp [tokens]; omega)) hb.1
  apply ends_bind
  apply ends_block ht (hc.part (by simp [tokens]; omega)) hb.2.1
  exact ho (hc.part (by simp [tokens]; omega)) hb.2.2 hm (ahead_other ha) h

/-- A function up to its body. -/
theorem ends_functionLiteral {opening : Mark .openParen} {ps : Derivation (.list .parameter)}
    {closing : Mark .closeParen} {k : Nat} {more : List Token} {good : Expr → List Token → Prop}
    {bad : Fault → TokenStream → Prop} (hi : ps.Reads) (hc : Cramped k (ps.tokens.length + 1) bad)
    (hb : ps.Bounded)
    (h : (do return Expr.function ps.tree (← Parser.block (level k))).Ends more good bad) :
    (functionLiteral (level k)).Ends (opening.token :: (ps.tokens ++ closing.token :: more))
      good bad := by
  apply ends_bind
  apply ends_expect opening.kind_eq (by decide)
  apply ends_bind
  exact hi (k := k) hc hb h

theorem reads_function {word : Mark .fnWord} {opening : Mark .openParen}
    {parameters : Derivation (.list .parameter)} {closing : Mark .closeParen}
    {body : Derivation .block} (hp : parameters.Reads) (hi : body.Reads) :
    (function word opening parameters closing body).Reads := by
  intro k power t us more good bad hw hc hb hm ha _ h
  obtain ⟨rfl, rfl⟩ := List.cons.inj hw
  simp only [List.append_assoc, List.cons_append]
  apply ends_bind
  simp only [operandFrom, word.kind_eq]
  apply ends_functionLiteral hp (hc.part (by simp [tokens]; omega)) hb.1
  apply ends_bind
  apply ends_block hi (hc.part (by simp [tokens]; omega)) hb.2
  exact ends_pure h

theorem reads_noAlternative : noAlternative.Reads := by
  intro k c t more good bad _ _ hm ha h
  cases more with
  | nil => exact absurd rfl hm
  | cons m more =>
    have hk : m.kind ≠ .elseWord := ha
    apply ends_bind
    apply ends_skip_not hk
    exact ends_pure h

theorem reads_alternative {word : Mark .elseWord} {body : Derivation .block} (hi : body.Reads) :
    (alternative word body).Reads := by
  intro k c t more good bad hc hb _ _ h
  apply ends_bind
  apply ends_skip word.kind_eq (by decide)
  apply ends_bind
  apply ends_block hi (hc.part (by simp [tokens])) hb
  exact ends_pure h

theorem reads_parameter {leaf : Mark .name} : (parameter leaf).Reads := by
  intro more good bad h
  apply ends_bind
  apply ends_expect leaf.kind_eq (by decide)
  exact ends_pure h

theorem ends_listItem {n : Nonterminal} (hn : n.isItem = true) {d : Derivation n} {k : Nat}
    {more : List Token} {good : n.Tree → List Token → Prop} {bad : Fault → TokenStream → Prop}
    (hd : d.Reads) (hc : Cramped k (d.tokens.length + 1) bad) (hb : d.Bounded) (hm : more ≠ [])
    (ha : d.Ahead more) (h : good d.tree more) :
    (listItem (level k) n).Ends (d.tokens ++ more) good bad := by
  simp only [Nonterminal.isItem, Bool.or_eq_true, decide_eq_true_eq] at hn
  rcases hn with rfl | rfl
  · exact ends_inner_expr hd .loosest hc hb hm ha h
  · exact hd h

theorem reads_noItems {n : Nonterminal} : (noItems (n := n)).Reads := by
  intro k more good bad closing _ _ h
  have hk : closing.token.kind = .closeParen := closing.kind_eq
  apply ends_bind
  apply ends_peek rfl
  rw [if_pos hk]
  apply ends_bind
  apply ends_pure
  apply ends_bind
  apply ends_expect hk (by decide)
  exact ends_pure h

theorem reads_items {n : Nonterminal} {hn : n.isItem = true} {first : Derivation n}
    {others : Derivation (.more n)} (hf : first.Reads) (ho : others.Reads) :
    (items hn first others).Reads := by
  intro k more good bad closing hc hb h
  obtain ⟨u, us, hu⟩ :=
    List.exists_cons_of_ne_nil (first.tokens_ne_nil (Nonterminal.solid_of_isItem hn))
  have hs : u.kind ≠ .closeParen :=
    Nonterminal.not_stops_list hn u.kind (first.starts_of_tokens_eq hu)
  have ha : others.Ahead (closing.token :: more) := closing.kind_eq
  simp only [tokens, List.append_assoc]
  apply ends_bind
  apply ends_peek (by rw [hu, List.cons_append])
  rw [if_neg hs]
  apply ends_bind
  apply ends_listItem hn hf (hc.part (by simp [tokens])) hb.1 (others.append_ne_nil (by simp))
    (ahead_more hn _ ha)
  apply ends_bind
  apply ends_many
  apply ho (hc.part (by simp [tokens])) hb.2 (by simp) ha
  apply ends_collect_stop (by simp)
  apply ends_bind
  apply ends_pure
  apply ends_bind
  apply ends_expect closing.kind_eq (by decide)
  apply ends_pure
  rw [List.append_nil, List.reverse_reverse]
  exact h

theorem reads_noMore {n : Nonterminal} : (noMore (n := n)).Reads :=
  fun _ _ _ _ h => h

theorem reads_next {n : Nonterminal} {hn : n.isItem = true} {comma : Mark .comma}
    {item : Derivation n} {others : Derivation (.more n)} (hi : item.Reads) (ho : others.Reads) :
    (next hn comma item others).Reads := by
  intro k items more good bad hc hb hm ha h
  rw [tree, List.reverse_cons, List.append_assoc] at h
  simp only [tokens, List.append_assoc, List.cons_append]
  apply ends_collect_step (by simp) (by simp)
  apply ends_listItem hn hi (hc.part (by simp [tokens]; omega)) hb.1 (others.append_ne_nil hm)
    (ahead_more hn others ha)
  exact ho (hc.part (by simp [tokens]; omega)) hb.2 hm ha h

theorem reads {n : Nonterminal} (d : Derivation n) : d.Reads := by
  induction d with
  | program _ _ hi => exact reads_program hi
  | noStatements => exact reads_noStatements
  | statement _ _ _ hf ho => exact reads_statement hf ho
  | binding _ _ _ _ hv => exact reads_binding hv
  | bareReturn => exact reads_bareReturn
  | valueReturn _ _ hv => exact reads_valueReturn hv
  | blockClause _ hi => exact reads_blockClause hi
  | exprClause _ hv => exact reads_exprClause hv
  | block _ _ _ hi => exact reads_block hi
  | chain _ _ hf ho => exact reads_chain hf ho
  | noOperations => exact reads_noOperations
  | operation _ _ _ hr ho => exact reads_operation hr ho
  | signed _ _ ho => exact reads_signed ho
  | unsigned _ hv => exact reads_unsigned hv
  | called _ _ hc ho => exact reads_called hc ho
  | noCalls => exact reads_noCalls
  | call _ _ _ _ hi ho => exact reads_call hi ho
  | name => exact reads_name
  | number => exact reads_number
  | truth => exact reads_truth
  | group _ _ _ hv => exact reads_group hv
  | conditional _ _ _ _ _ _ hc ht ho => exact reads_conditional hc ht ho
  | function _ _ _ _ _ hp hi => exact reads_function hp hi
  | noAlternative => exact reads_noAlternative
  | alternative _ _ hi => exact reads_alternative hi
  | parameter => exact reads_parameter
  | noItems => exact reads_noItems
  | items _ _ _ hf ho => exact reads_items hf ho
  | noMore => exact reads_noMore
  | next _ _ _ _ hi ho => exact reads_next hi ho

theorem ends_programWithin (d : Derivation .program) (hb : d.Bounded) (levels : Nat) :
    (programWithin levels).Ends d.tokens (fun program _ => program = d.tree) fun fault _ =>
      levels < d.tokens.length ∧ fault = .problem .nestingTooDeepToParse :=
  d.reads (fun hl _ => ⟨hl, rfl⟩) hb fun _ => rfl

end Derivation

end ExprLang
