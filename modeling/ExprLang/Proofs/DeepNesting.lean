import ExprLang.Proofs.LazyReading
import ExprLang.Proofs.OpenLevels
import ExprLang.Proofs.ParserCompleteness

/-!
Deep nesting. Where more constructs are open than there are levels, the parser has ended in front of
the cut, whatever stands behind it.
-/

namespace ExprLang

open ExprLang.Parser ExprLang.Derivation TokenStream

def TooDeep (fault : Fault) (_ : TokenStream) : Prop :=
  fault = .problem .nestingTooDeepToParse

theorem cramped_tooDeep (levels length : Nat) : Cramped levels length TooDeep :=
  fun _ _ => rfl

namespace Parser

variable {α β : Type} {p : Parser α} {ts us : List Token}

/-- Every run on the tokens runs out of levels. -/
def Overflows (p : Parser α) (ts : List Token) : Prop :=
  p.Ends ts (fun _ _ => False) TooDeep

theorem Overflows.ends {good : α → List Token → Prop} (h : p.Overflows ts) :
    p.Ends ts good TooDeep :=
  h.imp fun _ _ hf => hf.elim

theorem overflows_bind {f : α → Parser β} (h : p.Overflows ts) : (p >>= f).Overflows ts :=
  ends_bind h.ends

theorem overflows_many {accepts : TokenKind → Bool} {item : Token → Parser α}
    (h : (collect accepts item []).Overflows ts) : (many accepts item).Overflows ts :=
  ends_many h.ends

end Parser

/-- The parser for a nonterminal runs out of levels in front of a cut where so many constructs are
open. The one that is opened last need not be entered; the items of a list are one level further
in. -/
def Overflowing : Nonterminal → Nat → List Token → Prop
  | .program, m, r => ∀ k, k + 1 < m → (programWithin k).Overflows r
  | .statements, m, r => ∀ k items, k + 1 < m →
    (collect TokenKind.startsStmt (stmtFrom (level k)) items).Overflows r
  | .clause, m, r => ∀ k t us, k + 1 < m → r = t :: us → (bareStmt (level k) t).Overflows us
  | .expr g, m, r => ∀ k power t us, k + 1 < m → r = t :: us → power ≤ g.floor →
    (exprFrom (level k) power t).Overflows us
  | .operations l, m, r => ∀ k power left, k + 1 < m → power < l.precedence →
    (climb (level k) power left).Overflows r
  | .calls, m, r => ∀ k power left, k + 1 < m → power < .call →
    (climb (level k) power left).Overflows r
  | .list n, m, r => ∀ k, k < m → (commaList (listItem (level k) n)).Overflows r
  | .more n, m, r => ∀ k items, k < m →
    (collect (· = .comma) (fun _ => listItem (level k) n) items).Overflows r
  | .block, m, _ | .alternative, m, _ | .parameter, m, _ => m = 0

theorem overflowing_zero (n : Nonterminal) (r : List Token) : Overflowing n 0 r := by
  cases n with
  | block | alternative | parameter => rfl
  | _ =>
    intro k
    intros
    omega

namespace Opens

variable {n : Nonterminal} {g : Grade} {l : Layer} {st : List Construct} {r : List Token} {k : Nat}
  {power : Precedence}

theorem ne_nil_of_lt (hk : k < st.length) : st ≠ [] :=
  List.ne_nil_of_length_pos (Nat.zero_lt_of_lt hk)

section
variable (h : Opens (.expr g) st r) (ho : Overflowing (.expr g) st.length r)
include h ho

theorem overflows_expression (hk : k + 1 < st.length) (hp : power ≤ g.floor) :
    (expression (level k) power).Overflows r := by
  obtain ⟨t, us, rfl, ht⟩ := h.exists_cons (ne_nil_of_lt hk)
  have hs := Grade.startsExpr_of_starts ht
  apply ends_bind
  apply ends_take hs (TokenKind.ne_of_accepts rfl hs)
  exact ho k power t us hk rfl hp

theorem overflows_inner_expr (hk : k < st.length) (hp : power ≤ g.floor) :
    ((level k).expr power).Overflows r := by
  cases k with
  | zero => exact ends_fail fun _ _ => rfl
  | succ k => exact overflows_expression h ho hk hp

theorem overflows_operand (op : Token) (hk : k < st.length) (hp : power ≤ g.floor) :
    (operand (level k) op power).Overflows r := by
  obtain ⟨t, us, hr, ht⟩ := h.exists_cons (ne_nil_of_lt hk)
  apply ends_bind
  apply ends_peek hr
  rw [if_pos (Grade.startsExpr_of_starts ht)]
  exact overflows_inner_expr h ho hk hp

end

theorem overflows_blockBody (ho : Overflowing .statements st.length r) (hk : k < st.length) :
    (blockBody (level k)).Overflows r := by
  apply overflows_bind
  cases k with
  | zero => exact ends_fail fun _ _ => rfl
  | succ k => exact overflows_many (ho k [] hk)

theorem overflows_block (brace : Mark .openBrace) (ho : Overflowing .statements st.length r)
    (hk : k < st.length) : (Parser.block (level k)).Overflows (brace.token :: r) := by
  apply ends_bind
  apply ends_expect brace.kind_eq (by decide)
  exact overflows_blockBody ho hk

theorem overflowing_program (ho : Overflowing .statements st.length r) :
    Overflowing .program st.length r :=
  fun k hk => overflows_bind (overflows_many (ho k [] hk))

theorem overflowing_clause (h : Opens .clause st r) (ho : Overflowing .clause st.length r) :
    Overflowing .statements st.length r := by
  intro k items hk
  obtain ⟨t, us, rfl, ht⟩ := h.exists_cons (ne_nil_of_lt hk)
  apply ends_collect_step ht (TokenKind.ne_of_accepts rfl ht)
  exact (overflows_bind (ho k t us hk rfl)).ends

theorem overflowing_statement {first : Derivation .clause} (semicolon : Mark .semicolon)
    (hf : first.Bounded) (ho : Overflowing .statements st.length r) :
    Overflowing .statements st.length (first.tokens ++ semicolon.token :: r) := by
  intro k items hk
  apply ends_ended first.reads semicolon (cramped_tooDeep _ _) hf
  exact ho k _ hk

theorem overflowing_bareStatement {first : Derivation .clause} (hf : first.Bounded)
    (hr : ∀ t ∈ r.head?, t.kind ≠ .semicolon ∧ first.Before t.kind) (h : Opens .statements st r)
    (ho : Overflowing .statements st.length r) :
    Overflowing .statements st.length (first.tokens ++ r) := by
  intro k items hk
  obtain ⟨t, us, rfl, ht⟩ := h.exists_cons (ne_nil_of_lt hk)
  obtain ⟨hsemi, hbefore⟩ := hr t rfl
  have ha : first.Ahead (t :: us) := ⟨TokenKind.ne_of_accepts rfl ht, hbefore⟩
  apply ends_bare first.reads (cramped_tooDeep _ _) hf (by simp) ha
  · rintro u vs hu
    obtain ⟨rfl, rfl⟩ := List.cons.inj hu
    exact hsemi
  · exact ho k _ hk

theorem overflowing_binding (word : Mark .letWord) (bound : Mark .name) (assign : Mark .assign)
    (h : Opens (.expr .loosest) st r) (ho : Overflowing (.expr .loosest) st.length r) :
    Overflowing .clause st.length (word.token :: bound.token :: assign.token :: r) := by
  intro k t us hk ht
  obtain ⟨rfl, rfl⟩ := List.cons.inj ht
  simp only [bareStmt, word.kind_eq]
  apply ends_bind
  apply ends_bind
  apply ends_expect bound.kind_eq (by decide)
  apply ends_pure
  apply ends_bind
  apply ends_expect assign.kind_eq (by decide)
  exact overflows_bind (overflows_expression h ho hk (by decide))

theorem overflowing_valueReturn (word : Mark .returnWord) (h : Opens (.expr .loosest) st r)
    (ho : Overflowing (.expr .loosest) st.length r) :
    Overflowing .clause st.length (word.token :: r) := by
  intro k t us hk ht
  obtain ⟨rfl, rfl⟩ := List.cons.inj ht
  obtain ⟨u, vs, hr, hu⟩ := h.exists_cons (ne_nil_of_lt hk)
  have he : u.kind.endsReturn = false := by
    revert hu
    cases u.kind <;> decide
  simp only [bareStmt, word.kind_eq]
  apply ends_bind
  apply ends_peek hr
  rw [if_neg (by simp [he])]
  exact overflows_bind (overflows_expression h ho hk (by decide))

theorem overflowing_blockClause (opening : Mark .openBrace)
    (ho : Overflowing .statements st.length r) :
    Overflowing .clause (st.length + 1) (opening.token :: r) := by
  intro k t us hk ht
  obtain ⟨rfl, rfl⟩ := List.cons.inj ht
  simp only [bareStmt, opening.kind_eq]
  exact overflows_bind (overflows_blockBody ho (Nat.lt_of_succ_lt_succ hk))

theorem overflowing_exprClause (h : Opens (.expr .loosest) st r)
    (ho : Overflowing (.expr .loosest) st.length r) : Overflowing .clause st.length r := by
  intro k t us hk ht
  obtain ⟨u, vs, hr, hu⟩ := h.exists_cons (ne_nil_of_lt hk)
  obtain ⟨rfl, rfl⟩ := List.cons.inj (hr.symm.trans ht)
  rw [bareStmt_expr (Grade.startsExpr_of_starts hu)]
  exact overflows_bind (ho k _ u vs hk ht (by decide))

theorem overflowing_chain {first : Derivation (.expr l.operand)} (hf : first.Bounded)
    (h : Opens (.operations l) st r) (ho : Overflowing (.operations l) st.length r) :
    Overflowing (.expr (.binary l)) st.length (first.tokens ++ r) := by
  intro k power t us hk ht hp
  obtain ⟨u, vs, rfl, hu⟩ := h.exists_cons (ne_nil_of_lt hk)
  obtain ⟨ws, hw, rfl⟩ := first.exists_tokens_eq rfl ht
  have ha : first.Ahead (u :: vs) := Grade.stops_of_has hu
  apply first.reads hw (cramped_tooDeep _ _) hf (by simp) ha
    (Nat.le_trans hp (Grade.floor_le_operand l))
  exact ho k power _ hk (Nat.lt_of_le_of_lt hp (Grade.floor_lt_precedence l))

theorem overflowing_operation (op : Leaf l.has) (h : Opens (.expr l.operand) st r)
    (ho : Overflowing (.expr l.operand) st.length r) :
    Overflowing (.operations l) (st.length + 1) (op.token :: r) := by
  intro k power left hk hp
  apply ends_operator hp
  exact (overflows_operand h ho op.token (Nat.lt_of_succ_lt_succ hk)
    (Grade.ReadAt.operand l).le_floor).ends

theorem overflowing_operations (op : Leaf l.has) {right : Derivation (.expr l.operand)}
    (hr : right.Bounded) (h : Opens (.operations l) st r)
    (ho : Overflowing (.operations l) st.length r) :
    Overflowing (.operations l) st.length (op.token :: (right.tokens ++ r)) := by
  intro k power left hk hp
  obtain ⟨u, vs, rfl, hu⟩ := h.exists_cons (ne_nil_of_lt hk)
  have ha : right.Ahead (u :: vs) := Grade.stops_of_has hu
  apply ends_operator hp
  apply ends_operand right.reads (.operand l) (cramped_tooDeep _ _) hr (by simp) ha
  exact ho k power _ hk hp

theorem overflowing_signed (sign : Leaf TokenKind.isSign) (h : Opens (.expr .unary) st r)
    (ho : Overflowing (.expr .unary) st.length r) :
    Overflowing (.expr .unary) (st.length + 1) (sign.token :: r) := by
  intro k power t us hk ht _
  obtain ⟨rfl, rfl⟩ := List.cons.inj ht
  apply overflows_bind
  rw [operandFrom_signed (by simpa [TokenKind.isSign] using sign.accepted)]
  exact overflows_bind (overflows_operand h ho _ (Nat.lt_of_succ_lt_succ hk) (by decide))

theorem overflowing_called {callee : Derivation (.expr .primary)} (hc : callee.Bounded)
    (h : Opens .calls st r) (ho : Overflowing .calls st.length r) :
    Overflowing (.expr .called) st.length (callee.tokens ++ r) := by
  intro k power t us hk ht hp
  obtain ⟨u, vs, rfl, hu⟩ := h.exists_cons (ne_nil_of_lt hk)
  obtain ⟨ws, hw, rfl⟩ := callee.exists_tokens_eq rfl ht
  have ha : callee.Ahead (u :: vs) := ⟨TokenKind.ne_of_accepts rfl hu, .inl rfl⟩
  apply callee.reads hw (cramped_tooDeep _ _) hc (by simp) ha hp
  exact ho k power _ hk (Nat.lt_of_le_of_lt hp (by decide))

theorem overflowing_call (opening : Mark .openParen)
    (ho : Overflowing (.list (.expr .loosest)) st.length r) :
    Overflowing .calls (st.length + 1) (opening.token :: r) := by
  intro k power left hk hp
  apply ends_opening hp
  exact (ho k (Nat.lt_of_succ_lt_succ hk)).ends

theorem overflowing_calls (opening : Mark .openParen)
    {arguments : Derivation (.list (.expr .loosest))} (closing : Mark .closeParen)
    (ha : arguments.Bounded) (ho : Overflowing .calls st.length r) :
    Overflowing .calls st.length
      (opening.token :: (arguments.tokens ++ closing.token :: r)) := by
  intro k power left hk hp
  apply ends_opening hp
  apply arguments.reads (cramped_tooDeep _ _) ha
  exact ho k power _ hk hp

theorem overflowing_group (opening : Mark .openParen) (h : Opens (.expr .loosest) st r)
    (ho : Overflowing (.expr .loosest) st.length r) :
    Overflowing (.expr .primary) (st.length + 1) (opening.token :: r) := by
  intro k power t us hk ht _
  obtain ⟨rfl, rfl⟩ := List.cons.inj ht
  apply overflows_bind
  simp only [operandFrom, opening.kind_eq]
  exact overflows_bind (overflows_inner_expr h ho (Nat.lt_of_succ_lt_succ hk) (by decide))

section
variable (word : Mark .ifWord) (opening : Mark .openParen)

theorem overflowing_condition (h : Opens (.expr .loosest) st r)
    (ho : Overflowing (.expr .loosest) st.length r) :
    Overflowing (.expr .primary) (st.length + 1) (word.token :: opening.token :: r) := by
  intro k power t us hk ht _
  obtain ⟨rfl, rfl⟩ := List.cons.inj ht
  apply overflows_bind
  simp only [operandFrom, word.kind_eq]
  apply ends_bind
  apply ends_expect opening.kind_eq (by decide)
  exact overflows_bind (overflows_inner_expr h ho (Nat.lt_of_succ_lt_succ hk) (by decide))

theorem overflowing_consequence {c : Derivation (.expr .loosest)} (closing : Mark .closeParen)
    (brace : Mark .openBrace) (hc : c.Bounded) (ho : Overflowing .statements st.length r) :
    Overflowing (.expr .primary) (st.length + 1)
      (word.token :: opening.token :: (c.tokens ++ closing.token :: brace.token :: r)) := by
  intro k power t us hk ht _
  obtain ⟨rfl, rfl⟩ := List.cons.inj ht
  apply overflows_bind
  simp only [operandFrom, word.kind_eq]
  apply ends_conditional c.reads (cramped_tooDeep _ _) hc
  exact overflows_bind (overflows_block brace ho (Nat.lt_of_succ_lt_succ hk))

theorem overflowing_alternative {c : Derivation (.expr .loosest)} (closing : Mark .closeParen)
    {b : Derivation .block} (other : Mark .elseWord) (brace : Mark .openBrace) (hc : c.Bounded)
    (hb : b.Bounded) (ho : Overflowing .statements st.length r) :
    Overflowing (.expr .primary) (st.length + 1) (word.token :: opening.token ::
      (c.tokens ++ closing.token :: (b.tokens ++ other.token :: brace.token :: r))) := by
  intro k power t us hk ht _
  obtain ⟨rfl, rfl⟩ := List.cons.inj ht
  apply overflows_bind
  simp only [operandFrom, word.kind_eq]
  apply ends_conditional c.reads (cramped_tooDeep _ _) hc
  apply ends_bind
  apply ends_block b.reads (cramped_tooDeep _ _) hb
  apply ends_bind
  apply ends_skip other.kind_eq (by decide)
  exact overflows_bind (overflows_block brace ho (Nat.lt_of_succ_lt_succ hk))

end

section
variable (word : Mark .fnWord) (opening : Mark .openParen)

theorem overflowing_parameters (ho : Overflowing (.list .parameter) st.length r) :
    Overflowing (.expr .primary) (st.length + 1) (word.token :: opening.token :: r) := by
  intro k power t us hk ht _
  obtain ⟨rfl, rfl⟩ := List.cons.inj ht
  apply overflows_bind
  simp only [operandFrom, word.kind_eq]
  apply ends_bind
  apply ends_expect opening.kind_eq (by decide)
  exact overflows_bind (ho k (Nat.lt_of_succ_lt_succ hk))

theorem overflowing_body {ps : Derivation (.list .parameter)} (closing : Mark .closeParen)
    (brace : Mark .openBrace) (hp : ps.Bounded) (ho : Overflowing .statements st.length r) :
    Overflowing (.expr .primary) (st.length + 1)
      (word.token :: opening.token :: (ps.tokens ++ closing.token :: brace.token :: r)) := by
  intro k power t us hk ht _
  obtain ⟨rfl, rfl⟩ := List.cons.inj ht
  apply overflows_bind
  simp only [operandFrom, word.kind_eq]
  apply ends_functionLiteral ps.reads (cramped_tooDeep _ _) hp
  exact overflows_bind (overflows_block brace ho (Nat.lt_of_succ_lt_succ hk))

end

theorem overflows_listItem (hn : n.isItem = true) (h : Opens n st r)
    (ho : Overflowing n st.length r) (hk : k < st.length) :
    (listItem (level k) n).Overflows r := by
  simp only [Nonterminal.isItem, Bool.or_eq_true, decide_eq_true_eq] at hn
  obtain rfl | rfl := hn
  · exact overflows_inner_expr h ho hk (by decide)
  · have hz : st.length = 0 := ho
    omega

theorem overflowing_firstItem (hn : n.isItem = true) (h : Opens n st r)
    (ho : Overflowing n st.length r) : Overflowing (.list n) st.length r := by
  intro k hk
  obtain ⟨t, us, hr, ht⟩ := h.exists_cons (ne_nil_of_lt hk)
  have hs : t.kind ≠ .closeParen := Nonterminal.not_stops_list hn t.kind ht
  apply ends_bind
  apply ends_peek hr
  rw [if_neg hs]
  exact overflows_bind (overflows_listItem hn h ho hk)

/-- An item in front of a comma. -/
theorem ends_item (hn : n.isItem = true) {item : Derivation n} (hi : item.Bounded)
    (h : Opens (.more n) st r) (hk : k < st.length) {good : n.Tree → List Token → Prop}
    (hg : good item.tree r) : (listItem (level k) n).Ends (item.tokens ++ r) good TooDeep := by
  obtain ⟨u, vs, rfl, hu⟩ := h.exists_cons (ne_nil_of_lt hk)
  have hc : n ≠ .clause := by
    rintro rfl
    cases hn
  have ha : item.Ahead (u :: vs) :=
    (item.ahead_iff hc).mpr (Nonterminal.stops_of_isItem hn (.inl (of_decide_eq_true hu)))
  exact ends_listItem hn item.reads (cramped_tooDeep _ _) hi (by simp) ha hg

theorem overflowing_items (hn : n.isItem = true) {item : Derivation n} (hi : item.Bounded)
    (h : Opens (.more n) st r) (ho : Overflowing (.more n) st.length r) :
    Overflowing (.list n) st.length (item.tokens ++ r) := by
  intro k hk
  obtain ⟨t, us, ht⟩ :=
    List.exists_cons_of_ne_nil (item.tokens_ne_nil (Nonterminal.solid_of_isItem hn))
  have hs : t.kind ≠ .closeParen :=
    Nonterminal.not_stops_list hn t.kind (item.starts_of_tokens_eq ht)
  apply ends_bind
  apply ends_peek (by rw [ht, List.cons_append])
  rw [if_neg hs]
  apply ends_bind
  apply ends_item hn hi h hk
  exact overflows_bind (overflows_many (ho k [] hk))

theorem overflowing_item (hn : n.isItem = true) (comma : Mark .comma) (h : Opens n st r)
    (ho : Overflowing n st.length r) : Overflowing (.more n) st.length (comma.token :: r) := by
  intro k items hk
  apply ends_collect_step (by simp) (by simp)
  exact (overflows_listItem hn h ho hk).ends

theorem overflowing_next (hn : n.isItem = true) (comma : Mark .comma) {item : Derivation n}
    (hi : item.Bounded) (h : Opens (.more n) st r) (ho : Overflowing (.more n) st.length r) :
    Overflowing (.more n) st.length (comma.token :: (item.tokens ++ r)) := by
  intro k items hk
  apply ends_collect_step (by simp) (by simp)
  apply ends_item hn hi h hk
  exact ho k _ hk

theorem overflowing (h : Opens n st r) : Overflowing n st.length r := by
  induction h with
  | start n => exact overflowing_zero n []
  | program _ ih => exact overflowing_program ih
  | clause h ih => exact overflowing_clause h ih
  | statement _ semicolon hf _ ih => exact overflowing_statement semicolon hf ih
  | bareStatement _ hf hr h ih => exact overflowing_bareStatement hf hr h ih
  | binding word bound assign h ih => exact overflowing_binding word bound assign h ih
  | valueReturn word h ih => exact overflowing_valueReturn word h ih
  | blockClause opening _ ih => exact overflowing_blockClause opening ih
  | exprClause h ih => exact overflowing_exprClause h ih
  | @first l _ _ _ ih =>
    intro k power t us hk ht hp
    exact ih k power t us hk ht (Nat.le_trans hp (Grade.floor_le_operand l))
  | chain _ hf h ih => exact overflowing_chain hf h ih
  | operation op h ih => exact overflowing_operation op h ih
  | operations op _ hr h ih => exact overflowing_operations op hr h ih
  | signed sign h ih => exact overflowing_signed sign h ih
  | unsigned _ ih | callee _ ih => exact ih
  | called _ hc h ih => exact overflowing_called hc h ih
  | call opening _ ih => exact overflowing_call opening ih
  | calls opening _ closing ha _ ih => exact overflowing_calls opening closing ha ih
  | group opening h ih => exact overflowing_group opening h ih
  | ifWord | fnWord =>
    intro k _ _ _ hk
    simp at hk
  | condition word opening h ih => exact overflowing_condition word opening h ih
  | consequence word opening _ closing brace hc _ ih =>
    exact overflowing_consequence word opening closing brace hc ih
  | alternative word opening _ closing _ other brace hc ht _ ih =>
    exact overflowing_alternative word opening closing other brace hc ht ih
  | parameters word opening _ ih => exact overflowing_parameters word opening ih
  | body word opening _ closing brace hp _ ih =>
    exact overflowing_body word opening closing brace hp ih
  | firstItem hn h ih => exact overflowing_firstItem hn h ih
  | items hn _ hi h ih => exact overflowing_items hn hi h ih
  | item hn comma h ih => exact overflowing_item hn comma h ih
  | next hn comma _ hi h ih => exact overflowing_next hn comma hi h ih

/-- The parser has run out of levels in front of the cut, so it does not get to what stands behind
it. -/
theorem run_tooDeep (h : Opens .program st r) {levels : Nat} (hl : levels + 1 < st.length)
    (more : Source) :
    ((programWithin levels).run { source := ⟨r ++ more.tokens, more.fault⟩ }).1 =
      .error (.problem .nestingTooDeepToParse) := by
  have he := h.overflowing levels hl (.ofTokens r) rfl rfl
  cases hr : (programWithin levels).run (.ofTokens r) with
  | mk result s' =>
    rw [hr] at he
    cases result with
    | ok program => exact he.2.elim
    | error fault =>
      obtain rfl : fault = .problem .nestingTooDeepToParse := he
      have ha := (Made.programWithin levels).run_append rfl hr (by simp) more
      exact congrArg Prod.fst ha

end Opens

end ExprLang
