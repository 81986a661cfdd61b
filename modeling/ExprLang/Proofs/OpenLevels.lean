import ExprLang.Proofs.Beginnings

/-!
Open levels. A derivation may be cut inside one of its parts, and that part again inside one of its
own. What is then open, one construct inside the other, is a stack of levels.
-/

namespace ExprLang

open ExprLang.Derivation

/-- What takes a level while it is open: a conditional together with its condition or block, a
function together with its body. -/
inductive Construct where
  | sign | rightOperand | group | arguments | block | conditional | function
deriving DecidableEq, Repr

/-- The kinds that open a construct. -/
def TokenKind.opens (kind : TokenKind) : Bool :=
  kind.isOperator || kind = openParen || kind = openBrace || kind = ifWord || kind = fnWord

/-- The tokens in front of a cut and the constructs that are open there, from the outside in. There
is a constructor for each part of a rule that may be cut; what stands in front of it is whole. -/
inductive Opens : Nonterminal → List Construct → List Token → Prop where
  | start (n : Nonterminal) : Opens n [] []
  | program {st r} (h : Opens .statements st r) : Opens .program st r
  | clause {st r} (h : Opens .clause st r) : Opens .statements st r
  | statement {st r} (first : Derivation .clause) (semicolon : Mark .semicolon) (hf : first.Bounded)
      (h : Opens .statements st r) : Opens .statements st (first.tokens ++ semicolon.token :: r)
  | bareStatement {st r} (first : Derivation .clause) (hf : first.Bounded)
      (hr : ∀ t ∈ r.head?, t.kind ≠ .semicolon ∧ first.Before t.kind)
      (h : Opens .statements st r) : Opens .statements st (first.tokens ++ r)
  | binding {st r} (word : Mark .letWord) (bound : Mark .name) (assign : Mark .assign)
      (h : Opens (.expr .loosest) st r) :
      Opens .clause st (word.token :: bound.token :: assign.token :: r)
  | valueReturn {st r} (word : Mark .returnWord) (h : Opens (.expr .loosest) st r) :
      Opens .clause st (word.token :: r)
  | blockClause {st r} (opening : Mark .openBrace) (h : Opens .statements st r) :
      Opens .clause (.block :: st) (opening.token :: r)
  | exprClause {st r} (h : Opens (.expr .loosest) st r) : Opens .clause st r
  | first {l : Layer} {st r} (h : Opens (.expr l.operand) st r) : Opens (.expr (.binary l)) st r
  | chain {l : Layer} {st r} (first : Derivation (.expr l.operand)) (hf : first.Bounded)
      (h : Opens (.operations l) st r) : Opens (.expr (.binary l)) st (first.tokens ++ r)
  | operation {l : Layer} {st r} (op : Leaf l.has) (h : Opens (.expr l.operand) st r) :
      Opens (.operations l) (.rightOperand :: st) (op.token :: r)
  | operations {l : Layer} {st r} (op : Leaf l.has) (right : Derivation (.expr l.operand))
      (hr : right.Bounded) (h : Opens (.operations l) st r) :
      Opens (.operations l) st (op.token :: (right.tokens ++ r))
  | signed {st r} (sign : Leaf TokenKind.isSign) (h : Opens (.expr .unary) st r) :
      Opens (.expr .unary) (.sign :: st) (sign.token :: r)
  | unsigned {st r} (h : Opens (.expr .called) st r) : Opens (.expr .unary) st r
  | callee {st r} (h : Opens (.expr .primary) st r) : Opens (.expr .called) st r
  | called {st r} (callee : Derivation (.expr .primary)) (hc : callee.Bounded)
      (h : Opens .calls st r) : Opens (.expr .called) st (callee.tokens ++ r)
  | call {st r} (opening : Mark .openParen) (h : Opens (.list (.expr .loosest)) st r) :
      Opens .calls (.arguments :: st) (opening.token :: r)
  | calls {st r} (opening : Mark .openParen) (arguments : Derivation (.list (.expr .loosest)))
      (closing : Mark .closeParen) (ha : arguments.Bounded) (h : Opens .calls st r) :
      Opens .calls st (opening.token :: (arguments.tokens ++ closing.token :: r))
  | group {st r} (opening : Mark .openParen) (h : Opens (.expr .loosest) st r) :
      Opens (.expr .primary) (.group :: st) (opening.token :: r)
  | ifWord (word : Mark .ifWord) : Opens (.expr .primary) [.conditional] [word.token]
  | condition {st r} (word : Mark .ifWord) (opening : Mark .openParen)
      (h : Opens (.expr .loosest) st r) :
      Opens (.expr .primary) (.conditional :: st) (word.token :: opening.token :: r)
  | consequence {st r} (word : Mark .ifWord) (opening : Mark .openParen)
      (c : Derivation (.expr .loosest)) (closing : Mark .closeParen) (brace : Mark .openBrace)
      (hc : c.Bounded) (h : Opens .statements st r) :
      Opens (.expr .primary) (.conditional :: st)
        (word.token :: opening.token :: (c.tokens ++ closing.token :: brace.token :: r))
  | alternative {st r} (word : Mark .ifWord) (opening : Mark .openParen)
      (c : Derivation (.expr .loosest)) (closing : Mark .closeParen) (t : Derivation .block)
      (other : Mark .elseWord) (brace : Mark .openBrace) (hc : c.Bounded) (ht : t.Bounded)
      (h : Opens .statements st r) :
      Opens (.expr .primary) (.conditional :: st) (word.token :: opening.token ::
        (c.tokens ++ closing.token :: (t.tokens ++ other.token :: brace.token :: r)))
  | fnWord (word : Mark .fnWord) : Opens (.expr .primary) [.function] [word.token]
  | parameters {st r} (word : Mark .fnWord) (opening : Mark .openParen)
      (h : Opens (.list .parameter) st r) :
      Opens (.expr .primary) (.function :: st) (word.token :: opening.token :: r)
  | body {st r} (word : Mark .fnWord) (opening : Mark .openParen)
      (ps : Derivation (.list .parameter)) (closing : Mark .closeParen) (brace : Mark .openBrace)
      (hp : ps.Bounded) (h : Opens .statements st r) :
      Opens (.expr .primary) (.function :: st)
        (word.token :: opening.token :: (ps.tokens ++ closing.token :: brace.token :: r))
  | firstItem {n : Nonterminal} {st r} (hn : n.isItem = true) (h : Opens n st r) :
      Opens (.list n) st r
  | items {n : Nonterminal} {st r} (hn : n.isItem = true) (item : Derivation n)
      (hi : item.Bounded) (h : Opens (.more n) st r) : Opens (.list n) st (item.tokens ++ r)
  | item {n : Nonterminal} {st r} (hn : n.isItem = true) (comma : Mark .comma) (h : Opens n st r) :
      Opens (.more n) st (comma.token :: r)
  | next {n : Nonterminal} {st r} (hn : n.isItem = true) (comma : Mark .comma)
      (item : Derivation n) (hi : item.Bounded) (h : Opens (.more n) st r) :
      Opens (.more n) st (comma.token :: (item.tokens ++ r))

namespace Begins

variable {r : List Token}

theorem nil (n : Nonterminal) : Begins n [] := by
  cases n with
  | program => exact program statements_nil
  | statements => exact statements_nil
  | clause => exact exprClause (expr_nil _)
  | block => exact block_nil
  | expr g => exact expr_nil g
  | operations l => exact of_bounded (d := noOperations) trivial
  | calls => exact of_bounded (d := noCalls) trivial
  | alternative => exact of_bounded (d := noAlternative) trivial
  | parameter =>
    exact (of_bounded (d := .parameter (.sample .name)) trivial).shorten List.nil_prefix
  | list n => exact list_nil n
  | more n => exact of_bounded (d := noMore) trivial

theorem chain {l : Layer} (first : Derivation (.expr l.operand)) (hf : first.Bounded)
    (h : Begins (.operations l) r) : Begins (.expr (.binary l)) (first.tokens ++ r) := by
  obtain ⟨d, hb, hd⟩ := h
  exact ⟨.chain first d, ⟨hf, hb⟩, (List.prefix_append_right_inj _).mpr hd⟩

theorem firstOperation {l : Layer} (op : Leaf l.has) (h : Begins (.expr l.operand) r) :
    Begins (.operations l) (op.token :: r) := by
  obtain ⟨d, hb, hd⟩ := h
  refine ⟨.operation op d noOperations, ⟨hb, trivial⟩, ?_⟩
  exact List.cons_prefix_cons.mpr ⟨rfl, hd.trans (List.prefix_append _ _)⟩

theorem operations {l : Layer} (op : Leaf l.has) (right : Derivation (.expr l.operand))
    (hr : right.Bounded) (h : Begins (.operations l) r) :
    Begins (.operations l) (op.token :: (right.tokens ++ r)) := by
  obtain ⟨d, hb, hd⟩ := h
  refine ⟨.operation op right d, ⟨hr, hb⟩, ?_⟩
  exact List.cons_prefix_cons.mpr ⟨rfl, (List.prefix_append_right_inj _).mpr hd⟩

theorem called (callee : Derivation (.expr .primary)) (hc : callee.Bounded) (h : Begins .calls r) :
    Begins (.expr .called) (callee.tokens ++ r) := by
  obtain ⟨d, hb, hd⟩ := h
  exact ⟨.called callee d, ⟨hc, hb⟩, (List.prefix_append_right_inj _).mpr hd⟩

theorem firstCall (opening : Mark .openParen) (h : Begins (.list (.expr .loosest)) r) :
    Begins .calls (opening.token :: r) := by
  obtain ⟨d, hb, hd⟩ := h
  refine ⟨.call opening d (.sample .closeParen) noCalls, ⟨hb, trivial⟩, ?_⟩
  exact List.cons_prefix_cons.mpr ⟨rfl, hd.trans (List.prefix_append _ _)⟩

theorem calls (opening : Mark .openParen) (arguments : Derivation (.list (.expr .loosest)))
    (closing : Mark .closeParen) (ha : arguments.Bounded) (h : Begins .calls r) :
    Begins .calls (opening.token :: (arguments.tokens ++ closing.token :: r)) := by
  obtain ⟨d, hb, hd⟩ := h
  refine ⟨.call opening arguments closing d, ⟨ha, hb⟩, ?_⟩
  simpa [tokens] using hd

end Begins

namespace Opens

variable {n : Nonterminal} {st : List Construct} {r : List Token}

/-- In front of a cut stands the beginning of a derivation. -/
theorem begins (h : Opens n st r) : Begins n r := by
  induction h with
  | start n => exact .nil n
  | program _ ih => exact ih.program
  | clause _ ih => exact ih.clause
  | statement first semicolon hf _ ih => exact ih.statement first semicolon hf
  | bareStatement first hf hr _ ih => exact ih.statement_bare first hf hr
  | binding word bound assign _ ih => exact ih.binding word bound assign
  | valueReturn word _ ih => exact ih.valueReturn word
  | blockClause opening _ ih => exact (ih.block opening).blockClause
  | exprClause _ ih => exact ih.exprClause
  | @first l _ _ _ ih => exact ih.loosen (Grade.operand_loosens l)
  | chain first hf _ ih => exact ih.chain first hf
  | operation op _ ih => exact ih.firstOperation op
  | operations op right hr _ ih => exact ih.operations op right hr
  | signed sign _ ih => exact ih.signed sign
  | unsigned _ ih => exact ih.loosen Grade.loosens_unary
  | callee _ ih => exact ih.loosen Grade.loosens_called
  | called callee hc _ ih => exact ih.called callee hc
  | call opening _ ih => exact ih.firstCall opening
  | calls opening arguments closing ha _ ih => exact ih.calls opening arguments closing ha
  | group opening _ ih => exact ih.group opening
  | ifWord word =>
    exact (Begins.condition word (.sample .openParen) (.expr_nil _)).shorten ⟨_, rfl⟩
  | condition word opening _ ih => exact ih.condition word opening
  | consequence word opening c closing brace hc _ ih =>
    exact (ih.block brace).consequence word opening c closing hc
  | alternative word opening c closing t other brace hc ht _ ih =>
    exact (ih.block brace).alternative word opening c closing t other hc ht
  | fnWord word =>
    exact (Begins.parameters word (.sample .openParen) (.list_nil _)).shorten ⟨_, rfl⟩
  | parameters word opening _ ih => exact ih.parameters word opening
  | body word opening ps closing brace hp _ ih =>
    exact (ih.block brace).body word opening ps closing hp
  | firstItem hn _ ih => exact ih.first hn
  | items hn item hi _ ih => exact ih.items hn item hi
  | item hn comma _ ih => exact ih.item hn comma
  | next hn comma item hi _ ih => exact ih.next hn comma item hi

theorem length_cons_le {t : Token} {m k : Nat} (ht : t.kind.opens = true) (hm : m ≤ k) :
    m + 1 ≤ k + if t.kind.opens = true then 1 else 0 := by
  rw [if_pos ht]
  omega

/-- Every open construct has a token of its own that opened it. -/
theorem length_le (h : Opens n st r) : st.length ≤ r.countP (·.kind.opens) := by
  have hm {kind : TokenKind} (m : Mark kind) (hk : kind.opens = true) :
      m.token.kind.opens = true := by rwa [m.kind_eq]
  induction h with
  | start => exact Nat.le_refl 0
  | program _ ih | clause _ ih | exprClause _ ih | first _ ih | unsigned _ ih | callee _ ih =>
    exact ih
  | firstItem _ _ ih => exact ih
  | operation op _ ih =>
    rw [List.countP_cons]
    exact length_cons_le (by simp [TokenKind.opens, isOperator_of_has op.accepted]) ih
  | signed sign _ ih =>
    rw [List.countP_cons]
    exact length_cons_le (by simp [TokenKind.opens, isOperator_of_isSign sign.accepted]) ih
  | blockClause opening _ ih | call opening _ ih | group opening _ ih =>
    rw [List.countP_cons]
    exact length_cons_le (hm opening rfl) ih
  | ifWord word | fnWord word =>
    rw [List.countP_cons]
    exact length_cons_le (hm word rfl) (Nat.le_refl 0)
  | condition word _ _ ih | parameters word _ _ ih =>
    rw [List.countP_cons]
    apply length_cons_le (hm word rfl)
    simp only [List.countP_cons]
    omega
  | consequence word _ _ _ _ _ _ ih | alternative word _ _ _ _ _ _ _ _ _ ih
  | body word _ _ _ _ _ _ ih =>
    rw [List.countP_cons]
    apply length_cons_le (hm word rfl)
    simp only [List.countP_cons, List.countP_append]
    omega
  | _ =>
    simp only [List.countP_cons, List.countP_append]
    omega

theorem ne_nil (h : Opens n st r) (hs : st ≠ []) : r ≠ [] := by
  induction h with
  | start => exact absurd rfl hs
  | program _ ih | clause _ ih | exprClause _ ih | first _ ih | unsigned _ ih | callee _ ih =>
    exact ih hs
  | firstItem _ _ ih => exact ih hs
  | bareStatement _ _ _ _ ih => exact List.append_ne_nil_of_right_ne_nil _ (ih hs)
  | chain _ _ _ ih | called _ _ _ ih => exact List.append_ne_nil_of_right_ne_nil _ (ih hs)
  | items _ _ _ _ ih => exact List.append_ne_nil_of_right_ne_nil _ (ih hs)
  | _ => simp

/-- Where something is open, the derivation has a first token. -/
theorem exists_cons (h : Opens n st r) (hs : st ≠ []) :
    ∃ t us, r = t :: us ∧ n.starts t.kind = true := by
  obtain ⟨t, us, rfl⟩ := List.exists_cons_of_ne_nil (h.ne_nil hs)
  obtain ⟨d, _, more, hd⟩ := h.begins
  exact ⟨t, us, rfl, d.starts_of_tokens_eq hd.symm⟩

/-- Behind what is whole of a chain, one more operation is cut. -/
theorem behind_operations {l : Layer} : (others : Derivation (.operations l)) → others.Bounded →
    (op : Leaf l.has) → Opens (.expr l.operand) st r →
    Opens (.operations l) (.rightOperand :: st) (others.tokens ++ op.token :: r)
  | noOperations, _, op, h => .operation op h
  | .operation op' right others, hb, op, h => by
    simpa [tokens] using operations op' right hb.1 (behind_operations others hb.2 op h)

theorem rightOperand {l : Layer} (left : Derivation (.expr (.binary l))) (hl : left.Bounded)
    (op : Leaf l.has) (h : Opens (.expr l.operand) st r) :
    Opens (.expr (.binary l)) (.rightOperand :: st) (left.tokens ++ op.token :: r) := by
  cases left with
  | chain first others =>
    rw [tokens, List.append_assoc]
    exact chain first hl.1 (behind_operations others hl.2 op h)

theorem behind_calls : (others : Derivation .calls) → others.Bounded → (opening : Mark .openParen) →
    Opens (.list (.expr .loosest)) st r →
    Opens .calls (.arguments :: st) (others.tokens ++ opening.token :: r)
  | noCalls, _, opening, h => .call opening h
  | .call opening' arguments closing others, hb, opening, h => by
    simpa [tokens] using
      calls opening' arguments closing hb.1 (behind_calls others hb.2 opening h)

theorem arguments (callee : Derivation (.expr .called)) (hc : callee.Bounded)
    (opening : Mark .openParen) (h : Opens (.list (.expr .loosest)) st r) :
    Opens (.expr .called) (.arguments :: st) (callee.tokens ++ opening.token :: r) := by
  cases callee with
  | called callee others =>
    rw [tokens, List.append_assoc]
    exact called callee hc.1 (behind_calls others hc.2 opening h)

theorem loosen {g h : Grade} (hp : h ≠ .primary) (hl : h.precedence ≤ g.precedence)
    (ho : Opens (.expr g) st r) : Opens (.expr h) st r :=
  Grade.rise (R := fun g => Opens (.expr g) st r) callee unsigned (fun _ => first) hp hl ho

end Opens

end ExprLang
