import ExprLang.Proofs.DerivationEdges

/-!
Beginnings of derivations: tokens that some more tokens complete. Each place of the grammar has a
lemma that completes what stands around the place, and derivations may be extended at the right.
-/

namespace ExprLang

/-- A token of a kind, as it may be written. -/
def Token.sample (kind : TokenKind) : Token :=
  match kind with
  | .number => { kind, payload := .number 0, lexeme := "0" }
  | .name => { kind, payload := .text "x", lexeme := "x" }
  | _ => { kind, lexeme := kind.spelling?.getD "" }

@[simp] theorem Token.sample_kind (kind : TokenKind) : (sample kind).kind = kind := by
  cases kind <;> rfl

def Leaf.sample {accepts : TokenKind → Bool} {kind : TokenKind} (h : accepts kind = true) :
    Leaf accepts :=
  { token := .sample kind
    accepted := by rwa [Token.sample_kind] }

@[simp] theorem Leaf.sample_token {accepts : TokenKind → Bool} {kind : TokenKind}
    (h : accepts kind = true) : (sample h).token = .sample kind :=
  rfl

def Mark.sample (kind : TokenKind) : Mark kind :=
  Leaf.sample (decide_eq_true rfl)

@[simp] theorem Mark.sample_token (kind : TokenKind) : (sample kind).token = .sample kind :=
  rfl

namespace Derivation

structure Alike {g h : Grade} (d : Derivation (.expr g)) (d' : Derivation (.expr h)) : Prop where
  tokens_eq : d'.tokens = d.tokens
  tree_eq : d'.tree = d.tree
  bounded : d.Bounded → d'.Bounded

end Derivation

open ExprLang.Derivation

namespace Grade

def Loosens (g h : Grade) : Prop :=
  ∀ d : Derivation (.expr g), ∃ d' : Derivation (.expr h), d.Alike d'

theorem loosens_refl (g : Grade) : g.Loosens g :=
  fun d => ⟨d, rfl, rfl, id⟩

theorem Loosens.trans {f g h : Grade} (hf : f.Loosens g) (hg : g.Loosens h) : f.Loosens h := by
  intro d
  obtain ⟨d₁, h₁⟩ := hf d
  obtain ⟨d₂, h₂⟩ := hg d₁
  exact ⟨d₂, h₂.tokens_eq.trans h₁.tokens_eq, h₂.tree_eq.trans h₁.tree_eq,
    fun hb => h₂.bounded (h₁.bounded hb)⟩

theorem loosens_called : primary.Loosens called :=
  fun d => ⟨.called d .noCalls, List.append_nil _, rfl, fun hb => ⟨hb, trivial⟩⟩

theorem loosens_unary : called.Loosens unary :=
  fun d => ⟨.unsigned d, rfl, rfl, id⟩

theorem operand_loosens (l : Layer) : l.operand.Loosens (binary l) :=
  fun d => ⟨.chain d .noOperations, List.append_nil _, rfl, fun hb => ⟨hb, trivial⟩⟩

theorem eq_or_operand_le {l : Layer} {g : Grade} (h : l.precedence ≤ g.precedence) :
    g = binary l ∨ l.operand.precedence ≤ g.precedence := by
  revert h
  cases l <;> rcases g with ⟨_ | _⟩ | _ | _ | _ <;> decide

/-- What each grade has from the next tighter one, it has from all that are as tight. -/
theorem rise {R : Grade → Prop} (hc : R primary → R called) (hu : R called → R unary)
    (hb : ∀ l : Layer, R l.operand → R (binary l)) {g h : Grade} (hp : h ≠ primary)
    (hl : h.precedence ≤ g.precedence) (hg : R g) : R h := by
  have hunary : unary.precedence ≤ g.precedence → R unary := by
    intro hl
    cases g with
    | binary l => cases l <;> exact absurd hl (by decide)
    | unary => exact hg
    | called => exact hu hg
    | primary => exact hu (hc hg)
  have hbinary {l : Layer} (ho : l.operand.precedence ≤ g.precedence → R l.operand)
      (hl : l.precedence ≤ g.precedence) : R (binary l) := by
    rcases eq_or_operand_le hl with rfl | hl
    · exact hg
    · exact hb l (ho hl)
  cases h with
  | binary l =>
    have hproduct := hbinary (l := .product) hunary
    have hsum := hbinary (l := .sum) hproduct
    have hcomparison := hbinary (l := .comparison) hsum
    cases l with
    | equality => exact hbinary hcomparison hl
    | comparison => exact hcomparison hl
    | sum => exact hsum hl
    | product => exact hproduct hl
  | unary => exact hunary hl
  | called =>
    cases g with
    | binary l => cases l <;> exact absurd hl (by decide)
    | unary => exact absurd hl (by decide)
    | called => exact hg
    | primary => exact hc hg
  | primary => exact absurd rfl hp

theorem loosens_of_le {g h : Grade} (hp : h ≠ primary) (hl : h.precedence ≤ g.precedence) :
    g.Loosens h :=
  rise (R := g.Loosens) (fun hg => hg.trans loosens_called) (fun hg => hg.trans loosens_unary)
    (fun l hg => hg.trans (operand_loosens l)) hp hl (loosens_refl g)

theorem loosens_binary (l : Layer) (g : Grade) (h : l.precedence ≤ g.precedence) :
    g.Loosens (binary l) :=
  loosens_of_le (by simp) h

end Grade

namespace Derivation

def snocOperation {l : Layer} : Derivation (.operations l) → Leaf l.has →
    Derivation (.expr l.operand) → Derivation (.operations l)
  | noOperations, op, right => operation op right noOperations
  | operation op' right' others, op, right => operation op' right' (others.snocOperation op right)

theorem tokens_snocOperation {l : Layer} : (d : Derivation (.operations l)) → (op : Leaf l.has) →
    (right : Derivation (.expr l.operand)) →
    (d.snocOperation op right).tokens = d.tokens ++ op.token :: right.tokens
  | noOperations, op, right => by simp [snocOperation, tokens]
  | operation op' right' others, op, right => by
    simp [snocOperation, tokens, tokens_snocOperation others op right]

theorem tree_snocOperation {l : Layer} : (d : Derivation (.operations l)) → (op : Leaf l.has) →
    (right : Derivation (.expr l.operand)) → (left : Expr) →
    (d.snocOperation op right).tree left = .binary op.token.kind (d.tree left) (some right.tree)
  | noOperations, op, right, left => by
    rw [snocOperation]
    rfl
  | operation op' right' others, op, right, left => by
    rw [snocOperation]
    exact tree_snocOperation others op right _

theorem bounded_snocOperation {l : Layer} : {d : Derivation (.operations l)} → {op : Leaf l.has} →
    {right : Derivation (.expr l.operand)} → d.Bounded → right.Bounded →
    (d.snocOperation op right).Bounded
  | noOperations, _, _, _, hr => by
    rw [snocOperation]
    exact ⟨hr, trivial⟩
  | operation _ _ others, _, _, hd, hr => by
    rw [snocOperation]
    exact ⟨hd.1, bounded_snocOperation hd.2 hr⟩

theorem exists_operation {l : Layer} (d : Derivation (.expr (.binary l))) (op : Leaf l.has)
    (right : Derivation (.expr l.operand)) (hd : d.Bounded) (hr : right.Bounded) :
    ∃ d' : Derivation (.expr (.binary l)), d'.Bounded ∧
      d'.tokens = d.tokens ++ op.token :: right.tokens ∧
      d'.tree = .binary op.token.kind d.tree (some right.tree) := by
  cases d with
  | chain first others =>
    refine ⟨chain first (others.snocOperation op right), ⟨hd.1, bounded_snocOperation hd.2 hr⟩,
      ?_, ?_⟩
    · simp [tokens, tokens_snocOperation]
    · exact tree_snocOperation others op right first.tree

def snocCall : Derivation .calls → Mark .openParen → Derivation (.list (.expr .loosest)) →
    Mark .closeParen → Derivation .calls
  | noCalls, opening, arguments, closing => call opening arguments closing noCalls
  | call opening' arguments' closing' others, opening, arguments, closing =>
    call opening' arguments' closing' (others.snocCall opening arguments closing)

theorem tokens_snocCall : (d : Derivation .calls) → (opening : Mark .openParen) →
    (arguments : Derivation (.list (.expr .loosest))) → (closing : Mark .closeParen) →
    (d.snocCall opening arguments closing).tokens =
      d.tokens ++ opening.token :: (arguments.tokens ++ [closing.token])
  | noCalls, _, _, _ => by simp [snocCall, tokens]
  | call _ _ _ others, opening, arguments, closing => by
    simp [snocCall, tokens, tokens_snocCall others opening arguments closing]

theorem tree_snocCall : (d : Derivation .calls) → (opening : Mark .openParen) →
    (arguments : Derivation (.list (.expr .loosest))) → (closing : Mark .closeParen) →
    (left : Expr) →
    (d.snocCall opening arguments closing).tree left = .call (d.tree left) arguments.tree
  | noCalls, _, _, _, _ => by
    rw [snocCall]
    rfl
  | call _ _ _ others, opening, arguments, closing, _ => by
    rw [snocCall]
    exact tree_snocCall others opening arguments closing _

theorem bounded_snocCall : {d : Derivation .calls} → {opening : Mark .openParen} →
    {arguments : Derivation (.list (.expr .loosest))} → {closing : Mark .closeParen} → d.Bounded →
    arguments.Bounded → (d.snocCall opening arguments closing).Bounded
  | noCalls, _, _, _, _, ha => by
    rw [snocCall]
    exact ⟨ha, trivial⟩
  | call _ _ _ others, _, _, _, hd, ha => by
    rw [snocCall]
    exact ⟨hd.1, bounded_snocCall hd.2 ha⟩

theorem exists_call (d : Derivation (.expr .called)) (opening : Mark .openParen)
    (arguments : Derivation (.list (.expr .loosest))) (closing : Mark .closeParen) (hd : d.Bounded)
    (ha : arguments.Bounded) :
    ∃ d' : Derivation (.expr .called), d'.Bounded ∧
      d'.tokens = d.tokens ++ opening.token :: (arguments.tokens ++ [closing.token]) ∧
      d'.tree = .call d.tree arguments.tree := by
  cases d with
  | called callee others =>
    refine ⟨called callee (others.snocCall opening arguments closing),
      ⟨hd.1, bounded_snocCall hd.2 ha⟩, ?_, ?_⟩
    · simp [tokens, tokens_snocCall]
    · exact tree_snocCall others opening arguments closing callee.tree

end Derivation

/-- Whether tokens are the beginning of a derivation. -/
def Begins (n : Nonterminal) (read : List Token) : Prop :=
  ∃ d : Derivation n, d.Bounded ∧ read <+: d.tokens

namespace Begins

variable {n : Nonterminal} {r r' : List Token}

theorem shorten (h : Begins n r) (hr : r' <+: r) : Begins n r' := by
  obtain ⟨d, hb, hd⟩ := h
  exact ⟨d, hb, hr.trans hd⟩

theorem of_bounded {d : Derivation n} (hb : d.Bounded) : Begins n d.tokens :=
  ⟨d, hb, List.prefix_rfl⟩

theorem loosen {g h : Grade} (hl : g.Loosens h) (hr : Begins (.expr g) r) : Begins (.expr h) r := by
  obtain ⟨d, hb, hd⟩ := hr
  obtain ⟨d', ha⟩ := hl d
  exact ⟨d', ha.bounded hb, ha.tokens_eq ▸ hd⟩

theorem expr_nil (g : Grade) : Begins (.expr g) [] := by
  have hn : Begins (.expr .primary) [] := ⟨number (.sample .number), trivial, List.nil_prefix⟩
  by_cases hg : g = .primary
  · exact hg ▸ hn
  · apply hn.loosen
    apply Grade.loosens_of_le hg
    cases g with
    | binary l => cases l <;> decide
    | _ => decide

theorem statements_nil : Begins .statements [] :=
  ⟨noStatements, trivial, List.nil_prefix⟩

theorem program (h : Begins .statements r) : Begins .program r := by
  obtain ⟨d, hb, hd⟩ := h
  exact ⟨Derivation.program d (.sample .endOfInput), hb, hd.trans (List.prefix_append _ _)⟩

theorem clause (h : Begins .clause r) : Begins .statements r := by
  obtain ⟨d, hb, hd⟩ := h
  have hs : (Derivation.statement d none noStatements).Bounded := ⟨hb, trivial, by simp [tokens]⟩
  exact ⟨Derivation.statement d none noStatements, hs, hd.trans (List.prefix_append _ _)⟩

theorem statement (first : Derivation .clause) (semicolon : Mark .semicolon) (hf : first.Bounded)
    (h : Begins .statements r) : Begins .statements (first.tokens ++ semicolon.token :: r) := by
  obtain ⟨d, hb, hd⟩ := h
  refine ⟨Derivation.statement first (some semicolon) d, ⟨hf, hb⟩, ?_⟩
  rw [tokens, List.prefix_append_right_inj, List.cons_prefix_cons]
  exact ⟨rfl, hd⟩

theorem statement_bare (first : Derivation .clause) (hf : first.Bounded)
    (hr : ∀ t ∈ r.head?, t.kind ≠ .semicolon ∧ first.Before t.kind) (h : Begins .statements r) :
    Begins .statements (first.tokens ++ r) := by
  cases r with
  | nil =>
    rw [List.append_nil]
    exact clause (of_bounded hf)
  | cons t us =>
    obtain ⟨d, hb, hd⟩ := h
    refine ⟨Derivation.statement first none d, ⟨hf, hb, ?_⟩, ?_⟩
    · obtain ⟨vs, hv⟩ := hd
      rw [← hv]
      exact hr
    · rw [tokens, List.prefix_append_right_inj]
      exact hd

theorem binding (word : Mark .letWord) (bound : Mark .name) (assign : Mark .assign)
    (h : Begins (.expr .loosest) r) :
    Begins .clause (word.token :: bound.token :: assign.token :: r) := by
  obtain ⟨d, hb, hd⟩ := h
  refine ⟨Derivation.binding word bound assign d, hb, ?_⟩
  simpa [tokens] using hd

theorem valueReturn (word : Mark .returnWord) (h : Begins (.expr .loosest) r) :
    Begins .clause (word.token :: r) := by
  obtain ⟨d, hb, hd⟩ := h
  refine ⟨Derivation.valueReturn word d, hb, ?_⟩
  simpa [tokens] using hd

theorem blockClause (h : Begins .block r) : Begins .clause r := by
  obtain ⟨d, hb, hd⟩ := h
  exact ⟨Derivation.blockClause d, hb, hd⟩

theorem exprClause (h : Begins (.expr .loosest) r) : Begins .clause r := by
  obtain ⟨d, hb, hd⟩ := h
  exact ⟨Derivation.exprClause d, hb, hd⟩

theorem block (opening : Mark .openBrace) (h : Begins .statements r) :
    Begins .block (opening.token :: r) := by
  obtain ⟨d, hb, hd⟩ := h
  refine ⟨Derivation.block opening d (.sample .closeBrace), hb, ?_⟩
  rw [tokens, List.cons_prefix_cons]
  exact ⟨rfl, hd.trans (List.prefix_append _ _)⟩

theorem block_nil : Begins .block [] :=
  (block (.sample .openBrace) statements_nil).shorten List.nil_prefix

theorem operation {l : Layer} (left : Derivation (.expr (.binary l))) (op : Leaf l.has)
    (hl : left.Bounded) (h : Begins (.expr l.operand) r) :
    Begins (.expr (.binary l)) (left.tokens ++ op.token :: r) := by
  obtain ⟨d, hb, hd⟩ := h
  obtain ⟨d', hb', ht, _⟩ := exists_operation left op d hl hb
  refine ⟨d', hb', ?_⟩
  rw [ht, List.prefix_append_right_inj, List.cons_prefix_cons]
  exact ⟨rfl, hd⟩

theorem signed (sign : Leaf TokenKind.isSign) (h : Begins (.expr .unary) r) :
    Begins (.expr .unary) (sign.token :: r) := by
  obtain ⟨d, hb, hd⟩ := h
  refine ⟨Derivation.signed sign d, hb, ?_⟩
  simpa [tokens] using hd

theorem call (callee : Derivation (.expr .called)) (opening : Mark .openParen)
    (hc : callee.Bounded) (h : Begins (.list (.expr .loosest)) r) :
    Begins (.expr .called) (callee.tokens ++ opening.token :: r) := by
  obtain ⟨d, hb, hd⟩ := h
  obtain ⟨d', hb', ht, _⟩ := exists_call callee opening d (.sample .closeParen) hc hb
  refine ⟨d', hb', ?_⟩
  rw [ht, List.prefix_append_right_inj, List.cons_prefix_cons]
  exact ⟨rfl, hd.trans (List.prefix_append _ _)⟩

theorem group (opening : Mark .openParen) (h : Begins (.expr .loosest) r) :
    Begins (.expr .primary) (opening.token :: r) := by
  obtain ⟨d, hb, hd⟩ := h
  refine ⟨Derivation.group opening d (.sample .closeParen), hb, ?_⟩
  rw [tokens, List.cons_prefix_cons]
  exact ⟨rfl, hd.trans (List.prefix_append _ _)⟩

theorem condition (word : Mark .ifWord) (opening : Mark .openParen)
    (h : Begins (.expr .loosest) r) :
    Begins (.expr .primary) (word.token :: opening.token :: r) := by
  obtain ⟨d, hb, hd⟩ := h
  obtain ⟨b, hb', _⟩ := block_nil
  refine ⟨conditional word opening d (.sample .closeParen) b noAlternative,
    ⟨hb, hb', trivial⟩, ?_⟩
  simp only [tokens, List.cons_prefix_cons, true_and]
  exact hd.trans (List.prefix_append _ _)

theorem consequence (word : Mark .ifWord) (opening : Mark .openParen)
    (c : Derivation (.expr .loosest)) (closing : Mark .closeParen) (hc : c.Bounded)
    (h : Begins .block r) :
    Begins (.expr .primary)
      (word.token :: opening.token :: (c.tokens ++ closing.token :: r)) := by
  obtain ⟨d, hb, hd⟩ := h
  refine ⟨conditional word opening c closing d noAlternative, ⟨hc, hb, trivial⟩, ?_⟩
  simp only [tokens, List.cons_prefix_cons, true_and, List.prefix_append_right_inj]
  exact hd.trans (List.prefix_append _ _)

theorem alternative (word : Mark .ifWord) (opening : Mark .openParen)
    (c : Derivation (.expr .loosest)) (closing : Mark .closeParen) (t : Derivation .block)
    (other : Mark .elseWord) (hc : c.Bounded) (ht : t.Bounded) (h : Begins .block r) :
    Begins (.expr .primary)
      (word.token :: opening.token ::
        (c.tokens ++ closing.token :: (t.tokens ++ other.token :: r))) := by
  obtain ⟨d, hb, hd⟩ := h
  refine ⟨conditional word opening c closing t (.alternative other d), ⟨hc, ht, hb⟩, ?_⟩
  simp only [tokens, List.cons_prefix_cons, true_and, List.prefix_append_right_inj]
  exact hd

theorem list_nil (n : Nonterminal) : Begins (.list n) [] :=
  ⟨noItems, trivial, List.nil_prefix⟩

theorem parameters (word : Mark .fnWord) (opening : Mark .openParen)
    (h : Begins (.list .parameter) r) :
    Begins (.expr .primary) (word.token :: opening.token :: r) := by
  obtain ⟨d, hb, hd⟩ := h
  obtain ⟨b, hb', _⟩ := block_nil
  refine ⟨function word opening d (.sample .closeParen) b, ⟨hb, hb'⟩, ?_⟩
  simp only [tokens, List.cons_prefix_cons, true_and]
  exact hd.trans (List.prefix_append _ _)

theorem body (word : Mark .fnWord) (opening : Mark .openParen)
    (ps : Derivation (.list .parameter)) (closing : Mark .closeParen) (hp : ps.Bounded)
    (h : Begins .block r) :
    Begins (.expr .primary)
      (word.token :: opening.token :: (ps.tokens ++ closing.token :: r)) := by
  obtain ⟨d, hb, hd⟩ := h
  refine ⟨function word opening ps closing d, ⟨hp, hb⟩, ?_⟩
  simp only [tokens, List.cons_prefix_cons, true_and, List.prefix_append_right_inj]
  exact hd

theorem first (hn : n.isItem = true) (h : Begins n r) : Begins (.list n) r := by
  obtain ⟨d, hb, hd⟩ := h
  exact ⟨items hn d noMore, ⟨hb, trivial⟩, hd.trans (List.prefix_append _ _)⟩

theorem items (hn : n.isItem = true) (item : Derivation n) (hi : item.Bounded)
    (h : Begins (.more n) r) : Begins (.list n) (item.tokens ++ r) := by
  obtain ⟨d, hb, hd⟩ := h
  refine ⟨Derivation.items hn item d, ⟨hi, hb⟩, ?_⟩
  rw [tokens, List.prefix_append_right_inj]
  exact hd

theorem item (hn : n.isItem = true) (comma : Mark .comma) (h : Begins n r) :
    Begins (.more n) (comma.token :: r) := by
  obtain ⟨d, hb, hd⟩ := h
  refine ⟨next hn comma d noMore, ⟨hb, trivial⟩, ?_⟩
  rw [tokens, List.cons_prefix_cons]
  exact ⟨rfl, hd.trans (List.prefix_append _ _)⟩

theorem next (hn : n.isItem = true) (comma : Mark .comma) (item : Derivation n)
    (hi : item.Bounded) (h : Begins (.more n) r) :
    Begins (.more n) (comma.token :: (item.tokens ++ r)) := by
  obtain ⟨d, hb, hd⟩ := h
  refine ⟨Derivation.next hn comma item d, ⟨hi, hb⟩, ?_⟩
  simp only [tokens, List.cons_prefix_cons, true_and, List.prefix_append_right_inj]
  exact hd

end Begins

end ExprLang
