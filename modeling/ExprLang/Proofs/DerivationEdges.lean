import ExprLang.Proofs.Derivations

/-!
The edges of derivations: the kinds with which one starts, and the kinds behind one that do not make
it longer.
-/

namespace ExprLang

def Grade.starts : Grade → TokenKind → Bool
  | binary _, k | unary, k => k.startsExpr
  | called, k | primary, k => k.startsExpr && !k.isSign

theorem Grade.startsExpr_of_starts {g : Grade} {k : TokenKind} (h : g.starts k = true) :
    k.startsExpr = true := by
  cases g <;> simp_all [starts]

def Nonterminal.starts : Nonterminal → TokenKind → Bool
  | program, k => k.startsStmt || k = .endOfInput
  | statements, k | clause, k => k.startsStmt
  | block, k => k = .openBrace
  | expr g, k => g.starts k
  | operations l, k => l.has k
  | calls, k => k = .openParen
  | alternative, k => k = .elseWord
  | parameter, k => k = .name
  | list item, k => item.starts k
  | more _, k => k = .comma

def Nonterminal.solid : Nonterminal → Bool
  | program | clause | block | expr _ | parameter => true
  | statements | operations _ | calls | alternative | list _ | more _ => false

theorem Nonterminal.solid_of_isItem {n : Nonterminal} (h : n.isItem = true) : n.solid = true := by
  simp only [isItem, Bool.or_eq_true, decide_eq_true_eq] at h
  rcases h with rfl | rfl <;> rfl

theorem TokenKind.ne_of_accepts {accepts : TokenKind → Bool} {j k : TokenKind}
    (hj : accepts j = false) (hk : accepts k = true) : k ≠ j := by
  rintro rfl
  rw [hj] at hk
  cases hk

theorem TokenKind.startsStmt_of_startsExpr {k : TokenKind} (h : k.startsExpr = true) :
    k.startsStmt = true := by
  simp [startsStmt, h]

theorem TokenKind.startsExpr_of_isSign {k : TokenKind} (h : k.isSign = true) :
    k.startsExpr = true := by
  cases k <;> first | rfl | cases h

theorem Grade.starts_of_isTruth {k : TokenKind} (h : k.isTruth = true) :
    primary.starts k = true := by
  cases k <;> first | rfl | cases h

theorem isOperator_of_has {l : Layer} {op : TokenKind} (h : l.has op = true) :
    op.isOperator = true := by
  cases l <;> cases op <;> first | rfl | cases h

theorem isOperator_of_isSign {op : TokenKind} (h : op.isSign = true) : op.isOperator = true := by
  cases op <;> first | rfl | cases h

namespace Derivation

theorem tokens_ne_nil {n : Nonterminal} (d : Derivation n) (h : n.solid = true) :
    d.tokens ≠ [] := by
  induction d with
  | blockClause body ih => exact ih rfl
  | exprClause value ih => exact ih rfl
  | chain first others ih _ => simp [tokens, ih rfl]
  | unsigned value ih => exact ih rfl
  | called callee others ih _ => simp [tokens, ih rfl]
  | noStatements | statement | noOperations | noCalls | noAlternative | noItems | items | noMore =>
    cases h
  | _ => simp [tokens]

theorem exists_tokens_eq {n : Nonterminal} (d : Derivation n) (hn : n.solid = true)
    {more ts : List Token} {t : Token} (h : d.tokens ++ more = t :: ts) :
    ∃ us, d.tokens = t :: us ∧ us ++ more = ts := by
  cases hd : d.tokens with
  | nil => exact absurd hd (d.tokens_ne_nil hn)
  | cons u us =>
    obtain ⟨rfl, rfl⟩ := List.cons.inj (hd ▸ h)
    exact ⟨us, rfl, rfl⟩

theorem starts_of_tokens_eq {n : Nonterminal} (d : Derivation n) {t : Token} {ts : List Token}
    (h : d.tokens = t :: ts) : n.starts t.kind = true := by
  induction d generalizing ts with
  | program body finish ih =>
    cases hb : body.tokens with
    | nil =>
      simp only [tokens, hb, List.nil_append, List.cons.injEq] at h
      simp [Nonterminal.starts, ← h.1]
    | cons u us =>
      simp only [tokens, hb, List.cons_append, List.cons.injEq] at h
      have hu := ih (h.1 ▸ hb)
      simp only [Nonterminal.starts] at hu ⊢
      simp [hu]
  | statement first semicolon others ih _ =>
    cases semicolon with
    | none =>
      obtain ⟨us, hu, _⟩ := first.exists_tokens_eq rfl h
      exact ih hu
    | some semicolon =>
      obtain ⟨us, hu, _⟩ := first.exists_tokens_eq rfl h
      exact ih hu
  | blockClause body ih =>
    have hb := ih h
    simp only [Nonterminal.starts, decide_eq_true_eq] at hb
    simp [Nonterminal.starts, TokenKind.startsStmt, hb]
  | exprClause value ih => exact TokenKind.startsStmt_of_startsExpr (ih h)
  | chain first others ih _ =>
    obtain ⟨us, hu, _⟩ := first.exists_tokens_eq rfl h
    exact Grade.startsExpr_of_starts (ih hu)
  | operation op right others _ _ => exact (List.cons.inj h).1 ▸ op.accepted
  | signed sign operand _ =>
    exact (List.cons.inj h).1 ▸ TokenKind.startsExpr_of_isSign sign.accepted
  | unsigned value ih => exact Grade.startsExpr_of_starts (ih h)
  | called callee others ih _ =>
    obtain ⟨us, hu, _⟩ := callee.exists_tokens_eq rfl h
    exact ih hu
  | truth leaf => exact (List.cons.inj h).1 ▸ Grade.starts_of_isTruth leaf.accepted
  | items hn first others ih _ =>
    obtain ⟨us, hu, _⟩ := first.exists_tokens_eq (Nonterminal.solid_of_isItem hn) h
    exact ih hu
  | noStatements | noOperations | noCalls | noAlternative | noItems | noMore => cases h
  | _ =>
    simp only [tokens, List.cons.injEq] at h
    simp [← h.1, Nonterminal.starts, Grade.starts, TokenKind.startsStmt, TokenKind.startsExpr,
      TokenKind.isSign]

end Derivation

namespace Layer

def precedence : Layer → Precedence
  | equality => .equality
  | comparison => .comparison
  | sum => .sum
  | product => .product

theorem precedence_of_has {l : Layer} {k : TokenKind} (h : l.has k = true) :
    k.precedence = l.precedence := by
  cases l <;> cases k <;> first | rfl | cases h

end Layer

namespace Grade

/-- The least precedence of an operator at the top of an expression; a sign counts as unary. -/
def precedence : Grade → Precedence
  | binary l => l.precedence
  | unary => .unary
  | called | primary => .call

theorem precedence_lt_operand (l : Layer) :
    (binary l).precedence < l.operand.precedence := by
  cases l <;> decide

/-- Whether a kind behind an expression leaves the expression as it is. The kind `elseWord` goes on
with a conditional, and no expression stands before it otherwise. -/
def Stops (g : Grade) (k : TokenKind) : Prop :=
  k ≠ .elseWord ∧ (g = .primary ∨ k.precedence < g.precedence)

theorem Stops.operand {l : Layer} {k : TokenKind} (h : (binary l).Stops k) :
    l.operand.Stops k := by
  have hl := precedence_lt_operand l
  obtain ⟨he, hp | hp⟩ := h
  · cases hp
  · exact ⟨he, .inr (Nat.lt_trans hp hl)⟩

theorem Stops.called {k : TokenKind} (h : unary.Stops k) : called.Stops k := by
  obtain ⟨he, hp | hp⟩ := h
  · cases hp
  · exact ⟨he, .inr (Nat.lt_trans hp (by decide))⟩

theorem stops_of_has {l : Layer} {k : TokenKind} (h : l.has k = true) : l.operand.Stops k := by
  have hp := precedence_lt_operand l
  refine ⟨?_, .inr ?_⟩
  · rintro rfl
    cases l <;> cases h
  · rw [Layer.precedence_of_has h]
    exact hp

theorem loosest_stops_iff {k : TokenKind} :
    loosest.Stops k ↔ k ≠ .elseWord ∧ k.extendsExpr = false := by
  cases k <;> simp [Stops, TokenKind.extendsExpr, Layer.has] <;> decide

end Grade

/-- Where an expression is read whole: the grades that stand at the places of the grammar, each with
the power at which the parser reads there. -/
inductive Grade.ReadAt : Grade → Precedence → Prop where
  | loosest : ReadAt loosest .lowest
  | operand (l : Layer) : ReadAt l.operand l.precedence
  | unary : ReadAt unary .unary

namespace Grade

def floor : Grade → Precedence
  | binary .equality => .lowest
  | binary .comparison => .equality
  | binary .sum => .comparison
  | binary .product => .sum
  | unary | called | primary => .unary

theorem floor_lt_precedence (l : Layer) : (binary l).floor < l.precedence := by
  cases l <;> decide

theorem floor_le_operand (l : Layer) : (binary l).floor ≤ l.operand.floor := by
  cases l <;> decide

theorem ReadAt.le_floor {g : Grade} {power : Precedence} (h : g.ReadAt power) :
    power ≤ g.floor := by
  cases h with
  | loosest => decide
  | operand l => cases l <;> decide
  | unary => decide

theorem le_floor_of_lt {l : Layer} {power : Precedence} (h : power < l.precedence) :
    power ≤ (binary l).floor := by
  revert h
  cases l <;> cases power <;> decide

theorem ReadAt.ne_primary {g : Grade} {power : Precedence} (h : g.ReadAt power) :
    g ≠ .primary := by
  cases h with
  | operand l => cases l <;> decide
  | _ => decide

theorem ReadAt.le_unary {g : Grade} {power : Precedence} (h : g.ReadAt power) :
    power ≤ Precedence.unary := by
  cases h with
  | operand l => cases l <;> decide
  | _ => decide

theorem ReadAt.precedence_le_of_floor {f g : Grade} {power : Precedence} (h : g.ReadAt power)
    (hf : power ≤ f.floor) : g.precedence ≤ f.precedence := by
  revert hf
  cases h with
  | operand l => cases l <;> rcases f with ⟨_ | _⟩ | _ | _ | _ <;> decide
  | _ => rcases f with ⟨_ | _⟩ | _ | _ | _ <;> decide

theorem ReadAt.precedence_le {g : Grade} {power : Precedence} {k : TokenKind} (h : g.ReadAt power)
    (hk : g.Stops k) : k.precedence ≤ power := by
  obtain ⟨_, hp | hk⟩ := hk
  · exact absurd hp h.ne_primary
  · cases h with
    | loosest => exact Nat.le_of_lt_succ hk
    | operand l => cases l <;> exact Nat.le_of_lt_succ hk
    | unary => exact Nat.le_of_lt hk

end Grade

def Nonterminal.Stops : Nonterminal → TokenKind → Prop
  | expr g, k => g.Stops k
  | operations l, k => (Grade.binary l).Stops k
  | calls, k => Grade.called.Stops k
  | alternative, k => k ≠ .elseWord
  | list _, k | more _, k => k = .closeParen
  | statements, k => k = .closeBrace ∨ k = .endOfInput
  | clause, k => k ≠ .elseWord
  | program, _ | block, _ | parameter, _ => True

def Nonterminal.StopsAt (n : Nonterminal) : List Token → Prop
  | [] => True
  | t :: _ => n.Stops t.kind

theorem Nonterminal.stopsAt_append {n : Nonterminal} {xs ys : List Token}
    (hx : ∀ t us, xs = t :: us → n.Stops t.kind) (hy : xs = [] → n.StopsAt ys) :
    n.StopsAt (xs ++ ys) := by
  cases xs with
  | nil => exact hy rfl
  | cons t us => exact hx t us rfl

theorem Nonterminal.stops_of_isItem {n : Nonterminal} {k : TokenKind} (h : n.isItem = true)
    (hk : k = .comma ∨ k = .closeParen) : n.Stops k := by
  simp only [isItem, Bool.or_eq_true, decide_eq_true_eq] at h
  rcases h with rfl | rfl
  · apply Grade.loosest_stops_iff.mpr
    rcases hk with rfl | rfl <;> decide
  · trivial

namespace Nonterminal

theorem not_stops_statements (k : TokenKind) (h : statements.starts k = true) :
    ¬ statements.Stops k := by
  rintro (rfl | rfl) <;> cases h

theorem not_stops_operations (l : Layer) (k : TokenKind)
    (h : (operations l).starts k = true) : ¬ (operations l).Stops k := by
  rintro ⟨_, hp | hp⟩
  · cases hp
  · rw [Layer.precedence_of_has h] at hp
    exact Nat.lt_irrefl _ hp

theorem not_stops_calls (k : TokenKind) (h : calls.starts k = true) :
    ¬ calls.Stops k := by
  rw [of_decide_eq_true h]
  rintro ⟨_, hp | hp⟩
  · cases hp
  · exact Nat.lt_irrefl _ hp

theorem not_stops_alternative (k : TokenKind) (h : alternative.starts k = true) :
    ¬ alternative.Stops k :=
  fun hne => hne (of_decide_eq_true h)

theorem not_stops_list {n : Nonterminal} (hn : n.isItem = true) (k : TokenKind)
    (h : (list n).starts k = true) : ¬ (list n).Stops k := by
  rintro rfl
  simp only [isItem, Bool.or_eq_true, decide_eq_true_eq] at hn
  rcases hn with rfl | rfl <;> cases h

theorem not_stops_more (n : Nonterminal) (k : TokenKind)
    (h : (more n).starts k = true) : ¬ (more n).Stops k := by
  rintro rfl
  cases h

end Nonterminal

namespace Derivation

def Allows : {n : Nonterminal} → Derivation n → TokenKind → Prop
  | .clause, d, k => Nonterminal.clause.Stops k ∧ d.Before k
  | n, _, k => n.Stops k

def Ahead {n : Nonterminal} (d : Derivation n) : List Token → Prop
  | [] => True
  | t :: _ => d.Allows t.kind

theorem ahead_iff {n : Nonterminal} (d : Derivation n) {ts : List Token} (hn : n ≠ .clause) :
    d.Ahead ts ↔ n.StopsAt ts := by
  cases ts with
  | nil => rfl
  | cons t ts => cases n <;> first | rfl | exact absurd rfl hn

theorem ahead_operations {l : Layer} {first : Derivation (.expr l.operand)} {ts : List Token}
    (others : Derivation (.operations l)) (h : others.Ahead ts) :
    first.Ahead (others.tokens ++ ts) := by
  apply (first.ahead_iff (by simp)).mpr
  apply Nonterminal.stopsAt_append
  · intro t us ht
    exact Grade.stops_of_has (others.starts_of_tokens_eq ht)
  · intro _
    cases ts with
    | nil => trivial
    | cons t ts => exact Grade.Stops.operand h

theorem ahead_unsigned {value : Derivation (.expr .called)} {ts : List Token}
    (h : (unsigned value).Ahead ts) : value.Ahead ts := by
  cases ts with
  | nil => trivial
  | cons t ts => exact Grade.Stops.called h

theorem ahead_calls {callee : Derivation (.expr .primary)} {others : Derivation .calls}
    {ts : List Token} (h : others.Ahead ts) : callee.Ahead (others.tokens ++ ts) := by
  apply (callee.ahead_iff (by simp)).mpr
  apply Nonterminal.stopsAt_append
  · intro t us ht
    have hk := of_decide_eq_true (others.starts_of_tokens_eq ht)
    exact ⟨by simp [hk], .inl rfl⟩
  · intro _
    cases ts with
    | nil => trivial
    | cons t ts => exact ⟨h.1, .inl rfl⟩

theorem ahead_more {n : Nonterminal} (hn : n.isItem = true) {item : Derivation n}
    {ts : List Token} (others : Derivation (.more n)) (h : others.Ahead ts) :
    item.Ahead (others.tokens ++ ts) := by
  have hc : n ≠ .clause := by
    rintro rfl
    cases hn
  apply (item.ahead_iff hc).mpr
  apply Nonterminal.stopsAt_append
  · intro t us ht
    exact Nonterminal.stops_of_isItem hn (.inl (of_decide_eq_true (others.starts_of_tokens_eq ht)))
  · intro _
    cases ts with
    | nil => trivial
    | cons t ts => exact Nonterminal.stops_of_isItem hn (.inr h)

theorem ahead_other {d : Derivation (.expr .primary)} {other : Derivation .alternative}
    {ts : List Token} (h : d.Ahead ts) : other.Ahead ts := by
  cases ts with
  | nil => trivial
  | cons t ts => exact h.1

theorem block_ahead (d : Derivation .block) (ts : List Token) : d.Ahead ts := by
  cases ts <;> trivial

theorem ahead_closeBrace (d : Derivation .statements) (m : Mark .closeBrace) (ts : List Token) :
    d.Ahead (m.token :: ts) :=
  .inl m.kind_eq

theorem ahead_endOfInput (d : Derivation .statements) (m : Mark .endOfInput) (ts : List Token) :
    d.Ahead (m.token :: ts) :=
  .inr m.kind_eq

theorem ahead_closeParen (d : Derivation (.expr .loosest)) (m : Mark .closeParen)
    (ts : List Token) : d.Ahead (m.token :: ts) := by
  have hk : m.token.kind = .closeParen := m.kind_eq
  apply Grade.loosest_stops_iff.mpr
  rw [hk]
  decide

theorem list_ahead_closeParen {n : Nonterminal} (d : Derivation (.list n)) (m : Mark .closeParen)
    (ts : List Token) : d.Ahead (m.token :: ts) :=
  m.kind_eq

theorem before_semicolon (d : Derivation .clause) : d.Before .semicolon := by
  cases d <;> first | rfl | trivial

theorem before_closing (d : Derivation .clause) {k : TokenKind}
    (hk : Nonterminal.statements.Stops k) : d.Before k := by
  rcases hk with rfl | rfl <;> cases d <;> first | rfl | trivial

theorem ahead_value {c : Derivation .clause} {value : Derivation (.expr .loosest)}
    {ts : List Token} (h : c.Ahead ts) (hc : ∀ k, c.Before k → k.extendsExpr = false) :
    value.Ahead ts := by
  cases ts with
  | nil => trivial
  | cons t ts => exact Grade.loosest_stops_iff.mpr ⟨h.1, hc _ h.2⟩

theorem ahead_semicolon (d : Derivation .clause) (m : Mark .semicolon) (ts : List Token) :
    d.Ahead (m.token :: ts) := by
  have hk : m.token.kind = .semicolon := m.kind_eq
  simp only [Ahead, Allows, hk]
  have hs : TokenKind.semicolon ≠ .elseWord := by decide
  exact ⟨hs, d.before_semicolon⟩

theorem ahead_statements {first : Derivation .clause} {others : Derivation .statements}
    {ts : List Token} (hb : (statement first none others).Bounded) (h : others.Ahead ts) :
    first.Ahead (others.tokens ++ ts) := by
  cases ho : others.tokens with
  | nil =>
    cases ts with
    | nil => trivial
    | cons t ts =>
      have hs : Nonterminal.statements.Stops t.kind := h
      refine ⟨?_, first.before_closing hs⟩
      rcases hs with hs | hs <;> simp [Nonterminal.Stops, hs]
  | cons t us =>
    have hs := others.starts_of_tokens_eq ho
    have hf := (hb.2.2 t (by simp [ho])).2
    refine ⟨?_, hf⟩
    intro he
    rw [he] at hs
    cases hs

theorem statements_head_ne_semicolon (d : Derivation .statements) {ts us : List Token} {t : Token}
    (h : d.Ahead ts) (ht : d.tokens ++ ts = t :: us) : t.kind ≠ .semicolon := by
  intro hk
  cases hd : d.tokens with
  | nil =>
    rw [hd, List.nil_append] at ht
    subst ht
    have hs : Nonterminal.statements.Stops t.kind := h
    rcases hs with hs | hs <;> rw [hk] at hs <;> cases hs
  | cons u vs =>
    have hs := d.starts_of_tokens_eq hd
    rw [hd] at ht
    rw [(List.cons.inj ht).1, hk] at hs
    cases hs

end Derivation

end ExprLang
