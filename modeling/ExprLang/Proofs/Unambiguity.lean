import ExprLang.Proofs.DerivationEdges

/-!
The grammar is unambiguous: tokens have at most one derivation, whatever stands behind them, as long
as it makes the derivation no longer.
-/

namespace ExprLang

namespace Derivation

def Splits {n : Nonterminal} (d : Derivation n) : Prop :=
  ∀ (d' : Derivation n) (r r' : List Token), d.Bounded → d'.Bounded → d.Ahead r → d'.Ahead r' →
    d.tokens ++ r = d'.tokens ++ r' → d = d' ∧ r = r'

theorem tokens_append_ne {n : Nonterminal} {d d' : Derivation n} {r r' : List Token}
    (hs : ∀ k, n.starts k = true → ¬ n.Stops k) (hd : d.tokens ≠ []) (hd' : d'.tokens = [])
    (h : d'.Ahead r') : d.tokens ++ r ≠ d'.tokens ++ r' := by
  intro he
  have hn : n ≠ .clause := by
    rintro rfl
    exact hs .letWord rfl (by simp [Nonterminal.Stops])
  cases ht : d.tokens with
  | nil => exact hd ht
  | cons t us =>
    rw [ht, hd', List.cons_append, List.nil_append] at he
    subst he
    exact hs _ (d.starts_of_tokens_eq ht) ((d'.ahead_iff hn).mp h)

theorem splits_program {body : Derivation .statements} {finish : Mark .endOfInput}
    (hi : body.Splits) : (program body finish).Splits := by
  intro d' r r' hb hb' _ _ h
  cases d' with
  | program body' finish' =>
    simp only [tokens, List.append_assoc, List.cons_append, List.nil_append] at h
    obtain ⟨rfl, h₁⟩ := hi _ _ _ hb hb' (body.ahead_endOfInput _ _) (body'.ahead_endOfInput _ _) h
    obtain ⟨rfl, h₂⟩ := Leaf.cons_inj h₁
    exact ⟨rfl, h₂⟩

theorem splits_noStatements : noStatements.Splits := by
  intro d' r r' _ _ ha _ h
  cases d' with
  | noStatements => exact ⟨rfl, h⟩
  | statement first semicolon others =>
    refine absurd h.symm (tokens_append_ne Nonterminal.not_stops_statements ?_ rfl ha)
    have hf := first.tokens_ne_nil rfl
    cases semicolon <;> simp [tokens, hf]

theorem splits_statement {first : Derivation .clause} {semicolon : Option (Mark .semicolon)}
    {others : Derivation .statements} (hf : first.Splits) (ho : others.Splits) :
    (statement first semicolon others).Splits := by
  intro d' r r' hb hb' ha ha' h
  cases d' with
  | noStatements =>
    refine absurd h (tokens_append_ne Nonterminal.not_stops_statements ?_ rfl ha')
    have hn := first.tokens_ne_nil rfl
    cases semicolon <;> simp [tokens, hn]
  | statement first' semicolon' others' =>
    cases semicolon with
    | none =>
      cases semicolon' with
      | none =>
        simp only [tokens, List.append_assoc] at h
        obtain ⟨rfl, h₁⟩ := hf _ _ _ hb.1 hb'.1 (ahead_statements hb ha)
          (ahead_statements hb' ha') h
        obtain ⟨rfl, rfl⟩ := ho others' _ _ hb.2.1 hb'.2.1 ha ha' h₁
        exact ⟨rfl, rfl⟩
      | some m =>
        simp only [tokens, List.append_assoc, List.cons_append] at h
        obtain ⟨rfl, h₁⟩ := hf _ _ _ hb.1 hb'.1 (ahead_statements hb ha)
          (first'.ahead_semicolon _ _) h
        exact absurd m.kind_eq (others.statements_head_ne_semicolon ha h₁)
    | some m =>
      cases semicolon' with
      | none =>
        simp only [tokens, List.append_assoc, List.cons_append] at h
        obtain ⟨rfl, h₁⟩ := hf _ _ _ hb.1 hb'.1 (first.ahead_semicolon _ _)
          (ahead_statements hb' ha') h
        exact absurd m.kind_eq (others'.statements_head_ne_semicolon ha' h₁.symm)
      | some m' =>
        simp only [tokens, List.append_assoc, List.cons_append] at h
        obtain ⟨rfl, h₁⟩ := hf _ _ _ hb.1 hb'.1 (first.ahead_semicolon _ _)
          (first'.ahead_semicolon _ _) h
        obtain ⟨rfl, h₂⟩ := Leaf.cons_inj h₁
        obtain ⟨rfl, rfl⟩ := ho others' _ _ hb.2 hb'.2 ha ha' h₂
        exact ⟨rfl, rfl⟩

def clauseStarts : Derivation .clause → TokenKind → Bool
  | binding _ _ _ _, k => k = .letWord
  | bareReturn _, k | valueReturn _ _, k => k = .returnWord
  | blockClause _, k => k = .openBrace
  | exprClause _, k => k.startsExpr

theorem clauseStarts_of_append (d : Derivation .clause) {r ts : List Token} {t : Token}
    (h : d.tokens ++ r = t :: ts) : d.clauseStarts t.kind = true := by
  obtain ⟨us, hu, _⟩ := d.exists_tokens_eq rfl h
  cases d with
  | blockClause body => exact body.starts_of_tokens_eq hu
  | exprClause value => exact value.starts_of_tokens_eq hu
  | _ =>
    simp only [tokens, List.cons.injEq] at hu
    simp [clauseStarts, ← hu.1]

theorem clauseStarts_common {d d' : Derivation .clause} {r r' : List Token}
    (h : d.tokens ++ r = d'.tokens ++ r') :
    ∃ k, d.clauseStarts k = true ∧ d'.clauseStarts k = true := by
  cases ht : d.tokens ++ r with
  | nil => exact absurd (List.append_eq_nil_iff.mp ht).1 (d.tokens_ne_nil rfl)
  | cons t ts => exact ⟨t.kind, d.clauseStarts_of_append ht, d'.clauseStarts_of_append (h ▸ ht)⟩

theorem splits_binding {word : Mark .letWord} {bound : Mark .name} {assign : Mark .assign}
    {value : Derivation (.expr .loosest)} (hv : value.Splits) :
    (binding word bound assign value).Splits := by
  intro d' r r' hb hb' ha ha' h
  cases d' with
  | binding word' bound' assign' value' =>
    simp only [tokens, List.cons_append, List.cons.injEq] at h
    obtain ⟨hw, hn, hs, h⟩ := h
    obtain rfl := Leaf.ext hw
    obtain rfl := Leaf.ext hn
    obtain rfl := Leaf.ext hs
    obtain ⟨rfl, h₁⟩ := hv value' _ _ hb hb' (ahead_value ha fun _ hk => hk)
      (ahead_value ha' fun _ hk => hk) h
    exact ⟨rfl, h₁⟩
  | _ =>
    obtain ⟨k, hk, hk'⟩ := clauseStarts_common h
    simp_all [clauseStarts, TokenKind.startsExpr]

theorem not_endsReturn {v : Derivation (.expr .loosest)} {r ts : List Token}
    {word : Mark .returnWord} (h : v.tokens ++ r = ts) (ha : (bareReturn word).Ahead ts) : False := by
  cases hv : v.tokens with
  | nil => exact v.tokens_ne_nil rfl hv
  | cons t us =>
    have hs := v.starts_of_tokens_eq hv
    rw [hv, List.cons_append] at h
    subst h
    have he : t.kind.endsReturn = true := ha.2
    revert hs he
    cases t.kind <;> decide

theorem splits_bareReturn {word : Mark .returnWord} : (bareReturn word).Splits := by
  intro d' r r' _ _ ha _ h
  cases d' with
  | bareReturn word' =>
    obtain ⟨rfl, h₁⟩ := Leaf.cons_inj h
    exact ⟨rfl, h₁⟩
  | valueReturn word' value =>
    simp only [tokens, List.cons_append, List.nil_append, List.cons.injEq] at h
    exact (not_endsReturn h.2.symm ha).elim
  | _ =>
    obtain ⟨k, hk, hk'⟩ := clauseStarts_common h
    simp_all [clauseStarts, TokenKind.startsExpr]

theorem splits_valueReturn {word : Mark .returnWord} {value : Derivation (.expr .loosest)}
    (hv : value.Splits) : (valueReturn word value).Splits := by
  intro d' r r' hb hb' ha ha' h
  cases d' with
  | bareReturn word' =>
    simp only [tokens, List.cons_append, List.nil_append, List.cons.injEq] at h
    exact (not_endsReturn h.2 ha').elim
  | valueReturn word' value' =>
    simp only [tokens, List.cons_append, List.cons.injEq] at h
    obtain rfl := Leaf.ext h.1
    obtain ⟨rfl, h₁⟩ := hv value' _ _ hb hb' (ahead_value ha fun _ hk => hk)
      (ahead_value ha' fun _ hk => hk) h.2
    exact ⟨rfl, h₁⟩
  | _ =>
    obtain ⟨k, hk, hk'⟩ := clauseStarts_common h
    simp_all [clauseStarts, TokenKind.startsExpr]

theorem splits_blockClause {body : Derivation .block} (hi : body.Splits) :
    (blockClause body).Splits := by
  intro d' r r' hb hb' _ _ h
  cases d' with
  | blockClause body' =>
    obtain ⟨rfl, h₁⟩ := hi body' _ _ hb hb' (body.block_ahead _) (body'.block_ahead _) h
    exact ⟨rfl, h₁⟩
  | _ =>
    obtain ⟨k, hk, hk'⟩ := clauseStarts_common h
    simp_all [clauseStarts, TokenKind.startsExpr]

theorem splits_exprClause {value : Derivation (.expr .loosest)} (hv : value.Splits) :
    (exprClause value).Splits := by
  intro d' r r' hb hb' ha ha' h
  cases d' with
  | exprClause value' =>
    obtain ⟨rfl, h₁⟩ := hv value' _ _ hb hb' (ahead_value ha fun _ hk => hk)
      (ahead_value ha' fun _ hk => hk) h
    exact ⟨rfl, h₁⟩
  | _ =>
    obtain ⟨k, hk, hk'⟩ := clauseStarts_common h
    simp_all [clauseStarts, TokenKind.startsExpr]

theorem splits_block {opening : Mark .openBrace} {body : Derivation .statements}
    {closing : Mark .closeBrace} (hi : body.Splits) : (block opening body closing).Splits := by
  intro d' r r' hb hb' _ _ h
  cases d' with
  | block opening' body' closing' =>
    simp only [tokens, List.append_assoc, List.cons_append, List.nil_append, List.cons.injEq] at h
    obtain ⟨rfl, h₁⟩ := hi _ _ _ hb hb' (body.ahead_closeBrace _ _) (body'.ahead_closeBrace _ _) h.2
    obtain ⟨hc, h₂⟩ := List.cons.inj h₁
    obtain rfl := Leaf.ext h.1
    obtain rfl := Leaf.ext hc
    exact ⟨rfl, h₂⟩

theorem splits_chain {l : Layer} {first : Derivation (.expr l.operand)}
    {others : Derivation (.operations l)} (hf : first.Splits) (ho : others.Splits) :
    (chain first others).Splits := by
  intro d' r r' hb hb' ha ha' h
  cases d' with
  | chain first' others' =>
    simp only [tokens, List.append_assoc] at h
    obtain ⟨rfl, h₁⟩ := hf _ _ _ hb.1 hb'.1 (ahead_operations _ ha) (ahead_operations _ ha') h
    obtain ⟨rfl, h₂⟩ := ho others' _ _ hb.2 hb'.2 ha ha' h₁
    exact ⟨rfl, h₂⟩

theorem splits_noOperations {l : Layer} : (noOperations (l := l)).Splits := by
  intro d' r r' _ _ ha _ h
  cases d' with
  | noOperations => exact ⟨rfl, h⟩
  | operation op right others =>
    have hs := Nonterminal.not_stops_operations l
    exact absurd h.symm (tokens_append_ne hs (by simp [tokens]) rfl ha)

theorem splits_operation {l : Layer} {op : Leaf l.has} {right : Derivation (.expr l.operand)}
    {others : Derivation (.operations l)} (hr : right.Splits) (ho : others.Splits) :
    (operation op right others).Splits := by
  intro d' r r' hb hb' ha ha' h
  cases d' with
  | noOperations =>
    have hs := Nonterminal.not_stops_operations l
    exact absurd h (tokens_append_ne hs (by simp [tokens]) rfl ha')
  | operation op' right' others' =>
    simp only [tokens, List.append_assoc, List.cons_append, List.cons.injEq] at h
    obtain rfl := Leaf.ext h.1
    obtain ⟨rfl, h₁⟩ := hr _ _ _ hb.1 hb'.1 (ahead_operations others ha)
      (ahead_operations others' ha') h.2
    obtain ⟨rfl, h₂⟩ := ho others' _ _ hb.2 hb'.2 ha ha' h₁
    exact ⟨rfl, h₂⟩

theorem splits_signed {sign : Leaf TokenKind.isSign} {operand : Derivation (.expr .unary)}
    (ho : operand.Splits) : (signed sign operand).Splits := by
  intro d' r r' hb hb' ha ha' h
  cases d' with
  | signed sign' operand' =>
    simp only [tokens, List.cons_append, List.cons.injEq] at h
    obtain rfl := Leaf.ext h.1
    obtain ⟨rfl, h₁⟩ := ho operand' _ _ hb hb' ha ha' h.2
    exact ⟨rfl, h₁⟩
  | unsigned value =>
    obtain ⟨us, hu, _⟩ := value.exists_tokens_eq rfl h.symm
    have hk := value.starts_of_tokens_eq hu
    simp [Nonterminal.starts, Grade.starts, sign.accepted] at hk

theorem splits_unsigned {value : Derivation (.expr .called)} (hv : value.Splits) :
    (unsigned value).Splits := by
  intro d' r r' hb hb' ha ha' h
  cases d' with
  | signed sign operand =>
    obtain ⟨us, hu, _⟩ := value.exists_tokens_eq rfl h
    have hk := value.starts_of_tokens_eq hu
    simp [Nonterminal.starts, Grade.starts, sign.accepted] at hk
  | unsigned value' =>
    obtain ⟨rfl, h₁⟩ := hv value' _ _ hb hb' (ahead_unsigned ha) (ahead_unsigned ha') h
    exact ⟨rfl, h₁⟩

theorem splits_called {callee : Derivation (.expr .primary)} {others : Derivation .calls}
    (hc : callee.Splits) (ho : others.Splits) : (called callee others).Splits := by
  intro d' r r' hb hb' ha ha' h
  cases d' with
  | called callee' others' =>
    simp only [tokens, List.append_assoc] at h
    obtain ⟨rfl, h₁⟩ := hc _ _ _ hb.1 hb'.1 (ahead_calls ha) (ahead_calls ha') h
    obtain ⟨rfl, h₂⟩ := ho others' _ _ hb.2 hb'.2 ha ha' h₁
    exact ⟨rfl, h₂⟩

theorem splits_noCalls : noCalls.Splits := by
  intro d' r r' _ _ ha _ h
  cases d' with
  | noCalls => exact ⟨rfl, h⟩
  | call opening arguments closing others =>
    have hs := Nonterminal.not_stops_calls
    exact absurd h.symm (tokens_append_ne hs (by simp [tokens]) rfl ha)

theorem splits_call {opening : Mark .openParen} {arguments : Derivation (.list (.expr .loosest))}
    {closing : Mark .closeParen} {others : Derivation .calls} (hi : arguments.Splits)
    (ho : others.Splits) : (call opening arguments closing others).Splits := by
  intro d' r r' hb hb' ha ha' h
  cases d' with
  | noCalls =>
    have hs := Nonterminal.not_stops_calls
    exact absurd h (tokens_append_ne hs (by simp [tokens]) rfl ha')
  | call opening' arguments' closing' others' =>
    simp only [tokens, List.append_assoc, List.cons_append, List.cons.injEq] at h
    obtain rfl := Leaf.ext h.1
    obtain ⟨rfl, h₁⟩ := hi _ _ _ hb.1 hb'.1 (arguments.list_ahead_closeParen _ _)
      (arguments'.list_ahead_closeParen _ _) h.2
    obtain ⟨rfl, h₂⟩ := Leaf.cons_inj h₁
    obtain ⟨rfl, h₃⟩ := ho others' _ _ hb.2 hb'.2 ha ha' h₂
    exact ⟨rfl, h₃⟩

def primaryStarts : Derivation (.expr .primary) → TokenKind → Bool
  | name _, k => k = .name
  | number _, k => k = .number
  | truth _, k => k.isTruth
  | group _ _ _, k => k = .openParen
  | conditional _ _ _ _ _ _, k => k = .ifWord
  | function _ _ _ _ _, k => k = .fnWord

theorem primaryStarts_of_append (d : Derivation (.expr .primary)) {r ts : List Token} {t : Token}
    (h : d.tokens ++ r = t :: ts) : d.primaryStarts t.kind = true := by
  obtain ⟨us, hu, _⟩ := d.exists_tokens_eq rfl h
  cases d with
  | truth leaf => exact (List.cons.inj hu).1 ▸ leaf.accepted
  | _ =>
    simp only [tokens, List.cons.injEq] at hu
    simp [primaryStarts, ← hu.1]

theorem primaryStarts_common {d d' : Derivation (.expr .primary)} {r r' : List Token}
    (h : d.tokens ++ r = d'.tokens ++ r') :
    ∃ k, d.primaryStarts k = true ∧ d'.primaryStarts k = true := by
  cases ht : d.tokens ++ r with
  | nil => exact absurd (List.append_eq_nil_iff.mp ht).1 (d.tokens_ne_nil rfl)
  | cons t ts => exact ⟨t.kind, d.primaryStarts_of_append ht, d'.primaryStarts_of_append (h ▸ ht)⟩

theorem splits_name {leaf : Mark .name} : (name leaf).Splits := by
  intro d' r r' _ _ _ _ h
  cases d' with
  | name leaf' =>
    obtain ⟨rfl, h₁⟩ := Leaf.cons_inj h
    exact ⟨rfl, h₁⟩
  | _ =>
    obtain ⟨k, hk, hk'⟩ := primaryStarts_common h
    simp_all [primaryStarts, TokenKind.isTruth]

theorem splits_number {leaf : Mark .number} : (number leaf).Splits := by
  intro d' r r' _ _ _ _ h
  cases d' with
  | number leaf' =>
    obtain ⟨rfl, h₁⟩ := Leaf.cons_inj h
    exact ⟨rfl, h₁⟩
  | _ =>
    obtain ⟨k, hk, hk'⟩ := primaryStarts_common h
    simp_all [primaryStarts, TokenKind.isTruth]

theorem splits_truth {leaf : Leaf TokenKind.isTruth} : (truth leaf).Splits := by
  intro d' r r' _ _ _ _ h
  cases d' with
  | truth leaf' =>
    obtain ⟨rfl, h₁⟩ := Leaf.cons_inj h
    exact ⟨rfl, h₁⟩
  | _ =>
    obtain ⟨k, hk, hk'⟩ := primaryStarts_common h
    simp_all [primaryStarts, TokenKind.isTruth]

theorem splits_group {opening : Mark .openParen} {value : Derivation (.expr .loosest)}
    {closing : Mark .closeParen} (hv : value.Splits) : (group opening value closing).Splits := by
  intro d' r r' hb hb' _ _ h
  cases d' with
  | group opening' value' closing' =>
    simp only [tokens, List.append_assoc, List.cons_append, List.nil_append, List.cons.injEq] at h
    obtain rfl := Leaf.ext h.1
    obtain ⟨rfl, h₁⟩ := hv _ _ _ hb hb' (value.ahead_closeParen _ _)
      (value'.ahead_closeParen _ _) h.2
    obtain ⟨rfl, h₂⟩ := Leaf.cons_inj h₁
    exact ⟨rfl, h₂⟩
  | _ =>
    obtain ⟨k, hk, hk'⟩ := primaryStarts_common h
    simp_all [primaryStarts, TokenKind.isTruth]

theorem splits_conditional {word : Mark .ifWord} {opening : Mark .openParen}
    {condition : Derivation (.expr .loosest)} {closing : Mark .closeParen}
    {consequence : Derivation .block} {other : Derivation .alternative} (hc : condition.Splits)
    (ht : consequence.Splits) (ho : other.Splits) :
    (conditional word opening condition closing consequence other).Splits := by
  intro d' r r' hb hb' ha ha' h
  cases d' with
  | conditional word' opening' condition' closing' consequence' other' =>
    simp only [tokens, List.append_assoc, List.cons_append, List.cons.injEq] at h
    obtain ⟨hw, hp, h⟩ := h
    obtain rfl := Leaf.ext hw
    obtain rfl := Leaf.ext hp
    obtain ⟨rfl, h₁⟩ := hc _ _ _ hb.1 hb'.1 (condition.ahead_closeParen _ _)
      (condition'.ahead_closeParen _ _) h
    obtain ⟨rfl, h₂⟩ := Leaf.cons_inj h₁
    obtain ⟨rfl, h₃⟩ := ht _ _ _ hb.2.1 hb'.2.1 (consequence.block_ahead _)
      (consequence'.block_ahead _) h₂
    obtain ⟨rfl, h₄⟩ := ho other' _ _ hb.2.2 hb'.2.2 (ahead_other ha) (ahead_other ha') h₃
    exact ⟨rfl, h₄⟩
  | _ =>
    obtain ⟨k, hk, hk'⟩ := primaryStarts_common h
    simp_all [primaryStarts, TokenKind.isTruth]

theorem splits_function {word : Mark .fnWord} {opening : Mark .openParen}
    {parameters : Derivation (.list .parameter)} {closing : Mark .closeParen}
    {body : Derivation .block} (hp : parameters.Splits) (hi : body.Splits) :
    (function word opening parameters closing body).Splits := by
  intro d' r r' hb hb' ha ha' h
  cases d' with
  | function word' opening' parameters' closing' body' =>
    simp only [tokens, List.append_assoc, List.cons_append, List.cons.injEq] at h
    obtain ⟨hw, ho, h⟩ := h
    obtain rfl := Leaf.ext hw
    obtain rfl := Leaf.ext ho
    obtain ⟨rfl, h₁⟩ := hp _ _ _ hb.1 hb'.1 (parameters.list_ahead_closeParen _ _)
      (parameters'.list_ahead_closeParen _ _) h
    obtain ⟨rfl, h₂⟩ := Leaf.cons_inj h₁
    obtain ⟨rfl, h₃⟩ := hi _ _ _ hb.2 hb'.2 (body.block_ahead _) (body'.block_ahead _) h₂
    exact ⟨rfl, h₃⟩
  | _ =>
    obtain ⟨k, hk, hk'⟩ := primaryStarts_common h
    simp_all [primaryStarts, TokenKind.isTruth]

theorem splits_noAlternative : noAlternative.Splits := by
  intro d' r r' _ _ ha _ h
  cases d' with
  | noAlternative => exact ⟨rfl, h⟩
  | alternative word body =>
    have hs := Nonterminal.not_stops_alternative
    exact absurd h.symm (tokens_append_ne hs (by simp [tokens]) rfl ha)

theorem splits_alternative {word : Mark .elseWord} {body : Derivation .block} (hi : body.Splits) :
    (alternative word body).Splits := by
  intro d' r r' hb hb' _ ha' h
  cases d' with
  | noAlternative =>
    have hs := Nonterminal.not_stops_alternative
    exact absurd h (tokens_append_ne hs (by simp [tokens]) rfl ha')
  | alternative word' body' =>
    simp only [tokens, List.cons_append, List.cons.injEq] at h
    obtain rfl := Leaf.ext h.1
    obtain ⟨rfl, h₁⟩ := hi _ _ _ hb hb' (body.block_ahead _) (body'.block_ahead _) h.2
    exact ⟨rfl, h₁⟩

theorem splits_parameter {leaf : Mark .name} : (parameter leaf).Splits := by
  intro d' r r' _ _ _ _ h
  cases d' with
  | parameter leaf' =>
    obtain ⟨rfl, h₁⟩ := Leaf.cons_inj h
    exact ⟨rfl, h₁⟩

theorem splits_noItems {n : Nonterminal} : (noItems (n := n)).Splits := by
  intro d' r r' _ _ ha _ h
  cases d' with
  | noItems => exact ⟨rfl, h⟩
  | items hn first others =>
    have hf := first.tokens_ne_nil (Nonterminal.solid_of_isItem hn)
    have hs := Nonterminal.not_stops_list hn
    exact absurd h.symm (tokens_append_ne hs (by simp [tokens, hf]) rfl ha)

theorem splits_items {n : Nonterminal} {hn : n.isItem = true} {first : Derivation n}
    {others : Derivation (.more n)} (hf : first.Splits) (ho : others.Splits) :
    (items hn first others).Splits := by
  intro d' r r' hb hb' ha ha' h
  cases d' with
  | noItems =>
    have hf := first.tokens_ne_nil (Nonterminal.solid_of_isItem hn)
    have hs := Nonterminal.not_stops_list hn
    exact absurd h (tokens_append_ne hs (by simp [tokens, hf]) rfl ha')
  | items _ first' others' =>
    simp only [tokens, List.append_assoc] at h
    obtain ⟨rfl, h₁⟩ := hf _ _ _ hb.1 hb'.1 (ahead_more hn _ ha) (ahead_more hn _ ha') h
    obtain ⟨rfl, h₂⟩ := ho others' _ _ hb.2 hb'.2 ha ha' h₁
    exact ⟨rfl, h₂⟩

theorem splits_noMore {n : Nonterminal} : (noMore (n := n)).Splits := by
  intro d' r r' _ _ ha _ h
  cases d' with
  | noMore => exact ⟨rfl, h⟩
  | next hn comma item others =>
    have hs := Nonterminal.not_stops_more n
    exact absurd h.symm (tokens_append_ne hs (by simp [tokens]) rfl ha)

theorem splits_next {n : Nonterminal} {hn : n.isItem = true} {comma : Mark .comma}
    {item : Derivation n} {others : Derivation (.more n)} (hi : item.Splits) (ho : others.Splits) :
    (next hn comma item others).Splits := by
  intro d' r r' hb hb' ha ha' h
  cases d' with
  | noMore =>
    have hs := Nonterminal.not_stops_more n
    exact absurd h (tokens_append_ne hs (by simp [tokens]) rfl ha')
  | next _ comma' item' others' =>
    simp only [tokens, List.append_assoc, List.cons_append, List.cons.injEq] at h
    obtain rfl := Leaf.ext h.1
    obtain ⟨rfl, h₁⟩ := hi _ _ _ hb.1 hb'.1 (ahead_more hn others ha)
      (ahead_more hn others' ha') h.2
    obtain ⟨rfl, h₂⟩ := ho others' _ _ hb.2 hb'.2 ha ha' h₁
    exact ⟨rfl, h₂⟩

theorem splits {n : Nonterminal} (d : Derivation n) : d.Splits := by
  induction d with
  | program _ _ hi => exact splits_program hi
  | noStatements => exact splits_noStatements
  | statement _ _ _ hf ho => exact splits_statement hf ho
  | binding _ _ _ _ hv => exact splits_binding hv
  | bareReturn => exact splits_bareReturn
  | valueReturn _ _ hv => exact splits_valueReturn hv
  | blockClause _ hi => exact splits_blockClause hi
  | exprClause _ hv => exact splits_exprClause hv
  | block _ _ _ hi => exact splits_block hi
  | chain _ _ hf ho => exact splits_chain hf ho
  | noOperations => exact splits_noOperations
  | operation _ _ _ hr ho => exact splits_operation hr ho
  | signed _ _ ho => exact splits_signed ho
  | unsigned _ hv => exact splits_unsigned hv
  | called _ _ hc ho => exact splits_called hc ho
  | noCalls => exact splits_noCalls
  | call _ _ _ _ hi ho => exact splits_call hi ho
  | name => exact splits_name
  | number => exact splits_number
  | truth => exact splits_truth
  | group _ _ _ hv => exact splits_group hv
  | conditional _ _ _ _ _ _ hc ht ho => exact splits_conditional hc ht ho
  | function _ _ _ _ _ hp hi => exact splits_function hp hi
  | noAlternative => exact splits_noAlternative
  | alternative _ _ hi => exact splits_alternative hi
  | parameter => exact splits_parameter
  | noItems => exact splits_noItems
  | items _ _ _ hf ho => exact splits_items hf ho
  | noMore => exact splits_noMore
  | next _ _ _ _ hi ho => exact splits_next hi ho

/-- Tokens have at most one derivation that obeys the boundary rule. -/
theorem eq_of_tokens_eq {n : Nonterminal} {d d' : Derivation n} (hb : d.Bounded)
    (hb' : d'.Bounded) (h : d.tokens = d'.tokens) : d = d' :=
  (d.splits d' [] [] hb hb' trivial trivial (by rw [h])).1

end Derivation

end ExprLang
