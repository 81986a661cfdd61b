import ExprLang.Proofs.CompleteTrees

/-!
Grouping. An expression may stand in parentheses anywhere, as often as one likes, and must do so in
a few places only. Tokens that write a tree with all parentheses that it needs are read as that tree.
-/

namespace ExprLang

open ExprLang.Derivation

/-- Where an expression stands, as far as the parentheses around it depend on that. -/
inductive Place where
  | free | signed | callee | leftOf (l : Layer) | rightOf (l : Layer)

/-- The expressions that a place would pull apart if they stood there without parentheses. -/
inductive Place.NeedsParens : Place → Expr → Prop where
  | signed (op : TokenKind) (x : Expr) (y : Option Expr) : NeedsParens .signed (.binary op x y)
  | callee (op : TokenKind) (x : Expr) (y : Option Expr) : NeedsParens .callee (.binary op x y)
  | signedCallee (op : TokenKind) (x : Option Expr) : NeedsParens .callee (.unary op x)
  | leftOf {l m : Layer} {op : TokenKind} (x : Expr) (y : Option Expr) (hop : m.has op = true)
      (h : m.precedence < l.precedence) : NeedsParens (.leftOf l) (.binary op x y)
  | rightOf {l m : Layer} {op : TokenKind} (x : Expr) (y : Option Expr) (hop : m.has op = true)
      (h : m.precedence ≤ l.precedence) : NeedsParens (.rightOf l) (.binary op x y)

/-- Items with commas between them. -/
inductive Commas {α : Type} (item : α → List Token → Prop) : List α → List Token → Prop where
  | nil : Commas item [] []
  | single {a : α} {ts : List Token} (h : item a ts) : Commas item [a] ts
  | cons {a b : α} {as : List α} {ts us : List Token} (h : item a ts) (comma : Mark .comma)
      (hs : Commas item (b :: as) us) : Commas item (a :: b :: as) (ts ++ comma.token :: us)

/-- A name as a parameter. -/
inductive WritesName : Option String → List Token → Prop where
  | mk (leaf : Mark .name) : WritesName leaf.token.text? [leaf.token]

mutual
/-- The tokens of an expression without parentheses around all of it. -/
inductive Expr.Bare : Expr → List Token → Prop where
  | name (leaf : Mark .name) : Expr.Bare (.name leaf.token.text?) [leaf.token]
  | number (leaf : Mark .number) : Expr.Bare (.number leaf.token.number?) [leaf.token]
  | truth (leaf : Leaf TokenKind.isTruth) :
      Expr.Bare (.truth (leaf.token.kind = .trueWord)) [leaf.token]
  | unary {x : Expr} {ts : List Token} (sign : Leaf TokenKind.isSign)
      (hx : Expr.Grouped .signed x ts) :
      Expr.Bare (.unary sign.token.kind (some x)) (sign.token :: ts)
  | binary {l : Layer} {x y : Expr} {ts us : List Token} (op : Leaf l.has)
      (hx : Expr.Grouped (.leftOf l) x ts) (hy : Expr.Grouped (.rightOf l) y us) :
      Expr.Bare (.binary op.token.kind x (some y)) (ts ++ op.token :: us)
  | conditional {c : Expr} {b : List Stmt} {e : Option (List Stmt)} {ts us vs : List Token}
      (word : Mark .ifWord) (opening : Mark .openParen) (hc : Expr.Grouped .free c ts)
      (closing : Mark .closeParen) (hb : Stmt.GroupedBlock b us) (he : Stmt.GroupedElse e vs) :
      Expr.Bare (.conditional c b e)
        (word.token :: opening.token :: (ts ++ closing.token :: (us ++ vs)))
  | function {ps : List (Option String)} {b : List Stmt} {ts us : List Token}
      (word : Mark .fnWord) (opening : Mark .openParen) (hp : Commas WritesName ps ts)
      (closing : Mark .closeParen) (hb : Stmt.GroupedBlock b us) :
      Expr.Bare (.function ps b) (word.token :: opening.token :: (ts ++ closing.token :: us))
  | call {f : Expr} {as : List Expr} {ts us : List Token} (hf : Expr.Grouped .callee f ts)
      (opening : Mark .openParen) (ha : Commas (Expr.Grouped .free) as us)
      (closing : Mark .closeParen) :
      Expr.Bare (.call f as) (ts ++ opening.token :: (us ++ [closing.token]))

/-- The tokens of an expression at a place, with the parentheses that it needs there and others. -/
inductive Expr.Grouped : Place → Expr → List Token → Prop where
  | bare {place : Place} {e : Expr} {ts : List Token} (hn : ¬ place.NeedsParens e)
      (h : Expr.Bare e ts) : Expr.Grouped place e ts
  | parens {place : Place} {e : Expr} {ts : List Token} (opening : Mark .openParen)
      (h : Expr.Grouped .free e ts) (closing : Mark .closeParen) :
      Expr.Grouped place e (opening.token :: (ts ++ [closing.token]))

/-- The tokens of a statement. All but blocks end with a semicolon. -/
inductive Stmt.Grouped : Stmt → List Token → Prop where
  | binding {x : Expr} {ts : List Token} (word : Mark .letWord) (bound : Mark .name)
      (assign : Mark .assign) (hx : Expr.Grouped .free x ts) (semicolon : Mark .semicolon) :
      Stmt.Grouped (.binding bound.token.text? x)
        (word.token :: bound.token :: assign.token :: (ts ++ [semicolon.token]))
  | bareReturn (word : Mark .returnWord) (semicolon : Mark .semicolon) :
      Stmt.Grouped (.ret none) [word.token, semicolon.token]
  | valueReturn {x : Expr} {ts : List Token} (word : Mark .returnWord)
      (hx : Expr.Grouped .free x ts) (semicolon : Mark .semicolon) :
      Stmt.Grouped (.ret (some x)) (word.token :: (ts ++ [semicolon.token]))
  | expr {x : Expr} {ts : List Token} (hx : Expr.Grouped .free x ts)
      (semicolon : Mark .semicolon) : Stmt.Grouped (.expr x) (ts ++ [semicolon.token])
  | block {b : List Stmt} {ts : List Token} (hb : Stmt.GroupedBlock b ts) :
      Stmt.Grouped (.block b) ts
  | endedBlock {b : List Stmt} {ts : List Token} (hb : Stmt.GroupedBlock b ts)
      (semicolon : Mark .semicolon) : Stmt.Grouped (.block b) (ts ++ [semicolon.token])

inductive Stmt.GroupedBlock : List Stmt → List Token → Prop where
  | mk {ss : List Stmt} {ts : List Token} (opening : Mark .openBrace)
      (h : Stmt.GroupedList ss ts) (closing : Mark .closeBrace) :
      Stmt.GroupedBlock ss (opening.token :: (ts ++ [closing.token]))

inductive Stmt.GroupedElse : Option (List Stmt) → List Token → Prop where
  | absent : Stmt.GroupedElse none []
  | present {b : List Stmt} {ts : List Token} (word : Mark .elseWord)
      (hb : Stmt.GroupedBlock b ts) : Stmt.GroupedElse (some b) (word.token :: ts)

inductive Stmt.GroupedList : List Stmt → List Token → Prop where
  | nil : Stmt.GroupedList [] []
  | cons {s : Stmt} {ss : List Stmt} {ts us : List Token} (h : Stmt.Grouped s ts)
      (hs : Stmt.GroupedList ss us) : Stmt.GroupedList (s :: ss) (ts ++ us)
end

/-- Tokens that some derivation of a tree has. -/
def Nonterminal.Derives (n : Nonterminal) (tree : n.Tree) (ts : List Token) : Prop :=
  ∃ d : Derivation n, d.Bounded ∧ d.tree = tree ∧ d.tokens = ts

theorem Grade.Loosens.derives {g h : Grade} (hl : g.Loosens h) {e : Expr} {ts : List Token}
    (he : (Nonterminal.expr g).Derives e ts) : (Nonterminal.expr h).Derives e ts := by
  obtain ⟨d, hb, ht, hts⟩ := he
  obtain ⟨d', ha⟩ := hl d
  exact ⟨d', ha.bounded hb, ha.tree_eq.trans ht, ha.tokens_eq.trans hts⟩

namespace Place

/-- What the grammar derives at a place. -/
def grade : Place → Grade
  | free => .loosest
  | signed => .unary
  | callee => .called
  | leftOf l => .binary l
  | rightOf l => l.operand

theorem grade_ne_primary (place : Place) : place.grade ≠ .primary := by
  cases place with
  | rightOf l => cases l <;> decide
  | _ => simp [grade]

theorem grade_precedence_le_call (place : Place) : place.grade.precedence ≤ Precedence.call := by
  cases place with
  | leftOf l | rightOf l => cases l <;> decide
  | _ => decide

theorem grade_le_unary {place : Place} {op : TokenKind} {x : Option Expr}
    (hn : ¬ place.NeedsParens (.unary op x)) :
    place.grade.precedence ≤ Grade.unary.precedence := by
  cases place with
  | callee => exact absurd (.signedCallee op x) hn
  | leftOf l | rightOf l => cases l <;> decide
  | _ => decide

theorem operand_precedence_le {l m : Layer} (h : l.precedence < m.precedence) :
    l.operand.precedence ≤ (Grade.binary m).precedence := by
  revert h
  cases l <;> cases m <;> decide

theorem grade_le_binary {place : Place} {l : Layer} {op : TokenKind} {x : Expr} {y : Option Expr}
    (hop : l.has op = true) (hn : ¬ place.NeedsParens (.binary op x y)) :
    place.grade.precedence ≤ (Grade.binary l).precedence := by
  cases place with
  | free => cases l <;> decide
  | signed => exact absurd (.signed op x y) hn
  | callee => exact absurd (.callee op x y) hn
  | leftOf m => exact Nat.le_of_not_lt fun hl => hn (.leftOf x y hop hl)
  | rightOf m => exact operand_precedence_le (Nat.lt_of_not_le fun hl => hn (.rightOf x y hop hl))

end Place

/-- An expression is derived at a grade that fits wherever it may stand without parentheses. -/
def Expr.Fits (e : Expr) (ts : List Token) : Prop :=
  ∃ g : Grade, (Nonterminal.expr g).Derives e ts ∧
    ∀ place : Place, ¬ place.NeedsParens e → place.grade.precedence ≤ g.precedence

section
variable {e : Expr} {ts us vs : List Token}

theorem derives_bare {place : Place} (hn : ¬ place.NeedsParens e) (h : e.Fits ts) :
    (Nonterminal.expr place.grade).Derives e ts := by
  obtain ⟨g, hd, hg⟩ := h
  exact (Grade.loosens_of_le place.grade_ne_primary (hg place hn)).derives hd

theorem derives_parens (place : Place) (opening : Mark .openParen)
    (h : (Nonterminal.expr .loosest).Derives e ts) (closing : Mark .closeParen) :
    (Nonterminal.expr place.grade).Derives e (opening.token :: (ts ++ [closing.token])) := by
  obtain ⟨d, hb, ht, rfl⟩ := h
  have hp : Grade.primary.Loosens place.grade :=
    Grade.loosens_of_le place.grade_ne_primary place.grade_precedence_le_call
  exact hp.derives ⟨group opening d closing, hb, ht, rfl⟩

theorem fits_primary (h : (Nonterminal.expr .primary).Derives e ts) : e.Fits ts :=
  ⟨.primary, h, fun place _ => place.grade_precedence_le_call⟩

theorem fits_unary {x : Expr} (sign : Leaf TokenKind.isSign)
    (hx : (Nonterminal.expr .unary).Derives x ts) :
    Expr.Fits (.unary sign.token.kind (some x)) (sign.token :: ts) := by
  obtain ⟨d, hb, rfl, rfl⟩ := hx
  exact ⟨.unary, ⟨signed sign d, hb, rfl, rfl⟩, fun _ hn => Place.grade_le_unary hn⟩

theorem fits_binary {l : Layer} {x y : Expr} (op : Leaf l.has)
    (hx : (Nonterminal.expr (.binary l)).Derives x ts)
    (hy : (Nonterminal.expr l.operand).Derives y us) :
    Expr.Fits (.binary op.token.kind x (some y)) (ts ++ op.token :: us) := by
  obtain ⟨dx, hbx, rfl, rfl⟩ := hx
  obtain ⟨dy, hby, rfl, rfl⟩ := hy
  obtain ⟨d, hb, hts, ht⟩ := exists_operation dx op dy hbx hby
  exact ⟨.binary l, ⟨d, hb, ht, hts⟩, fun _ hn => Place.grade_le_binary op.accepted hn⟩

theorem fits_call {f : Expr} {as : List Expr} (hf : (Nonterminal.expr .called).Derives f ts)
    (opening : Mark .openParen) (ha : (Nonterminal.list (.expr .loosest)).Derives as us)
    (closing : Mark .closeParen) :
    Expr.Fits (.call f as) (ts ++ opening.token :: (us ++ [closing.token])) := by
  obtain ⟨df, hbf, rfl, rfl⟩ := hf
  obtain ⟨da, hba, rfl, rfl⟩ := ha
  obtain ⟨d, hb, hts, ht⟩ := exists_call df opening da closing hbf hba
  exact ⟨.called, ⟨d, hb, ht, hts⟩, fun place _ => place.grade_precedence_le_call⟩

theorem fits_conditional {c : Expr} {b : List Stmt} {e : Option (List Stmt)}
    (word : Mark .ifWord) (opening : Mark .openParen)
    (hc : (Nonterminal.expr .loosest).Derives c ts) (closing : Mark .closeParen)
    (hb : Nonterminal.block.Derives b us) (he : Nonterminal.alternative.Derives e vs) :
    Expr.Fits (.conditional c b e)
      (word.token :: opening.token :: (ts ++ closing.token :: (us ++ vs))) := by
  obtain ⟨dc, hbc, rfl, rfl⟩ := hc
  obtain ⟨db, hbb, rfl, rfl⟩ := hb
  obtain ⟨de, hbe, rfl, rfl⟩ := he
  exact fits_primary ⟨conditional word opening dc closing db de, ⟨hbc, hbb, hbe⟩, rfl, rfl⟩

theorem fits_function {ps : List (Option String)} {b : List Stmt} (word : Mark .fnWord)
    (opening : Mark .openParen) (hp : (Nonterminal.list .parameter).Derives ps ts)
    (closing : Mark .closeParen) (hb : Nonterminal.block.Derives b us) :
    Expr.Fits (.function ps b)
      (word.token :: opening.token :: (ts ++ closing.token :: us)) := by
  obtain ⟨dp, hbp, rfl, rfl⟩ := hp
  obtain ⟨db, hbb, rfl, rfl⟩ := hb
  exact fits_primary ⟨function word opening dp closing db, ⟨hbp, hbb⟩, rfl, rfl⟩

end

theorem Commas.derives {n : Nonterminal} (hn : n.isItem = true) {xs : List n.Tree}
    {ts : List Token} (h : Commas n.Derives xs ts) : (Nonterminal.list n).Derives xs ts := by
  induction h with
  | nil => exact ⟨noItems, trivial, rfl, rfl⟩
  | single h =>
    obtain ⟨d, hb, rfl, rfl⟩ := h
    exact ⟨items hn d noMore, ⟨hb, trivial⟩, rfl, List.append_nil _⟩
  | cons h comma _ ih =>
    obtain ⟨d, hb, rfl, rfl⟩ := h
    obtain ⟨ds, hbs, hts, rfl⟩ := ih
    cases ds with
    | noItems => cases hts
    | items _ first others =>
      obtain ⟨rfl, rfl⟩ := List.cons.inj hts
      exact ⟨items hn d (next hn comma first others), ⟨hb, hbs⟩, rfl, rfl⟩

theorem Commas.mono {α : Type} {item item' : α → List Token → Prop}
    (hi : ∀ a ts, item a ts → item' a ts) {as : List α} {ts : List Token}
    (h : Commas item as ts) : Commas item' as ts := by
  induction h with
  | nil => exact .nil
  | single h => exact .single (hi _ _ h)
  | cons h comma _ ih => exact .cons (hi _ _ h) comma ih

theorem WritesName.derives {p : Option String} {ts : List Token} (h : WritesName p ts) :
    Nonterminal.parameter.Derives p ts := by
  obtain ⟨leaf⟩ := h
  exact ⟨parameter leaf, trivial, rfl, rfl⟩

def Stmt.Derives (s : Stmt) (ts : List Token) : Prop :=
  ∃ (d : Derivation .clause) (semicolon : Option (Mark .semicolon)), d.Bounded ∧ d.tree = s ∧
    (semicolon = none → ∀ kind, d.Before kind) ∧
    ts = d.tokens ++ (semicolon.map Leaf.token).toList

theorem derives_statements {s : Stmt} {ss : List Stmt} {ts us : List Token} (h : s.Derives ts)
    (hs : Nonterminal.statements.Derives ss us) :
    Nonterminal.statements.Derives (s :: ss) (ts ++ us) := by
  obtain ⟨d, semicolon, hb, rfl, hd, rfl⟩ := h
  obtain ⟨ds, hbs, rfl, rfl⟩ := hs
  exact ⟨statement d semicolon ds, bounded_statement hb hd hbs, rfl, tokens_statement d semicolon ds⟩

theorem Stmt.derives_ended {d : Derivation .clause} (hb : d.Bounded) (semicolon : Mark .semicolon)
    {ts : List Token} (hts : ts = d.tokens ++ [semicolon.token]) : Stmt.Derives d.tree ts :=
  ⟨d, some semicolon, hb, rfl, nofun, hts⟩

mutual
theorem Expr.Bare.fits : {e : Expr} → {ts : List Token} → Expr.Bare e ts → e.Fits ts
  | _, _, .name leaf => fits_primary ⟨Derivation.name leaf, trivial, rfl, rfl⟩
  | _, _, .number leaf => fits_primary ⟨Derivation.number leaf, trivial, rfl, rfl⟩
  | _, _, .truth leaf => fits_primary ⟨Derivation.truth leaf, trivial, rfl, rfl⟩
  | _, _, .unary sign hx => fits_unary sign hx.derives
  | _, _, .binary op hx hy => fits_binary op hx.derives hy.derives
  | _, _, .conditional word opening hc closing hb he =>
    fits_conditional word opening hc.derives closing hb.derives he.derives
  | _, _, .function word opening hp closing hb =>
    fits_function word opening ((hp.mono fun _ _ h => h.derives).derives rfl) closing hb.derives
  | _, _, .call hf opening ha closing =>
    fits_call hf.derives opening (Commas.derives rfl (Expr.commas_derive ha)) closing

theorem Expr.Grouped.derives : {place : Place} → {e : Expr} → {ts : List Token} →
    Expr.Grouped place e ts → (Nonterminal.expr place.grade).Derives e ts
  | _, _, _, .bare hn h => derives_bare hn h.fits
  | place, _, _, .parens opening h closing => derives_parens place opening h.derives closing

theorem Expr.commas_derive : {as : List Expr} → {ts : List Token} →
    Commas (Expr.Grouped .free) as ts → Commas (Nonterminal.expr .loosest).Derives as ts
  | _, _, .nil => .nil
  | _, _, .single h => .single h.derives
  | _, _, .cons h comma hs => .cons h.derives comma (Expr.commas_derive hs)

theorem Stmt.Grouped.derives : {s : Stmt} → {ts : List Token} → Stmt.Grouped s ts → s.Derives ts
  | _, _, .binding word bound assign hx semicolon => by
    obtain ⟨d, hb, rfl, rfl⟩ := hx.derives
    exact Stmt.derives_ended (d := Derivation.binding word bound assign d) hb semicolon rfl
  | _, _, .bareReturn word semicolon =>
    Stmt.derives_ended (d := Derivation.bareReturn word) trivial semicolon rfl
  | _, _, .valueReturn word hx semicolon => by
    obtain ⟨d, hb, rfl, rfl⟩ := hx.derives
    exact Stmt.derives_ended (d := Derivation.valueReturn word d) hb semicolon rfl
  | _, _, .expr hx semicolon => by
    obtain ⟨d, hb, rfl, rfl⟩ := hx.derives
    exact Stmt.derives_ended (d := Derivation.exprClause d) hb semicolon rfl
  | _, _, .block hb => by
    obtain ⟨d, hbd, rfl, rfl⟩ := hb.derives
    exact ⟨blockClause d, none, hbd, rfl, fun _ _ => trivial, (List.append_nil _).symm⟩
  | _, _, .endedBlock hb semicolon => by
    obtain ⟨d, hbd, rfl, rfl⟩ := hb.derives
    exact Stmt.derives_ended (d := blockClause d) hbd semicolon rfl

theorem Stmt.GroupedBlock.derives : {ss : List Stmt} → {ts : List Token} →
    Stmt.GroupedBlock ss ts → Nonterminal.block.Derives ss ts
  | _, _, .mk opening h closing => by
    obtain ⟨d, hb, rfl, rfl⟩ := h.derives
    exact ⟨Derivation.block opening d closing, hb, rfl, rfl⟩

theorem Stmt.GroupedElse.derives : {e : Option (List Stmt)} → {ts : List Token} →
    Stmt.GroupedElse e ts → Nonterminal.alternative.Derives e ts
  | _, _, .absent => ⟨noAlternative, trivial, rfl, rfl⟩
  | _, _, .present word hb => by
    obtain ⟨d, hbd, rfl, rfl⟩ := hb.derives
    exact ⟨Derivation.alternative word d, hbd, rfl, rfl⟩

theorem Stmt.GroupedList.derives : {ss : List Stmt} → {ts : List Token} →
    Stmt.GroupedList ss ts → Nonterminal.statements.Derives ss ts
  | _, _, .nil => ⟨noStatements, trivial, rfl, rfl⟩
  | _, _, .cons h hs => derives_statements h.derives hs.derives
end

/-- Any names and any integers. -/
def Lexicon.any : Lexicon :=
  { name := fun _ => True, number := fun _ => True }

theorem exists_grouped {e : Expr} (h : ∃ ts, Expr.Bare e ts) (place : Place) :
    ∃ ts, Expr.Grouped place e ts := by
  obtain ⟨ts, h⟩ := h
  by_cases hn : place.NeedsParens e
  · exact ⟨_, .parens (.sample .openParen) (.bare nofun h) (.sample .closeParen)⟩
  · exact ⟨ts, .bare hn h⟩

theorem exists_commas {α : Type} {item : α → List Token → Prop} {as : List α}
    (h : ∀ a ∈ as, ∃ ts, item a ts) : ∃ ts, Commas item as ts := by
  induction as with
  | nil => exact ⟨[], .nil⟩
  | cons a as ih =>
    obtain ⟨ts, ha⟩ := h a (by simp)
    obtain ⟨us, has⟩ := ih fun b hb => h b (by simp [hb])
    cases as with
    | nil => exact ⟨ts, .single ha⟩
    | cons b bs => exact ⟨_, .cons ha (.sample .comma) has⟩

theorem exists_groupedList {ss : List Stmt} (h : ∀ s ∈ ss, ∃ ts, Stmt.Grouped s ts) :
    ∃ ts, Stmt.GroupedList ss ts := by
  induction ss with
  | nil => exact ⟨[], .nil⟩
  | cons s ss ih =>
    obtain ⟨ts, hs⟩ := h s (by simp)
    obtain ⟨us, hss⟩ := ih fun s' hs' => h s' (by simp [hs'])
    exact ⟨ts ++ us, .cons hs hss⟩

theorem exists_groupedBlock {ss : List Stmt} (h : ∀ s ∈ ss, ∃ ts, Stmt.Grouped s ts) :
    ∃ ts, Stmt.GroupedBlock ss ts := by
  obtain ⟨ts, hss⟩ := exists_groupedList h
  exact ⟨_, .mk (.sample .openBrace) hss (.sample .closeBrace)⟩

theorem exists_groupedElse {e : Option (List Stmt)}
    (h : ∀ b ∈ e, ∀ s ∈ b, ∃ ts, Stmt.Grouped s ts) : ∃ ts, Stmt.GroupedElse e ts := by
  cases e with
  | none => exact ⟨[], .absent⟩
  | some b =>
    obtain ⟨ts, hb⟩ := exists_groupedBlock (h b rfl)
    exact ⟨_, .present (.sample .elseWord) hb⟩

theorem exists_bare_truth (b : Bool) : ∃ ts, Expr.Bare (.truth b) ts := by
  cases b with
  | true =>
    have hk : TokenKind.isTruth .trueWord = true := rfl
    exact ⟨_, .truth (.sample hk)⟩
  | false =>
    have hk : TokenKind.isTruth .falseWord = true := rfl
    exact ⟨_, .truth (.sample hk)⟩

theorem exists_bare_unary {op : TokenKind} (hop : op.isSign = true) {x : Expr}
    (hx : ∃ ts, Expr.Bare x ts) : ∃ ts, Expr.Bare (.unary op (some x)) ts := by
  obtain ⟨ts, hx⟩ := exists_grouped hx .signed
  have h := Expr.Bare.unary (.sample hop) hx
  rw [Leaf.sample_token, Token.sample_kind] at h
  exact ⟨_, h⟩

theorem exists_bare_binary {l : Layer} {op : TokenKind} (hop : l.has op = true) {x y : Expr}
    (hx : ∃ ts, Expr.Bare x ts) (hy : ∃ ts, Expr.Bare y ts) :
    ∃ ts, Expr.Bare (.binary op x (some y)) ts := by
  obtain ⟨ts, hx⟩ := exists_grouped hx (.leftOf l)
  obtain ⟨us, hy⟩ := exists_grouped hy (.rightOf l)
  have h := Expr.Bare.binary (.sample hop) hx hy
  rw [Leaf.sample_token, Token.sample_kind] at h
  exact ⟨_, h⟩

theorem exists_bare_conditional {c : Expr} {b : List Stmt} {e : Option (List Stmt)}
    (hc : ∃ ts, Expr.Bare c ts) (hb : ∀ s ∈ b, ∃ ts, Stmt.Grouped s ts)
    (he : ∀ b ∈ e, ∀ s ∈ b, ∃ ts, Stmt.Grouped s ts) :
    ∃ ts, Expr.Bare (.conditional c b e) ts := by
  obtain ⟨ts, hc⟩ := exists_grouped hc .free
  obtain ⟨us, hb⟩ := exists_groupedBlock hb
  obtain ⟨vs, he⟩ := exists_groupedElse he
  exact ⟨_, .conditional (.sample .ifWord) (.sample .openParen) hc (.sample .closeParen) hb he⟩

theorem exists_bare_function {ps : List (Option String)} {b : List Stmt}
    (hp : ∀ p ∈ ps, ∃ word, p = some word) (hb : ∀ s ∈ b, ∃ ts, Stmt.Grouped s ts) :
    ∃ ts, Expr.Bare (.function ps b) ts := by
  have hn : ∀ p ∈ ps, ∃ ts, WritesName p ts := by
    intro p hps
    obtain ⟨word, rfl⟩ := hp p hps
    exact ⟨_, .mk ⟨nameToken word, rfl⟩⟩
  obtain ⟨ts, hp⟩ := exists_commas hn
  obtain ⟨us, hb⟩ := exists_groupedBlock hb
  exact ⟨_, .function (.sample .fnWord) (.sample .openParen) hp (.sample .closeParen) hb⟩

theorem exists_bare_call {f : Expr} {as : List Expr} (hf : ∃ ts, Expr.Bare f ts)
    (ha : ∀ a ∈ as, ∃ ts, Expr.Bare a ts) : ∃ ts, Expr.Bare (.call f as) ts := by
  obtain ⟨ts, hf⟩ := exists_grouped hf .callee
  obtain ⟨us, ha⟩ := exists_commas fun a has => exists_grouped (ha a has) .free
  exact ⟨_, .call hf (.sample .openParen) ha (.sample .closeParen)⟩

section
variable {words : Lexicon}

mutual
theorem Expr.Complete.exists_bare : {e : Expr} → e.Complete words → ∃ ts, Expr.Bare e ts
  | .name (some word), .name _ => ⟨_, .name ⟨nameToken word, rfl⟩⟩
  | _, .number (n := n) _ => ⟨_, .number ⟨{ kind := .number, payload := .number n }, rfl⟩⟩
  | _, .truth b => exists_bare_truth b
  | _, .unary hop hx => exists_bare_unary hop hx.exists_bare
  | _, .binary hop hx hy => exists_bare_binary hop hx.exists_bare hy.exists_bare
  | _, .conditional hc hb he => exists_bare_conditional hc.exists_bare
      (fun s hs => (hb s hs).exists_grouped) fun b' hb' s hs => (he b' hb' s hs).exists_grouped
  | _, .function hp hb => exists_bare_function
      (fun p hps => (hp p hps).imp fun _ hw => hw.1) fun s hs => (hb s hs).exists_grouped
  | _, .call hf ha => exists_bare_call hf.exists_bare fun a has => (ha a has).exists_bare

theorem Stmt.Complete.exists_grouped : {s : Stmt} → s.Complete words → ∃ ts, Stmt.Grouped s ts
  | .binding (some word) _, .binding _ hx => by
    obtain ⟨ts, hx⟩ := ExprLang.exists_grouped hx.exists_bare .free
    exact ⟨_, .binding (.sample .letWord) ⟨nameToken word, rfl⟩ (.sample .assign) hx
      (.sample .semicolon)⟩
  | _, .bareReturn => ⟨_, .bareReturn (.sample .returnWord) (.sample .semicolon)⟩
  | _, .valueReturn hx => by
    obtain ⟨ts, hx⟩ := ExprLang.exists_grouped hx.exists_bare .free
    exact ⟨_, .valueReturn (.sample .returnWord) hx (.sample .semicolon)⟩
  | _, .expr hx => by
    obtain ⟨ts, hx⟩ := ExprLang.exists_grouped hx.exists_bare .free
    exact ⟨_, .expr hx (.sample .semicolon)⟩
  | _, .block hb => by
    obtain ⟨ts, hb⟩ := exists_groupedBlock fun s hs => (hb s hs).exists_grouped
    exact ⟨ts, .block hb⟩
end

end

open ExprLang.Parser in
/-- Every complete tree can be written with the parentheses that it needs. However many others are
added, the parser reads the tree back; only the bound on the levels can keep it from that. -/
theorem parse_grouped {program : Program} (h : ∀ s ∈ program, s.Complete .any) :
    (∃ ts, Stmt.GroupedList program ts) ∧
    ∀ (ts : List Token) (finish : Mark .endOfInput), Stmt.GroupedList program ts →
      (Program.ofTokens (ts ++ [finish.token]) = .ok program ∨
        Program.ofTokens (ts ++ [finish.token]) = .error (.problem .nestingTooDeepToParse)) ∧
      ∀ levels, ts.length < levels →
        ((programWithin levels).run (.ofTokens (ts ++ [finish.token]))).1 = .ok program := by
  refine ⟨exists_groupedList fun s hs => (h s hs).exists_grouped, ?_⟩
  intro ts finish hts
  obtain ⟨d, hb, rfl, rfl⟩ := hts.derives
  have hr (levels : Nat) := run_of_derivation levels (s := .ofTokens (d.tokens ++ [finish.token]))
    (Derivation.program d finish) hb rfl rfl
  constructor
  · exact (hr maxLevels).imp_right And.right
  · intro levels hl
    rcases hr levels with hok | ⟨hlt, _⟩
    · exact hok
    · simp only [tokens, List.length_append, List.length_cons, List.length_nil] at hlt
      omega

/-- In `-(1 + 2) * 3 - (((-f)(x)));` the sum and the called negation need their parentheses. -/
theorem parse_grouped_difference :
    let sum : Expr := .binary .plus (.number (some 1)) (some (.number (some 2)))
    let product : Expr := .binary .star (.unary .minus (some sum)) (some (.number (some 3)))
    let called : Expr := .call (.unary .minus (some (.name (some "f")))) [.name (some "x")]
    let program : Program := [.expr (.binary .minus product (some called))]
    let ts : List Token :=
      [.sample .minus, .sample .openParen, numeralToken 1, .sample .plus, numeralToken 2,
        .sample .closeParen, .sample .star, numeralToken 3, .sample .minus, .sample .openParen,
        .sample .openParen, .sample .openParen, .sample .minus, nameToken "f", .sample .closeParen,
        .sample .openParen, nameToken "x", .sample .closeParen, .sample .closeParen,
        .sample .closeParen, .sample .semicolon]
    (∀ s ∈ program, s.Complete .any) ∧ Stmt.GroupedList program ts ∧
      Program.ofTokens (ts ++ [.endOfInput]) = .ok program := by
  intro sum product called program ts
  have hplus : Layer.sum.has .plus = true := rfl
  have hminus : Layer.sum.has .minus = true := rfl
  have hstar : Layer.product.has .star = true := rfl
  have hsign : TokenKind.minus.isSign = true := rfl
  have hnumber (n : Nat) (place : Place) :
      Expr.Grouped place (.number (some n)) [numeralToken n] :=
    .bare nofun (.number ⟨numeralToken n, rfl⟩)
  have hname (word : String) (place : Place) (hn : ¬ place.NeedsParens (.name (some word))) :
      Expr.Grouped place (.name (some word)) [nameToken word] :=
    .bare hn (.name ⟨nameToken word, rfl⟩)
  have hc : ∀ s ∈ program, s.Complete .any := by
    intro s hs
    obtain rfl := List.mem_singleton.mp hs
    have hsum : sum.Complete .any := .binary hplus (.number trivial) (.number trivial)
    have hproduct : product.Complete .any := .binary hstar (.unary hsign hsum) (.number trivial)
    have hcalled : called.Complete .any := by
      apply Expr.Complete.call (.unary hsign (.name trivial))
      intro a ha
      obtain rfl := List.mem_singleton.mp ha
      exact .name trivial
    exact .expr (.binary hminus hproduct hcalled)
  have hsum : Expr.Grouped .signed sum _ :=
    .parens (.sample .openParen)
      (.bare nofun (.binary (.sample hplus) (hnumber 1 _) (hnumber 2 _))) (.sample .closeParen)
  have hbare : ¬ (Place.leftOf .sum).NeedsParens product := by
    intro hn
    unfold product at hn
    cases hn with
    | @leftOf _ m _ _ _ hop hm =>
      revert hop hm
      cases m <;> decide
  have hproduct : Expr.Grouped (.leftOf .sum) product _ :=
    .bare hbare
      (.binary (.sample hstar) (.bare nofun (.unary (.sample hsign) hsum)) (hnumber 3 _))
  have hcallee : Expr.Grouped .callee (.unary .minus (some (.name (some "f")))) _ :=
    .parens (.sample .openParen)
      (.bare nofun (.unary (.sample hsign) (hname "f" _ nofun))) (.sample .closeParen)
  have hcalled : Expr.Grouped .free called _ :=
    .bare nofun (.call hcallee (.sample .openParen) (.single (hname "x" _ nofun))
      (.sample .closeParen))
  have hts : Stmt.GroupedList program ts :=
    .cons (.expr (.bare nofun (.binary (.sample hminus) hproduct
      (.parens (.sample .openParen) (.parens (.sample .openParen) hcalled (.sample .closeParen))
        (.sample .closeParen)))) (.sample .semicolon)) .nil
  exact ⟨hc, hts, ((parse_grouped hc).2 ts ⟨.endOfInput, rfl⟩ hts).2 Parser.maxLevels (by decide)⟩

end ExprLang
