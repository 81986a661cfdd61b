import ExprLang.Tree.Render
import ExprLang.Proofs.WrittenTokens
import ExprLang.Proofs.ParserExactness

/-!
Rendered programs read back. The text of a well-formed tree spells the tokens of a derivation that
obeys the boundary rule and builds the tree, so the parser finds this derivation and no other.
-/

namespace ExprLang

open ExprLang.Derivation

mutual
inductive Expr.WellFormed : Expr → Prop where
  | name {word : String} (hw : IsName word) : Expr.WellFormed (.name (some word))
  | number {n : Int} (hl : 0 ≤ n) (hu : n ≤ maxInteger) : Expr.WellFormed (.number (some n))
  | truth (b : Bool) : Expr.WellFormed (.truth b)
  | unary {op : TokenKind} {x : Expr} (hop : op.isSign = true) (hx : Expr.WellFormed x) :
      Expr.WellFormed (.unary op (some x))
  | binary {op : TokenKind} {x y : Expr} {l : Layer} (hop : l.has op = true)
      (hx : Expr.WellFormed x) (hy : Expr.WellFormed y) : Expr.WellFormed (.binary op x (some y))
  | conditional {c : Expr} {b : List Stmt} {e : Option (List Stmt)} (hc : Expr.WellFormed c)
      (hb : ∀ s ∈ b, Stmt.WellFormed s) (he : ∀ b', e = some b' → ∀ s ∈ b', Stmt.WellFormed s) :
      Expr.WellFormed (.conditional c b e)
  | function {ps : List (Option String)} {b : List Stmt}
      (hp : ∀ p ∈ ps, ∃ word, p = some word ∧ IsName word) (hb : ∀ s ∈ b, Stmt.WellFormed s) :
      Expr.WellFormed (.function ps b)
  | call {f : Expr} {as : List Expr} (hf : Expr.WellFormed f) (ha : ∀ a ∈ as, Expr.WellFormed a) :
      Expr.WellFormed (.call f as)

inductive Stmt.WellFormed : Stmt → Prop where
  | binding {word : String} {x : Expr} (hw : IsName word) (hx : Expr.WellFormed x) :
      Stmt.WellFormed (.binding (some word) x)
  | bareReturn : Stmt.WellFormed (.ret none)
  | valueReturn {x : Expr} (hx : Expr.WellFormed x) : Stmt.WellFormed (.ret (some x))
  | expr {x : Expr} (hx : Expr.WellFormed x) : Stmt.WellFormed (.expr x)
  | block {b : List Stmt} (hb : ∀ s ∈ b, Stmt.WellFormed s) : Stmt.WellFormed (.block b)
end

mutual
/-- Trees that can be written: well-formed ones, of which operands may be missing. -/
inductive Expr.Writable : Expr → Prop where
  | name {word : String} (hw : IsName word) : Expr.Writable (.name (some word))
  | number {n : Int} (hl : 0 ≤ n) (hu : n ≤ maxInteger) : Expr.Writable (.number (some n))
  | truth (b : Bool) : Expr.Writable (.truth b)
  | unary {op : TokenKind} {x : Option Expr} (hop : op.isSign = true)
      (hx : ∀ e ∈ x, Expr.Writable e) : Expr.Writable (.unary op x)
  | binary {op : TokenKind} {x : Expr} {y : Option Expr} {l : Layer} (hop : l.has op = true)
      (hx : Expr.Writable x) (hy : ∀ e ∈ y, Expr.Writable e) : Expr.Writable (.binary op x y)
  | conditional {c : Expr} {b : List Stmt} {e : Option (List Stmt)} (hc : Expr.Writable c)
      (hb : ∀ s ∈ b, Stmt.Writable s) (he : ∀ b' ∈ e, ∀ s ∈ b', Stmt.Writable s) :
      Expr.Writable (.conditional c b e)
  | function {ps : List (Option String)} {b : List Stmt}
      (hp : ∀ p ∈ ps, ∃ word, p = some word ∧ IsName word) (hb : ∀ s ∈ b, Stmt.Writable s) :
      Expr.Writable (.function ps b)
  | call {f : Expr} {as : List Expr} (hf : Expr.Writable f) (ha : ∀ a ∈ as, Expr.Writable a) :
      Expr.Writable (.call f as)

inductive Stmt.Writable : Stmt → Prop where
  | binding {word : String} {x : Expr} (hw : IsName word) (hx : Expr.Writable x) :
      Stmt.Writable (.binding (some word) x)
  | bareReturn : Stmt.Writable (.ret none)
  | valueReturn {x : Expr} (hx : Expr.Writable x) : Stmt.Writable (.ret (some x))
  | expr {x : Expr} (hx : Expr.Writable x) : Stmt.Writable (.expr x)
  | block {b : List Stmt} (hb : ∀ s ∈ b, Stmt.Writable s) : Stmt.Writable (.block b)
end

mutual
theorem Expr.WellFormed.writable : {e : Expr} → e.WellFormed → e.Writable
  | _, .name hw => .name hw
  | _, .number hl hu => .number hl hu
  | _, .truth b => .truth b
  | _, .unary hop hx => .unary hop fun _ he => Option.some.inj he ▸ hx.writable
  | _, .binary hop hx hy => .binary hop hx.writable fun _ he => Option.some.inj he ▸ hy.writable
  | _, .conditional hc hb he => .conditional hc.writable (fun s hs => (hb s hs).writable)
      fun b' hb' s hs => (he b' hb' s hs).writable
  | _, .function hp hb => .function hp fun s hs => (hb s hs).writable
  | _, .call hf ha => .call hf.writable fun a has => (ha a has).writable

theorem Stmt.WellFormed.writable : {s : Stmt} → s.WellFormed → s.Writable
  | _, .binding hw hx => .binding hw hx.writable
  | _, .bareReturn => .bareReturn
  | _, .valueReturn hx => .valueReturn hx.writable
  | _, .expr hx => .expr hx.writable
  | _, .block hb => .block fun s hs => (hb s hs).writable
end

/-- A text that spells the tokens of a derivation of a tree. -/
def Nonterminal.Renders (n : Nonterminal) (tree : n.Tree) (text : String) : Prop :=
  ∃ d : Derivation n, d.Bounded ∧ d.tree = tree ∧ Written text d.tokens

abbrev Expr.Renders (e : Expr) : Prop :=
  (Nonterminal.expr .called).Renders e e.text

theorem Grade.Loosens.renders {g h : Grade} (hl : g.Loosens h) {e : Expr} {text : String}
    (he : (Nonterminal.expr g).Renders e text) : (Nonterminal.expr h).Renders e text := by
  obtain ⟨d, hb, ht, hw⟩ := he
  obtain ⟨d', ha⟩ := hl d
  exact ⟨d', ha.bounded hb, ha.tree_eq.trans ht, ha.tokens_eq ▸ hw⟩

theorem renders_loosest {e : Expr} (he : e.Renders) :
    (Nonterminal.expr .loosest).Renders e e.text :=
  (Grade.loosens_of_le (h := .loosest) (by decide) (by decide)).renders he

theorem renders_primary {e : Expr} {text : String}
    (he : (Nonterminal.expr .primary).Renders e text) :
    (Nonterminal.expr .called).Renders e text :=
  Grade.loosens_called.renders he

theorem renders_group {e : Expr} {text : String}
    (he : (Nonterminal.expr .loosest).Renders e text) :
    (Nonterminal.expr .called).Renders e ("(" ++ text ++ ")") := by
  obtain ⟨d, hb, ht, hw⟩ := he
  apply renders_primary
  refine ⟨group (.sample .openParen) d (.sample .closeParen), hb, ht, ?_⟩
  have h := ((sealed_openParen.before hw).seal sealed_closeParen (by decide)).written
  rwa [List.append_assoc] at h

theorem spelling_symbol {op : TokenKind} (h : op.isOperator = true) :
    op.spelling? = some op.symbol := by
  cases op <;> first | rfl | cases h

theorem sealed_operator {l : Layer} {op : TokenKind} (h : l.has op = true) :
    Sealed op.symbol [.sample op] := by
  apply sealed_mark (spelling_symbol (isOperator_of_has h))
  intro c
  cases op <;> first | rfl | (cases l <;> cases h)

def keepsSign (text : List Char) : Bool :=
  text.head?.any (· ≠ '=')

theorem written_sign {op : TokenKind} (hop : op.isSign = true) {text : String} {ts : List Token}
    (hw : Written text ts) (hne : keepsSign text.toList = true) :
    Written (op.symbol ++ text) (.sample op :: ts) := by
  intro rest us hr hs
  have hl := lexeme_sample (spelling_symbol (isOperator_of_isSign hop))
  rw [String.toList_append, List.append_assoc]
  refine .lexeme hl ?_ (hw rest us hr hs)
  -- A bang in front of an equality sign would be another token.
  intro c hc
  have hcne : c ≠ '=' := by
    cases ht : text.toList with
    | nil =>
      rw [ht] at hne
      cases hne
    | cons d ds =>
      rw [ht] at hne hc
      obtain rfl := Option.some.inj hc
      simpa [keepsSign] using hne
  cases op with
  | minus => rfl
  | bang => exact decide_eq_true hcne
  | _ => cases hop

theorem renders_unary {op : TokenKind} (hop : op.isSign = true) {x : Expr} (hx : x.Renders)
    (hne : keepsSign x.text.toList = true) : Expr.Renders (.unary op (some x)) := by
  obtain ⟨d, hb, rfl, hw⟩ := Grade.loosens_unary.renders hx
  have hu : (Nonterminal.expr .unary).Renders (.unary op (some d.tree))
      (op.symbol ++ Expr.text d.tree) := by
    refine ⟨signed (.sample hop) d, hb, ?_, written_sign hop hw hne⟩
    simp only [tree, Leaf.sample_token, Token.sample_kind]
  have he := (Grade.loosens_of_le (h := .loosest) (by decide) (by decide)).renders hu
  have hg := renders_group he
  simpa only [Expr.Renders, Expr.text, Expr.textOption, String.append_assoc] using hg

theorem Grade.loosens_operand (l : Layer) : called.Loosens l.operand := by
  apply Grade.loosens_of_le
  · cases l <;> decide
  · cases l <;> decide

theorem renders_binary {l : Layer} {op : TokenKind} (hop : l.has op = true) {x y : Expr}
    (hx : x.Renders) (hy : y.Renders) : Expr.Renders (.binary op x (some y)) := by
  have hl : Grade.called.Loosens (.binary l) :=
    (Grade.loosens_operand l).trans (Grade.operand_loosens l)
  obtain ⟨dx, hbx, rfl, hwx⟩ := hl.renders hx
  obtain ⟨dy, hby, rfl, hwy⟩ := (Grade.loosens_operand l).renders hy
  obtain ⟨d, hb, hts, htree⟩ := exists_operation dx (.sample hop) dy hbx hby
  have hw : Written (Expr.text dx.tree ++ " " ++ op.symbol ++ " " ++ Expr.text dy.tree)
      d.tokens := by
    have ho := ((hwx.seal sealed_blank (by decide)).append (sealed_operator hop)).append
      sealed_blank
    have h := ho.before hwy
    rw [hts]
    simpa using h
  have hd : (Nonterminal.expr (.binary l)).Renders (.binary op dx.tree (some dy.tree))
      (Expr.text dx.tree ++ " " ++ op.symbol ++ " " ++ Expr.text dy.tree) := by
    refine ⟨d, hb, ?_, hw⟩
    rw [htree, Leaf.sample_token, Token.sample_kind]
  have he := (Grade.loosens_of_le (h := .loosest) (by decide) (by cases l <;> decide)).renders hd
  have hg := renders_group he
  simpa only [Expr.Renders, Expr.text, Expr.textOption, String.append_assoc] using hg

theorem renders_name {word : String} (h : IsName word) : Expr.Renders (.name (some word)) :=
  renders_primary ⟨name ⟨nameToken word, rfl⟩, trivial, rfl, written_name h⟩

theorem text_number (m : Nat) : (Expr.number (some m)).text = m.repr := by
  have ht : numberText m = m.repr := if_pos (Int.natCast_nonneg m)
  exact ht

theorem renders_number {n : Int} (hl : 0 ≤ n) (hu : n ≤ maxInteger) :
    Expr.Renders (.number (some n)) := by
  obtain ⟨m, rfl⟩ := Int.eq_ofNat_of_zero_le hl
  have hw : Written m.repr [numeralToken m] := written_number (Int.ofNat_le.mp hu)
  rw [Expr.Renders, text_number]
  exact renders_primary ⟨number ⟨numeralToken m, rfl⟩, trivial, rfl, hw⟩

theorem renders_truth (b : Bool) : Expr.Renders (.truth b) := by
  apply renders_primary
  cases b with
  | true =>
    have hk : TokenKind.isTruth .trueWord = true := rfl
    have hw : Written "true" [.sample .trueWord] := written_word rfl (by decide)
    exact ⟨truth (.sample hk), trivial, rfl, hw⟩
  | false =>
    have hk : TokenKind.isTruth .falseWord = true := rfl
    have hw : Written "false" [.sample .falseWord] := written_word rfl (by decide)
    exact ⟨truth (.sample hk), trivial, rfl, hw⟩

theorem renders_items {n : Nonterminal} (hn : n.isItem = true) {text : n.Tree → String} {x : n.Tree}
    {xs : List n.Tree} (hx : n.Renders x (text x)) (hxs : ∀ y ∈ xs, n.Renders y (text y)) :
    (Nonterminal.list n).Renders (x :: xs) (", ".intercalate ((x :: xs).map text)) := by
  induction xs generalizing x with
  | nil =>
    obtain ⟨d, hb, rfl, hw⟩ := hx
    refine ⟨items hn d noMore, ⟨hb, trivial⟩, rfl, ?_⟩
    simpa [tokens] using hw
  | cons y ys ih =>
    obtain ⟨d, hb, rfl, hw⟩ := hx
    obtain ⟨ds, hbs, hts, hws⟩ := ih (hxs y (by simp)) fun z hz => hxs z (by simp [hz])
    cases ds with
    | noItems => cases hts
    | items _ first others =>
      obtain ⟨rfl, rfl⟩ := List.cons.inj hts
      refine ⟨items hn d (next hn (.sample .comma) first others), ⟨hb, hbs⟩, rfl, ?_⟩
      have h := (hw.seal sealed_comma (by decide)).before hws
      simpa [tokens, Mark.sample] using h

theorem renders_list {n : Nonterminal} (hn : n.isItem = true) {text : n.Tree → String}
    {xs : List n.Tree} (hxs : ∀ x ∈ xs, n.Renders x (text x)) :
    (Nonterminal.list n).Renders xs (", ".intercalate (xs.map text)) := by
  cases xs with
  | nil => exact ⟨noItems, trivial, rfl, sealed_empty.written⟩
  | cons x xs => exact renders_items hn (hxs x (by simp)) fun y hy => hxs y (by simp [hy])

/-- A statement is written with a semicolon unless it is a block, which goes on with nothing. -/
def Stmt.Renders (s : Stmt) : Prop :=
  ∃ (d : Derivation .clause) (semicolon : Option (Mark .semicolon)), d.Bounded ∧ d.tree = s ∧
    (semicolon = none → ∀ kind, d.Before kind) ∧
    Sealed s.text (d.tokens ++ (semicolon.map Leaf.token).toList)

theorem Stmt.renders_ended {d : Derivation .clause} {text : String} (hb : d.Bounded)
    (ht : d.tree.text = text ++ ";") (hw : Written text d.tokens) : Stmt.Renders d.tree := by
  refine ⟨d, some (.sample .semicolon), hb, rfl, by simp, ?_⟩
  rw [ht]
  exact hw.seal sealed_semicolon (by decide)

theorem bounded_statement {d : Derivation .clause} {semicolon : Option (Mark .semicolon)}
    {others : Derivation .statements} (hd : d.Bounded)
    (hs : semicolon = none → ∀ kind, d.Before kind) (ho : others.Bounded) :
    (statement d semicolon others).Bounded := by
  cases semicolon with
  | some mark => exact ⟨hd, ho⟩
  | none =>
    -- What stands behind a block starts a statement, so it is no semicolon.
    refine ⟨hd, ho, fun t ht => ⟨?_, hs rfl t.kind⟩⟩
    cases hts : others.tokens with
    | nil =>
      rw [hts] at ht
      cases ht
    | cons u us =>
      rw [hts] at ht
      obtain rfl := Option.some.inj ht
      have hk := others.starts_of_tokens_eq hts
      intro hsemi
      rw [hsemi] at hk
      cases hk

theorem tokens_statement (d : Derivation .clause) (semicolon : Option (Mark .semicolon))
    (others : Derivation .statements) :
    (statement d semicolon others).tokens =
      d.tokens ++ (semicolon.map Leaf.token).toList ++ others.tokens := by
  cases semicolon <;> simp [tokens]

theorem Sealed.join {text : String} {texts : List String} {ts us : List Token}
    (h : Sealed text ts) (hs : Sealed (" ".intercalate texts) us) :
    Sealed (" ".intercalate (text :: texts)) (ts ++ us) := by
  cases texts with
  | nil => simpa using h.append hs
  | cons _ _ => simpa using (h.append sealed_blank).append hs

theorem renders_statements {ss : List Stmt} (h : ∀ s ∈ ss, s.Renders) :
    ∃ d : Derivation .statements, d.Bounded ∧ d.tree = ss ∧
      Sealed (" ".intercalate (ss.map Stmt.text)) d.tokens := by
  induction ss with
  | nil => exact ⟨noStatements, trivial, rfl, sealed_empty⟩
  | cons s ss ih =>
    obtain ⟨d, semicolon, hb, rfl, hs, hw⟩ := h s (by simp)
    obtain ⟨ds, hbs, rfl, hws⟩ := ih fun s' hs' => h s' (by simp [hs'])
    refine ⟨statement d semicolon ds, bounded_statement hb hs hbs, rfl, ?_⟩
    rw [tokens_statement]
    exact hw.join hws

theorem Stmt.texts_eq_map (ss : List Stmt) : Stmt.texts ss = ss.map Stmt.text := by
  induction ss with
  | nil => rfl
  | cons s ss ih => simp [Stmt.texts, ih]

theorem Expr.texts_eq_map (es : List Expr) : Expr.texts es = es.map Expr.text := by
  induction es with
  | nil => rfl
  | cons e es ih => simp [Expr.texts, ih]

theorem sealed_body {texts : List String} {ts : List Token}
    (h : Sealed (" ".intercalate texts) ts) :
    Sealed (bodyText texts) (.sample .openBrace :: (ts ++ [.sample .closeBrace])) := by
  rw [bodyText]
  cases texts with
  | nil => simpa using (sealed_openBrace.append h).append sealed_closeBrace
  | cons _ _ =>
    have hc : Sealed " \x7d" [.sample .closeBrace] := sealed_blank.append sealed_closeBrace
    simpa using (sealed_openBrace.append h).append hc

theorem renders_block {ss : List Stmt} (h : ∀ s ∈ ss, s.Renders) :
    ∃ d : Derivation .block, d.Bounded ∧ d.tree = ss ∧
      Sealed (bodyText (Stmt.texts ss)) d.tokens := by
  obtain ⟨d, hb, ht, hw⟩ := renders_statements h
  refine ⟨block (.sample .openBrace) d (.sample .closeBrace), hb, ht, ?_⟩
  rw [Stmt.texts_eq_map]
  exact sealed_body hw

theorem renders_blockClause {ss : List Stmt} (h : ∀ s ∈ ss, s.Renders) :
    Stmt.Renders (.block ss) := by
  obtain ⟨d, hb, rfl, hw⟩ := renders_block h
  refine ⟨blockClause d, none, hb, rfl, fun _ _ => trivial, ?_⟩
  simpa [tokens, Stmt.text] using hw

theorem renders_binding {word : String} (hn : IsName word) {x : Expr}
    (hx : x.Renders) : Stmt.Renders (.binding (some word) x) := by
  obtain ⟨d, hb, rfl, hw⟩ := renders_loosest hx
  have hd : (binding (.sample .letWord) ⟨nameToken word, rfl⟩ (.sample .assign) d).Bounded := hb
  apply Stmt.renders_ended hd rfl
  have h := (sealed_let.before (written_name hn)).seal sealed_assign (by decide)
  simpa [tokens, nameText] using h.before hw

theorem renders_bareReturn : Stmt.Renders (.ret none) := by
  have hd : (bareReturn (.sample .returnWord)).Bounded := trivial
  have hw : Written "return" [.sample .returnWord] := written_word rfl (by decide)
  exact Stmt.renders_ended hd rfl hw

theorem renders_valueReturn {x : Expr} (hx : x.Renders) :
    Stmt.Renders (.ret (some x)) := by
  obtain ⟨d, hb, rfl, hw⟩ := renders_loosest hx
  have hd : (valueReturn (.sample .returnWord) d).Bounded := hb
  exact Stmt.renders_ended hd rfl (sealed_return.before hw)

theorem renders_exprClause {x : Expr} (hx : x.Renders) :
    Stmt.Renders (.expr x) := by
  obtain ⟨d, hb, rfl, hw⟩ := renders_loosest hx
  have hd : (exprClause d).Bounded := hb
  exact Stmt.renders_ended hd rfl hw

theorem renders_call {f : Expr} {es : List Expr} (hf : f.Renders) (hes : ∀ e ∈ es, e.Renders) :
    Expr.Renders (.call f es) := by
  obtain ⟨df, hbf, rfl, hwf⟩ := hf
  have hes' : ∀ e ∈ es, (Nonterminal.expr .loosest).Renders e e.text :=
    fun e he => renders_loosest (hes e he)
  obtain ⟨das, hbas, htas, hwas⟩ := renders_list (n := .expr .loosest) rfl hes'
  obtain ⟨d, hb, hts, ht⟩ := exists_call df (.sample .openParen) das (.sample .closeParen) hbf hbas
  refine ⟨d, hb, ?_, ?_⟩
  · rw [ht, htas]
  · rw [hts, Expr.text, Expr.texts_eq_map]
    have ho := hwf.seal sealed_openParen (by decide)
    have h := ((ho.before hwas).seal sealed_closeParen (by decide)).written
    simpa using h

theorem renders_parameter {p : Option String} (hp : ∃ word, p = some word ∧ IsName word) :
    Nonterminal.parameter.Renders p (nameText p) := by
  obtain ⟨word, rfl, hw⟩ := hp
  exact ⟨parameter ⟨nameToken word, rfl⟩, trivial, rfl, written_name hw⟩

theorem renders_function {ps : List (Option String)} {ss : List Stmt}
    (hps : ∀ p ∈ ps, ∃ word, p = some word ∧ IsName word) (hss : ∀ s ∈ ss, s.Renders) :
    Expr.Renders (.function ps ss) := by
  obtain ⟨dps, hbps, htps, hwps⟩ := renders_list (n := .parameter) rfl
    fun p hp => renders_parameter (hps p hp)
  obtain ⟨db, hb, rfl, hw⟩ := renders_block hss
  apply renders_primary
  refine ⟨function (.sample .fnWord) (.sample .openParen) dps (.sample .closeParen) db, ⟨hbps, hb⟩,
    ?_, ?_⟩
  · rw [tree, htps]
  · have hc : Sealed ") " [.sample .closeParen] := sealed_spaced .closeParen rfl
    have hp := (sealed_fn.before hwps).seal hc (by decide)
    have h := (hp.append hw).written
    simpa [tokens, Expr.text] using h

theorem renders_alternative {e : Option (List Stmt)}
    (he : ∀ ss, e = some ss → ∀ s ∈ ss, s.Renders) :
    ∃ d : Derivation .alternative, d.Bounded ∧ d.tree = e ∧
      Sealed (e.elim "" fun ss => " else " ++ bodyText (Stmt.texts ss)) d.tokens := by
  cases e with
  | none => exact ⟨noAlternative, trivial, rfl, sealed_empty⟩
  | some ss =>
    obtain ⟨d, hb, rfl, hw⟩ := renders_block (he ss rfl)
    exact ⟨alternative (.sample .elseWord) d, hb, rfl, sealed_else.append hw⟩

theorem Expr.text_conditional (c : Expr) (ss : List Stmt) (e : Option (List Stmt)) :
    (Expr.conditional c ss e).text = "if (" ++ c.text ++ ") " ++ bodyText (Stmt.texts ss) ++
      e.elim "" fun ss => " else " ++ bodyText (Stmt.texts ss) := by
  cases e with
  | none => simp [Expr.text]
  | some ss => simp [Expr.text, String.append_assoc]

theorem renders_conditional {c : Expr} {ss : List Stmt} {e : Option (List Stmt)}
    (hc : c.Renders) (hss : ∀ s ∈ ss, s.Renders)
    (he : ∀ ss, e = some ss → ∀ s ∈ ss, s.Renders) :
    Expr.Renders (.conditional c ss e) := by
  obtain ⟨dc, hbc, rfl, hwc⟩ := renders_loosest hc
  obtain ⟨ds, hbs, rfl, hws⟩ := renders_block hss
  obtain ⟨de, hbe, rfl, hwe⟩ := renders_alternative he
  apply renders_primary
  refine ⟨conditional (.sample .ifWord) (.sample .openParen) dc (.sample .closeParen) ds de,
    ⟨hbc, hbs, hbe⟩, rfl, ?_⟩
  have hp : Sealed ") " [.sample .closeParen] := sealed_spaced .closeParen rfl
  have h := (((sealed_if.before hwc).seal hp (by decide)).append hws).append hwe
  rw [Expr.text_conditional]
  simpa [tokens] using h.written

theorem keepsSign_append {cs : List Char} (h : keepsSign cs = true) (ds : List Char) :
    keepsSign (cs ++ ds) = true := by
  cases cs with
  | nil => cases h
  | cons c cs => exact h

theorem keepsSign_name {word : String} (h : IsName word) : keepsSign word.toList = true := by
  obtain ⟨_, c, cs, hw, hc, _⟩ := h
  have hne : c ≠ '=' := by
    rintro rfl
    revert hc
    decide
  rw [hw]
  exact decide_eq_true hne

theorem keepsSign_number (n : Nat) : keepsSign n.repr.toList = true := by
  rw [Nat.toList_repr]
  cases hd : Nat.toDigits 10 n with
  | nil => exact absurd hd Nat.toDigits_ne_nil
  | cons c cs =>
    have hc : c.isDigit = true := by
      apply Nat.isDigit_of_mem_toDigits (b := 10) (n := n) (by decide) (by decide)
      simp [hd]
    apply decide_eq_true
    rintro rfl
    revert hc
    decide

theorem Expr.Writable.keepsSign : {e : Expr} → e.Writable → keepsSign e.text.toList = true
  | _, .name hw => keepsSign_name hw
  | _, .number (n := n) hl _ => by
    obtain ⟨m, rfl⟩ := Int.eq_ofNat_of_zero_le hl
    rw [text_number]
    exact keepsSign_number m
  | _, .truth b => by cases b <;> decide
  | _, .unary _ _ => by simp [Expr.text, ExprLang.keepsSign]
  | _, .binary _ _ _ => by simp [Expr.text, ExprLang.keepsSign]
  | _, .conditional _ _ _ => by simp [Expr.text_conditional, ExprLang.keepsSign]
  | _, .function _ _ => by simp [Expr.text, ExprLang.keepsSign]
  | _, .call hf _ => by
    rw [Expr.text, String.append_assoc, String.append_assoc, String.toList_append]
    exact keepsSign_append hf.keepsSign _

mutual
theorem Expr.WellFormed.renders : {e : Expr} → e.WellFormed →
    e.Renders
  | _, .name hw => renders_name hw
  | _, .number hl hu => renders_number hl hu
  | _, .truth b => renders_truth b
  | _, .unary hop hx => renders_unary hop hx.renders hx.writable.keepsSign
  | _, .binary hop hx hy => renders_binary hop hx.renders hy.renders
  | _, .conditional hc hb he => renders_conditional hc.renders (fun s hs => (hb s hs).renders)
      fun b' hb' s hs => (he b' hb' s hs).renders
  | _, .function hp hb => renders_function hp fun s hs => (hb s hs).renders
  | _, .call hf ha => renders_call hf.renders fun a has => (ha a has).renders

theorem Stmt.WellFormed.renders : {s : Stmt} → s.WellFormed → s.Renders
  | _, .binding hw hx => renders_binding hw hx.renders
  | _, .bareReturn => renders_bareReturn
  | _, .valueReturn hx => renders_valueReturn hx.renders
  | _, .expr hx => renders_exprClause hx.renders
  | _, .block hb => renders_blockClause fun s hs => (hb s hs).renders
end

theorem Expr.textFaults_eq_none {es : List Expr} (h : ∀ e ∈ es, e.textFault? = none) :
    Expr.textFaults? es = none := by
  induction es with
  | nil => rfl
  | cons e es ih =>
    have he := h e (by simp)
    have hes := ih fun e' he' => h e' (by simp [he'])
    simp [Expr.textFaults?, he, hes]

theorem Stmt.textFaults_eq_none {ss : List Stmt} (h : ∀ s ∈ ss, s.textFault? = none) :
    Stmt.textFaults? ss = none := by
  induction ss with
  | nil => rfl
  | cons s ss ih =>
    have hs := h s (by simp)
    have hss := ih fun s' hs' => h s' (by simp [hs'])
    simp [Stmt.textFaults?, hs, hss]

theorem Expr.textFaultOption_eq_none {x : Option Expr} (h : ∀ e ∈ x, e.textFault? = none) :
    Expr.textFaultOption? x = none := by
  cases x with
  | none => rfl
  | some e => exact h e rfl

theorem textFault_of_isOperator {op : TokenKind} (h : op.isOperator = true) :
    op.textFault? = none :=
  if_pos h

mutual
theorem Expr.Writable.textFault : {e : Expr} → e.Writable → e.textFault? = none
  | _, .name _ | _, .number _ _ | _, .truth _ => rfl
  | _, .unary hop hx => by
    have ho := textFault_of_isOperator (isOperator_of_isSign hop)
    have hxs := Expr.textFaultOption_eq_none fun e he => (hx e he).textFault
    simp [Expr.textFault?, ho, hxs]
  | _, .binary hop hx hy => by
    have ho := textFault_of_isOperator (isOperator_of_has hop)
    have hys := Expr.textFaultOption_eq_none fun e he => (hy e he).textFault
    simp [Expr.textFault?, ho, hx.textFault, hys]
  | _, .conditional (e := none) hc hb _ => by
    have hss := Stmt.textFaults_eq_none fun s hs => (hb s hs).textFault
    simp [Expr.textFault?, hc.textFault, hss]
  | _, .conditional (e := some b') hc hb he => by
    have hss := Stmt.textFaults_eq_none fun s hs => (hb s hs).textFault
    have hss' := Stmt.textFaults_eq_none fun s hs => (he b' rfl s hs).textFault
    simp [Expr.textFault?, hc.textFault, hss, hss']
  | _, .function hp hb => by
    have hss := Stmt.textFaults_eq_none fun s hs => (hb s hs).textFault
    have hn : none ∉ _ := fun hn => by
      obtain ⟨word, hw, _⟩ := hp none hn
      cases hw
    simp [Expr.textFault?, hn, hss]
  | _, .call hf ha => by
    have hes := Expr.textFaults_eq_none fun a has => (ha a has).textFault
    simp [Expr.textFault?, hf.textFault, hes]

theorem Stmt.Writable.textFault : {s : Stmt} → s.Writable → s.textFault? = none
  | _, .binding _ hx => hx.textFault
  | _, .bareReturn => rfl
  | _, .valueReturn hx => hx.textFault
  | _, .expr hx => hx.textFault
  | _, .block hb => Stmt.textFaults_eq_none fun s hs => (hb s hs).textFault
end

theorem Program.render_of_writable {program : Program} (h : ∀ s ∈ program, s.Writable) :
    program.render = .ok program.text := by
  rw [render, Stmt.textFaults_eq_none fun s hs => (h s hs).textFault]
  rfl

theorem Program.render_of_wellFormed {program : Program} (h : ∀ s ∈ program, s.WellFormed) :
    program.render = .ok program.text :=
  render_of_writable fun s hs => (h s hs).writable

theorem Program.exists_derivation {program : Program} (h : ∀ s ∈ program, s.WellFormed) :
    ∃ d : Derivation .statements, d.Bounded ∧ d.tree = program ∧
      Spells program.text.toList d.tokens := by
  obtain ⟨d, hb, ht, hs⟩ := renders_statements fun s hs => (h s hs).renders
  refine ⟨d, hb, ht, ?_⟩
  have hn := hs [] [] .nil
  rwa [List.append_nil, List.append_nil, ← Stmt.texts_eq_map] at hn

end ExprLang
