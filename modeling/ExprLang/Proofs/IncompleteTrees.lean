import ExprLang.Proofs.MisplacedTokens
import ExprLang.Proofs.RenderedPrograms

/-!
Incomplete trees. A missing operand is written as a word in angle brackets. No expression starts
with the first of them, and what stands in front of it begins a program, so the parser stops there
and names the operator without an operand that the text has first.
-/

namespace ExprLang

open ExprLang.Derivation ExprLang.Parser

mutual
/-- The operators that have no last operand, in the order of the text. -/
def Expr.gaps : Expr → List TokenKind
  | .name _ | .number _ | .truth _ => []
  | .unary op x => Expr.gapsBehind op x
  | .binary op x y => x.gaps ++ Expr.gapsBehind op y
  | .conditional c t e => c.gaps ++ Stmt.gapsList t ++ Stmt.gapsOption e
  | .function _ b => Stmt.gapsList b
  | .call f as => f.gaps ++ Expr.gapsList as

def Stmt.gaps : Stmt → List TokenKind
  | .ret none => []
  | .binding _ x | .ret (some x) | .expr x => x.gaps
  | .block b => Stmt.gapsList b

def Expr.gapsBehind (op : TokenKind) : Option Expr → List TokenKind
  | none => [op]
  | some x => x.gaps

def Expr.gapsList : List Expr → List TokenKind
  | [] => []
  | e :: es => e.gaps ++ Expr.gapsList es

def Stmt.gapsList : List Stmt → List TokenKind
  | [] => []
  | s :: ss => s.gaps ++ Stmt.gapsList ss

def Stmt.gapsOption : Option (List Stmt) → List TokenKind
  | none => []
  | some b => Stmt.gapsList b
end

/-- Tokens that go wrong behind an operator: what stands in front of a less-than sign begins as it
should, and ends with the operator. -/
def Breaks (front : Option TokenKind) (begins spelled : List Token → Prop) (op : TokenKind) :
    Prop :=
  op.isOperator = true ∧ ∃ read more, begins read ∧ lastKind front read = some op ∧
    spelled (read ++ .sample .less :: more)

/-- What comes of reading a part of a tree: it is whole, or its text breaks at the first of its
gaps. -/
def Outcome (front : Option TokenKind) (whole : Prop) (gaps : List TokenKind)
    (begins spelled : List Token → Prop) : Prop :=
  whole ∧ gaps = [] ∨ ∃ op ops, gaps = op :: ops ∧ Breaks front begins spelled op

section
variable {front front₁ front₂ : Option TokenKind} {whole whole₁ whole₂ : Prop}
  {gaps gaps₁ gaps₂ : List TokenKind}
  {begins begins₁ begins₂ spelled spelled₁ spelled₂ : List Token → Prop} {op : TokenKind}

theorem Breaks.behind (h : Breaks none begins spelled op) : Breaks front begins spelled op := by
  obtain ⟨ho, read, more, hb, hl, hs⟩ := h
  cases read with
  | nil => cases hl
  | cons t ts => exact ⟨ho, t :: ts, more, hb, hl, hs⟩

theorem Breaks.inside (ps : List Token) (h : Breaks (lastKind front ps) begins₁ spelled₁ op)
    (hb : ∀ r, begins₁ r → begins (ps ++ r))
    (hs : ∀ ts, spelled₁ ts → ∃ us, spelled (ps ++ ts ++ us)) : Breaks front begins spelled op := by
  obtain ⟨ho, read, more, hread, hl, hts⟩ := h
  obtain ⟨us, hus⟩ := hs _ hts
  refine ⟨ho, ps ++ read, more ++ us, hb read hread, ?_, ?_⟩
  · rw [lastKind_append, hl]
  · simpa using hus

theorem Outcome.exists_spelled (h : Outcome front whole gaps begins spelled)
    (hw : whole → ∃ ts, spelled ts) : ∃ ts, spelled ts := by
  rcases h with ⟨h, _⟩ | ⟨_, _, _, _, read, more, _, _, hs⟩
  · exact hw h
  · exact ⟨_, hs⟩

theorem Outcome.within (h : Outcome front₁ whole₁ gaps begins₁ spelled₁) (hw : whole₁ → whole)
    (hb : ∀ op, Breaks front₁ begins₁ spelled₁ op → Breaks front begins spelled op) :
    Outcome front whole gaps begins spelled := by
  rcases h with ⟨h, hg⟩ | ⟨op, ops, hg, h⟩
  · exact .inl ⟨hw h, hg⟩
  · exact .inr ⟨op, ops, hg, hb op h⟩

/-- Of two parts in the order of the text, the second matters if the first is whole. -/
theorem Outcome.both (h₁ : Outcome front₁ whole₁ gaps₁ begins₁ spelled₁)
    (h₂ : Outcome front₂ whole₂ gaps₂ begins₂ spelled₂) (hw : whole₁ → whole₂ → whole)
    (hb₁ : ∀ op, Breaks front₁ begins₁ spelled₁ op → Breaks front begins spelled op)
    (hb₂ : whole₁ → ∀ op, Breaks front₂ begins₂ spelled₂ op → Breaks front begins spelled op) :
    Outcome front whole (gaps₁ ++ gaps₂) begins spelled := by
  rcases h₁ with ⟨h₁, hg₁⟩ | ⟨op, ops, hg₁, h₁⟩
  · rw [hg₁, List.nil_append]
    exact h₂.within (hw h₁) (hb₂ h₁)
  · refine .inr ⟨op, ops ++ gaps₂, ?_, hb₁ op h₁⟩
    rw [hg₁, List.cons_append]

end

abbrev Expr.Outcome (e : Expr) : Prop :=
  ExprLang.Outcome none e.WellFormed e.gaps (Begins (.expr .called)) (Written e.text)

abbrev Stmt.Outcome (s : Stmt) : Prop :=
  ExprLang.Outcome none s.WellFormed s.gaps (Begins .clause) (Sealed s.text)

theorem begins_parens {g : Grade} (hl : g.Loosens .loosest) {r : List Token}
    (h : Begins (.expr g) r) : Begins (.expr .called) (.sample .openParen :: r) :=
  ((h.loosen hl).group (.sample .openParen)).loosen Grade.loosens_called

theorem begins_loosest {r : List Token} (h : Begins (.expr .called) r) :
    Begins (.expr .loosest) r :=
  h.loosen (Grade.loosens_of_le (by decide) (by decide))

theorem sealed_missing :
    Sealed "<missing>" [.sample .less, nameToken "missing", .sample .greater] := by
  have hw : Written "missing" [nameToken "missing"] :=
    written_name ⟨by decide, 'm', "issing".toList, by decide, by decide,
      List.all_eq_true.mp (by decide)⟩
  have hl : Sealed "<" [.sample .less] := sealed_mark rfl fun _ => rfl
  have hg : Sealed ">" [.sample .greater] := sealed_mark rfl fun _ => rfl
  exact hl.append (hw.seal hg (by decide))

section
variable {op : TokenKind}

/-- An operand, or its place, behind an operator. -/
theorem outcome_operand (hop : op.isOperator = true) {x : Option Expr}
    (hx : ∀ e ∈ x, e.Outcome) :
    Outcome (some op) (∃ e, x = some e ∧ e.WellFormed) (Expr.gapsBehind op x)
      (Begins (.expr .called)) (Written (Expr.textOption x)) := by
  cases x with
  | none =>
    exact .inr ⟨op, [], rfl, hop, [], _, .expr_nil _, rfl, sealed_missing.written⟩
  | some e => exact (hx e rfl).within (fun hw => ⟨e, rfl, hw⟩) fun _ hb => hb.behind

theorem Expr.Outcome.exists_written {e : Expr} (h : e.Outcome) : ∃ ts, Written e.text ts := by
  apply h.exists_spelled
  intro hw
  obtain ⟨d, _, _, hd⟩ := hw.renders
  exact ⟨d.tokens, hd⟩

theorem exists_written_operand {x : Option Expr} (hx : ∀ e ∈ x, e.Outcome) :
    ∃ ts, Written (Expr.textOption x) ts := by
  cases x with
  | none => exact ⟨_, sealed_missing.written⟩
  | some e => exact (hx e rfl).exists_written

theorem keepsSign_operand {x : Option Expr} (hx : ∀ e ∈ x, e.Writable) :
    keepsSign (Expr.textOption x).toList = true := by
  cases x with
  | none => decide
  | some e => exact (hx e rfl).keepsSign

theorem outcome_unary (hop : op.isSign = true) {x : Option Expr} (hx : ∀ e ∈ x, e.Outcome)
    (hne : keepsSign (Expr.textOption x).toList = true) : Expr.Outcome (.unary op x) := by
  apply (outcome_operand (isOperator_of_isSign hop) hx).within
  · rintro ⟨e, rfl, hw⟩
    exact .unary hop hw
  · intro k hb
    apply Breaks.inside [.sample .openParen, .sample op]
    · simpa [lastKind] using hb
    · intro r hr
      have hl : Grade.unary.Loosens .loosest := Grade.loosens_of_le (by decide) (by decide)
      exact begins_parens hl (.signed (.sample hop) (hr.loosen Grade.loosens_unary))
    · intro ts hw
      have hopen := sealed_openParen.before (written_sign hop hw hne)
      have h := (hopen.seal sealed_closeParen (by decide)).written
      exact ⟨[.sample .closeParen], by simpa [Expr.text, String.append_assoc] using h⟩

theorem outcome_binary {l : Layer} (hop : l.has op = true) {x : Expr} {y : Option Expr}
    (hx : x.Outcome) (hy : ∀ e ∈ y, e.Outcome) : Expr.Outcome (.binary op x y) := by
  have hl : Grade.called.Loosens (.binary l) :=
    (Grade.loosens_operand l).trans (Grade.operand_loosens l)
  have hloosest : (Grade.binary l).Loosens .loosest :=
    Grade.loosens_of_le (by decide) (by cases l <;> decide)
  have hmark := (sealed_blank.append (sealed_operator hop)).append sealed_blank
  have hblank : separates (" " ++ op.symbol ++ " ").toList = true := by
    rw [String.toList_append, String.toList_append]
    exact separates_append (separates_append (by decide) _) _
  apply hx.both (outcome_operand (isOperator_of_has hop) hy)
  · rintro hwx ⟨e, rfl, hwy⟩
    exact .binary hop hwx hwy
  · intro k hb
    obtain ⟨us, hus⟩ := exists_written_operand hy
    apply Breaks.inside [.sample .openParen] hb.behind
    · exact fun r hr => begins_parens hloosest (hr.loosen hl)
    · intro ts hw
      have h := ((sealed_openParen.before hw).seal hmark hblank).before hus
      have hs := (h.seal sealed_closeParen (by decide)).written
      refine ⟨.sample op :: (us ++ [.sample .closeParen]), ?_⟩
      simpa [Expr.text, String.append_assoc] using hs
  · intro hwx k hb
    obtain ⟨d, hd, rfl, hw⟩ := hl.renders hwx.renders
    apply Breaks.inside (.sample .openParen :: (d.tokens ++ [.sample op]))
    · simpa [lastKind, lastKind_concat] using hb
    · intro r hr
      have h := Begins.operation d (.sample hop) hd (hr.loosen (Grade.loosens_operand l))
      simpa using begins_parens hloosest h
    · intro ts hwy
      have h := ((sealed_openParen.before hw).seal hmark hblank).before hwy
      have hs := (h.seal sealed_closeParen (by decide)).written
      exact ⟨[.sample .closeParen], by simpa [Expr.text, String.append_assoc] using hs⟩

end

section
variable {ss : List Stmt} {es : List Expr}

theorem begins_more {r : List Token} (comma : Mark .comma)
    (h : Begins (.list (.expr .loosest)) r) :
    Begins (.more (.expr .loosest)) (comma.token :: r) := by
  obtain ⟨d, hb, hd⟩ := h
  cases d with
  | noItems =>
    obtain rfl := List.prefix_nil.mp hd
    exact .item rfl comma (.expr_nil _)
  | items hn first others =>
    refine ⟨next hn comma first others, hb, ?_⟩
    rw [tokens, List.cons_prefix_cons]
    exact ⟨rfl, hd⟩

abbrev Expr.ListOutcome (es : List Expr) : Prop :=
  ExprLang.Outcome none (∀ e ∈ es, e.WellFormed) (Expr.gapsList es)
    (Begins (.list (.expr .loosest))) (Written (", ".intercalate (es.map Expr.text)))

theorem Expr.ListOutcome.exists_written (h : Expr.ListOutcome es) :
    ∃ ts, Written (", ".intercalate (es.map Expr.text)) ts := by
  apply h.exists_spelled
  intro hw
  obtain ⟨d, _, _, hd⟩ := renders_list (n := .expr .loosest) rfl fun e he =>
    renders_loosest (hw e he).renders
  exact ⟨d.tokens, hd⟩

theorem outcome_list (h : ∀ e ∈ es, e.Outcome) : Expr.ListOutcome es := by
  induction es with
  | nil => exact .inl ⟨by simp, rfl⟩
  | cons e es ih =>
    have he := h e (by simp)
    cases es with
    | nil =>
      have hgaps : Expr.gapsList [e] = e.gaps := List.append_nil _
      rw [Expr.ListOutcome, hgaps]
      apply he.within (fun hw => by simpa using hw)
      intro op hb
      apply Breaks.inside [] hb fun r hr => .first rfl (begins_loosest hr)
      exact fun ts hw => ⟨[], by simpa using hw⟩
    | cons e' es =>
      have hes := ih fun e' he' => h e' (by simp [he'])
      apply he.both hes
      · exact fun hw hws => List.forall_mem_cons.mpr ⟨hw, hws⟩
      · intro op hb
        obtain ⟨us, hus⟩ := hes.exists_written
        apply Breaks.inside [] hb fun r hr => .first rfl (begins_loosest hr)
        intro ts hw
        have hs := (hw.seal sealed_comma (by decide)).before hus
        exact ⟨.sample .comma :: us, by simpa using hs⟩
      · intro hwe op hb
        obtain ⟨d, hd, rfl, hw⟩ := renders_loosest hwe.renders
        apply Breaks.inside (d.tokens ++ [.sample .comma]) hb.behind
        · intro r hr
          simpa using Begins.items rfl d hd (begins_more (.sample .comma) hr)
        · intro us hus
          have hs := (hw.seal sealed_comma (by decide)).before hus
          exact ⟨[], by simpa using hs⟩

abbrev Stmt.ListOutcome (ss : List Stmt) : Prop :=
  ExprLang.Outcome none (∀ s ∈ ss, s.WellFormed) (Stmt.gapsList ss) (Begins .statements)
    (Sealed (" ".intercalate (ss.map Stmt.text)))

theorem Stmt.ListOutcome.exists_sealed (h : Stmt.ListOutcome ss) :
    ∃ ts, Sealed (" ".intercalate (ss.map Stmt.text)) ts := by
  apply h.exists_spelled
  intro hw
  obtain ⟨d, _, _, hd⟩ := renders_statements fun s hs => (hw s hs).renders
  exact ⟨d.tokens, hd⟩

theorem begins_statement (first : Derivation .clause) (semicolon : Option (Mark .semicolon))
    (hf : first.Bounded) (hs : semicolon = none → ∀ kind, first.Before kind) {r : List Token}
    (h : Begins .statements r) :
    Begins .statements (first.tokens ++ (semicolon.map Leaf.token).toList ++ r) := by
  obtain ⟨d, hb, hd⟩ := h
  refine ⟨statement first semicolon d, bounded_statement hf hs hb, ?_⟩
  rw [tokens_statement, List.prefix_append_right_inj]
  exact hd

theorem outcome_statements (h : ∀ s ∈ ss, s.Outcome) : Stmt.ListOutcome ss := by
  induction ss with
  | nil => exact .inl ⟨by simp, rfl⟩
  | cons s ss ih =>
    have hss := ih fun s' hs' => h s' (by simp [hs'])
    apply (h s (by simp)).both hss
    · exact fun hw hws => List.forall_mem_cons.mpr ⟨hw, hws⟩
    · intro op hb
      obtain ⟨us, hus⟩ := hss.exists_sealed
      exact hb.inside [] (fun r hr => hr.clause) fun ts hts => ⟨us, hts.join hus⟩
    · intro hw op hb
      obtain ⟨d, semicolon, hd, rfl, hs, hts⟩ := hw.renders
      apply Breaks.inside (d.tokens ++ (semicolon.map Leaf.token).toList) hb.behind
      · exact fun r hr => begins_statement d semicolon hd hs hr
      · exact fun us hus => ⟨[], by simpa using hts.join hus⟩

abbrev Stmt.BlockOutcome (ss : List Stmt) : Prop :=
  ExprLang.Outcome none (∀ s ∈ ss, s.WellFormed) (Stmt.gapsList ss) (Begins .block)
    (Sealed (bodyText (Stmt.texts ss)))

theorem outcome_block (h : ∀ s ∈ ss, s.Outcome) : Stmt.BlockOutcome ss := by
  apply (outcome_statements h).within id
  intro op hb
  apply Breaks.inside [.sample .openBrace] hb.behind
  · exact fun r hr => .block (.sample .openBrace) hr
  · intro ts hts
    rw [Stmt.texts_eq_map]
    exact ⟨[.sample .closeBrace], sealed_body hts⟩

theorem Stmt.BlockOutcome.exists_sealed (h : Stmt.BlockOutcome ss) :
    ∃ ts, Sealed (bodyText (Stmt.texts ss)) ts := by
  apply h.exists_spelled
  intro hw
  obtain ⟨d, _, _, hd⟩ := renders_block fun s hs => (hw s hs).renders
  exact ⟨d.tokens, hd⟩

theorem outcome_call {f : Expr} (hf : f.Outcome) (hes : ∀ e ∈ es, e.Outcome) :
    Expr.Outcome (.call f es) := by
  have hlist := outcome_list hes
  apply hf.both hlist
  · exact Expr.WellFormed.call
  · intro op hb
    obtain ⟨us, hus⟩ := hlist.exists_written
    apply Breaks.inside [] hb (fun r hr => hr)
    intro ts hw
    have ho := (hw.seal sealed_openParen (by decide)).before hus
    have hs := (ho.seal sealed_closeParen (by decide)).written
    refine ⟨.sample .openParen :: (us ++ [.sample .closeParen]), ?_⟩
    simpa [Expr.text, Expr.texts_eq_map] using hs
  · intro hwf op hb
    obtain ⟨d, hd, rfl, hw⟩ := hwf.renders
    apply Breaks.inside (d.tokens ++ [.sample .openParen]) hb.behind
    · intro r hr
      simpa using Begins.call d (.sample .openParen) hd hr
    · intro us hus
      have ho := (hw.seal sealed_openParen (by decide)).before hus
      have hs := (ho.seal sealed_closeParen (by decide)).written
      refine ⟨[.sample .closeParen], ?_⟩
      simpa [Expr.text, Expr.texts_eq_map] using hs

theorem outcome_function {ps : List (Option String)}
    (hps : ∀ p ∈ ps, ∃ word, p = some word ∧ IsName word) (hss : ∀ s ∈ ss, s.Outcome) :
    Expr.Outcome (.function ps ss) := by
  apply (outcome_block hss).within
  · exact Expr.WellFormed.function hps
  · intro op hb
    obtain ⟨d, hd, _, hw⟩ := renders_list (n := .parameter) rfl
      fun p hp => renders_parameter (hps p hp)
    have hc : Sealed ") " [.sample .closeParen] := sealed_spaced .closeParen rfl
    have hp := (sealed_fn.before hw).seal hc (by decide)
    apply Breaks.inside
      (.sample .fnWord :: .sample .openParen :: (d.tokens ++ [.sample .closeParen])) hb.behind
    · intro r hr
      have h := Begins.body (.sample .fnWord) (.sample .openParen) d (.sample .closeParen) hd hr
      simpa using h.loosen Grade.loosens_called
    · intro ts hts
      exact ⟨[], by simpa [Expr.text] using (hp.append hts).written⟩

/-- The condition and the consequence, with what may stand behind them. -/
theorem outcome_consequence {c : Expr} {e : Option (List Stmt)} {whole : Prop} (hc : c.Outcome)
    (hss : ∀ s ∈ ss, s.Outcome)
    (he : ∃ ts, Sealed (e.elim "" fun b => " else " ++ bodyText (Stmt.texts b)) ts)
    (hw : c.WellFormed → (∀ s ∈ ss, s.WellFormed) → whole) :
    Outcome none whole (c.gaps ++ Stmt.gapsList ss) (Begins (.expr .called))
      (Written (Expr.text (.conditional c ss e))) := by
  obtain ⟨vs, hvs⟩ := he
  have hblock := outcome_block hss
  have hp : Sealed ") " [.sample .closeParen] := sealed_spaced .closeParen rfl
  apply hc.both hblock hw
  · intro op hb
    obtain ⟨us, hus⟩ := hblock.exists_sealed
    apply Breaks.inside [.sample .ifWord, .sample .openParen] hb.behind
    · intro r hr
      have h := Begins.condition (.sample .ifWord) (.sample .openParen) (begins_loosest hr)
      exact h.loosen Grade.loosens_called
    · intro ts hts
      have h := (((sealed_if.before hts).seal hp (by decide)).append hus).append hvs
      refine ⟨.sample .closeParen :: (us ++ vs), ?_⟩
      rw [Expr.text_conditional]
      simpa using h.written
  · intro hwc op hb
    obtain ⟨d, hd, rfl, hts⟩ := renders_loosest hwc.renders
    apply Breaks.inside
      (.sample .ifWord :: .sample .openParen :: (d.tokens ++ [.sample .closeParen])) hb.behind
    · intro r hr
      have h :=
        Begins.consequence (.sample .ifWord) (.sample .openParen) d (.sample .closeParen) hd hr
      simpa using h.loosen Grade.loosens_called
    · intro us hus
      have h := (((sealed_if.before hts).seal hp (by decide)).append hus).append hvs
      refine ⟨vs, ?_⟩
      rw [Expr.text_conditional]
      simpa using h.written

theorem outcome_conditional {c : Expr} {e : Option (List Stmt)} (hc : c.Outcome)
    (hss : ∀ s ∈ ss, s.Outcome) (he : ∀ b ∈ e, ∀ s ∈ b, s.Outcome) :
    Expr.Outcome (.conditional c ss e) := by
  cases e with
  | none =>
    have h := outcome_consequence hc hss (e := none) ⟨[], sealed_empty⟩ fun hwc hws =>
      Expr.WellFormed.conditional (e := none) hwc hws (by simp)
    simpa [Expr.Outcome, Expr.gaps, Stmt.gapsOption] using h
  | some b =>
    have hblock := outcome_block (he b rfl)
    obtain ⟨vs, hvs⟩ := hblock.exists_sealed
    have hfirst := outcome_consequence hc hss (e := some b) ⟨_, sealed_else.append hvs⟩ And.intro
    apply hfirst.both hblock
    · rintro ⟨hwc, hws⟩ hwb
      exact .conditional hwc hws fun b' hb' => Option.some.inj hb' ▸ hwb
    · exact fun _ hb => hb
    · rintro ⟨hwc, hws⟩ op hb
      obtain ⟨dc, hdc, rfl, hwc⟩ := renders_loosest hwc.renders
      obtain ⟨ds, hds, rfl, hws⟩ := renders_block fun s hs => (hws s hs).renders
      have hp : Sealed ") " [.sample .closeParen] := sealed_spaced .closeParen rfl
      have hfront := (((sealed_if.before hwc).seal hp (by decide)).append hws).append sealed_else
      apply Breaks.inside (.sample .ifWord :: .sample .openParen ::
        (dc.tokens ++ .sample .closeParen :: (ds.tokens ++ [.sample .elseWord]))) hb.behind
      · intro r hr
        have h := Begins.alternative (.sample .ifWord) (.sample .openParen) dc (.sample .closeParen)
          ds (.sample .elseWord) hdc hds hr
        simpa using h.loosen Grade.loosens_called
      · intro us hus
        refine ⟨[], ?_⟩
        rw [Expr.text_conditional]
        simpa [String.append_assoc] using (hfront.append hus).written

theorem outcome_binding {word : String} (hn : IsName word) {x : Expr} (hx : x.Outcome) :
    Stmt.Outcome (.binding (some word) x) := by
  apply hx.within (Stmt.WellFormed.binding hn)
  intro op hb
  have hname := (sealed_let.before (written_name hn)).seal sealed_assign (by decide)
  apply Breaks.inside [.sample .letWord, nameToken word, .sample .assign] hb.behind
  · intro r hr
    exact .binding (.sample .letWord) ⟨nameToken word, rfl⟩ (.sample .assign) (begins_loosest hr)
  · intro ts hts
    have h := (hname.before hts).seal sealed_semicolon (by decide)
    exact ⟨[.sample .semicolon], by simpa [Stmt.text, nameText, String.append_assoc] using h⟩

theorem outcome_valueReturn {x : Expr} (hx : x.Outcome) : Stmt.Outcome (.ret (some x)) := by
  apply hx.within Stmt.WellFormed.valueReturn
  intro op hb
  apply Breaks.inside [.sample .returnWord] hb.behind
  · exact fun r hr => .valueReturn (.sample .returnWord) (begins_loosest hr)
  · intro ts hts
    have h := (sealed_return.before hts).seal sealed_semicolon (by decide)
    exact ⟨[.sample .semicolon], by simpa [Stmt.text] using h⟩

theorem outcome_expr {x : Expr} (hx : x.Outcome) : Stmt.Outcome (.expr x) := by
  apply hx.within Stmt.WellFormed.expr
  intro op hb
  apply Breaks.inside [] hb fun r hr => Begins.exprClause (begins_loosest hr)
  intro ts hts
  exact ⟨[.sample .semicolon], hts.seal sealed_semicolon (by decide)⟩

theorem outcome_blockStmt (hss : ∀ s ∈ ss, s.Outcome) : Stmt.Outcome (.block ss) := by
  apply (outcome_block hss).within Stmt.WellFormed.block
  intro op hb
  apply Breaks.inside [] hb fun r hr => Begins.blockClause hr
  exact fun ts hts => ⟨[], by simpa [Stmt.text] using hts⟩

end

mutual
theorem Expr.Writable.outcome : {e : Expr} → e.Writable → e.Outcome
  | _, .name hw => .inl ⟨.name hw, rfl⟩
  | _, .number hl hu => .inl ⟨.number hl hu, rfl⟩
  | _, .truth b => .inl ⟨.truth b, rfl⟩
  | _, .unary hop hx =>
    outcome_unary hop (fun e he => (hx e he).outcome) (keepsSign_operand hx)
  | _, .binary hop hx hy => outcome_binary hop hx.outcome fun e he => (hy e he).outcome
  | _, .conditional hc hb he => outcome_conditional hc.outcome (fun s hs => (hb s hs).outcome)
      fun b' hb' s hs => (he b' hb' s hs).outcome
  | _, .function hp hb => outcome_function hp fun s hs => (hb s hs).outcome
  | _, .call hf ha => outcome_call hf.outcome fun a has => (ha a has).outcome

theorem Stmt.Writable.outcome : {s : Stmt} → s.Writable → s.Outcome
  | _, .binding hw hx => outcome_binding hw hx.outcome
  | _, .bareReturn => .inl ⟨.bareReturn, rfl⟩
  | _, .valueReturn hx => outcome_valueReturn hx.outcome
  | _, .expr hx => outcome_expr hx.outcome
  | _, .block hb => outcome_blockStmt fun s hs => (hb s hs).outcome
end

theorem eq_missingOperand {op : TokenKind} (hop : op.isOperator = true) {t : Token}
    {problem : Problem} (hb : problem.Blames t) (hs : problem.Suits (some op)) :
    problem = .missingOperand op.describe t.found := by
  have hp : ¬ Plain (some op) := fun h => by simp [h op rfl] at hop
  cases problem with
  | missingOperand name found =>
    obtain ⟨k, hk, _, rfl⟩ := hs
    obtain rfl := Option.some.inj hk
    exact congrArg _ hb
  | unexpectedToken => exact absurd hs.plain hp
  | unexpectedEnd | noExpression => exact absurd hs hp
  | _ => cases hb

/-- Behind an operator that begins a program, the parser misses an operand at a less-than sign. -/
theorem run_of_breaks {op : TokenKind} (hop : op.isOperator = true) {read : List Token}
    (hb : Begins .program read) (hl : lastKind none read = some op) (levels : Nat) (more : Source) :
    let result := ((programWithin levels).run
      ⟨⟨read ++ .sample .less :: more.tokens, more.fault⟩, none⟩).1
    result = .error (.problem (.missingOperand op.describe "'<'")) ∨
      levels < read.length + 2 ∧ result = .error (.problem .nestingTooDeepToParse) := by
  have hend : lastKind none read ≠ some .endOfInput := by
    rw [hl]
    intro he
    rw [Option.some.inj he] at hop
    cases hop
  have hj : ¬ Joins (lastKind none read) (Token.sample .less).kind := by
    rw [hl]
    rintro ⟨hp | hs, _⟩
    · have ho := hp op rfl
      rw [hop] at ho
      cases ho
    · cases hs
  rcases stops_at hb hend (by decide) hj levels with ⟨problem, hblame, hsuits, hrun⟩ | ⟨hlt, hrun⟩
  · rw [hl] at hsuits
    rw [eq_missingOperand hop hblame hsuits] at hrun
    exact .inl (congrArg Prod.fst (hrun more))
  · exact .inr ⟨hlt, hrun more⟩

end ExprLang
