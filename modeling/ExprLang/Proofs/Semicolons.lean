import ExprLang.Proofs.Grouping
import ExprLang.Proofs.MisplacedTokens

/-!
Semicolons. One that ends a statement may be left out wherever the token behind it belongs to no
statement in front of it, and the program stays the same. One that ends no statement is where the
parser stops.
-/

namespace ExprLang

open ExprLang.Derivation ExprLang.Parser

/-- Whether a semicolon between two kinds may be left out. Behind it, most kinds would start the
value of a bare `return`, and two would go on with an expression. -/
def droppable (front : Option TokenKind) (kind : TokenKind) : Bool :=
  if front = some .returnWord then kind = .closeBrace || kind = .endOfInput
  else kind ≠ .minus && kind ≠ .openParen

/-- Tokens from which some semicolons are left out, each where it may be. -/
inductive Drops : Option TokenKind → List Token → List Token → Prop where
  | nil {front : Option TokenKind} : Drops front [] []
  | keep {front : Option TokenKind} {t : Token} {ts us : List Token}
      (h : Drops (some t.kind) ts us) : Drops front (t :: ts) (t :: us)
  | drop {front : Option TokenKind} {ts us : List Token} (semicolon : Mark .semicolon)
      (hd : ∀ t ∈ ts.head?, droppable front t.kind = true) (h : Drops (some .semicolon) ts us) :
      Drops front (semicolon.token :: ts) us

theorem Drops.of_cons {front : Option TokenKind} {t : Token} {ts us : List Token}
    (h : Drops front (t :: ts) us) (ht : t.kind ≠ .semicolon) :
    ∃ vs, us = t :: vs ∧ Drops (some t.kind) ts vs := by
  cases h with
  | keep h => exact ⟨_, rfl, h⟩
  | drop semicolon => exact absurd semicolon.kind_eq ht

theorem Drops.of_semicolon {front : Option TokenKind} {semicolon : Mark .semicolon}
    {ts us : List Token} (h : Drops front (semicolon.token :: ts) us) :
    ∃ vs, Drops (some .semicolon) ts vs ∧
      (us = semicolon.token :: vs ∨
        us = vs ∧ ∀ t ∈ ts.head?, droppable front t.kind = true) := by
  generalize hs : semicolon.token :: ts = all at h
  cases h with
  | nil => cases hs
  | keep h =>
    obtain ⟨rfl, rfl⟩ := List.cons.inj hs
    rw [semicolon.kind_eq] at h
    exact ⟨_, h, .inl rfl⟩
  | drop _ hd h =>
    obtain ⟨_, rfl⟩ := List.cons.inj hs
    exact ⟨us, h, .inr ⟨rfl, hd⟩⟩

/-- Whichever semicolons are left out of the tokens, what stays is good and starts with the same
token. -/
def Sheds (ts : List Token) (good : List Token → Prop) : Prop :=
  ∀ ⦃front : Option TokenKind⦄ ⦃rest us : List Token⦄, Drops front (ts ++ rest) us →
    ∃ vs ws, us = vs ++ ws ∧ good vs ∧ vs.head? = ts.head? ∧ Drops (lastKind front ts) rest ws

namespace Sheds

variable {t : Token} {ts xs ys : List Token} {good good' : List Token → Prop}

theorem nil (h : good []) : Sheds [] good :=
  fun _ _ _ hd => ⟨[], _, rfl, h, rfl, hd⟩

theorem cons (ht : t.kind ≠ .semicolon) (h : Sheds ts fun vs => good (t :: vs)) :
    Sheds (t :: ts) good := by
  intro front rest us hd
  obtain ⟨us, rfl, hd'⟩ := hd.of_cons ht
  obtain ⟨vs, ws, rfl, hg, _, hr⟩ := h hd'
  exact ⟨t :: vs, ws, rfl, hg, rfl, hr⟩

theorem append (hx : Sheds xs good)
    (hy : ∀ vs, good vs → Sheds ys fun ws => good' (vs ++ ws)) : Sheds (xs ++ ys) good' := by
  intro front rest us hd
  rw [List.append_assoc] at hd
  obtain ⟨vs, us, rfl, hg, hv, hd⟩ := hx hd
  obtain ⟨ws, us, rfl, hg', hw, hd⟩ := hy vs hg hd
  refine ⟨vs ++ ws, us, (List.append_assoc ..).symm, hg', ?_, ?_⟩
  · rw [List.head?_append, List.head?_append, hv, hw]
  · rwa [lastKind_append]

theorem imp (h : Sheds ts good) (hg : ∀ vs, good vs → vs.head? = ts.head? → good' vs) :
    Sheds ts good' := by
  intro front rest us hd
  obtain ⟨vs, ws, rfl, hv, hh, hr⟩ := h hd
  exact ⟨vs, ws, rfl, hg vs hv hh, hh, hr⟩

end Sheds

theorem TokenKind.extendsExpr_of_startsStmt {kind : TokenKind} (hs : kind.startsStmt = true)
    (hm : kind ≠ .minus) (hp : kind ≠ .openParen) : kind.extendsExpr = false := by
  cases kind <;> first | rfl | contradiction

namespace Derivation

theorem before_of_tree_eq {d d' : Derivation .clause} (h : d'.tree = d.tree) {kind : TokenKind}
    (hb : d.Before kind) : d'.Before kind := by
  cases d <;> cases d' <;> first | exact hb | trivial | cases h

theorem before_of_droppable {first : Derivation .clause} {front : Option TokenKind}
    {kind : TokenKind} (hs : kind.startsStmt = true)
    (hd : droppable (lastKind front first.tokens) kind = true) : first.Before kind := by
  by_cases hr : lastKind front first.tokens = some .returnWord
  · rw [droppable, if_pos hr] at hd
    simp only [Bool.or_eq_true, decide_eq_true_eq] at hd
    rcases hd with rfl | rfl <;> cases hs
  · rw [droppable, if_neg hr] at hd
    simp only [Bool.and_eq_true, decide_eq_true_eq] at hd
    have he := TokenKind.extendsExpr_of_startsStmt hs hd.1 hd.2
    cases first with
    | bareReturn word => exact absurd (congrArg some word.kind_eq) hr
    | blockClause => trivial
    | _ => exact he

section
variable {first : Derivation .clause} {others : Derivation .statements}

theorem sheds_open (hf : Sheds first.tokens (Nonterminal.clause.Derives first.tree))
    (ho : Sheds others.tokens (Nonterminal.statements.Derives others.tree))
    (hb : ∀ t ∈ others.tokens.head?, t.kind ≠ .semicolon ∧ first.Before t.kind) :
    Sheds (statement first none others).tokens
      (Nonterminal.statements.Derives (statement first none others).tree) := by
  apply hf.append
  rintro vs ⟨d, hd, ht, rfl⟩
  apply ho.imp
  rintro ws ⟨ds, hds, hts, rfl⟩ hh
  refine ⟨statement d none ds, ⟨hd, hds, ?_⟩, congrArg₂ _ ht hts, rfl⟩
  intro t htok
  rw [hh] at htok
  exact ⟨(hb t htok).1, before_of_tree_eq ht (hb t htok).2⟩

theorem sheds_ended (hf : Sheds first.tokens (Nonterminal.clause.Derives first.tree))
    (semicolon : Mark .semicolon)
    (ho : Sheds others.tokens (Nonterminal.statements.Derives others.tree)) :
    Sheds (statement first (some semicolon) others).tokens
      (Nonterminal.statements.Derives (statement first (some semicolon) others).tree) := by
  intro front rest us h
  simp only [tokens, List.append_assoc, List.cons_append] at h
  obtain ⟨_, us, rfl, ⟨d, hd, ht, rfl⟩, hh, hs⟩ := hf h
  obtain ⟨us, hdrop, hus⟩ := hs.of_semicolon
  obtain ⟨_, us, rfl, ⟨ds, hds, hts, rfl⟩, ho', hr⟩ := ho hdrop
  have htree : (statement first (some semicolon) others).tree = d.tree :: ds.tree :=
    (congrArg₂ List.cons ht hts).symm
  have hlast : Drops (lastKind front (statement first (some semicolon) others).tokens) rest us := by
    simpa [tokens, lastKind_append, lastKind] using hr
  have hhead (xs ys : List Token) : (d.tokens ++ xs).head? = (first.tokens ++ ys).head? := by
    rw [List.head?_append_of_ne_nil _ (d.tokens_ne_nil rfl),
      List.head?_append_of_ne_nil _ (first.tokens_ne_nil rfl), hh]
  rcases hus with rfl | ⟨rfl, hmay⟩
  · have hd' : (statement d (some semicolon) ds).Bounded := ⟨hd, hds⟩
    refine ⟨_, us, ?_, ⟨_, hd', htree.symm, rfl⟩, hhead _ _, hlast⟩
    simp [tokens]
  · refine ⟨_, us, ?_, ⟨statement d none ds, ⟨hd, hds, ?_⟩, htree.symm, rfl⟩, hhead _ _, hlast⟩
    · simp [tokens]
    · intro t htok
      rw [ho'] at htok
      obtain ⟨ts, hts⟩ := List.head?_eq_some_iff.mp htok
      have hstart := others.starts_of_tokens_eq hts
      refine ⟨?_, before_of_tree_eq ht (before_of_droppable hstart (hmay t (by simp [hts])))⟩
      rintro hk
      rw [hk] at hstart
      cases hstart

end

theorem sheds {n : Nonterminal} (d : Derivation n) (hb : d.Bounded) :
    Sheds d.tokens (n.Derives d.tree) := by
  induction d with
  | program body finish ih =>
    apply (ih hb).append
    rintro _ ⟨d, hd, ht, rfl⟩
    exact .cons (by simp) (.nil ⟨program d finish, hd, ht, rfl⟩)
  | noStatements => exact .nil ⟨noStatements, hb, rfl, rfl⟩
  | statement first semicolon others ihf iho =>
    cases semicolon with
    | none => exact sheds_open (ihf hb.1) (iho hb.2.1) hb.2.2
    | some semicolon => exact sheds_ended (ihf hb.1) semicolon (iho hb.2)
  | binding word bound assign value ih =>
    apply Sheds.cons (by simp)
    apply Sheds.cons (by simp)
    apply Sheds.cons (by simp)
    apply (ih hb).imp
    rintro _ ⟨d, hd, ht, rfl⟩ _
    exact ⟨binding word bound assign d, hd, congrArg (Stmt.binding _) ht, rfl⟩
  | bareReturn word => exact .cons (by simp) (.nil ⟨bareReturn word, hb, rfl, rfl⟩)
  | valueReturn word value ih =>
    apply Sheds.cons (by simp)
    apply (ih hb).imp
    rintro _ ⟨d, hd, ht, rfl⟩ _
    exact ⟨valueReturn word d, hd, congrArg (fun x => Stmt.ret (some x)) ht, rfl⟩
  | blockClause body ih =>
    apply (ih hb).imp
    rintro _ ⟨d, hd, ht, rfl⟩ _
    exact ⟨blockClause d, hd, congrArg Stmt.block ht, rfl⟩
  | exprClause value ih =>
    apply (ih hb).imp
    rintro _ ⟨d, hd, ht, rfl⟩ _
    exact ⟨exprClause d, hd, congrArg Stmt.expr ht, rfl⟩
  | block opening body closing ih =>
    apply Sheds.cons (by simp)
    apply (ih hb).append
    rintro _ ⟨d, hd, ht, rfl⟩
    exact .cons (by simp) (.nil ⟨block opening d closing, hd, ht, rfl⟩)
  | chain first others ihf iho =>
    apply (ihf hb.1).append
    rintro _ ⟨d, hd, ht, rfl⟩
    apply (iho hb.2).imp
    rintro _ ⟨ds, hds, hts, rfl⟩ _
    exact ⟨chain d ds, ⟨hd, hds⟩, by simp only [tree, ht, hts], rfl⟩
  | noOperations => exact .nil ⟨noOperations, hb, rfl, rfl⟩
  | @operation l op right others ihr iho =>
    have hl : l.has .semicolon = false := by cases l <;> rfl
    apply Sheds.cons (TokenKind.ne_of_accepts hl op.accepted)
    apply (ihr hb.1).append
    rintro _ ⟨d, hd, ht, rfl⟩
    apply (iho hb.2).imp
    rintro _ ⟨ds, hds, hts, rfl⟩ _
    exact ⟨operation op d ds, ⟨hd, hds⟩, by simp only [tree, ht, hts], rfl⟩
  | signed sign operand ih =>
    apply Sheds.cons (TokenKind.ne_of_accepts rfl sign.accepted)
    apply (ih hb).imp
    rintro _ ⟨d, hd, ht, rfl⟩ _
    exact ⟨signed sign d, hd, by simp only [tree, ht], rfl⟩
  | unsigned value ih =>
    apply (ih hb).imp
    rintro _ ⟨d, hd, ht, rfl⟩ _
    exact ⟨unsigned d, hd, ht, rfl⟩
  | called callee others ihc iho =>
    apply (ihc hb.1).append
    rintro _ ⟨d, hd, ht, rfl⟩
    apply (iho hb.2).imp
    rintro _ ⟨ds, hds, hts, rfl⟩ _
    exact ⟨called d ds, ⟨hd, hds⟩, by simp only [tree, ht, hts], rfl⟩
  | noCalls => exact .nil ⟨noCalls, hb, rfl, rfl⟩
  | call opening arguments closing others iha iho =>
    apply Sheds.cons (by simp)
    apply (iha hb.1).append
    rintro _ ⟨d, hd, ht, rfl⟩
    apply Sheds.cons (by simp)
    apply (iho hb.2).imp
    rintro _ ⟨ds, hds, hts, rfl⟩ _
    exact ⟨call opening d closing ds, ⟨hd, hds⟩, by simp only [tree, ht, hts], rfl⟩
  | name leaf => exact .cons (by simp) (.nil ⟨name leaf, hb, rfl, rfl⟩)
  | number leaf => exact .cons (by simp) (.nil ⟨number leaf, hb, rfl, rfl⟩)
  | truth leaf =>
    exact .cons (TokenKind.ne_of_accepts rfl leaf.accepted) (.nil ⟨truth leaf, hb, rfl, rfl⟩)
  | group opening value closing ih =>
    apply Sheds.cons (by simp)
    apply (ih hb).append
    rintro _ ⟨d, hd, ht, rfl⟩
    exact .cons (by simp) (.nil ⟨group opening d closing, hd, ht, rfl⟩)
  | conditional word opening condition closing consequence other ihc ihb iho =>
    apply Sheds.cons (by simp)
    apply Sheds.cons (by simp)
    apply (ihc hb.1).append
    rintro _ ⟨dc, hdc, htc, rfl⟩
    apply Sheds.cons (by simp)
    apply (ihb hb.2.1).append
    rintro _ ⟨db, hdb, htb, rfl⟩
    apply (iho hb.2.2).imp
    rintro _ ⟨de, hde, hte, rfl⟩ _
    exact ⟨conditional word opening dc closing db de, ⟨hdc, hdb, hde⟩,
      by simp only [tree, htc, htb, hte], rfl⟩
  | function word opening parameters closing body ihp ihb =>
    apply Sheds.cons (by simp)
    apply Sheds.cons (by simp)
    apply (ihp hb.1).append
    rintro _ ⟨dp, hdp, htp, rfl⟩
    apply Sheds.cons (by simp)
    apply (ihb hb.2).imp
    rintro _ ⟨db, hdb, htb, rfl⟩ _
    exact ⟨function word opening dp closing db, ⟨hdp, hdb⟩, by simp only [tree, htp, htb], rfl⟩
  | noAlternative => exact .nil ⟨noAlternative, hb, rfl, rfl⟩
  | alternative word body ih =>
    apply Sheds.cons (by simp)
    apply (ih hb).imp
    rintro _ ⟨d, hd, ht, rfl⟩ _
    exact ⟨alternative word d, hd, congrArg some ht, rfl⟩
  | parameter leaf => exact .cons (by simp) (.nil ⟨parameter leaf, hb, rfl, rfl⟩)
  | noItems => exact .nil ⟨noItems, hb, rfl, rfl⟩
  | items hn first others ihf iho =>
    apply (ihf hb.1).append
    rintro _ ⟨d, hd, ht, rfl⟩
    apply (iho hb.2).imp
    rintro _ ⟨ds, hds, hts, rfl⟩ _
    exact ⟨items hn d ds, ⟨hd, hds⟩, congrArg₂ _ ht hts, rfl⟩
  | noMore => exact .nil ⟨noMore, hb, rfl, rfl⟩
  | next hn comma item others ihi iho =>
    apply Sheds.cons (by simp)
    apply (ihi hb.1).append
    rintro _ ⟨d, hd, ht, rfl⟩
    apply (iho hb.2).imp
    rintro _ ⟨ds, hds, hts, rfl⟩ _
    exact ⟨next hn comma d ds, ⟨hd, hds⟩, congrArg₂ _ ht hts, rfl⟩

end Derivation

/-- Where a statement would start: at the beginning, and behind a semicolon or an opening brace. -/
def AtStart (front : Option TokenKind) : Prop :=
  ∀ k ∈ front, k = .semicolon ∨ k = .openBrace

theorem AtStart.not_firm {front : Option TokenKind} (h : AtStart front) : ¬ Firm front := by
  rintro ⟨k, rfl, _, hs, hb⟩
  exact (h k rfl).elim hs hb

theorem AtStart.eq_noExpression {front : Option TokenKind} (h : AtStart front) {t : Token}
    (ht : t.kind ≠ .endOfInput) {problem : Problem} (hb : problem.Blames t)
    (hs : problem.Suits front) : problem = .noExpression t.found := by
  cases problem with
  | noExpression found => exact congrArg _ hb
  | unexpectedToken expected found => exact absurd hs h.not_firm
  | unexpectedEnd expected => exact absurd hb ht
  | missingOperand op found =>
    obtain ⟨k, hk, ho, _⟩ := hs
    rcases h k hk with rfl | rfl <;> cases ho
  | _ => cases hb

/-- A complete tree stays the same whichever of its semicolons are left out, each where it may be.
A semicolon where a statement would start is where the parser stops. Only the bound on the levels
can keep it from either. -/
theorem semicolons_optional :
    (∀ program : Program, (∀ s ∈ program, s.Complete .any) →
      (∃ ts, Stmt.GroupedList program ts) ∧
      ∀ (ts us : List Token) (finish : Mark .endOfInput), Stmt.GroupedList program ts →
        Drops none (ts ++ [finish.token]) us →
          (Program.ofTokens us = .ok program ∨
            Program.ofTokens us = .error (.problem .nestingTooDeepToParse)) ∧
          (∀ levels, us.length ≤ levels →
            ((programWithin levels).run (.ofTokens us)).1 = .ok program) ∧
          ∀ text, tokenize text = .ok us → Program.ofText text = Program.ofTokens us) ∧
    ∀ (read : List Token) (semicolon : Mark .semicolon), Begins .program read →
      AtStart (lastKind none read) → ∀ (levels : Nat) (more : Source),
        let s : TokenStream :=
          ⟨⟨read ++ semicolon.token :: more.tokens, more.fault⟩, none⟩
        (programWithin levels).run s =
            (.error (.problem (.noExpression "';'")), ⟨more, some semicolon.token⟩) ∨
          levels < read.length + 2 ∧
            ((programWithin levels).run s).1 = .error (.problem .nestingTooDeepToParse) := by
  constructor
  · intro program h
    refine ⟨exists_groupedList fun s hs => (h s hs).exists_grouped, ?_⟩
    intro ts us finish hts hdrop
    obtain ⟨body, hb, rfl, rfl⟩ := hts.derives
    rw [← List.append_nil (body.tokens ++ [finish.token])] at hdrop
    obtain ⟨_, ws, rfl, ⟨d, hd, ht, rfl⟩, _, hnil⟩ :=
      (Derivation.program body finish).sheds hb hdrop
    cases hnil
    rw [List.append_nil]
    have hr (levels : Nat) := run_of_derivation levels (s := .ofTokens d.tokens) d hd rfl rfl
    simp only [ht] at hr
    refine ⟨(hr maxLevels).imp_right And.right, ?_, ?_⟩
    · intro levels hl
      exact (hr levels).resolve_right fun hlt => Nat.not_lt_of_le hl hlt.1
    · intro text htext
      obtain ⟨hf, htokens⟩ := of_tokenize htext
      rw [Program.ofText, TokenStream.ofText_eq_ofTokens hf, htokens]
      rfl
  · intro read semicolon hb hfront levels more
    have ht : semicolon.token.kind ≠ .endOfInput := by simp
    have hl : lastKind none read ≠ some .endOfInput := by
      intro he
      rcases hfront _ he with hk | hk <;> cases hk
    have hj : ¬ Joins (lastKind none read) semicolon.token.kind :=
      fun hj => hfront.not_firm (hj.semicolon semicolon.kind_eq)
    rcases stops_at hb hl ht hj levels with ⟨problem, hblame, hsuits, hrun⟩ | ⟨hlt, hrun⟩
    · left
      rw [hfront.eq_noExpression ht hblame hsuits] at hrun
      have hfound : semicolon.token.found = "';'" := by
        rw [Token.found, semicolon.kind_eq]
        rfl
      rw [← hfound]
      exact hrun more
    · exact .inr ⟨hlt, hrun more⟩

/-- In `{ let a = 1 return } -a` a block stands in front of a minus. In `{ ;` no statement ends. -/
theorem semicolons_optional_block :
    let program : Program :=
      [.block [.binding (some "a") (.number (some 1)), .ret none],
        .expr (.unary .minus (some (.name (some "a"))))]
    let ts : List Token :=
      [.sample .openBrace, .sample .letWord, nameToken "a", .sample .assign, numeralToken 1,
        .sample .semicolon, .sample .returnWord, .sample .semicolon, .sample .closeBrace,
        .sample .minus, nameToken "a", .sample .semicolon]
    let us : List Token :=
      [.sample .openBrace, .sample .letWord, nameToken "a", .sample .assign, numeralToken 1,
        .sample .returnWord, .sample .closeBrace, .sample .minus, nameToken "a", .endOfInput]
    ((∀ s ∈ program, s.Complete .any) ∧ Stmt.GroupedList program ts ∧
        Drops none (ts ++ [.endOfInput]) us ∧ Program.ofTokens us = .ok program) ∧
      Begins .program [.sample .openBrace] ∧ AtStart (lastKind none [.sample .openBrace]) ∧
        Program.ofTokens [.sample .openBrace, .sample .semicolon] =
          .error (.problem (.noExpression "';'")) := by
  intro program ts us
  have hsign : TokenKind.minus.isSign = true := rfl
  have hc : ∀ s ∈ program, s.Complete .any := by
    intro s hs
    rcases List.mem_pair.mp hs with rfl | rfl
    · apply Stmt.Complete.block
      intro s hs
      rcases List.mem_pair.mp hs with rfl | rfl
      · exact .binding trivial (.number trivial)
      · exact .bareReturn
    · exact .expr (.unary hsign (.name trivial))
  have hname : Expr.Grouped .signed (.name (some "a")) [nameToken "a"] :=
    .bare nofun (.name ⟨nameToken "a", rfl⟩)
  have hnumber : Expr.Grouped .free (.number (some 1)) [numeralToken 1] :=
    .bare nofun (.number ⟨numeralToken 1, rfl⟩)
  have hbinding := Stmt.Grouped.binding (.sample .letWord) ⟨nameToken "a", rfl⟩ (.sample .assign)
    hnumber (.sample .semicolon)
  have hreturn := Stmt.Grouped.bareReturn (.sample .returnWord) (.sample .semicolon)
  have hblock := Stmt.Grouped.block
    (.mk (.sample .openBrace) (.cons hbinding (.cons hreturn .nil)) (.sample .closeBrace))
  have hexpr := Stmt.Grouped.expr (.bare nofun (.unary (.sample hsign) hname)) (.sample .semicolon)
  have hts : Stmt.GroupedList program ts := .cons hblock (.cons hexpr .nil)
  have hdrop : Drops none (ts ++ [.endOfInput]) us :=
    .keep <| .keep <| .keep <| .keep <| .keep <| .drop (.sample .semicolon) (by decide) <|
      .keep <| .drop (.sample .semicolon) (by decide) <|
      .keep <| .keep <| .keep <| .drop (.sample .semicolon) (by decide) <| .keep .nil
  let block := Derivation.block (.sample .openBrace) noStatements (.sample .closeBrace)
  have hbegins : Begins .program [.sample .openBrace] :=
    ⟨.program (statement (blockClause block) none noStatements) (.sample .endOfInput),
      ⟨trivial, trivial, nofun⟩, _, rfl⟩
  have hstart : AtStart (lastKind none [.sample .openBrace]) :=
    fun _ hk => .inr (Option.some.inj hk).symm
  have hread := (semicolons_optional.1 program hc).2 ts us ⟨.endOfInput, rfl⟩ hts hdrop
  have hstop :=
    semicolons_optional.2 _ (.sample .semicolon) hbegins hstart maxLevels { tokens := [] }
  have hlevels : ¬ maxLevels < 1 + 2 := by decide
  exact ⟨⟨hc, hts, hdrop, hread.2.1 maxLevels (by decide)⟩, hbegins, hstart,
    congrArg Prod.fst (hstop.resolve_right fun hlt => hlevels hlt.1)⟩

end ExprLang
