import Mathlib.Data.List.Forall2
import ExprLang.Proofs.LexicalGrammar
import ExprLang.Proofs.ParsedPrograms

/-!
The contents of a text: its tokens by kind and payload, without parentheses and semicolons. They can
be read off the tree, in the same order, so the parser loses nothing, doubles nothing and moves
nothing, and a rendering has the contents of the text that was parsed.
-/

namespace ExprLang

open ExprLang.Parser TokenStream

def TokenKind.groups (kind : TokenKind) : Bool :=
  kind = openParen || kind = closeParen || kind = semicolon

abbrev Content := TokenKind × Payload

def contents (ts : List Token) : List Content :=
  (ts.filter (!·.kind.groups)).map fun t => (t.kind, t.payload)

def TokenKind.content (kind : TokenKind) : Content :=
  (kind, .absent)

def nameContent (name : Option String) : Content :=
  (.name, name.elim .absent .text)

def numberContent (value : Option Int) : Content :=
  (.number, value.elim .absent .number)

def listContents : List (List Content) → List Content
  | [] => []
  | item :: others => item ++ others.flatMap (TokenKind.comma.content :: ·)

def bodyContents (body : List Content) : List Content :=
  TokenKind.openBrace.content :: (body ++ [TokenKind.closeBrace.content])

mutual
/-- The contents of the tokens from which a tree is built. -/
def Expr.contents : Expr → List Content
  | .name text => [nameContent text]
  | .number value => [numberContent value]
  | .truth value => [(if value then TokenKind.trueWord else .falseWord).content]
  | .unary op operand => op.content :: Expr.contentsOption operand
  | .binary op left right => left.contents ++ op.content :: Expr.contentsOption right
  | .conditional condition consequence alternative =>
    TokenKind.ifWord.content :: (condition.contents ++
      (bodyContents (Stmt.contentsList consequence) ++ Stmt.contentsElse alternative))
  | .function parameters body =>
    TokenKind.fnWord.content :: (listContents (parameters.map ([nameContent ·])) ++
      bodyContents (Stmt.contentsList body))
  | .call callee arguments => callee.contents ++ listContents (Expr.contentsEach arguments)

def Stmt.contents : Stmt → List Content
  | .binding name value =>
    TokenKind.letWord.content :: nameContent name :: TokenKind.assign.content :: value.contents
  | .ret value => TokenKind.returnWord.content :: Expr.contentsOption value
  | .expr value => value.contents
  | .block body => bodyContents (Stmt.contentsList body)

def Expr.contentsOption : Option Expr → List Content
  | none => []
  | some e => e.contents

def Expr.contentsEach : List Expr → List (List Content)
  | [] => []
  | e :: es => e.contents :: Expr.contentsEach es

def Stmt.contentsList : List Stmt → List Content
  | [] => []
  | s :: ss => s.contents ++ Stmt.contentsList ss

def Stmt.contentsElse : Option (List Stmt) → List Content
  | none => []
  | some body => TokenKind.elseWord.content :: bodyContents (Stmt.contentsList body)
end

/-- The contents of the tokens of a derived part. What extends an expression adds its contents
behind those of the expression. -/
def Nonterminal.Contains : (n : Nonterminal) → n.Tree → List Content → Prop
  | program, ss, cs => cs = Stmt.contentsList ss ++ [TokenKind.endOfInput.content]
  | statements, ss, cs => cs = Stmt.contentsList ss
  | clause, s, cs => cs = s.contents
  | block, ss, cs => cs = bodyContents (Stmt.contentsList ss)
  | expr _, e, cs => cs = e.contents
  | operations _, f, cs | calls, f, cs => ∀ e, (f e).contents = e.contents ++ cs
  | alternative, body, cs => cs = Stmt.contentsElse body
  | parameter, name, cs => cs = [nameContent name]
  | list n, xs, cs => ∃ items, List.Forall₂ n.Contains xs items ∧ cs = listContents items
  | more n, xs, cs => ∃ items, List.Forall₂ n.Contains xs items ∧
    cs = items.flatMap (TokenKind.comma.content :: ·)

/-- A token whose payload is what its kind asks for: a text, a value or nothing. -/
def Token.Carries (t : Token) : Prop :=
  t.payload =
    match t.kind with
    | .name => t.text?.elim .absent .text
    | .number => t.number?.elim .absent .number
    | _ => .absent

section
variable {t : Token} {ts us : List Token} {kind : TokenKind}

theorem Token.carries_of_ne (hn : t.kind ≠ .number ∧ t.kind ≠ .name) (h : t.payload = .absent) :
    t.Carries := by
  unfold Carries
  split
  · exact absurd ‹_› hn.2
  · exact absurd ‹_› hn.1
  · exact h

theorem Lexeme.carries {w : List Char} (h : Lexeme w t) : t.Carries := by
  cases h with
  | number => rfl
  | @word c cs hc hcs =>
    cases ho : TokenKind.ofKeyword? (String.ofList (c :: cs)) with
    | none =>
      simp only [wordToken, ho]
      rfl
    | some kind =>
      have hm : kind ∈ TokenKind.keywords := List.mem_of_find?_eq_some ho
      simp only [wordToken, ho]
      refine Token.carries_of_ne ⟨?_, ?_⟩ rfl
      · rintro rfl
        revert hm
        decide
      · rintro rfl
        revert hm
        decide
  | pair h => exact Token.carries_of_ne (pairKind_ne h) rfl
  | single h => exact Token.carries_of_ne (singleKind_ne h) rfl

theorem Pass.carries {text : List Char} (hf : (Pass.over text).fault = none) :
    ∀ t ∈ (Pass.over text).tokens, t.Carries := by
  obtain ⟨ps, hps, hts⟩ := exists_cuts hf
  rw [hts]
  intro t ht
  rcases List.mem_append.mp ht with ht | ht
  · obtain ⟨p, hp, rfl⟩ := List.mem_map.mp ht
    exact (hps.lexical p hp).lexeme.carries
  · obtain rfl := List.mem_singleton.mp ht
    rfl

theorem contents_append : contents (ts ++ us) = contents ts ++ contents us := by
  simp [contents]

theorem contents_cons (hk : t.kind.groups = false) :
    contents (t :: ts) = (t.kind, t.payload) :: contents ts := by
  simp [contents, hk]

theorem contents_groups (m : Mark kind) (hk : kind.groups = true) :
    contents (m.token :: ts) = contents ts := by
  simp [contents, hk]

def TokenKind.isPlain (kind : TokenKind) : Bool :=
  !kind.groups && kind ≠ name && kind ≠ number

theorem contents_plain (ht : t.Carries) (hk : t.kind.isPlain = true) :
    contents (t :: ts) = t.kind.content :: contents ts := by
  simp only [TokenKind.isPlain, Bool.and_eq_true, Bool.not_eq_true', decide_eq_true_eq] at hk
  rw [contents_cons hk.1.1, TokenKind.content, ht]
  split
  · exact absurd ‹_› hk.1.2
  · exact absurd ‹_› hk.2
  · rfl

theorem contents_mark (m : Mark kind) (hm : m.token.Carries) (hk : kind.isPlain = true) :
    contents (m.token :: ts) = kind.content :: contents ts := by
  rw [contents_plain hm (by rwa [m.kind_eq]), m.kind_eq]

theorem contents_name (m : Mark .name) (hm : m.token.Carries) :
    contents (m.token :: ts) = nameContent m.token.text? :: contents ts := by
  have hk : m.token.kind.groups = false := by rw [m.kind_eq]; rfl
  rw [contents_cons hk, hm, m.kind_eq]
  rfl

theorem contents_number (m : Mark .number) (hm : m.token.Carries) :
    contents (m.token :: ts) = numberContent m.token.number? :: contents ts := by
  have hk : m.token.kind.groups = false := by rw [m.kind_eq]; rfl
  rw [contents_cons hk, hm, m.kind_eq]
  rfl

theorem isPlain_of_has {l : Layer} (h : l.has kind = true) : kind.isPlain = true := by
  cases l <;> cases kind <;> first | rfl | cases h

theorem isPlain_of_isSign (h : kind.isSign = true) : kind.isPlain = true := by
  cases kind <;> first | rfl | cases h

theorem content_of_isTruth (h : kind.isTruth = true) :
    kind.content = (if kind = .trueWord then TokenKind.trueWord else .falseWord).content := by
  cases kind <;> first | rfl | cases h

theorem isPlain_of_isTruth (h : kind.isTruth = true) : kind.isPlain = true := by
  cases kind <;> first | rfl | cases h

end

theorem Expr.contentsEach_eq {es : List Expr} {items : List (List Content)}
    (h : List.Forall₂ (Nonterminal.expr .loosest).Contains es items) :
    Expr.contentsEach es = items := by
  induction h with
  | nil => rfl
  | cons h _ ih => rw [Expr.contentsEach, ih, h]

theorem parameterContents_eq {names : List (Option String)} {items : List (List Content)}
    (h : List.Forall₂ Nonterminal.parameter.Contains names items) :
    names.map ([nameContent ·]) = items := by
  induction h with
  | nil => rfl
  | cons h _ ih => rw [List.map_cons, ih, h]

namespace Derivation

theorem contents_optional (semicolon : Option (Mark .semicolon)) :
    contents (semicolon.map Leaf.token).toList = [] := by
  cases semicolon with
  | none => rfl
  | some m => exact contents_groups m rfl

theorem contents_tokens {n : Nonterminal} (d : Derivation n) (h : ∀ t ∈ d.tokens, t.Carries) :
    n.Contains d.tree (contents d.tokens) := by
  induction d with
  | program body finish ih =>
    simp only [tokens, List.forall_mem_append, List.forall_mem_singleton] at h
    rw [tokens, contents_append, ih h.1, contents_mark finish h.2 rfl]
    rfl
  | noStatements => rfl
  | statement first semicolon others ih ihs =>
    rw [tokens_statement] at h
    simp only [List.forall_mem_append] at h
    rw [tokens_statement, contents_append, contents_append, contents_optional, List.append_nil,
      ih h.1.1, ihs h.2]
    rfl
  | binding word bound assign value ih =>
    simp only [tokens, List.forall_mem_cons] at h
    rw [tokens, contents_mark word h.1 rfl, contents_name bound h.2.1,
      contents_mark assign h.2.2.1 rfl, ih h.2.2.2]
    rfl
  | bareReturn word =>
    simp only [tokens, List.forall_mem_singleton] at h
    exact contents_mark word h rfl
  | valueReturn word value ih =>
    simp only [tokens, List.forall_mem_cons] at h
    rw [tokens, contents_mark word h.1 rfl, ih h.2]
    rfl
  | blockClause body ih => exact ih h
  | exprClause value ih => exact ih h
  | block opening body closing ih =>
    simp only [tokens, List.forall_mem_cons, List.forall_mem_append] at h
    rw [tokens, contents_mark opening h.1 rfl, contents_append, ih h.2.1,
      contents_mark closing h.2.2.1 rfl]
    rfl
  | chain first others ih ihs =>
    simp only [tokens, List.forall_mem_append] at h
    rw [tokens, contents_append, ih h.1]
    exact (ihs h.2 _).symm
  | noOperations => exact fun e => (List.append_nil _).symm
  | operation op right others ih ihs =>
    simp only [tokens, List.forall_mem_cons, List.forall_mem_append] at h
    intro e
    rw [tokens, contents_plain h.1 (isPlain_of_has op.accepted), contents_append, ih h.2.1, tree,
      ihs h.2.2, Expr.contents, Expr.contentsOption, List.append_assoc, List.cons_append]
  | signed sign operand ih =>
    simp only [tokens, List.forall_mem_cons] at h
    rw [tokens, contents_plain h.1 (isPlain_of_isSign sign.accepted), ih h.2]
    rfl
  | unsigned value ih => exact ih h
  | called callee others ih ihs =>
    simp only [tokens, List.forall_mem_append] at h
    rw [tokens, contents_append, ih h.1]
    exact (ihs h.2 _).symm
  | noCalls => exact fun e => (List.append_nil _).symm
  | call opening arguments closing others ih ihs =>
    simp only [tokens, List.forall_mem_cons, List.forall_mem_append] at h
    obtain ⟨items, hi, hc⟩ := ih h.2.1
    intro e
    rw [tokens, contents_groups opening rfl, contents_append, contents_groups closing rfl, hc, tree,
      ihs h.2.2.2, Expr.contents, Expr.contentsEach_eq hi, List.append_assoc]
  | name leaf => exact contents_name leaf (h _ (List.mem_singleton_self _))
  | number leaf => exact contents_number leaf (h _ (List.mem_singleton_self _))
  | truth leaf =>
    have hl := h _ (List.mem_singleton_self _)
    rw [tokens, contents_plain hl (isPlain_of_isTruth leaf.accepted),
      content_of_isTruth leaf.accepted]
    simp only [Nonterminal.Contains, tree, Expr.contents, decide_eq_true_eq]
    rfl
  | group opening value closing ih =>
    simp only [tokens, List.forall_mem_cons, List.forall_mem_append] at h
    rw [tokens, contents_groups opening rfl, contents_append, contents_groups closing rfl, ih h.2.1]
    exact List.append_nil _
  | conditional word opening condition closing consequence other ihc iht iho =>
    simp only [tokens, List.forall_mem_cons, List.forall_mem_append] at h
    rw [tokens, contents_mark word h.1 rfl, contents_groups opening rfl, contents_append,
      contents_groups closing rfl, contents_append, ihc h.2.2.1, iht h.2.2.2.2.1, iho h.2.2.2.2.2]
    rfl
  | function word opening parameters closing body ihp ihb =>
    simp only [tokens, List.forall_mem_cons, List.forall_mem_append] at h
    obtain ⟨items, hi, hc⟩ := ihp h.2.2.1
    rw [tokens, contents_mark word h.1 rfl, contents_groups opening rfl, contents_append,
      contents_groups closing rfl, hc, ihb h.2.2.2.2, ← parameterContents_eq hi]
    rfl
  | noAlternative => rfl
  | alternative word body ih =>
    simp only [tokens, List.forall_mem_cons] at h
    rw [tokens, contents_mark word h.1 rfl, ih h.2]
    rfl
  | parameter leaf => exact contents_name leaf (h _ (List.mem_singleton_self _))
  | noItems => exact ⟨[], .nil, rfl⟩
  | items hn first others ih ihs =>
    simp only [tokens, List.forall_mem_append] at h
    obtain ⟨items, hi, hc⟩ := ihs h.2
    refine ⟨_ :: items, .cons (ih h.1) hi, ?_⟩
    rw [tokens, contents_append, hc]
    rfl
  | noMore => exact ⟨[], .nil, rfl⟩
  | next hn comma item others ih ihs =>
    simp only [tokens, List.forall_mem_cons, List.forall_mem_append] at h
    obtain ⟨items, hi, hc⟩ := ihs h.2.2
    refine ⟨_ :: items, .cons (ih h.2.1) hi, ?_⟩
    rw [tokens, contents_mark comma h.1 rfl, contents_append, hc]
    rfl

end Derivation

theorem contents_of_tokenize {text : String} {d : Derivation .program}
    (h : tokenize text = .ok d.tokens) :
    contents d.tokens = Stmt.contentsList d.tree ++ [TokenKind.endOfInput.content] := by
  obtain ⟨hf, hts⟩ := of_tokenize h
  exact d.contents_tokens (hts ▸ Pass.carries hf)

theorem tokenize_rendered {program : Program} (h : ∀ s ∈ program, s.WellFormed) :
    ∃ d : Derivation .program, d.tree = program ∧ tokenize program.text = .ok d.tokens := by
  obtain ⟨d, _, rfl, hs⟩ := Program.exists_derivation h
  refine ⟨.program d (.sample .endOfInput), rfl, ?_⟩
  rw [tokenize, hs.over]
  rfl

end ExprLang
