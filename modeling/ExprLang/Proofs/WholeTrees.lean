import ExprLang.Proofs.RenderedPrograms
import ExprLang.Proofs.ScannedTokens

/-!
Whole trees: those without a missing operand, whose operators are operators of the language. What
is derived is whole, and its names and numbers are those of the tokens, which may be any. Scanned
tokens make it well-formed.
-/

namespace ExprLang

/-- What may stand for a name and for a number in a tree. -/
structure Vocabulary where
  name : Option String → Prop
  number : Option Int → Prop

mutual
inductive Expr.Whole (words : Vocabulary) : Expr → Prop where
  | name {text : Option String} (hw : words.name text) : Expr.Whole words (.name text)
  | number {value : Option Int} (hn : words.number value) : Expr.Whole words (.number value)
  | truth (b : Bool) : Expr.Whole words (.truth b)
  | unary {op : TokenKind} {x : Expr} (hop : op.isSign = true) (hx : Expr.Whole words x) :
      Expr.Whole words (.unary op (some x))
  | binary {op : TokenKind} {x y : Expr} {l : Layer} (hop : l.has op = true)
      (hx : Expr.Whole words x) (hy : Expr.Whole words y) :
      Expr.Whole words (.binary op x (some y))
  | conditional {c : Expr} {b : List Stmt} {e : Option (List Stmt)} (hc : Expr.Whole words c)
      (hb : ∀ s ∈ b, Stmt.Whole words s) (he : ∀ b' ∈ e, ∀ s ∈ b', Stmt.Whole words s) :
      Expr.Whole words (.conditional c b e)
  | function {ps : List (Option String)} {b : List Stmt} (hp : ∀ p ∈ ps, words.name p)
      (hb : ∀ s ∈ b, Stmt.Whole words s) : Expr.Whole words (.function ps b)
  | call {f : Expr} {as : List Expr} (hf : Expr.Whole words f)
      (ha : ∀ a ∈ as, Expr.Whole words a) : Expr.Whole words (.call f as)

inductive Stmt.Whole (words : Vocabulary) : Stmt → Prop where
  | binding {text : Option String} {x : Expr} (hw : words.name text) (hx : Expr.Whole words x) :
      Stmt.Whole words (.binding text x)
  | bareReturn : Stmt.Whole words (.ret none)
  | valueReturn {x : Expr} (hx : Expr.Whole words x) : Stmt.Whole words (.ret (some x))
  | expr {x : Expr} (hx : Expr.Whole words x) : Stmt.Whole words (.expr x)
  | block {b : List Stmt} (hb : ∀ s ∈ b, Stmt.Whole words s) : Stmt.Whole words (.block b)
end

namespace Vocabulary

/-- What the names and the numbers among some tokens carry. -/
def ofTokens (ts : List Token) : Vocabulary :=
  { name := fun text => ∃ t ∈ ts, t.kind = .name ∧ t.text? = text
    number := fun value => ∃ t ∈ ts, t.kind = .number ∧ t.number? = value }

variable {ts us : List Token}

theorem name_ofTokens (leaf : Mark .name) (h : leaf.token ∈ ts) :
    (ofTokens ts).name leaf.token.text? :=
  ⟨leaf.token, h, leaf.kind_eq, rfl⟩

theorem number_ofTokens (leaf : Mark .number) (h : leaf.token ∈ ts) :
    (ofTokens ts).number leaf.token.number? :=
  ⟨leaf.token, h, leaf.kind_eq, rfl⟩

end Vocabulary

/-- What is derived is whole; what extends an expression keeps it whole. -/
def Nonterminal.Whole (words : Vocabulary) : (n : Nonterminal) → n.Tree → Prop
  | program, ss | statements, ss | block, ss => ∀ s ∈ ss, Stmt.Whole words s
  | clause, s => Stmt.Whole words s
  | expr _, e => Expr.Whole words e
  | operations _, f | calls, f => ∀ e, Expr.Whole words e → Expr.Whole words (f e)
  | alternative, e => ∀ b, e = some b → ∀ s ∈ b, Stmt.Whole words s
  | parameter, p => words.name p
  | list n, xs | more n, xs => ∀ x ∈ xs, n.Whole words x

theorem Derivation.whole {ts : List Token} {n : Nonterminal} (d : Derivation n)
    (h : ∀ t ∈ d.tokens, t ∈ ts) : n.Whole (.ofTokens ts) d.tree := by
  induction d with
  | program body finish ih => exact ih fun t ht => h t (List.mem_append_left _ ht)
  | noStatements => exact List.forall_mem_nil _
  | statement first semicolon others ih ihs =>
    rw [tokens_statement] at h
    simp only [List.forall_mem_append] at h
    exact List.forall_mem_cons.mpr ⟨ih h.1.1, ihs h.2⟩
  | binding word bound assign value ih =>
    simp only [tokens, List.forall_mem_cons] at h
    exact .binding (Vocabulary.name_ofTokens bound h.2.1) (ih h.2.2.2)
  | bareReturn word => exact .bareReturn
  | valueReturn word value ih =>
    exact .valueReturn (ih fun t ht => h t (List.mem_cons_of_mem _ ht))
  | blockClause body ih => exact .block (ih h)
  | exprClause value ih => exact .expr (ih h)
  | block opening body closing ih =>
    simp only [tokens, List.forall_mem_cons, List.forall_mem_append] at h
    exact ih h.2.1
  | chain first others ih ihs =>
    simp only [tokens, List.forall_mem_append] at h
    exact ihs h.2 _ (ih h.1)
  | noOperations => exact fun _ he => he
  | operation op right others ih ihs =>
    simp only [tokens, List.forall_mem_cons, List.forall_mem_append] at h
    exact fun e he => ihs h.2.2 _ (.binary op.accepted he (ih h.2.1))
  | signed sign operand ih =>
    exact .unary sign.accepted (ih fun t ht => h t (List.mem_cons_of_mem _ ht))
  | unsigned value ih => exact ih h
  | called callee others ih ihs =>
    simp only [tokens, List.forall_mem_append] at h
    exact ihs h.2 _ (ih h.1)
  | noCalls => exact fun _ he => he
  | call opening arguments closing others ih ihs =>
    simp only [tokens, List.forall_mem_cons, List.forall_mem_append] at h
    exact fun e he => ihs h.2.2.2 _ (.call he (ih h.2.1))
  | name leaf => exact .name (Vocabulary.name_ofTokens leaf (h _ (List.mem_singleton_self _)))
  | number leaf => exact .number (Vocabulary.number_ofTokens leaf (h _ (List.mem_singleton_self _)))
  | truth leaf => exact .truth _
  | group opening value closing ih =>
    simp only [tokens, List.forall_mem_cons, List.forall_mem_append] at h
    exact ih h.2.1
  | conditional word opening condition closing consequence other ihc iht iho =>
    simp only [tokens, List.forall_mem_cons, List.forall_mem_append] at h
    exact .conditional (ihc h.2.2.1) (iht h.2.2.2.2.1) (iho h.2.2.2.2.2)
  | function word opening parameters closing body ihp ihb =>
    simp only [tokens, List.forall_mem_cons, List.forall_mem_append] at h
    exact .function (ihp h.2.2.1) (ihb h.2.2.2.2)
  | noAlternative =>
    intro b hb
    cases hb
  | alternative word body ih =>
    intro b hb
    obtain rfl := Option.some.inj hb
    exact ih fun t ht => h t (List.mem_cons_of_mem _ ht)
  | parameter leaf => exact Vocabulary.name_ofTokens leaf (h _ (List.mem_singleton_self _))
  | noItems => exact List.forall_mem_nil _
  | items hn first others ih ihs =>
    simp only [tokens, List.forall_mem_append] at h
    exact List.forall_mem_cons.mpr ⟨ih h.1, ihs h.2⟩
  | noMore => exact List.forall_mem_nil _
  | next hn comma item others ih ihs =>
    simp only [tokens, List.forall_mem_cons, List.forall_mem_append] at h
    exact List.forall_mem_cons.mpr ⟨ih h.2.1, ihs h.2.2⟩

section
variable {ts : List Token} (h : ∀ t ∈ ts, t.Scanned)
include h

theorem Vocabulary.isName_of_scanned {text : Option String} (ht : (ofTokens ts).name text) :
    ∃ word, text = some word ∧ IsName word := by
  obtain ⟨t, hm, hk, rfl⟩ := ht
  exact (h t hm).name hk

theorem Vocabulary.natural_of_scanned {value : Option Int} (hv : (ofTokens ts).number value) :
    ∃ n : Nat, value = some (n : Int) ∧ n ≤ maxInteger := by
  obtain ⟨t, hm, hk, rfl⟩ := hv
  exact (h t hm).number hk

mutual
theorem Expr.Whole.wellFormed : {e : Expr} → e.Whole (.ofTokens ts) → e.WellFormed
  | _, .name ht => by
    obtain ⟨word, rfl, hw⟩ := Vocabulary.isName_of_scanned h ht
    exact .name hw
  | _, .number hv => by
    obtain ⟨n, rfl, hn⟩ := Vocabulary.natural_of_scanned h hv
    exact .number (Int.natCast_nonneg n) (Int.ofNat_le.mpr hn)
  | _, .truth b => .truth b
  | _, .unary hop hx => .unary hop hx.wellFormed
  | _, .binary hop hx hy => .binary hop hx.wellFormed hy.wellFormed
  | _, .conditional hc hb he => .conditional hc.wellFormed (fun s hs => (hb s hs).wellFormed)
      fun b' hb' s hs => (he b' hb' s hs).wellFormed
  | _, .function hp hb => .function (fun p hm => Vocabulary.isName_of_scanned h (hp p hm))
      fun s hs => (hb s hs).wellFormed
  | _, .call hf ha => .call hf.wellFormed fun a has => (ha a has).wellFormed

theorem Stmt.Whole.wellFormed : {s : Stmt} → s.Whole (.ofTokens ts) → s.WellFormed
  | _, .binding ht hx => by
    obtain ⟨word, rfl, hw⟩ := Vocabulary.isName_of_scanned h ht
    exact .binding hw hx.wellFormed
  | _, .bareReturn => .bareReturn
  | _, .valueReturn hx => .valueReturn hx.wellFormed
  | _, .expr hx => .expr hx.wellFormed
  | _, .block hb => .block fun s hs => (hb s hs).wellFormed
end

end

end ExprLang
