import ExprLang.Parser.Grammar

/-!
Derivations of the grammar, as trees of their own. A derivation has its tokens and the syntax tree
that it builds. Sequences are derived from the left: a layer of binary operators is an operand with
operations behind it, a called expression a primary one with argument lists behind it.

Semicolons are optional, so a list of tokens may be cut into statements in several ways. The
boundary rule (`Derivation.Bounded`) leaves one of them.
-/

namespace ExprLang

@[ext] structure Leaf (accepts : TokenKind → Bool) where
  token : Token
  accepted : accepts token.kind = true

abbrev Mark (kind : TokenKind) : Type := Leaf (· = kind)

theorem Leaf.cons_inj {accepts : TokenKind → Bool} {a b : Leaf accepts} {ts us : List Token}
    (h : a.token :: ts = b.token :: us) : a = b ∧ ts = us := by
  obtain ⟨ht, hr⟩ := List.cons.inj h
  exact ⟨Leaf.ext ht, hr⟩

@[simp] theorem Mark.kind_eq {kind : TokenKind} (m : Mark kind) : m.token.kind = kind :=
  of_decide_eq_true m.accepted

inductive Layer where
  | equality | comparison | sum | product
deriving DecidableEq, Repr

/-- How far an expression holds together without parentheses, from chains of binary operators to
expressions that nothing can pull apart. -/
inductive Grade where
  | binary (layer : Layer) | unary | called | primary
deriving DecidableEq, Repr

abbrev Grade.loosest : Grade := .binary .equality

namespace Layer

def has : Layer → TokenKind → Bool
  | equality, .equal | equality, .notEqual => true
  | comparison, .less | comparison, .greater => true
  | sum, .plus | sum, .minus => true
  | product, .star | product, .slash => true
  | _, _ => false

def operand : Layer → Grade
  | equality => .binary comparison
  | comparison => .binary sum
  | sum => .binary product
  | product => .unary

end Layer

def TokenKind.isSign (kind : TokenKind) : Bool :=
  kind = minus || kind = bang

def TokenKind.isTruth (kind : TokenKind) : Bool :=
  kind = trueWord || kind = falseWord

/-- What can be derived. `operations` and `calls` stand behind an expression and extend it; `list`
and `more` are items with commas between them, `more` the part after the first item. -/
inductive Nonterminal where
  | program | statements | clause | block
  | expr (grade : Grade) | operations (layer : Layer) | calls | alternative
  | parameter | list (item : Nonterminal) | more (item : Nonterminal)
deriving DecidableEq

def Nonterminal.isItem (n : Nonterminal) : Bool :=
  n = .expr .loosest || n = .parameter

/-- The grammar: a constructor for each rule. -/
inductive Derivation : Nonterminal → Type where
  | program (body : Derivation .statements) (finish : Mark .endOfInput) : Derivation .program
  | noStatements : Derivation .statements
  | statement (first : Derivation .clause) (semicolon : Option (Mark .semicolon))
      (others : Derivation .statements) : Derivation .statements
  | binding (word : Mark .letWord) (bound : Mark .name) (assign : Mark .assign)
      (value : Derivation (.expr .loosest)) : Derivation .clause
  | bareReturn (word : Mark .returnWord) : Derivation .clause
  | valueReturn (word : Mark .returnWord) (value : Derivation (.expr .loosest)) : Derivation .clause
  | blockClause (body : Derivation .block) : Derivation .clause
  | exprClause (value : Derivation (.expr .loosest)) : Derivation .clause
  | block (opening : Mark .openBrace) (body : Derivation .statements)
      (closing : Mark .closeBrace) : Derivation .block
  | chain {l : Layer} (first : Derivation (.expr l.operand))
      (others : Derivation (.operations l)) : Derivation (.expr (.binary l))
  | noOperations {l : Layer} : Derivation (.operations l)
  | operation {l : Layer} (op : Leaf l.has) (right : Derivation (.expr l.operand))
      (others : Derivation (.operations l)) : Derivation (.operations l)
  | signed (sign : Leaf TokenKind.isSign) (operand : Derivation (.expr .unary)) :
      Derivation (.expr .unary)
  | unsigned (value : Derivation (.expr .called)) : Derivation (.expr .unary)
  | called (callee : Derivation (.expr .primary)) (others : Derivation .calls) :
      Derivation (.expr .called)
  | noCalls : Derivation .calls
  | call (opening : Mark .openParen) (arguments : Derivation (.list (.expr .loosest)))
      (closing : Mark .closeParen) (others : Derivation .calls) : Derivation .calls
  | name (leaf : Mark .name) : Derivation (.expr .primary)
  | number (leaf : Mark .number) : Derivation (.expr .primary)
  | truth (leaf : Leaf TokenKind.isTruth) : Derivation (.expr .primary)
  | group (opening : Mark .openParen) (value : Derivation (.expr .loosest))
      (closing : Mark .closeParen) : Derivation (.expr .primary)
  | conditional (word : Mark .ifWord) (opening : Mark .openParen)
      (condition : Derivation (.expr .loosest)) (closing : Mark .closeParen)
      (consequence : Derivation .block) (other : Derivation .alternative) :
      Derivation (.expr .primary)
  | function (word : Mark .fnWord) (opening : Mark .openParen)
      (parameters : Derivation (.list .parameter)) (closing : Mark .closeParen)
      (body : Derivation .block) : Derivation (.expr .primary)
  | noAlternative : Derivation .alternative
  | alternative (word : Mark .elseWord) (body : Derivation .block) : Derivation .alternative
  | parameter (leaf : Mark .name) : Derivation .parameter
  | noItems {n : Nonterminal} : Derivation (.list n)
  | items {n : Nonterminal} (hn : n.isItem = true) (first : Derivation n)
      (others : Derivation (.more n)) : Derivation (.list n)
  | noMore {n : Nonterminal} : Derivation (.more n)
  | next {n : Nonterminal} (hn : n.isItem = true) (comma : Mark .comma) (item : Derivation n)
      (others : Derivation (.more n)) : Derivation (.more n)

/-- What a derivation builds: statements and expressions, or what extends an expression. -/
@[reducible] def Nonterminal.Tree : Nonterminal → Type
  | program | statements | block => List Stmt
  | clause => Stmt
  | expr _ => Expr
  | operations _ | calls => Expr → Expr
  | alternative => Option (List Stmt)
  | parameter => Option String
  | list item | more item => List item.Tree

namespace Derivation

def tokens : {n : Nonterminal} → Derivation n → List Token
  | _, program body finish => body.tokens ++ [finish.token]
  | _, noStatements => []
  | _, statement first none others => first.tokens ++ others.tokens
  | _, statement first (some semicolon) others =>
    first.tokens ++ semicolon.token :: others.tokens
  | _, binding word bound assign value =>
    word.token :: bound.token :: assign.token :: value.tokens
  | _, bareReturn word => [word.token]
  | _, valueReturn word value => word.token :: value.tokens
  | _, blockClause body => body.tokens
  | _, exprClause value => value.tokens
  | _, block opening body closing => opening.token :: (body.tokens ++ [closing.token])
  | _, chain first others => first.tokens ++ others.tokens
  | _, noOperations => []
  | _, operation op right others => op.token :: (right.tokens ++ others.tokens)
  | _, signed sign operand => sign.token :: operand.tokens
  | _, unsigned value => value.tokens
  | _, called callee others => callee.tokens ++ others.tokens
  | _, noCalls => []
  | _, call opening arguments closing others =>
    opening.token :: (arguments.tokens ++ closing.token :: others.tokens)
  | _, name leaf => [leaf.token]
  | _, number leaf => [leaf.token]
  | _, truth leaf => [leaf.token]
  | _, group opening value closing => opening.token :: (value.tokens ++ [closing.token])
  | _, conditional word opening condition closing consequence other =>
    word.token :: opening.token ::
      (condition.tokens ++ closing.token :: (consequence.tokens ++ other.tokens))
  | _, function word opening parameters closing body =>
    word.token :: opening.token :: (parameters.tokens ++ closing.token :: body.tokens)
  | _, noAlternative => []
  | _, alternative word body => word.token :: body.tokens
  | _, parameter leaf => [leaf.token]
  | _, noItems => []
  | _, items _ first others => first.tokens ++ others.tokens
  | _, noMore => []
  | _, next _ comma item others => comma.token :: (item.tokens ++ others.tokens)

/-- The syntax tree. Groups leave no trace in it. -/
def tree : {n : Nonterminal} → Derivation n → n.Tree
  | _, program body _ => body.tree
  | _, noStatements => ([] : List Stmt)
  | _, statement first _ others => (first.tree :: others.tree : List Stmt)
  | _, binding _ bound _ value => Stmt.binding bound.token.text? value.tree
  | _, bareReturn _ => Stmt.ret none
  | _, valueReturn _ value => Stmt.ret (some value.tree)
  | _, blockClause body => Stmt.block body.tree
  | _, exprClause value => Stmt.expr value.tree
  | _, block _ body _ => body.tree
  | _, chain first others => others.tree first.tree
  | _, noOperations => fun left => left
  | _, operation op right others =>
    fun left => others.tree (Expr.binary op.token.kind left (some right.tree))
  | _, signed sign operand => Expr.unary sign.token.kind (some operand.tree)
  | _, unsigned value => value.tree
  | _, called callee others => others.tree callee.tree
  | _, noCalls => fun left => left
  | _, call _ arguments _ others => fun left => others.tree (Expr.call left arguments.tree)
  | _, name leaf => Expr.name leaf.token.text?
  | _, number leaf => Expr.number leaf.token.number?
  | _, truth leaf => Expr.truth (leaf.token.kind = .trueWord)
  | _, group _ value _ => value.tree
  | _, conditional _ _ condition _ consequence other =>
    Expr.conditional condition.tree consequence.tree other.tree
  | _, function _ _ parameters _ body => Expr.function parameters.tree body.tree
  | _, noAlternative => (none : Option (List Stmt))
  | _, alternative _ body => some body.tree
  | _, parameter leaf => leaf.token.text?
  | _, noItems (n := n) => ([] : List n.Tree)
  | _, items (n := n) _ first others => (first.tree :: others.tree : List n.Tree)
  | _, noMore (n := n) => ([] : List n.Tree)
  | _, next (n := n) _ _ item others => (item.tree :: others.tree : List n.Tree)

end Derivation

def TokenKind.extendsExpr (kind : TokenKind) : Bool :=
  kind = openParen || Layer.equality.has kind || Layer.comparison.has kind || Layer.sum.has kind
    || Layer.product.has kind

namespace Derivation

/-- What may stand behind a clause: nothing that makes its last expression longer, and nothing that
starts the value of a bare `return`. -/
def Before : Derivation .clause → TokenKind → Prop
  | binding _ _ _ _, kind | valueReturn _ _, kind | exprClause _, kind => kind.extendsExpr = false
  | bareReturn _, kind => kind.endsReturn = true
  | blockClause _, _ => True

/-- The boundary rule: a clause without a semicolon stands before no semicolon, and before nothing
that belongs to it. What closes a list of statements, a brace or the end of the input, never
does. -/
def Bounded : {n : Nonterminal} → Derivation n → Prop
  | _, program body _ => body.Bounded
  | _, noStatements => True
  | _, statement first none others =>
    first.Bounded ∧ others.Bounded ∧
      ∀ token ∈ others.tokens.head?, token.kind ≠ .semicolon ∧ first.Before token.kind
  | _, statement first (some _) others => first.Bounded ∧ others.Bounded
  | _, binding _ _ _ value => value.Bounded
  | _, bareReturn _ => True
  | _, valueReturn _ value => value.Bounded
  | _, blockClause body => body.Bounded
  | _, exprClause value => value.Bounded
  | _, block _ body _ => body.Bounded
  | _, chain first others => first.Bounded ∧ others.Bounded
  | _, noOperations => True
  | _, operation _ right others => right.Bounded ∧ others.Bounded
  | _, signed _ operand => operand.Bounded
  | _, unsigned value => value.Bounded
  | _, called callee others => callee.Bounded ∧ others.Bounded
  | _, noCalls => True
  | _, call _ arguments _ others => arguments.Bounded ∧ others.Bounded
  | _, name _ | _, number _ | _, truth _ => True
  | _, group _ value _ => value.Bounded
  | _, conditional _ _ condition _ consequence other =>
    condition.Bounded ∧ consequence.Bounded ∧ other.Bounded
  | _, function _ _ parameters _ body => parameters.Bounded ∧ body.Bounded
  | _, noAlternative => True
  | _, alternative _ body => body.Bounded
  | _, parameter _ => True
  | _, noItems => True
  | _, items _ first others => first.Bounded ∧ others.Bounded
  | _, noMore => True
  | _, next _ _ item others => item.Bounded ∧ others.Bounded

end Derivation

end ExprLang
