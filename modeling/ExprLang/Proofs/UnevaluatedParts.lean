import ExprLang.Evaluation
import ExprLang.Proofs.CompleteTrees

/-!
What is not evaluated has no influence. Two programs agree if they differ only in arguments, in
function literals, in bindings, in returned values and in branches that their conditions do not
select. Such programs have the same outcome, whatever these parts are.
-/

namespace ExprLang

open Evaluation

/-- The limits one level further in. -/
def Limits.inside (limits : Limits) : Limits :=
  { limits with levels := limits.levels.map (· - 1) }

theorem Limits.enter_congr {α : Type} {limits : Limits} {f g : Limits → Except Fault α}
    (h : f limits.inside = g limits.inside) : limits.enter f = limits.enter g := by
  obtain ⟨fits, levels⟩ := limits
  cases levels with
  | none => exact h
  | some n =>
    cases n with
    | zero => rfl
    | succ n => exact h

/-- Whether a condition comes out as the given truth value. -/
def Expr.Selects (c : Expr) (limits : Limits) (found : Bool) : Prop :=
  c.eval limits = .ok (some (.boolean found))

mutual
/-- Expressions that are the same wherever evaluation within the limits comes to. -/
inductive Expr.Agrees : Limits → Expr → Expr → Prop where
  | name {limits : Limits} (text : Option String) : Expr.Agrees limits (.name text) (.name text)
  | number {limits : Limits} (value : Option Int) :
      Expr.Agrees limits (.number value) (.number value)
  | truth {limits : Limits} (b : Bool) : Expr.Agrees limits (.truth b) (.truth b)
  | unary {limits : Limits} {op : TokenKind} {x x' : Option Expr}
      (hx : Expr.AgreesOption limits.inside x x') :
      Expr.Agrees limits (.unary op x) (.unary op x')
  | binary {limits : Limits} {op : TokenKind} {x x' : Expr} {y y' : Option Expr}
      (hx : Expr.Agrees limits.inside x x') (hy : Expr.AgreesOption limits.inside y y') :
      Expr.Agrees limits (.binary op x y) (.binary op x' y')
  | conditional {limits : Limits} {c c' : Expr} {t t' : List Stmt} {e e' : Option (List Stmt)}
      (hc : Expr.Agrees limits.inside c c')
      (ht : c.Selects limits.inside true → Stmt.AgreesList limits.inside t t')
      (he : c.Selects limits.inside false → Stmt.AgreesOption limits.inside e e') :
      Expr.Agrees limits (.conditional c t e) (.conditional c' t' e')
  | function {limits : Limits} (ps ps' : List (Option String)) (b b' : List Stmt) :
      Expr.Agrees limits (.function ps b) (.function ps' b')
  | call {limits : Limits} {f f' : Expr} (hf : Expr.Agrees limits.inside f f')
      (as as' : List Expr) : Expr.Agrees limits (.call f as) (.call f' as')

inductive Expr.AgreesOption : Limits → Option Expr → Option Expr → Prop where
  | none {limits : Limits} : Expr.AgreesOption limits none none
  | some {limits : Limits} {x x' : Expr} (hx : Expr.Agrees limits x x') :
      Expr.AgreesOption limits (some x) (some x')

inductive Stmt.Agrees : Limits → Stmt → Stmt → Prop where
  | binding {limits : Limits} (name name' : Option String) (x x' : Expr) :
      Stmt.Agrees limits (.binding name x) (.binding name' x')
  | ret {limits : Limits} (x x' : Option Expr) : Stmt.Agrees limits (.ret x) (.ret x')
  | expr {limits : Limits} {x x' : Expr} (hx : Expr.Agrees limits x x') :
      Stmt.Agrees limits (.expr x) (.expr x')
  | block {limits : Limits} {b b' : List Stmt} (hb : Stmt.AgreesList limits.inside b b') :
      Stmt.Agrees limits (.block b) (.block b')

inductive Stmt.AgreesList : Limits → List Stmt → List Stmt → Prop where
  | nil {limits : Limits} : Stmt.AgreesList limits [] []
  | cons {limits : Limits} {s s' : Stmt} {ss ss' : List Stmt} (hs : Stmt.Agrees limits s s')
      (hss : Stmt.AgreesList limits ss ss') : Stmt.AgreesList limits (s :: ss) (s' :: ss')

inductive Stmt.AgreesOption : Limits → Option (List Stmt) → Option (List Stmt) → Prop where
  | none {limits : Limits} : Stmt.AgreesOption limits none none
  | some {limits : Limits} {b b' : List Stmt} (hb : Stmt.AgreesList limits b b') :
      Stmt.AgreesOption limits (some b) (some b')
end

section
variable {limits : Limits}

theorem agreesOption_refl {x : Option Expr} (h : ∀ e ∈ x, e.Agrees limits e) :
    Expr.AgreesOption limits x x := by
  cases x with
  | none => exact .none
  | some e => exact .some (h e rfl)

theorem agreesList_refl {ss : List Stmt} (h : ∀ s ∈ ss, s.Agrees limits s) :
    Stmt.AgreesList limits ss ss := by
  induction ss with
  | nil => exact .nil
  | cons s ss ih => exact .cons (h s (by simp)) (ih fun s' hs' => h s' (by simp [hs']))

theorem agrees_refl :
    (∀ (e : Expr) (limits : Limits), e.Agrees limits e) ∧
      ∀ (s : Stmt) (limits : Limits), s.Agrees limits s := by
  apply Tree.induct
  case name => exact fun text _ => .name text
  case number => exact fun value _ => .number value
  case truth => exact fun b _ => .truth b
  case unary => exact fun op x hx _ => .unary (agreesOption_refl fun e he => hx e he _)
  case binary =>
    exact fun op x y hx hy _ => .binary (hx _) (agreesOption_refl fun e he => hy e he _)
  case conditional =>
    intro c t e hc ht he limits
    apply Expr.Agrees.conditional (hc _)
    · exact fun _ => agreesList_refl fun s hs => ht s hs _
    · intro _
      cases e with
      | none => exact .none
      | some b => exact .some (agreesList_refl fun s hs => he b rfl s hs _)
  case function => exact fun ps b _ _ => .function ps ps b b
  case call => exact fun f as hf _ _ => .call (hf _) as as
  case binding => exact fun name x _ _ => .binding name name x x
  case ret => exact fun x _ _ => .ret x x
  case expr => exact fun x hx _ => .expr (hx _)
  case block => exact fun b hb _ => .block (agreesList_refl fun s hs => hb s hs _)

end

section
variable {limits : Limits} {op : TokenKind} {x x' : Expr} {y y' : Option Expr}

theorem eval_unary_congr
    (hy : Expr.evalOperand op y limits.inside = Expr.evalOperand op y' limits.inside) :
    (Expr.unary op y).eval limits = (Expr.unary op y').eval limits := by
  apply Limits.enter_congr
  rw [hy]

theorem eval_binary_congr (hx : x.eval limits.inside = x'.eval limits.inside)
    (hy : Expr.evalOperand op y limits.inside = Expr.evalOperand op y' limits.inside) :
    (Expr.binary op x y).eval limits = (Expr.binary op x' y').eval limits := by
  apply Limits.enter_congr
  rw [hx, hy]

theorem eval_call_congr (hx : x.eval limits.inside = x'.eval limits.inside)
    (as as' : List Expr) : (Expr.call x as).eval limits = (Expr.call x' as').eval limits := by
  apply Limits.enter_congr
  rw [hx]

/-- Only the branch that is selected has a part in the outcome. -/
theorem eval_conditional_congr {t t' : List Stmt} {e e' : Option (List Stmt)}
    (hx : x.eval limits.inside = x'.eval limits.inside)
    (ht : x.Selects limits.inside true →
      Stmt.evalList t none limits.inside = Stmt.evalList t' none limits.inside)
    (he : x.Selects limits.inside false →
      Stmt.evalOption e limits.inside = Stmt.evalOption e' limits.inside) :
    (Expr.conditional x t e).eval limits = (Expr.conditional x' t' e').eval limits := by
  apply Limits.enter_congr
  rw [← hx]
  cases hr : x.eval limits.inside with
  | error fault => rfl
  | ok result =>
    cases result with
    | none => rfl
    | some v =>
      cases v with
      | integer n => rfl
      | boolean found =>
        cases found with
        | true => exact ht hr
        | false => exact he hr

theorem eval_block_congr {b b' : List Stmt}
    (hb : Stmt.evalList b none limits.inside = Stmt.evalList b' none limits.inside) :
    (Stmt.block b).eval limits = (Stmt.block b').eval limits :=
  Limits.enter_congr hb

end

mutual
theorem Expr.Agrees.eval_eq :
    {limits : Limits} → {e e' : Expr} → e.Agrees limits e' → e.eval limits = e'.eval limits
  | _, _, _, .name _ | _, _, _, .number _ | _, _, _, .truth _ => rfl
  | _, _, _, .unary hx => eval_unary_congr hx.evalOperand_eq
  | _, _, _, .binary hx hy => eval_binary_congr hx.eval_eq hy.evalOperand_eq
  | _, _, _, .conditional hc ht he => eval_conditional_congr hc.eval_eq
      (fun h => (ht h).evalList_eq) fun h => (he h).evalOption_eq
  | _, _, _, .function _ _ _ _ => rfl
  | _, _, _, .call hf as as' => eval_call_congr hf.eval_eq as as'

theorem Expr.AgreesOption.evalOperand_eq : {limits : Limits} → {op : TokenKind} →
    {x x' : Option Expr} → Expr.AgreesOption limits x x' →
    Expr.evalOperand op x limits = Expr.evalOperand op x' limits
  | _, _, _, _, .none => rfl
  | _, _, _, _, .some hx => by rw [Expr.evalOperand, Expr.evalOperand, hx.eval_eq]

theorem Stmt.Agrees.eval_eq :
    {limits : Limits} → {s s' : Stmt} → s.Agrees limits s' → s.eval limits = s'.eval limits
  | _, _, _, .binding _ _ _ _ | _, _, _, .ret _ _ => rfl
  | _, _, _, .expr hx => hx.eval_eq
  | _, _, _, .block hb => eval_block_congr hb.evalList_eq

theorem Stmt.AgreesList.evalList_eq : {limits : Limits} → {ss ss' : List Stmt} →
    {result : Option Value} → Stmt.AgreesList limits ss ss' →
    Stmt.evalList ss result limits = Stmt.evalList ss' result limits
  | _, _, _, _, .nil => rfl
  | _, _, _, _, .cons hs hss => by
    rw [Stmt.evalList, Stmt.evalList, hs.eval_eq]
    exact bind_congr fun r => hss.evalList_eq

theorem Stmt.AgreesOption.evalOption_eq : {limits : Limits} → {e e' : Option (List Stmt)} →
    Stmt.AgreesOption limits e e' → Stmt.evalOption e limits = Stmt.evalOption e' limits
  | _, _, _, .none => rfl
  | _, _, _, .some hb => hb.evalList_eq
end

/-- Programs that differ only in what is not evaluated have the same outcome. -/
theorem unevaluated_never_matters {limits : Limits} {program program' : Program}
    (h : Stmt.AgreesList limits program program') :
    program.evalWithin limits = program'.evalWithin limits :=
  h.evalList_eq

/-- A branch with an operand that is missing and a product that does not fit, and no branch. -/
theorem unevaluated_never_matters_branch :
    let lesser : Expr := .binary .less (.number (some 1)) (some (.number (some 2)))
    let program (e : Option (List Stmt)) : Program := [.expr (.binary .plus (.number (some 1))
      (some (.conditional lesser [.expr (.number (some 10))] e)))]
    let big : Expr := .number (some maxInteger)
    let dead : List Stmt := [.expr (.unary .minus none), .expr (.binary .star big (some big))]
    Stmt.AgreesList .standard (program (some dead)) (program none) ∧
      (program (some dead)).eval = .ok (some (.integer 11)) := by
  intro lesser program big dead
  have h : Stmt.AgreesList .standard (program (some dead)) (program none) := by
    refine .cons (.expr (.binary (.number _) (.some ?_))) .nil
    apply Expr.Agrees.conditional (agrees_refl.1 _ _)
    · exact fun _ => agreesList_refl fun s _ => agrees_refl.2 s _
    · intro hs
      have hl : lesser.Selects Limits.standard.inside.inside.inside true := rfl
      cases hl.symm.trans hs
  exact ⟨h, unevaluated_never_matters h⟩

end ExprLang
