import ExprLang.Evaluation
import ExprLang.Proofs.CompleteTrees

/-!
What the evaluation of a complete tree ends in: a result whose integers are literals of the tree or
results that fit, or a problem of names, types, arithmetic or nesting. It never meets an operator
that it does not know, nor an operand that is not there.
-/

namespace ExprLang

/-- The problems that evaluation reports on complete trees. -/
def Fault.OfEvaluation (fault : Fault) : Prop :=
  ∃ problem : Problem, fault = .problem problem ∧
    problem.code ∈ ["E201", "E202", "E203", "E301", "E302", "E303", "E304"]

def Value.Within (P : Int → Prop) : Value → Prop
  | integer n => P n
  | boolean _ => True

def ResultWithin (P : Int → Prop) (result : Option Value) : Prop :=
  ∀ v ∈ result, v.Within P

theorem resultWithin_none (P : Int → Prop) : ResultWithin P none := by
  simp [ResultWithin]

theorem resultWithin_some {P : Int → Prop} {v : Value} (h : v.Within P) :
    ResultWithin P (some v) := by
  simpa [ResultWithin]

theorem TokenKind.symbol?_of_isOperator {op : TokenKind} (h : op.isOperator = true) :
    op.symbol? = some op.symbol := by
  cases op <;> first | rfl | cases h

namespace Evaluation

variable {α β : Type}

def Settles (good : α → Prop) : Except Fault α → Prop
  | .ok a => good a
  | .error fault => fault.OfEvaluation

section
variable {good : α → Prop} {goal : β → Prop}

theorem settles_bind {r : Except Fault α} {f : α → Except Fault β} (hr : Settles good r)
    (hf : ∀ a, good a → Settles goal (f a)) : Settles goal (r >>= f) := by
  cases r with
  | ok a => exact hf a hr
  | error fault => exact hr

theorem settles_enter {limits : Limits} {inside : Limits → Except Fault α}
    (hi : ∀ inner : Limits, inner.fits = limits.fits → Settles good (inside inner)) :
    Settles good (limits.enter inside) := by
  unfold Limits.enter
  split
  · exact hi _ rfl
  · exact ⟨_, rfl, by decide⟩
  · exact hi _ rfl

theorem settles_typeMismatch (detail : String) :
    Settles good (typeMismatch (α := α) detail) :=
  ⟨_, rfl, by simp [Problem.code]⟩

theorem symbolOf_of_isOperator {op : TokenKind} (h : op.isOperator = true) :
    symbolOf op = .ok op.symbol := by
  simp only [symbolOf, TokenKind.symbol?_of_isOperator h]

end

section
variable {P : Int → Prop} {op : TokenKind} {fits : Int → Bool}

theorem settles_required (hop : op.isOperator = true) {result : Option Value}
    (h : ResultWithin P result) : Settles (Value.Within P) (required op result) := by
  cases result with
  | some v => exact h v rfl
  | none =>
    simp only [required, symbolOf_of_isOperator hop]
    exact settles_typeMismatch _

variable (hf : ∀ n, fits n = true → P n)
include hf

theorem settles_checked (hop : op.isOperator = true) (n : Int) :
    Settles (Value.Within P) (checked fits op n) := by
  unfold checked
  split
  · rename_i hn
    exact hf n hn
  · simp only [symbolOf_of_isOperator hop]
    exact ⟨.integerOverflow op.symbol, rfl, by simp [Problem.code]⟩

theorem settles_applyUnary (hop : op.isSign = true) (v : Value) :
    Settles (Value.Within P) (applyUnary fits op v) := by
  cases op with
  | minus =>
    cases v with
    | integer n => exact settles_checked hf rfl _
    | boolean b => exact settles_typeMismatch _
  | bang =>
    cases v with
    | integer n => exact settles_typeMismatch _
    | boolean b => trivial
  | _ => cases hop

theorem settles_applyInteger {l : Layer} (hop : l.has op = true) (a b : Int) :
    Settles (Value.Within P) (applyInteger fits op a b) := by
  cases op with
  | plus | minus | star => exact settles_checked hf rfl _
  | slash =>
    simp only [applyInteger]
    split
    · exact ⟨.divisionByZero, rfl, by decide⟩
    · exact settles_checked hf rfl _
  | less | greater | equal | notEqual => trivial
  | _ => cases l <;> cases hop

omit hf in
theorem settles_applyBoolean (hop : op.isOperator = true) (a b : Bool) :
    Settles (Value.Within P) (applyBoolean op a b) := by
  unfold applyBoolean
  split
  · trivial
  · trivial
  · rw [symbolOf_of_isOperator hop]
    exact settles_typeMismatch _

theorem settles_applyBinary {l : Layer} (hop : l.has op = true) (v w : Value) :
    Settles (Value.Within P) (applyBinary fits op v w) := by
  have ho := isOperator_of_has hop
  cases v with
  | integer a =>
    cases w with
    | integer b => exact settles_applyInteger hf hop a b
    | boolean b =>
      simp only [applyBinary, symbolOf_of_isOperator ho]
      exact settles_typeMismatch _
  | boolean a =>
    cases w with
    | integer b =>
      simp only [applyBinary, symbolOf_of_isOperator ho]
      exact settles_typeMismatch _
    | boolean b => exact settles_applyBoolean ho a b

end

theorem settles_truthOf (result : Option Value) :
    Settles (fun _ => True) (truthOf result) := by
  unfold truthOf
  split
  · trivial
  · exact settles_typeMismatch _

section
variable {P : Int → Prop} {limits : Limits} {ss : List Stmt} {result : Option Value}

theorem settles_evalList
    (h : ∀ s ∈ ss, Settles (ResultWithin P) (s.eval limits))
    (hr : ResultWithin P result) :
    Settles (ResultWithin P) (Stmt.evalList ss result limits) := by
  induction ss generalizing result with
  | nil => exact hr
  | cons s ss ih =>
    rw [Stmt.evalList]
    apply settles_bind (h s (by simp))
    intro r hr
    exact ih (fun s' hs' => h s' (by simp [hs'])) hr

theorem settles_evalOption {e : Option (List Stmt)}
    (h : ∀ b ∈ e, ∀ s ∈ b, Settles (ResultWithin P) (s.eval limits)) :
    Settles (ResultWithin P) (Stmt.evalOption e limits) := by
  cases e with
  | none => exact resultWithin_none P
  | some b => exact settles_evalList (h b rfl) (resultWithin_none P)

end

end Evaluation

open Evaluation

/-- Evaluations whose results are integers of a set, in all limits that keep to the set. -/
def Expr.SettlesWithin (P : Int → Prop) (e : Expr) : Prop :=
  ∀ limits : Limits, (∀ n, limits.fits n = true → P n) →
    Settles (ResultWithin P) (e.eval limits)

def Stmt.SettlesWithin (P : Int → Prop) (s : Stmt) : Prop :=
  ∀ limits : Limits, (∀ n, limits.fits n = true → P n) →
    Settles (ResultWithin P) (s.eval limits)

section
variable {P : Int → Prop} {x y : Expr} {op : TokenKind}

theorem settlesWithin_enter {inside : Limits → Except Fault (Option Value)} {e : Expr}
    (he : ∀ limits, e.eval limits = limits.enter inside)
    (h : ∀ inner : Limits, (∀ n, inner.fits n = true → P n) →
      Settles (ResultWithin P) (inside inner)) : e.SettlesWithin P := by
  intro limits hf
  rw [he]
  apply settles_enter
  intro inner hi
  exact h inner fun n hn => hf n (hi ▸ hn)

theorem settles_evalOperand (hop : op.isOperator = true) (hx : x.SettlesWithin P) {limits : Limits}
    (hf : ∀ n, limits.fits n = true → P n) :
    Settles (Value.Within P) (Expr.evalOperand op (some x) limits) := by
  rw [Expr.evalOperand]
  apply settles_bind (hx limits hf)
  intro r hr
  exact settles_required hop hr

theorem settlesWithin_unary (hop : op.isSign = true) (hx : x.SettlesWithin P) :
    (Expr.unary op (some x)).SettlesWithin P := by
  apply settlesWithin_enter fun _ => rfl
  intro inner hf
  apply settles_bind (settles_evalOperand (isOperator_of_isSign hop) hx hf)
  intro v _
  apply settles_bind (settles_applyUnary hf hop v)
  intro w hw
  exact resultWithin_some hw

theorem settlesWithin_binary {l : Layer} (hop : l.has op = true) (hx : x.SettlesWithin P)
    (hy : y.SettlesWithin P) : (Expr.binary op x (some y)).SettlesWithin P := by
  have ho := isOperator_of_has hop
  apply settlesWithin_enter fun _ => rfl
  intro inner hf
  apply settles_bind (hx inner hf)
  intro r hr
  apply settles_bind (settles_required ho hr)
  intro v _
  apply settles_bind (settles_evalOperand ho hy hf)
  intro w _
  apply settles_bind (settles_applyBinary hf hop v w)
  intro u hu
  exact resultWithin_some hu

theorem settlesWithin_conditional {b : List Stmt} {e : Option (List Stmt)}
    (hx : x.SettlesWithin P) (hb : ∀ s ∈ b, s.SettlesWithin P)
    (he : ∀ b' ∈ e, ∀ s ∈ b', s.SettlesWithin P) : (Expr.conditional x b e).SettlesWithin P := by
  apply settlesWithin_enter fun _ => rfl
  intro inner hf
  apply settles_bind (hx inner hf)
  intro r _
  apply settles_bind (settles_truthOf r)
  intro found _
  cases found with
  | true => exact settles_evalList (fun s hs => hb s hs inner hf) (resultWithin_none P)
  | false => exact settles_evalOption fun b' hb' s hs => he b' hb' s hs inner hf

theorem settlesWithin_call (hx : x.SettlesWithin P) (as : List Expr) :
    (Expr.call x as).SettlesWithin P := by
  apply settlesWithin_enter fun _ => rfl
  intro inner hf
  apply settles_bind (hx inner hf)
  intro r _
  exact ⟨.notCallable (resultTypeName r), rfl, by simp [Problem.code]⟩

theorem settlesWithin_block {b : List Stmt} (hb : ∀ s ∈ b, s.SettlesWithin P) :
    (Stmt.block b).SettlesWithin P := by
  intro limits hf
  apply settles_enter
  intro inner hi
  have hf' : ∀ n, inner.fits n = true → P n := fun n hn => hf n (hi ▸ hn)
  exact settles_evalList (fun s hs => hb s hs inner hf') (resultWithin_none P)

theorem settlesWithin_atom {e : Expr} {r : Except Fault (Option Value)}
    (he : ∀ limits, e.eval limits = limits.enter fun _ => r)
    (h : Settles (ResultWithin P) r) : e.SettlesWithin P :=
  settlesWithin_enter he fun _ _ => h

end

section
variable {words : Lexicon} {P : Int → Prop}

mutual
theorem Expr.Complete.settlesWithin (hw : ∀ n, words.number n → P n) :
    {e : Expr} → e.Complete words → e.SettlesWithin P
  | _, .name _ => settlesWithin_atom (fun _ => rfl) ⟨_, rfl, by simp [Problem.code]⟩
  | _, .number hn => settlesWithin_atom (fun _ => rfl) (resultWithin_some (hw _ hn))
  | _, .truth b => settlesWithin_atom (fun _ => rfl) (resultWithin_some (v := .boolean b) trivial)
  | _, .unary hop hx => settlesWithin_unary hop (hx.settlesWithin hw)
  | _, .binary hop hx hy => settlesWithin_binary hop (hx.settlesWithin hw) (hy.settlesWithin hw)
  | _, .conditional hc hb he => settlesWithin_conditional (hc.settlesWithin hw)
      (fun s hs => (hb s hs).settlesWithin hw) fun b' hb' s hs => (he b' hb' s hs).settlesWithin hw
  | _, .function _ _ => settlesWithin_atom (fun _ => rfl) ⟨_, rfl, by simp [Problem.code]⟩
  | _, .call hf _ => settlesWithin_call (hf.settlesWithin hw) _

theorem Stmt.Complete.settlesWithin (hw : ∀ n, words.number n → P n) :
    {s : Stmt} → s.Complete words → s.SettlesWithin P
  | _, .binding _ _ => fun _ _ => ⟨.notEvaluable "let statement", rfl, by decide⟩
  | _, .bareReturn | _, .valueReturn _ => fun _ _ =>
    ⟨.notEvaluable "return statement", rfl, by decide⟩
  | _, .expr hx => hx.settlesWithin hw
  | _, .block hb => settlesWithin_block fun s hs => (hb s hs).settlesWithin hw
end

theorem Program.settles_evalWithin {program : Program} (hw : ∀ n, words.number n → P n)
    (h : ∀ s ∈ program, s.Complete words) {limits : Limits}
    (hf : ∀ n, limits.fits n = true → P n) :
    Settles (ResultWithin P) (program.evalWithin limits) :=
  settles_evalList (fun s hs => (h s hs).settlesWithin hw limits hf) (resultWithin_none P)

end

/-- A complete tree has a result or none, or ends in a problem of evaluation. Its integers are those
of the tree and those that fit. -/
theorem evalWithin_outcome {P : Int → Prop} {program : Program} {limits : Limits}
    (h : ∀ s ∈ program, s.Complete { name := fun _ => True, number := P })
    (hf : ∀ n, limits.fits n = true → P n) :
    match program.evalWithin limits with
    | .ok result => ∀ v ∈ result, (∃ n, v = .integer n ∧ P n) ∨ ∃ b, v = .boolean b
    | .error fault => ∃ problem : Problem, fault = .problem problem ∧
      problem.code ∈ ["E201", "E202", "E203", "E301", "E302", "E303", "E304"] := by
  have hs := program.settles_evalWithin (fun _ hn => hn) h hf
  split <;> rename_i heq <;> rw [heq] at hs
  · intro v hv
    cases v with
    | integer n => exact .inl ⟨n, rfl, hs _ hv⟩
    | boolean b => exact .inr ⟨b, rfl⟩
  · exact hs

/-- A sum of a number that is no machine word and a conditional without a value. -/
theorem evalWithin_outcome_sum :
    let program : Program := [.expr (.binary .plus (.number (some 1000000000000000000000000000000))
      (some (.conditional (.truth true) [] none)))]
    (∀ s ∈ program, s.Complete { name := fun _ => True, number := fun _ => True }) ∧
      ∃ problem : Problem, program.eval = .error (.problem problem) ∧
        problem.code ∈ ["E201", "E202", "E203", "E301", "E302", "E303", "E304"] := by
  intro program
  have hc : ∀ s ∈ program, s.Complete { name := fun _ => True, number := fun _ => True } := by
    intro s hs
    obtain rfl := List.mem_singleton.mp hs
    exact .expr (.binary (l := .sum) rfl (.number trivial)
      (.conditional (.truth true) (List.forall_mem_nil _) (by simp)))
  have hr : program.evalWithin .standard =
      .error (.problem (.typeMismatch "operand of '+' has no value")) := by
    rfl
  have hf : ∀ n, Limits.standard.fits n = true → True := fun _ _ => trivial
  have ho := evalWithin_outcome hc hf
  rw [hr] at ho
  obtain ⟨problem, hp, hm⟩ := ho
  exact ⟨hc, problem, hr.trans (congrArg _ hp), hm⟩

end ExprLang
