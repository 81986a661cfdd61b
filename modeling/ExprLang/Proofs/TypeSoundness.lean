import ExprLang.Evaluation

/-!
Types of trees, and what they promise: a program of acceptable statements never meets a value of the
wrong type, nor a place where a value is missing. Only arithmetic and the nesting can stop it.
-/

namespace ExprLang

inductive ValueType where
  | integer | boolean
deriving DecidableEq, Repr

def Value.type : Value → ValueType
  | integer _ => .integer
  | boolean _ => .boolean

namespace TokenKind

def isArithmetic : TokenKind → Bool
  | plus | minus | star | slash => true
  | _ => false

def isComparison : TokenKind → Bool
  | less | greater => true
  | _ => false

def isEquality : TokenKind → Bool
  | equal | notEqual => true
  | _ => false

end TokenKind

mutual
inductive Expr.HasType : Expr → ValueType → Prop where
  | number (n : Int) : Expr.HasType (.number (some n)) .integer
  | truth (b : Bool) : Expr.HasType (.truth b) .boolean
  | bang {x : Expr} (hx : Expr.HasType x .boolean) : Expr.HasType (.unary .bang (some x)) .boolean
  | minus {x : Expr} (hx : Expr.HasType x .integer) : Expr.HasType (.unary .minus (some x)) .integer
  | arithmetic {op : TokenKind} {x y : Expr} (hop : op.isArithmetic = true)
      (hx : Expr.HasType x .integer) (hy : Expr.HasType y .integer) :
      Expr.HasType (.binary op x (some y)) .integer
  | comparison {op : TokenKind} {x y : Expr} (hop : op.isComparison = true)
      (hx : Expr.HasType x .integer) (hy : Expr.HasType y .integer) :
      Expr.HasType (.binary op x (some y)) .boolean
  | equality {op : TokenKind} {x y : Expr} {t : ValueType} (hop : op.isEquality = true)
      (hx : Expr.HasType x t) (hy : Expr.HasType y t) :
      Expr.HasType (.binary op x (some y)) .boolean
  | conditional {c : Expr} {b b' : List Stmt} {last last' : Stmt} {t : ValueType}
      (hc : Expr.HasType c .boolean) (hb : ∀ s ∈ b, Stmt.Acceptable s) (hl : b.getLast? = some last)
      (ht : Stmt.HasType last t) (hb' : ∀ s ∈ b', Stmt.Acceptable s)
      (hl' : b'.getLast? = some last') (ht' : Stmt.HasType last' t) :
      Expr.HasType (.conditional c b (some b')) t

inductive Stmt.HasType : Stmt → ValueType → Prop where
  | expr {e : Expr} {t : ValueType} (he : Expr.HasType e t) : Stmt.HasType (.expr e) t
  | block {body : List Stmt} {last : Stmt} {t : ValueType} (hb : ∀ s ∈ body, Stmt.Acceptable s)
      (hl : body.getLast? = some last) (ht : Stmt.HasType last t) : Stmt.HasType (.block body) t

/-- Statements that may stand in a program. Some have no type: a conditional may end without a
value, and so may a block. -/
inductive Stmt.Acceptable : Stmt → Prop where
  | typed {s : Stmt} {t : ValueType} (hs : Stmt.HasType s t) : Stmt.Acceptable s
  | conditional {c : Expr} {b : List Stmt} {e : Option (List Stmt)} (hc : Expr.HasType c .boolean)
      (hb : ∀ s ∈ b, Stmt.Acceptable s) (he : ∀ b', e = some b' → ∀ s ∈ b', Stmt.Acceptable s) :
      Stmt.Acceptable (.expr (.conditional c b e))
  | block {body : List Stmt} (hb : ∀ s ∈ body, Stmt.Acceptable s) : Stmt.Acceptable (.block body)
end

/-- The faults that types do not rule out. -/
def Fault.Untyped (fault : Fault) : Prop :=
  ∃ problem : Problem, fault = .problem problem ∧ problem.code ∈ ["E301", "E302", "E304"]

namespace Evaluation

variable {α β : Type}

def Yields (good : α → Prop) : Except Fault α → Prop
  | .ok a => good a
  | .error fault => fault.Untyped

def OfType (t : ValueType) (result : Option Value) : Prop :=
  ∃ v : Value, result = some v ∧ v.type = t

theorem yields_bind {r : Except Fault α} {f : α → Except Fault β} {good : α → Prop}
    {goal : β → Prop} (hr : Yields good r) (hf : ∀ a, good a → Yields goal (f a)) :
    Yields goal (r >>= f) := by
  cases r with
  | ok a => exact hf a hr
  | error fault => exact hr

theorem Yields.imp {r : Except Fault α} {good good' : α → Prop} (hr : Yields good r)
    (hg : ∀ a, good a → good' a) : Yields good' r := by
  cases r with
  | ok a => exact hg a hr
  | error fault => exact hr

theorem yields_enter {limits : Limits} {inside : Limits → Except Fault α} {good : α → Prop}
    (hi : ∀ inner, Yields good (inside inner)) : Yields good (limits.enter inside) := by
  unfold Limits.enter
  split
  · exact hi _
  · exact ⟨_, rfl, by decide⟩
  · exact hi _

theorem yields_required {op : TokenKind} {result : Option Value} {t : ValueType}
    (h : OfType t result) : Yields (fun v => v.type = t) (required op result) := by
  obtain ⟨v, rfl, hv⟩ := h
  exact hv

theorem yields_checked {fits : Int → Bool} {op : TokenKind} {n : Int} (hop : op.isOperator = true) :
    Yields (fun v => v.type = .integer) (checked fits op n) := by
  obtain ⟨symbol, hs⟩ : ∃ symbol, op.symbol? = some symbol := by
    cases op <;> first | exact ⟨_, rfl⟩ | cases hop
  unfold checked
  split
  · rfl
  · simp only [symbolOf, hs]
    exact ⟨.integerOverflow symbol, rfl, by simp [Problem.code]⟩

theorem yields_truthOf {result : Option Value} (h : OfType .boolean result) :
    Yields (fun _ => True) (truthOf result) := by
  obtain ⟨v, rfl, hv⟩ := h
  cases v with
  | integer n => cases hv
  | boolean b => trivial

theorem yields_arithmetic {fits : Int → Bool} {op : TokenKind} {v w : Value}
    (hop : op.isArithmetic = true) (hv : v.type = .integer) (hw : w.type = .integer) :
    Yields (fun u => u.type = .integer) (applyBinary fits op v w) := by
  cases v with
  | boolean b => cases hv
  | integer a =>
    cases w with
    | boolean b => cases hw
    | integer b =>
      cases op with
      | plus | minus | star => exact yields_checked rfl
      | slash =>
        simp only [applyBinary, applyInteger]
        split
        · exact ⟨_, rfl, by decide⟩
        · exact yields_checked rfl
      | _ => cases hop

theorem yields_comparison {fits : Int → Bool} {op : TokenKind} {v w : Value}
    (hop : op.isComparison = true) (hv : v.type = .integer) (hw : w.type = .integer) :
    Yields (fun u => u.type = .boolean) (applyBinary fits op v w) := by
  cases v with
  | boolean b => cases hv
  | integer a =>
    cases w with
    | boolean b => cases hw
    | integer b =>
      cases op with
      | less | greater => rfl
      | _ => cases hop

theorem yields_equality {fits : Int → Bool} {op : TokenKind} {v w : Value}
    (hop : op.isEquality = true) (h : v.type = w.type) :
    Yields (fun u => u.type = .boolean) (applyBinary fits op v w) := by
  cases v with
  | integer a =>
    cases w with
    | boolean b => cases h
    | integer b => cases op <;> first | rfl | cases hop
  | boolean a =>
    cases w with
    | integer b => cases h
    | boolean b => cases op <;> first | rfl | cases hop

theorem yields_binary {op : TokenKind} {x y : Expr} {s t : ValueType} {limits : Limits}
    (hx : ∀ limits, Yields (OfType s) (x.eval limits))
    (hy : ∀ limits, Yields (OfType s) (y.eval limits))
    (hop : ∀ fits v w, v.type = s → w.type = s →
      Yields (fun u => u.type = t) (applyBinary fits op v w)) :
    Yields (OfType t) ((Expr.binary op x (some y)).eval limits) := by
  rw [Expr.eval]
  apply yields_enter
  intro inner
  apply yields_bind (hx inner)
  intro r hr
  apply yields_bind (yields_required hr)
  intro v hv
  apply yields_bind (yields_bind (hy inner) fun r hr => yields_required hr)
  intro w hw
  apply yields_bind (hop inner.fits v w hv hw)
  intro u hu
  exact ⟨u, rfl, hu⟩

theorem yields_unary {op : TokenKind} {x : Expr} {t : ValueType} {limits : Limits}
    (hx : ∀ limits, Yields (OfType t) (x.eval limits))
    (hop : ∀ fits v, v.type = t → Yields (fun u => u.type = t) (applyUnary fits op v)) :
    Yields (OfType t) ((Expr.unary op (some x)).eval limits) := by
  rw [Expr.eval]
  apply yields_enter
  intro inner
  apply yields_bind (yields_bind (hx inner) fun r hr => yields_required hr)
  intro v hv
  apply yields_bind (hop inner.fits v hv)
  intro u hu
  exact ⟨u, rfl, hu⟩

theorem yields_conditional {c : Expr} {b : List Stmt} {e : Option (List Stmt)}
    {good : Option Value → Prop} {limits : Limits}
    (hc : ∀ limits, Yields (OfType .boolean) (c.eval limits))
    (hb : ∀ limits, Yields good (Stmt.evalList b none limits))
    (he : ∀ limits, Yields good (Stmt.evalOption e limits)) :
    Yields good ((Expr.conditional c b e).eval limits) := by
  rw [Expr.eval]
  apply yields_enter
  intro inner
  apply yields_bind (hc inner)
  intro r hr
  apply yields_bind (yields_truthOf hr)
  intro found _
  cases found with
  | true => exact hb inner
  | false => exact he inner

section
variable {ss : List Stmt} {result : Option Value} {limits : Limits}

theorem yields_evalList (h : ∀ s ∈ ss, ∀ limits, Yields (fun _ => True) (s.eval limits)) :
    Yields (fun _ => True) (Stmt.evalList ss result limits) := by
  induction ss generalizing result with
  | nil => trivial
  | cons s ss ih =>
    rw [Stmt.evalList]
    apply yields_bind (h s (by simp) limits)
    intro r _
    exact ih fun s' hs' => h s' (by simp [hs'])

theorem yields_evalList_last {last : Stmt} {good : Option Value → Prop}
    (h : ∀ s ∈ ss, ∀ limits, Yields (fun _ => True) (s.eval limits))
    (hl : ss.getLast? = some last) (hg : ∀ limits, Yields good (last.eval limits)) :
    Yields good (Stmt.evalList ss result limits) := by
  induction ss generalizing result with
  | nil => cases hl
  | cons s ss ih =>
    rw [Stmt.evalList]
    cases ss with
    | nil =>
      obtain rfl : s = last := by simpa using hl
      apply yields_bind (hg limits)
      intro r hr
      exact hr
    | cons s' ss =>
      apply yields_bind (h s (by simp) limits)
      intro r _
      exact ih (fun s' hs' => h s' (List.mem_cons_of_mem _ hs')) (by simpa using hl)

theorem yields_evalOption {e : Option (List Stmt)}
    (h : ∀ b, e = some b → ∀ s ∈ b, ∀ limits, Yields (fun _ => True) (s.eval limits)) :
    Yields (fun _ => True) (Stmt.evalOption e limits) := by
  cases e with
  | none => trivial
  | some b => exact yields_evalList (h b rfl)

end

end Evaluation

open Evaluation

mutual
theorem Expr.HasType.yields : {e : Expr} → {t : ValueType} → e.HasType t → (limits : Limits) →
    Yields (OfType t) (e.eval limits)
  | _, _, .number n, limits => yields_enter fun _ => ⟨_, rfl, rfl⟩
  | _, _, .truth b, limits => yields_enter fun _ => ⟨_, rfl, rfl⟩
  | _, _, .bang hx, limits => yields_unary hx.yields fun fits v hv => by
    cases v with
    | integer n => cases hv
    | boolean b => rfl
  | _, _, .minus hx, limits => yields_unary hx.yields fun fits v hv => by
    cases v with
    | integer n => exact yields_checked rfl
    | boolean b => cases hv
  | _, _, .arithmetic hop hx hy, limits =>
    yields_binary hx.yields hy.yields fun _ _ _ => yields_arithmetic hop
  | _, _, .comparison hop hx hy, limits =>
    yields_binary hx.yields hy.yields fun _ _ _ => yields_comparison hop
  | _, _, .equality hop hx hy, limits =>
    yields_binary hx.yields hy.yields fun _ _ _ hv hw => yields_equality hop (hv.trans hw.symm)
  | _, _, .conditional hc hb hl ht hb' hl' ht', limits =>
    yields_conditional hc.yields
      (fun _ => yields_evalList_last (fun s hs => (hb s hs).yields) hl ht.yields)
      fun _ => yields_evalList_last (fun s hs => (hb' s hs).yields) hl' ht'.yields

theorem Stmt.HasType.yields : {s : Stmt} → {t : ValueType} → s.HasType t → (limits : Limits) →
    Yields (OfType t) (s.eval limits)
  | _, _, .expr he, limits => he.yields limits
  | _, _, .block hb hl ht, _ =>
    yields_enter fun _ => yields_evalList_last (fun s hs => (hb s hs).yields) hl ht.yields

theorem Stmt.Acceptable.yields : {s : Stmt} → s.Acceptable → (limits : Limits) →
    Yields (fun _ => True) (s.eval limits)
  | _, .typed hs, limits => (hs.yields limits).imp fun _ _ => trivial
  | _, .conditional hc hb he, _ =>
    yields_conditional hc.yields (fun _ => yields_evalList fun s hs => (hb s hs).yields) fun _ =>
      yields_evalOption fun b' hb' s hs => (he b' hb' s hs).yields
  | _, .block hb, _ => yields_enter fun _ => yields_evalList fun s hs => (hb s hs).yields
end

/-- A program of acceptable statements has a result, of the type of its last statement, or is
stopped by a fault of arithmetic or of nesting. -/
theorem evalWithin_acceptable {program : Program} (h : ∀ s ∈ program, s.Acceptable)
    (limits : Limits) :
    (∃ result, program.evalWithin limits = .ok result ∧
      ∀ last t, program.getLast? = some last → last.HasType t →
        ∃ v : Value, result = some v ∧ v.type = t) ∨
    ∃ problem : Problem, program.evalWithin limits = .error (.problem problem) ∧
      problem.code ∈ ["E301", "E302", "E304"] := by
  have hs : ∀ s ∈ program, ∀ limits, Yields (fun _ => True) (s.eval limits) :=
    fun s hs => (h s hs).yields
  cases hr : program.evalWithin limits with
  | ok result =>
    refine .inl ⟨result, rfl, ?_⟩
    intro last t hl ht
    have hy : Yields (OfType t) (program.evalWithin limits) := yields_evalList_last hs hl ht.yields
    rw [hr] at hy
    exact hy
  | error fault =>
    have hy : Yields (fun _ => True) (program.evalWithin limits) := yields_evalList hs
    rw [hr] at hy
    obtain ⟨problem, rfl, hp⟩ := hy
    exact .inr ⟨problem, rfl, hp⟩

theorem evalWithin_acceptable_conditional :
    let quotient : Expr := .binary .slash (.number (some 4)) (some (.number (some 0)))
    let program : Program :=
      [.expr (.conditional (.truth true) [.expr (.number (some 3))] (some [.expr quotient]))]
    (∀ s ∈ program, s.Acceptable) ∧
      ∃ v : Value, program.eval = .ok (some v) ∧ v.type = .integer := by
  intro quotient program
  have hq : quotient.HasType .integer := .arithmetic rfl (.number 4) (.number 0)
  have hc : (Stmt.expr (.conditional (.truth true) [.expr (.number (some 3))]
      (some [.expr quotient]))).HasType .integer := by
    apply Stmt.HasType.expr
    refine .conditional (.truth true) ?_ rfl (.expr (.number 3)) ?_ rfl (.expr hq)
    · intro s hs
      obtain rfl := List.mem_singleton.mp hs
      exact .typed (.expr (.number 3))
    · intro s hs
      obtain rfl := List.mem_singleton.mp hs
      exact .typed (.expr hq)
  have ha : ∀ s ∈ program, s.Acceptable := by
    intro s hs
    obtain rfl := List.mem_singleton.mp hs
    exact .typed hc
  refine ⟨ha, ?_⟩
  rcases evalWithin_acceptable ha .standard with ⟨result, hr, ht⟩ | ⟨problem, hp, _⟩
  · obtain ⟨v, rfl, hv⟩ := ht _ .integer rfl hc
    exact ⟨v, hr, hv⟩
  · cases hp

end ExprLang
