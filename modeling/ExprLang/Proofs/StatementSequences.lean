import ExprLang.Proofs.EvaluationLevels

/-!
Sequences of statements. The outcome of statements is put together from the outcomes that each of
them has as a program of its own. So it makes no difference, at any place in a program, whether some
statements are in a block, or in which order those stand that have an outcome and are not the last.
-/

namespace ExprLang

open Evaluation

section
variable {limits : Limits}

theorem evalList_append (xs ys : List Stmt) (result : Option Value) :
    Stmt.evalList (xs ++ ys) result limits =
      Stmt.evalList xs result limits >>= fun r => Stmt.evalList ys r limits := by
  induction xs generalizing result with
  | nil => rfl
  | cons x xs ih =>
    rw [List.cons_append, Stmt.evalList, Stmt.evalList, bind_assoc]
    exact bind_congr ih

theorem evalList_of_ne_nil {ss : List Stmt} (h : ss ≠ []) (result : Option Value) :
    Stmt.evalList ss result limits = Stmt.evalList ss none limits := by
  cases ss with
  | nil => exact absurd rfl h
  | cons s ss => rfl

theorem evalWithin_singleton (s : Stmt) : Program.evalWithin limits [s] = s.eval limits :=
  bind_pure (s.eval limits)

/-- As a program of its own, the statement has a result, which may be no value. -/
def Stmt.Succeeds (limits : Limits) (s : Stmt) : Prop :=
  ∃ result, Program.evalWithin limits [s] = .ok result

theorem succeeds_iff {s : Stmt} : s.Succeeds limits ↔ ∃ result, s.eval limits = .ok result := by
  rw [Stmt.Succeeds, evalWithin_singleton]

theorem evalList_succeeds_iff {ss : List Stmt} {result : Option Value} :
    (∃ r, Stmt.evalList ss result limits = .ok r) ↔ ∀ s ∈ ss, s.Succeeds limits := by
  induction ss generalizing result with
  | nil => exact ⟨fun _ s hs => (by cases hs), fun _ => ⟨result, rfl⟩⟩
  | cons s ss ih =>
    rw [List.forall_mem_cons, succeeds_iff, Stmt.evalList]
    cases hs : s.eval limits with
    | error fault => exact ⟨fun ⟨_, h⟩ => (by cases h), fun ⟨⟨_, h⟩, _⟩ => (by cases h)⟩
    | ok r => exact ih.trans ⟨fun h => ⟨⟨r, rfl⟩, h⟩, fun h => h.2⟩

/-- The first element that is bad, all in front of it being good, is the head or one behind it. -/
theorem exists_first_cons {α : Type} {good bad : α → Prop} {a : α} {as : List α} :
    (∃ before b after, a :: as = before ++ b :: after ∧ (∀ c ∈ before, good c) ∧ bad b) ↔
      bad a ∨ good a ∧
        ∃ before b after, as = before ++ b :: after ∧ (∀ c ∈ before, good c) ∧ bad b := by
  constructor
  · rintro ⟨before, b, after, h, hg, hb⟩
    cases before with
    | nil =>
      obtain rfl := (List.cons.inj h).1
      exact .inl hb
    | cons c before =>
      obtain ⟨rfl, rfl⟩ := List.cons.inj h
      obtain ⟨hc, hg⟩ := List.forall_mem_cons.mp hg
      exact .inr ⟨hc, before, b, after, rfl, hg, hb⟩
  · rintro (hb | ⟨ha, before, b, after, rfl, hg, hb⟩)
    · exact ⟨[], a, as, rfl, by simp, hb⟩
    · exact ⟨a :: before, b, after, rfl, List.forall_mem_cons.mpr ⟨ha, hg⟩, hb⟩

theorem evalList_fault_iff {ss : List Stmt} {result : Option Value} {fault : Fault} :
    Stmt.evalList ss result limits = .error fault ↔
      ∃ before s after, ss = before ++ s :: after ∧ (∀ t ∈ before, t.Succeeds limits) ∧
        s.eval limits = .error fault := by
  induction ss generalizing result with
  | nil =>
    constructor
    · intro h
      cases h
    · rintro ⟨before, s, after, h, _⟩
      simp at h
  | cons s ss ih =>
    rw [Stmt.evalList, exists_first_cons]
    cases hs : s.eval limits with
    | error first =>
      have hn : ¬ s.Succeeds limits := by simp [succeeds_iff, hs]
      exact ⟨.inl, fun h => h.resolve_right fun h => hn h.1⟩
    | ok r =>
      have hok : s.Succeeds limits := succeeds_iff.mpr ⟨r, hs⟩
      exact ih.trans ⟨fun h => .inr ⟨hok, h⟩, fun h => (h.resolve_left (by simp)).2⟩

theorem evalList_last {before : List Stmt} {s : Stmt} {result r : Option Value}
    (h : Stmt.evalList (before ++ [s]) result limits = .ok r) : s.eval limits = .ok r := by
  rw [evalList_append] at h
  cases hb : Stmt.evalList before result limits with
  | error fault =>
    rw [hb] at h
    cases h
  | ok r' =>
    rw [hb] at h
    exact (evalWithin_singleton s).symm.trans h

/-- The outcome of statements by the outcomes that they have as programs of their own. -/
structure Sequential (limits : Limits) (ss : List Stmt) : Prop where
  succeeds : (∃ r, Program.evalWithin limits ss = .ok r) ↔ ∀ s ∈ ss, s.Succeeds limits
  nothing : ss = [] → Program.evalWithin limits ss = .ok none
  last : ∀ before s r, ss = before ++ [s] → Program.evalWithin limits ss = .ok r →
    Program.evalWithin limits [s] = .ok r
  first : ∀ fault, Program.evalWithin limits ss = .error fault ↔
    ∃ before s after, ss = before ++ s :: after ∧ (∀ t ∈ before, t.Succeeds limits) ∧
      Program.evalWithin limits [s] = .error fault

theorem sequential (ss : List Stmt) : Sequential limits ss where
  succeeds := evalList_succeeds_iff
  nothing := by
    rintro rfl
    rfl
  last := by
    rintro before s r rfl h
    rw [evalWithin_singleton]
    exact evalList_last h
  first := by
    intro fault
    simp only [evalWithin_singleton]
    exact evalList_fault_iff

end

section
variable {fits : Int → Bool} {limits wider : Limits}

theorem upToLevels_enter_left {α : Type} {inside : Limits → Except Fault α} {r : Except Fault α}
    (hl : limits.Tighter fits wider)
    (h : ∀ inner : Limits, inner.Tighter fits wider → UpToLevels inner.levels (inside inner) r) :
    UpToLevels limits.levels (limits.enter inside) r := by
  obtain ⟨_, levels⟩ := limits
  cases levels with
  | none => exact h _ hl
  | some n =>
    cases n with
    | zero => exact .inr ⟨by simp, rfl⟩
    | succ n =>
      have ht : Limits.Tighter fits { fits, levels := some n } wider := by
        refine ⟨rfl, hl.fits_eq', fun m hm => ⟨n, rfl, ?_⟩⟩
        obtain ⟨k, hk, hle⟩ := hl.levels_le m hm
        obtain rfl := Option.some.inj hk
        omega
      obtain rfl := hl.fits_eq
      exact (h _ ht).imp_right fun h => ⟨by simp, h.2⟩

theorem standsFor_self (ss : List Stmt) : List.Forall₂ (Stmt.StandsFor fits) ss ss :=
  List.forall₂_same.mpr fun s _ => standsFor_refl.2 s

theorem listStandsFor_self (ss : List Stmt) : Stmt.ListStandsFor fits ss ss :=
  listStandsFor_of_forall₂ (standsFor_self ss)

/-- A block passes the result of its last statement outwards, which is why it has to have one. -/
theorem listStandsFor_block (before after : List Stmt) {run : List Stmt} (h : run ≠ []) :
    Stmt.ListStandsFor fits (before ++ .block run :: after) (before ++ run ++ after) := by
  intro limits wider hl
  rw [evalList_append, List.append_assoc, evalList_append]
  apply upToLevels_bind (listStandsFor_self before _ _ hl)
  intro r
  rw [Stmt.evalList, evalList_append, evalList_of_ne_nil h]
  apply upToLevels_bind
  · exact upToLevels_enter_left hl (listStandsFor_self run · wider)
  · intro r'
    exact upToLevels_evalList hl (standsFor_self after) r'

theorem succeeds_or_too_deep {s : Stmt} (h : ∃ levels, s.Succeeds { fits, levels })
    (levels : Option Nat) : s.Succeeds { fits, levels } ∨
      s.eval { fits, levels } = .error (.problem .nestingTooDeepToEvaluate) := by
  obtain ⟨levels', result, hr⟩ := h
  have hu : Program.evalWithin { fits, levels := none } [s] = .ok result := by
    obtain he | ⟨_, he⟩ := Program.evalWithin_tighter (Limits.tighter_unbounded fits levels') [s]
    · exact he.symm.trans hr
    · cases hr.symm.trans he
  obtain he | ⟨_, he⟩ := Program.evalWithin_tighter (Limits.tighter_unbounded fits levels) [s]
  · exact .inl ⟨result, he.trans hu⟩
  · exact .inr ((evalWithin_singleton s).symm.trans he)

/-- Which of them comes first does not show, since there is only one fault that they may have. -/
theorem evalList_perm {before before' : List Stmt} (h : before.Perm before') (last : Stmt)
    {fault : Fault} (hs : ∀ s ∈ before, s.Succeeds limits ∨ s.eval limits = .error fault)
    (result : Option Value) : Stmt.evalList (before ++ [last]) result limits =
      Stmt.evalList (before' ++ [last]) result limits := by
  induction h generalizing result with
  | nil => rfl
  | cons s _ ih =>
    simp only [List.cons_append, Stmt.evalList]
    exact bind_congr fun r => ih (fun t ht => hs t (by simp [ht])) r
  | swap s t rest =>
    have hs' := hs s (by simp)
    have ht' := hs t (by simp)
    rw [succeeds_iff] at hs' ht'
    have hne : rest ++ [last] ≠ [] := List.append_ne_nil_of_right_ne_nil rest (by simp)
    simp only [List.cons_append, Stmt.evalList]
    obtain ⟨r, hs'⟩ | hs' := hs'
    · obtain ⟨r', ht'⟩ | ht' := ht'
      · rw [hs', ht']
        exact (evalList_of_ne_nil hne r).trans (evalList_of_ne_nil hne r').symm
      · rw [hs', ht']
        rfl
    · obtain ⟨r', ht'⟩ | ht' := ht'
      · rw [hs', ht']
        rfl
      · rw [hs', ht']
  | trans h₁ _ ih₁ ih₂ =>
    exact (ih₁ hs result).trans (ih₂ (fun s hm => hs s (h₁.mem_iff.mpr hm)) result)

theorem listStandsFor_perm {before before' : List Stmt} (h : before.Perm before') (last : Stmt)
    (hs : ∀ s ∈ before, ∃ levels, s.Succeeds { fits, levels }) :
    Stmt.ListStandsFor fits (before ++ [last]) (before' ++ [last]) := by
  intro limits wider hl
  obtain ⟨_, levels⟩ := limits
  obtain rfl := hl.fits_eq
  rw [evalList_perm h last (fun s hm => succeeds_or_too_deep (hs s hm) levels)]
  exact listStandsFor_self _ _ _ hl

end

mutual
/-- An expression with a place in it at which some statements stand. -/
inductive Expr.Place where
  | operand (op : TokenKind) (x : Expr.Place)
  | left (op : TokenKind) (x : Expr.Place) (y : Option Expr)
  | right (op : TokenKind) (x : Expr) (y : Expr.Place)
  | condition (c : Expr.Place) (t : List Stmt) (e : Option (List Stmt))
  | consequence (c : Expr) (t : Stmt.ListPlace) (e : Option (List Stmt))
  | alternative (c : Expr) (t : List Stmt) (e : Stmt.ListPlace)
  | body (ps : List (Option String)) (b : Stmt.ListPlace)
  | callee (f : Expr.Place) (as : List Expr)
  | argument (f : Expr) (as : List Expr) (a : Expr.Place) (as' : List Expr)

inductive Stmt.Place where
  | binding (name : Option String) (x : Expr.Place)
  | ret (x : Expr.Place)
  | expr (x : Expr.Place)
  | block (b : Stmt.ListPlace)

inductive Stmt.ListPlace where
  | here
  | inside (ss : List Stmt) (s : Stmt.Place) (ss' : List Stmt)
end

mutual
def Expr.Place.fill (b : List Stmt) : Expr.Place → Expr
  | .operand op x => .unary op (some (x.fill b))
  | .left op x y => .binary op (x.fill b) y
  | .right op x y => .binary op x (some (y.fill b))
  | .condition c t e => .conditional (c.fill b) t e
  | .consequence c t e => .conditional c (t.fill b) e
  | .alternative c t e => .conditional c t (some (e.fill b))
  | .body ps p => .function ps (p.fill b)
  | .callee f as => .call (f.fill b) as
  | .argument f as a as' => .call f (as ++ a.fill b :: as')
termination_by structural x => x

def Stmt.Place.fill (b : List Stmt) : Stmt.Place → Stmt
  | .binding name x => .binding name (x.fill b)
  | .ret x => .ret (some (x.fill b))
  | .expr x => .expr (x.fill b)
  | .block p => .block (p.fill b)
termination_by structural s => s

def Stmt.ListPlace.fill (b : List Stmt) : Stmt.ListPlace → List Stmt
  | .here => b
  | .inside ss s ss' => ss ++ s.fill b :: ss'
termination_by structural p => p
end

section
variable {fits : Int → Bool} {b b' : List Stmt}

theorem listStandsFor_inside {s s' : Stmt} (h : s.StandsFor fits s') (ss ss' : List Stmt) :
    Stmt.ListStandsFor fits (ss ++ s :: ss') (ss ++ s' :: ss') := by
  apply listStandsFor_of_forall₂
  exact List.rel_append (standsFor_self ss) (.cons h (standsFor_self ss'))

mutual
theorem Expr.Place.standsFor (h : Stmt.ListStandsFor fits b b') :
    (place : Expr.Place) → (place.fill b).StandsFor fits (place.fill b')
  | .operand _ x => standsFor_unary (.some (x.standsFor h))
  | .left _ x _ => standsFor_binary (x.standsFor h) (optionRel_refl fun y _ => standsFor_refl.1 y)
  | .right _ x y => standsFor_binary (standsFor_refl.1 x) (.some (y.standsFor h))
  | .condition c t _ => standsFor_conditional (c.standsFor h) (listStandsFor_self t)
      (optionRel_refl fun e _ => listStandsFor_self e)
  | .consequence c t _ => standsFor_conditional (standsFor_refl.1 c) (t.standsFor h)
      (optionRel_refl fun e _ => listStandsFor_self e)
  | .alternative c t e => standsFor_conditional (standsFor_refl.1 c) (listStandsFor_self t)
      (.some (e.standsFor h))
  | .body _ _ => standsFor_atom (fun _ => rfl) fun _ => rfl
  | .callee f as => standsFor_call (f.standsFor h) as as
  | .argument f _ _ _ => standsFor_call (standsFor_refl.1 f) _ _

theorem Stmt.Place.standsFor (h : Stmt.ListStandsFor fits b b') :
    (place : Stmt.Place) → (place.fill b).StandsFor fits (place.fill b')
  | .binding _ _ | .ret _ => fun _ _ _ => upToLevels_refl _
  | .expr x => x.standsFor h
  | .block p => standsFor_block (p.standsFor h)

theorem Stmt.ListPlace.standsFor (h : Stmt.ListStandsFor fits b b') :
    (place : Stmt.ListPlace) → Stmt.ListStandsFor fits (place.fill b) (place.fill b')
  | .here => h
  | .inside ss s ss' => listStandsFor_inside (s.standsFor h) ss ss'
end

end

theorem eq_of_upToLevels {α : Type} {levels : Option Nat} {r r' : Except Fault α}
    (h : UpToLevels levels r r') (h' : UpToLevels levels r' r) : r = r' := by
  obtain rfl | ⟨_, rfl⟩ := h
  · rfl
  · obtain rfl | ⟨_, rfl⟩ := h' <;> rfl

/-- At every place in a program, statements can be put in a block, which takes one level more, and
statements with an outcome can change places if the last one stays the last. -/
theorem sequence_of_outcomes (fits : Int → Bool) :
    (∀ levels ss, Sequential { fits, levels } ss) ∧
      (∀ (place : Stmt.ListPlace) levels before run after, run ≠ [] →
        UpToLevels levels
          (Program.evalWithin { fits, levels } (place.fill (before ++ .block run :: after)))
          (Program.evalWithin { fits, levels } (place.fill (before ++ run ++ after)))) ∧
      ∀ (place : Stmt.ListPlace) levels before before' last, before.Perm before' →
        (∀ s ∈ before, ∃ levels, s.Succeeds { fits, levels }) →
        Program.evalWithin { fits, levels } (place.fill (before ++ [last])) =
          Program.evalWithin { fits, levels } (place.fill (before' ++ [last])) := by
  refine ⟨fun _ ss => sequential ss, ?_, ?_⟩
  · intro place levels before run after hr
    exact place.standsFor (listStandsFor_block before after hr) _ _ (Limits.tighter_refl _)
  · intro place levels before before' last hp hs
    have hs' : ∀ s ∈ before', ∃ levels, s.Succeeds { fits, levels } :=
      fun s hm => hs s (hp.mem_iff.mpr hm)
    have hl : Limits.Tighter fits { fits, levels } { fits, levels } :=
      Limits.tighter_refl { fits, levels }
    exact eq_of_upToLevels (place.standsFor (listStandsFor_perm hp last hs) _ _ hl)
      (place.standsFor (listStandsFor_perm hp.symm last hs') _ _ hl)

/-- Three statements in the branch that is the right operand of a sum. -/
theorem sequence_of_outcomes_branch :
    let place : Stmt.ListPlace := .inside [] (.expr (.right .plus (.number (some 1))
      (.consequence (.truth true) .here none))) []
    let nothing : Stmt := .block []
    let number (n : Int) : Stmt := .expr (.number (some n))
    Program.eval (place.fill [nothing, number 2, number 3]) =
        Program.eval (place.fill [number 2, nothing, number 3]) ∧
      Program.eval (place.fill [nothing, .block [number 2, number 3]]) =
        Program.eval (place.fill [nothing, number 2, number 3]) ∧
      Program.eval (place.fill [nothing, number 2, number 3]) = .ok (some (.integer 4)) := by
  intro place nothing number
  obtain ⟨_, hw, hp⟩ := sequence_of_outcomes inRange
  refine ⟨?_, ?_, rfl⟩
  · apply hp place (some 500) [nothing, number 2] [number 2, nothing] (number 3) (.swap _ _ _)
    intro s hs
    simp only [List.mem_cons, List.not_mem_nil, or_false] at hs
    obtain rfl | rfl := hs
    · exact ⟨none, none, rfl⟩
    · exact ⟨none, some (.integer 2), rfl⟩
  · obtain h | ⟨_, h⟩ := hw place (some 500) [nothing] [number 2, number 3] [] (by simp)
    · exact h
    · have he : Program.eval (place.fill [nothing, .block [number 2, number 3]]) =
          .ok (some (.integer 4)) := rfl
      cases he.symm.trans h

end ExprLang
