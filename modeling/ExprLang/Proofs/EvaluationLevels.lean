import Mathlib.Data.List.Forall2
import ExprLang.Evaluation
import ExprLang.Proofs.CompleteTrees

/-!
Levels of evaluation. With more levels an evaluation has the same outcome, unless it was the levels
that stopped it. The same relation holds between trees of which one stands for the other and is
nested deeper; it is a congruence.
-/

namespace ExprLang

namespace Limits

/-- Limits on the same integers, the first with no more levels. -/
structure Tighter (fits : Int → Bool) (limits wider : Limits) : Prop where
  fits_eq : limits.fits = fits
  fits_eq' : wider.fits = fits
  levels_le : ∀ m, wider.levels = some m → ∃ n, limits.levels = some n ∧ n ≤ m

theorem tighter_refl (limits : Limits) : Tighter limits.fits limits limits :=
  ⟨rfl, rfl, fun m hm => ⟨m, hm, Nat.le_refl m⟩⟩

theorem tighter_unbounded (fits : Int → Bool) (levels : Option Nat) :
    Tighter fits { fits, levels } { fits, levels := none } :=
  ⟨rfl, rfl, fun m hm => by cases hm⟩

end Limits

namespace Evaluation

variable {α β : Type} {levels : Option Nat}

/-- An outcome as it is with more levels, or the problem that there are too few. -/
def UpToLevels (levels : Option Nat) (outcome wider : Except Fault α) : Prop :=
  outcome = wider ∨ levels ≠ none ∧ outcome = .error (.problem .nestingTooDeepToEvaluate)

theorem upToLevels_refl (outcome : Except Fault α) : UpToLevels levels outcome outcome :=
  .inl rfl

theorem upToLevels_bind {r r' : Except Fault α} {f f' : α → Except Fault β}
    (hr : UpToLevels levels r r') (hf : ∀ a, UpToLevels levels (f a) (f' a)) :
    UpToLevels levels (r >>= f) (r' >>= f') := by
  obtain rfl | ⟨hl, rfl⟩ := hr
  · cases r with
    | ok a => exact hf a
    | error fault => exact upToLevels_refl _
  · exact .inr ⟨hl, rfl⟩

theorem upToLevels_enter {fits : Int → Bool} {limits wider : Limits}
    {inside inside' : Limits → Except Fault α} (h : limits.Tighter fits wider)
    (hi : ∀ inner inner' : Limits, inner.Tighter fits inner' →
      UpToLevels inner.levels (inside inner) (inside' inner')) :
    UpToLevels limits.levels (limits.enter inside) (wider.enter inside') := by
  obtain ⟨_, levels⟩ := limits
  obtain ⟨_, levels'⟩ := wider
  obtain ⟨rfl, rfl, hl⟩ := h
  cases levels with
  | none =>
    cases levels' with
    | none => exact hi _ _ (Limits.tighter_refl _)
    | some m =>
      obtain ⟨n, hn, _⟩ := hl m rfl
      cases hn
  | some n =>
    cases n with
    | zero => exact .inr ⟨by simp, rfl⟩
    | succ n =>
      cases levels' with
      | none => exact (hi _ _ (Limits.tighter_unbounded _ _)).imp_right fun h => ⟨by simp, h.2⟩
      | some m =>
        obtain ⟨k, hk, hm⟩ := hl m rfl
        obtain rfl := Option.some.inj hk
        obtain ⟨j, rfl⟩ : ∃ j, m = j + 1 := ⟨m - 1, by omega⟩
        have ht (fits : Int → Bool) : Limits.Tighter fits ⟨fits, some n⟩ ⟨fits, some j⟩ := by
          refine ⟨rfl, rfl, fun i hi => ⟨n, rfl, ?_⟩⟩
          obtain rfl := Option.some.inj hi
          exact Nat.le_of_succ_le_succ hm
        exact (hi _ _ (ht _)).imp_right fun h => ⟨by simp, h.2⟩

end Evaluation

open Evaluation

/-- An expression with the outcomes of another one, unless it runs out of levels. -/
def Expr.StandsFor (fits : Int → Bool) (e e' : Expr) : Prop :=
  ∀ limits wider : Limits, limits.Tighter fits wider →
    UpToLevels limits.levels (e.eval limits) (e'.eval wider)

def Stmt.StandsFor (fits : Int → Bool) (s s' : Stmt) : Prop :=
  ∀ limits wider : Limits, limits.Tighter fits wider →
    UpToLevels limits.levels (s.eval limits) (s'.eval wider)

/-- The same for the results of lists, which may differ in length. -/
def Stmt.ListStandsFor (fits : Int → Bool) (b b' : List Stmt) : Prop :=
  ∀ limits wider : Limits, limits.Tighter fits wider →
    UpToLevels limits.levels (Stmt.evalList b none limits) (Stmt.evalList b' none wider)

section
variable {fits : Int → Bool} {limits wider : Limits} {x x' : Expr} {y y' : Option Expr}
  {op : TokenKind} {b b' : List Stmt} {e e' : Option (List Stmt)}

theorem upToLevels_evalList (hl : limits.Tighter fits wider)
    (hb : List.Forall₂ (Stmt.StandsFor fits) b b') (result : Option Value) :
    UpToLevels limits.levels (Stmt.evalList b result limits) (Stmt.evalList b' result wider) := by
  induction hb generalizing result with
  | nil => exact upToLevels_refl _
  | cons hs _ ih => exact upToLevels_bind (hs _ _ hl) fun r => ih r

theorem listStandsFor_of_forall₂ (hb : List.Forall₂ (Stmt.StandsFor fits) b b') :
    Stmt.ListStandsFor fits b b' :=
  fun _ _ hl => upToLevels_evalList hl hb none

theorem upToLevels_evalOption (hl : limits.Tighter fits wider)
    (he : Option.Rel (Stmt.ListStandsFor fits) e e') :
    UpToLevels limits.levels (Stmt.evalOption e limits) (Stmt.evalOption e' wider) := by
  cases he with
  | none => exact upToLevels_refl _
  | some hb => exact hb _ _ hl

theorem upToLevels_evalOperand (hl : limits.Tighter fits wider)
    (hy : Option.Rel (Expr.StandsFor fits) y y') :
    UpToLevels limits.levels (Expr.evalOperand op y limits) (Expr.evalOperand op y' wider) := by
  cases hy with
  | none => exact upToLevels_refl _
  | some hx => exact upToLevels_bind (hx _ _ hl) fun r => upToLevels_refl _

theorem standsFor_unary (hy : Option.Rel (Expr.StandsFor fits) y y') :
    (Expr.unary op y).StandsFor fits (.unary op y') := by
  intro limits wider hl
  apply upToLevels_enter hl
  intro inner inner' hi
  apply upToLevels_bind (upToLevels_evalOperand hi hy)
  intro v
  rw [hi.fits_eq, hi.fits_eq']
  exact upToLevels_refl _

theorem standsFor_binary (hx : x.StandsFor fits x') (hy : Option.Rel (Expr.StandsFor fits) y y') :
    (Expr.binary op x y).StandsFor fits (.binary op x' y') := by
  intro limits wider hl
  apply upToLevels_enter hl
  intro inner inner' hi
  apply upToLevels_bind (hx _ _ hi)
  intro r
  apply upToLevels_bind (upToLevels_refl _)
  intro v
  apply upToLevels_bind (upToLevels_evalOperand hi hy)
  intro w
  rw [hi.fits_eq, hi.fits_eq']
  exact upToLevels_refl _

theorem standsFor_conditional (hx : x.StandsFor fits x')
    (hb : Stmt.ListStandsFor fits b b') (he : Option.Rel (Stmt.ListStandsFor fits) e e') :
    (Expr.conditional x b e).StandsFor fits (.conditional x' b' e') := by
  intro limits wider hl
  apply upToLevels_enter hl
  intro inner inner' hi
  apply upToLevels_bind (hx _ _ hi)
  intro r
  apply upToLevels_bind (upToLevels_refl _)
  intro found
  cases found with
  | true => exact hb _ _ hi
  | false => exact upToLevels_evalOption hi he

theorem standsFor_call (hx : x.StandsFor fits x') (as as' : List Expr) :
    (Expr.call x as).StandsFor fits (.call x' as') := by
  intro limits wider hl
  apply upToLevels_enter hl
  intro inner inner' hi
  exact upToLevels_bind (hx _ _ hi) fun r => upToLevels_refl _

theorem standsFor_atom {r : Except Fault (Option Value)}
    (hx : ∀ limits, x.eval limits = limits.enter fun _ => r)
    (hx' : ∀ limits, x'.eval limits = limits.enter fun _ => r) : x.StandsFor fits x' := by
  intro limits wider hl
  rw [hx, hx']
  exact upToLevels_enter hl fun _ _ _ => upToLevels_refl _

theorem standsFor_block (hb : Stmt.ListStandsFor fits b b') :
    (Stmt.block b).StandsFor fits (.block b') :=
  fun _ _ hl => upToLevels_enter hl hb

theorem optionRel_refl {α : Type} {R : α → α → Prop} {x : Option α} (h : ∀ a ∈ x, R a a) :
    Option.Rel R x x := by
  cases x with
  | none => exact .none
  | some a => exact .some (h a rfl)

theorem listStandsFor_refl (h : ∀ s ∈ b, s.StandsFor fits s) : Stmt.ListStandsFor fits b b :=
  listStandsFor_of_forall₂ (List.forall₂_same.mpr h)

theorem standsFor_refl :
    (∀ e : Expr, e.StandsFor fits e) ∧ ∀ s : Stmt, s.StandsFor fits s := by
  apply Tree.induct
  case name => exact fun text => standsFor_atom (fun _ => rfl) fun _ => rfl
  case number =>
    intro value
    cases value with
    | none => exact standsFor_atom (fun _ => rfl) fun _ => rfl
    | some n => exact standsFor_atom (fun _ => rfl) fun _ => rfl
  case truth => exact fun b => standsFor_atom (fun _ => rfl) fun _ => rfl
  case unary => exact fun op x hx => standsFor_unary (optionRel_refl hx)
  case binary => exact fun op x y hx hy => standsFor_binary hx (optionRel_refl hy)
  case conditional =>
    intro c t e hc ht he
    apply standsFor_conditional hc (listStandsFor_refl ht)
    exact optionRel_refl fun b hb => listStandsFor_refl (he b hb)
  case function => exact fun ps b _ => standsFor_atom (fun _ => rfl) fun _ => rfl
  case call => exact fun f as hf _ => standsFor_call hf as as
  case binding => exact fun _ _ _ _ _ _ => upToLevels_refl _
  case ret => exact fun _ _ _ _ _ => upToLevels_refl _
  case expr => exact fun x hx => hx
  case block => exact fun b hb => standsFor_block (listStandsFor_refl hb)

/-- More levels change an outcome only where the levels did not suffice. -/
theorem Program.evalWithin_tighter (h : limits.Tighter fits wider) (program : Program) :
    UpToLevels limits.levels (program.evalWithin limits) (program.evalWithin wider) :=
  upToLevels_evalList h (List.forall₂_same.mpr fun s _ => standsFor_refl.2 s) none

end

end ExprLang
