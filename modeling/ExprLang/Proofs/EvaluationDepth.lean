import ExprLang.Proofs.StatementSequences
import ExprLang.Proofs.UnevaluatedParts

/-!
The depth of evaluation. Which trees an evaluation enters, one inside the other, is up to the values
that it comes to on the way. It runs out of levels if and only if one of these chains is longer than
there are levels; otherwise the number of levels does not show.
-/

namespace ExprLang

open Evaluation

namespace Evaluation

variable {α β : Type}

/-- The outcome of an evaluation that runs out of levels. -/
def OutOfLevels (outcome : Except Fault α) : Prop :=
  outcome = .error (.problem .nestingTooDeepToEvaluate)

theorem outOfLevels_bind {r : Except Fault α} {f : α → Except Fault β} (h : OutOfLevels r) :
    OutOfLevels (r >>= f) := by
  rw [OutOfLevels] at h
  rw [h]
  rfl

theorem of_outOfLevels_bind {r : Except Fault α} {f : α → Except Fault β}
    (h : OutOfLevels (r >>= f)) : OutOfLevels r ∨ ∃ a, r = .ok a ∧ OutOfLevels (f a) := by
  cases r with
  | ok a => exact .inr ⟨a, rfl, h⟩
  | error fault => exact .inl (congrArg Except.error (Except.error.inj h))

section
variable {fits : Int → Bool} {op : TokenKind}

theorem not_outOfLevels_symbolOf (op : TokenKind) : ¬ OutOfLevels (symbolOf op) := by
  unfold symbolOf
  split <;> simp [OutOfLevels]

/-- What needs the symbol of an operator for a message that is another one. -/
theorem not_outOfLevels_named {f : String → Except Fault α}
    (hf : ∀ symbol, ¬ OutOfLevels (f symbol)) :
    ¬ OutOfLevels (symbolOf op >>= f) := by
  intro h
  obtain h | ⟨symbol, _, h⟩ := of_outOfLevels_bind h
  · exact not_outOfLevels_symbolOf op h
  · exact hf symbol h

theorem not_outOfLevels_typeMismatch (detail : String) :
    ¬ OutOfLevels (typeMismatch (α := α) detail) := by
  simp [OutOfLevels, typeMismatch]

theorem not_outOfLevels_required (result : Option Value) : ¬ OutOfLevels (required op result) := by
  cases result with
  | some v => simp [OutOfLevels, required]
  | none => exact not_outOfLevels_named fun _ => not_outOfLevels_typeMismatch _

theorem not_outOfLevels_missing : ¬ OutOfLevels (missing (α := α) op) :=
  not_outOfLevels_named fun _ => by simp [OutOfLevels]

theorem not_outOfLevels_checked (n : Int) : ¬ OutOfLevels (checked fits op n) := by
  unfold checked
  split
  · simp [OutOfLevels]
  · exact not_outOfLevels_named fun _ => by simp [OutOfLevels]

theorem not_outOfLevels_applyUnary (v : Value) : ¬ OutOfLevels (applyUnary fits op v) := by
  unfold applyUnary
  split
  · simp [OutOfLevels]
  · exact not_outOfLevels_typeMismatch _
  · exact not_outOfLevels_checked _
  · exact not_outOfLevels_typeMismatch _
  · simp [OutOfLevels]

theorem not_outOfLevels_applyInteger (a b : Int) : ¬ OutOfLevels (applyInteger fits op a b) := by
  unfold applyInteger
  split
  · exact not_outOfLevels_checked _
  · exact not_outOfLevels_checked _
  · exact not_outOfLevels_checked _
  · split
    · simp [OutOfLevels]
    · exact not_outOfLevels_checked _
  all_goals simp [OutOfLevels]

theorem not_outOfLevels_applyBoolean (a b : Bool) : ¬ OutOfLevels (applyBoolean op a b) := by
  unfold applyBoolean
  split
  · simp [OutOfLevels]
  · simp [OutOfLevels]
  · exact not_outOfLevels_named fun _ => not_outOfLevels_typeMismatch _

theorem not_outOfLevels_applyBinary (v w : Value) : ¬ OutOfLevels (applyBinary fits op v w) := by
  unfold applyBinary
  split
  · exact not_outOfLevels_applyInteger _ _
  · exact not_outOfLevels_applyBoolean _ _
  · exact not_outOfLevels_named fun _ => not_outOfLevels_typeMismatch _

theorem eq_some_of_required {result : Option Value} {v : Value}
    (h : required op result = .ok v) : result = some v := by
  cases result with
  | some w => exact congrArg some (Except.ok.inj h)
  | none =>
    simp only [required, symbolOf] at h
    split at h <;> cases h

theorem eq_some_of_truthOf {result : Option Value} {found : Bool}
    (h : truthOf result = .ok found) : result = some (.boolean found) := by
  unfold truthOf at h
  split at h
  · rw [Except.ok.inj h]
  · cases h

theorem not_outOfLevels_truthOf (result : Option Value) : ¬ OutOfLevels (truthOf result) := by
  unfold truthOf
  split
  · simp [OutOfLevels]
  · exact not_outOfLevels_typeMismatch _

end

end Evaluation

section
variable (fits : Int → Bool)

mutual
/-- Chains of trees that an evaluation enters, each inside the one in front of it; levels are not
counted. An operand is entered when those in front of it have a value, a branch when it is
selected, a statement when those in front of it succeed. -/
inductive Expr.Enters : Expr → List Node → Prop where
  | here (e : Expr) : Expr.Enters e [.expr e]
  | operand {op : TokenKind} {x : Expr} {chain : List Node} (h : Expr.Enters x chain) :
      Expr.Enters (.unary op (some x)) (.expr (.unary op (some x)) :: chain)
  | left {op : TokenKind} {x : Expr} {y : Option Expr} {chain : List Node}
      (h : Expr.Enters x chain) :
      Expr.Enters (.binary op x y) (.expr (.binary op x y) :: chain)
  | right {op : TokenKind} {x y : Expr} {v : Value} {chain : List Node}
      (hx : x.eval { fits, levels := none } = .ok (some v)) (h : Expr.Enters y chain) :
      Expr.Enters (.binary op x (some y)) (.expr (.binary op x (some y)) :: chain)
  | condition {c : Expr} {t : List Stmt} {e : Option (List Stmt)} {chain : List Node}
      (h : Expr.Enters c chain) :
      Expr.Enters (.conditional c t e) (.expr (.conditional c t e) :: chain)
  | consequence {c : Expr} {t : List Stmt} {e : Option (List Stmt)} {chain : List Node}
      (hc : c.Selects { fits, levels := none } true) (h : Stmt.EntersList t chain) :
      Expr.Enters (.conditional c t e) (.expr (.conditional c t e) :: chain)
  | alternative {c : Expr} {t b : List Stmt} {chain : List Node}
      (hc : c.Selects { fits, levels := none } false) (h : Stmt.EntersList b chain) :
      Expr.Enters (.conditional c t (some b)) (.expr (.conditional c t (some b)) :: chain)
  | callee {f : Expr} {as : List Expr} {chain : List Node} (h : Expr.Enters f chain) :
      Expr.Enters (.call f as) (.expr (.call f as) :: chain)

inductive Stmt.Enters : Stmt → List Node → Prop where
  | expr {x : Expr} {chain : List Node} (h : Expr.Enters x chain) : Stmt.Enters (.expr x) chain
  | here (b : List Stmt) : Stmt.Enters (.block b) [.stmt (.block b)]
  | block {b : List Stmt} {chain : List Node} (h : Stmt.EntersList b chain) :
      Stmt.Enters (.block b) (.stmt (.block b) :: chain)

inductive Stmt.EntersList : List Stmt → List Node → Prop where
  | first {s : Stmt} {ss : List Stmt} {chain : List Node} (h : Stmt.Enters s chain) :
      Stmt.EntersList (s :: ss) chain
  | later {s : Stmt} {ss : List Stmt} {chain : List Node}
      (hs : s.Succeeds { fits, levels := none }) (h : Stmt.EntersList ss chain) :
      Stmt.EntersList (s :: ss) chain
end

end

/-- With so many levels, one of the chains is too long. -/
def Deep (chains : List Node → Prop) (levels : Option Nat) : Prop :=
  ∃ n chain, levels = some n ∧ chains chain ∧ n < chain.length

theorem Deep.imp {chains chains' : List Node → Prop} {levels : Option Nat} (h : Deep chains levels)
    (hc : ∀ chain, chains chain → chains' chain) : Deep chains' levels := by
  obtain ⟨n, chain, hn, hchain, hlt⟩ := h
  exact ⟨n, chain, hn, hc chain hchain, hlt⟩

section
variable {α : Type} {fits : Int → Bool} {limits : Limits} {a : α}

theorem deep_of_enter {chains : List Node → Prop} {node : Node}
    {inside : Limits → Except Fault α} (hf : limits.fits = fits) (here : chains [node])
    (hi : ∀ inner : Limits, inner.fits = fits → OutOfLevels (inside inner) →
      Deep (fun chain => chains (node :: chain)) inner.levels)
    (h : OutOfLevels (limits.enter inside)) : Deep chains limits.levels := by
  obtain ⟨_, levels⟩ := limits
  cases levels with
  | none =>
    obtain ⟨_, _, hn, _⟩ := hi _ hf h
    cases hn
  | some n =>
    cases n with
    | zero => exact ⟨0, [node], rfl, here, Nat.zero_lt_one⟩
    | succ n =>
      obtain ⟨m, chain, hn, hchain, hlt⟩ := hi { fits := _, levels := some n } hf h
      obtain rfl := Option.some.inj hn
      exact ⟨n + 1, node :: chain, rfl, hchain, Nat.succ_lt_succ hlt⟩

theorem ok_unbounded {r r' : Except Fault α} {levels : Option Nat} (h : UpToLevels levels r r')
    (hr : r = .ok a) : r' = .ok a := by
  obtain rfl | ⟨_, he⟩ := h
  · exact hr
  · cases hr.symm.trans he

theorem ok_or_outOfLevels {r r' : Except Fault α} {levels : Option Nat} (h : UpToLevels levels r r')
    (hr : r' = .ok a) : r = .ok a ∨ OutOfLevels r := by
  obtain rfl | ⟨_, he⟩ := h
  · exact .inl hr
  · exact .inr he

theorem Expr.upToLevels_unbounded (hf : limits.fits = fits) (e : Expr) :
    UpToLevels limits.levels (e.eval limits) (e.eval { fits, levels := none }) := by
  subst hf
  exact standsFor_refl.1 e _ _ (Limits.tighter_unbounded limits.fits limits.levels)

theorem Stmt.upToLevels_unbounded (hf : limits.fits = fits) (s : Stmt) :
    UpToLevels limits.levels (s.eval limits) (s.eval { fits, levels := none }) := by
  subst hf
  exact standsFor_refl.2 s _ _ (Limits.tighter_unbounded limits.fits limits.levels)

end

/-- An expression whose evaluation runs out of levels only where a chain is too long. -/
def Expr.DeepOnly (fits : Int → Bool) (e : Expr) : Prop :=
  ∀ limits : Limits, limits.fits = fits → OutOfLevels (e.eval limits) →
    Deep (e.Enters fits) limits.levels

def Stmt.DeepOnly (fits : Int → Bool) (s : Stmt) : Prop :=
  ∀ limits : Limits, limits.fits = fits → OutOfLevels (s.eval limits) →
    Deep (s.Enters fits) limits.levels

section
variable {fits : Int → Bool} {limits : Limits} {op : TokenKind} {x : Expr} {y : Option Expr}
  {b : List Stmt} {e : Option (List Stmt)}

theorem of_outOfLevels_evalOperand (h : OutOfLevels (Expr.evalOperand op y limits)) :
    ∃ x, y = some x ∧ OutOfLevels (x.eval limits) := by
  cases y with
  | none => exact absurd h not_outOfLevels_missing
  | some x =>
    obtain h | ⟨r, _, h⟩ := of_outOfLevels_bind h
    · exact ⟨x, rfl, h⟩
    · exact absurd h (not_outOfLevels_required r)

theorem deep_of_evalList (hb : ∀ s ∈ b, s.DeepOnly fits) (hf : limits.fits = fits)
    {result : Option Value} (h : OutOfLevels (Stmt.evalList b result limits)) :
    Deep (Stmt.EntersList fits b) limits.levels := by
  induction b generalizing result with
  | nil => cases h
  | cons s ss ih =>
    obtain ⟨hs, hss⟩ := List.forall_mem_cons.mp hb
    obtain h | ⟨r, hr, h⟩ := of_outOfLevels_bind h
    · exact (hs limits hf h).imp fun chain => .first
    · have hok := succeeds_iff.mpr ⟨r, ok_unbounded (s.upToLevels_unbounded hf) hr⟩
      exact (ih hss h).imp fun chain => .later hok

theorem deepOnly_atom (r : Except Fault (Option Value)) (hr : ¬ OutOfLevels r)
    (hx : ∀ limits, x.eval limits = limits.enter fun _ => r) : x.DeepOnly fits := by
  intro limits hf h
  rw [hx] at h
  exact deep_of_enter hf (.here x) (fun _ _ h => absurd h hr) h

theorem deepOnly_unary (hy : ∀ x ∈ y, x.DeepOnly fits) : (Expr.unary op y).DeepOnly fits := by
  intro limits hf
  apply deep_of_enter hf (.here _)
  intro inner hfi h
  obtain h | ⟨v, _, h⟩ := of_outOfLevels_bind h
  · obtain ⟨x, rfl, hx⟩ := of_outOfLevels_evalOperand h
    exact (hy x rfl inner hfi hx).imp fun chain => .operand
  · obtain h | ⟨w, _, h⟩ := of_outOfLevels_bind h
    · exact absurd h (not_outOfLevels_applyUnary v)
    · cases h

theorem deepOnly_binary (hx : x.DeepOnly fits) (hy : ∀ x ∈ y, x.DeepOnly fits) :
    (Expr.binary op x y).DeepOnly fits := by
  intro limits hf
  apply deep_of_enter hf (.here _)
  intro inner hfi h
  obtain h | ⟨r, hr, h⟩ := of_outOfLevels_bind h
  · exact (hx inner hfi h).imp fun chain => .left
  obtain h | ⟨v, hv, h⟩ := of_outOfLevels_bind h
  · exact absurd h (not_outOfLevels_required r)
  obtain h | ⟨w, _, h⟩ := of_outOfLevels_bind h
  · obtain ⟨y, rfl, hy'⟩ := of_outOfLevels_evalOperand h
    obtain rfl := eq_some_of_required hv
    have hok := ok_unbounded (x.upToLevels_unbounded hfi) hr
    exact (hy y rfl inner hfi hy').imp fun chain => .right hok
  obtain h | ⟨u, _, h⟩ := of_outOfLevels_bind h
  · exact absurd h (not_outOfLevels_applyBinary v w)
  · cases h

theorem deepOnly_conditional (hx : x.DeepOnly fits) (hb : ∀ s ∈ b, s.DeepOnly fits)
    (he : ∀ b ∈ e, ∀ s ∈ b, s.DeepOnly fits) : (Expr.conditional x b e).DeepOnly fits := by
  intro limits hf
  apply deep_of_enter hf (.here _)
  intro inner hfi h
  obtain h | ⟨r, hr, h⟩ := of_outOfLevels_bind h
  · exact (hx inner hfi h).imp fun chain => .condition
  obtain h | ⟨found, ht, h⟩ := of_outOfLevels_bind h
  · exact absurd h (not_outOfLevels_truthOf r)
  obtain rfl := eq_some_of_truthOf ht
  have hok := ok_unbounded (x.upToLevels_unbounded hfi) hr
  cases found with
  | true => exact (deep_of_evalList hb hfi h).imp fun chain => .consequence hok
  | false =>
    cases e with
    | none => cases h
    | some b' => exact (deep_of_evalList (he b' rfl) hfi h).imp fun chain => .alternative hok

theorem deepOnly_call (hx : x.DeepOnly fits) (as : List Expr) :
    (Expr.call x as).DeepOnly fits := by
  intro limits hf
  apply deep_of_enter hf (.here _)
  intro inner hfi h
  obtain h | ⟨r, _, h⟩ := of_outOfLevels_bind h
  · exact (hx inner hfi h).imp fun chain => .callee
  · cases h

theorem deepOnly_block (hb : ∀ s ∈ b, s.DeepOnly fits) : (Stmt.block b).DeepOnly fits := by
  intro limits hf
  apply deep_of_enter hf (.here _)
  intro inner hfi h
  exact (deep_of_evalList hb hfi h).imp fun chain => .block

theorem deepOnly : (∀ e : Expr, e.DeepOnly fits) ∧ ∀ s : Stmt, s.DeepOnly fits := by
  apply Tree.induct
  case name => exact fun text => deepOnly_atom _ (by simp [OutOfLevels]) fun _ => rfl
  case number =>
    intro value
    cases value with
    | none => exact deepOnly_atom _ (by simp [OutOfLevels]) fun _ => rfl
    | some n => exact deepOnly_atom _ (by simp [OutOfLevels]) fun _ => rfl
  case truth => exact fun b => deepOnly_atom _ (by simp [OutOfLevels]) fun _ => rfl
  case unary => exact fun op y hy => deepOnly_unary hy
  case binary => exact fun op x y hx hy => deepOnly_binary hx hy
  case conditional => exact fun c t e hc ht he => deepOnly_conditional hc ht he
  case function => exact fun ps b _ => deepOnly_atom _ (by simp [OutOfLevels]) fun _ => rfl
  case call => exact fun f as hf _ => deepOnly_call hf as
  case binding | ret =>
    intros
    intro limits hf h
    cases h
  case expr => exact fun x hx limits hf h => (hx limits hf h).imp fun chain => .expr
  case block => exact fun b hb => deepOnly_block hb

end

/-- Evaluations that run out of levels if there are fewer than trees in the chain. -/
def Overruns {α : Type} (fits : Int → Bool) (chain : List Node)
    (evaluation : Limits → Except Fault α) : Prop :=
  ∀ n < chain.length, OutOfLevels (evaluation { fits, levels := some n })

section
variable {α β : Type} {fits : Int → Bool} {chain : List Node} {node : Node} {op : TokenKind}
  {x : Expr} {t : List Stmt} {e : Option (List Stmt)}

theorem outOfLevels_behind {r : Except Fault α} {a : α} {f : α → Except Fault β}
    (h : r = .ok a ∨ OutOfLevels r) (hf : OutOfLevels (f a)) : OutOfLevels (r >>= f) := by
  obtain rfl | h := h
  · exact hf
  · exact outOfLevels_bind h

theorem bounded_or_outOfLevels {r : Option Value} (hx : x.eval { fits, levels := none } = .ok r)
    (n : Nat) : x.eval { fits, levels := some n } = .ok r ∨
      OutOfLevels (x.eval { fits, levels := some n }) :=
  ok_or_outOfLevels (x.upToLevels_unbounded rfl) hx

theorem overruns_enter {inside : Limits → Except Fault α} (h : Overruns fits chain inside) :
    Overruns fits (node :: chain) fun limits => limits.enter inside := by
  intro n hn
  cases n with
  | zero => rfl
  | succ n => exact h n (Nat.lt_of_succ_lt_succ hn)

theorem overruns_here (e : Expr) : Overruns fits [node] e.eval := by
  intro n hn
  obtain rfl := Nat.lt_one_iff.mp hn
  cases e with
  | number value => cases value <;> rfl
  | _ => rfl

theorem overruns_unary (h : Overruns fits chain x.eval) :
    Overruns fits (node :: chain) (Expr.unary op (some x)).eval :=
  overruns_enter fun n hn => outOfLevels_bind (outOfLevels_bind (h n hn))

theorem overruns_left {y : Option Expr} (h : Overruns fits chain x.eval) :
    Overruns fits (node :: chain) (Expr.binary op x y).eval :=
  overruns_enter fun n hn => outOfLevels_bind (h n hn)

theorem overruns_right {y : Expr} {v : Value}
    (hx : x.eval { fits, levels := none } = .ok (some v)) (h : Overruns fits chain y.eval) :
    Overruns fits (node :: chain) (Expr.binary op x (some y)).eval := by
  apply overruns_enter
  intro n hn
  apply outOfLevels_behind (bounded_or_outOfLevels hx n)
  apply outOfLevels_behind (a := v) (.inl rfl)
  exact outOfLevels_bind (outOfLevels_bind (h n hn))

theorem overruns_condition (h : Overruns fits chain x.eval) :
    Overruns fits (node :: chain) (Expr.conditional x t e).eval :=
  overruns_enter fun n hn => outOfLevels_bind (h n hn)

theorem overruns_consequence (hx : x.Selects { fits, levels := none } true)
    (h : Overruns fits chain (Stmt.evalList t none)) :
    Overruns fits (node :: chain) (Expr.conditional x t e).eval := by
  apply overruns_enter
  intro n hn
  apply outOfLevels_behind (bounded_or_outOfLevels hx n)
  exact h n hn

theorem overruns_alternative {b : List Stmt} (hx : x.Selects { fits, levels := none } false)
    (h : Overruns fits chain (Stmt.evalList b none)) :
    Overruns fits (node :: chain) (Expr.conditional x t (some b)).eval := by
  apply overruns_enter
  intro n hn
  apply outOfLevels_behind (bounded_or_outOfLevels hx n)
  exact h n hn

theorem overruns_callee {as : List Expr} (h : Overruns fits chain x.eval) :
    Overruns fits (node :: chain) (Expr.call x as).eval :=
  overruns_enter fun n hn => outOfLevels_bind (h n hn)

theorem overruns_block_here (b : List Stmt) : Overruns fits [node] (Stmt.block b).eval := by
  intro n hn
  obtain rfl := Nat.lt_one_iff.mp hn
  rfl

theorem overruns_first {s : Stmt} {result : Option Value} (h : Overruns fits chain s.eval) :
    Overruns fits chain (Stmt.evalList (s :: t) result) :=
  fun n hn => outOfLevels_bind (h n hn)

theorem overruns_later {s : Stmt} {result : Option Value}
    (hs : s.Succeeds { fits, levels := none })
    (h : ∀ result, Overruns fits chain (Stmt.evalList t result)) :
    Overruns fits chain (Stmt.evalList (s :: t) result) := by
  intro n hn
  obtain ⟨r, hr⟩ := succeeds_iff.mp hs
  exact outOfLevels_behind (ok_or_outOfLevels (s.upToLevels_unbounded rfl) hr) (h r n hn)

end

section
variable {fits : Int → Bool}

mutual
theorem Expr.Enters.overruns :
    {e : Expr} → {chain : List Node} → e.Enters fits chain → Overruns fits chain e.eval
  | _, _, .here e => overruns_here e
  | _, _, .operand h => overruns_unary h.overruns
  | _, _, .left h => overruns_left h.overruns
  | _, _, .right hx h => overruns_right hx h.overruns
  | _, _, .condition h => overruns_condition h.overruns
  | _, _, .consequence hc h => overruns_consequence hc (h.overruns none)
  | _, _, .alternative hc h => overruns_alternative hc (h.overruns none)
  | _, _, .callee h => overruns_callee h.overruns

theorem Stmt.Enters.overruns :
    {s : Stmt} → {chain : List Node} → s.Enters fits chain → Overruns fits chain s.eval
  | _, _, .expr h => h.overruns
  | _, _, .here b => overruns_block_here b
  | _, _, .block h => overruns_enter (h.overruns none)

theorem Stmt.EntersList.overruns : {ss : List Stmt} → {chain : List Node} →
    Stmt.EntersList fits ss chain → (result : Option Value) →
    Overruns fits chain (Stmt.evalList ss result)
  | _, _, .first h, _ => overruns_first h.overruns
  | _, _, .later hs h, _ => overruns_later hs h.overruns
end

/-- The evaluation runs out of levels just if it enters a chain of more trees than there are. -/
theorem evalWithin_outOfLevels_iff (program : Program) (levels : Option Nat) :
    OutOfLevels (program.evalWithin { fits, levels }) ↔
      Deep (Stmt.EntersList fits program) levels := by
  constructor
  · exact deep_of_evalList (fun s _ => deepOnly.2 s) rfl
  · rintro ⟨n, chain, rfl, hchain, hlt⟩
    exact hchain.overruns none n hlt

end

/-- Operators and calls. -/
def Node.isOperation : Node → Bool
  | .expr (.unary _ _) | .expr (.binary _ _ _) | .expr (.call _ _) => true
  | _ => false

/-- Sums, each the left operand of the next. -/
def sums : Nat → Expr
  | 0 => .number (some 1)
  | n + 1 => .binary .plus (sums n) (some (.number (some 1)))

theorem enters_sums (fits : Int → Bool) (n : Nat) :
    ∃ chain, (sums n).Enters fits chain ∧ chain.countP (·.isOperation) = n := by
  induction n with
  | zero => exact ⟨_, .here _, rfl⟩
  | succ n ih =>
    obtain ⟨chain, h, hc⟩ := ih
    refine ⟨_, .left h, ?_⟩
    rw [List.countP_cons_of_pos rfl, hc]

theorem Stmt.EntersList.exists_mem {fits : Int → Bool} {ss : List Stmt} {chain : List Node}
    (h : Stmt.EntersList fits ss chain) : ∃ s ∈ ss, s.Enters fits chain := by
  induction ss with
  | nil => cases h
  | cons s ss ih =>
    cases h with
    | first h => exact ⟨s, by simp, h⟩
    | later _ h =>
      obtain ⟨s', hs', h⟩ := ih h
      exact ⟨s', by simp [hs'], h⟩

end ExprLang
