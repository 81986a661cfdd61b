import ExprLang.Proofs.ExactArithmetic

/-!
Integer operators as operations on signed words of 64 bits, which wrap around. Evaluation has the
word that the machine computes, as long as that is the exact result.
-/

namespace ExprLang

theorem inRange_iff_bmod {n : Int} : inRange n = true ↔ n.bmod Int64.size = n := by
  rw [inRange_iff, Int.bmod_eq_iff (by decide), maxInteger, Int64.size]
  constructor
  · rintro ⟨hl, hu⟩
    exact ⟨by omega, by omega, by simp⟩
  · rintro ⟨hl, hu, _⟩
    constructor <;> omega

theorem inRange_iff_word {n : Int} :
    inRange n = true ↔ Int64.minValue.toInt ≤ n ∧ n ≤ Int64.maxValue.toInt := by
  rw [inRange_iff, maxInteger, Int64.toInt_minValue, Int64.toInt_maxValue]
  omega

theorem toInt_ofInt_of_inRange {n : Int} (h : inRange n = true) : (Int64.ofInt n).toInt = n := by
  rw [inRange_iff, maxInteger] at h
  exact Int64.toInt_ofInt_of_le (by omega) (by omega)

theorem ofInt_lt_iff {a b : Int} (ha : inRange a = true) (hb : inRange b = true) :
    Int64.ofInt a < Int64.ofInt b ↔ a < b := by
  rw [Int64.lt_iff_toInt_lt, toInt_ofInt_of_inRange ha, toInt_ofInt_of_inRange hb]

theorem ofInt_eq_iff {a b : Int} (ha : inRange a = true) (hb : inRange b = true) :
    Int64.ofInt a = Int64.ofInt b ↔ a = b := by
  rw [← Int64.toInt_inj, toInt_ofInt_of_inRange ha, toInt_ofInt_of_inRange hb]

/-- The only quotient of two words that is no word. -/
theorem inRange_tdiv_iff {a b : Int} (ha : inRange a = true) (hb : b ≠ 0) :
    inRange (a.tdiv b) = true ↔ ¬(a = Int64.minValue.toInt ∧ b = -1) := by
  rw [inRange_iff, maxInteger] at ha ⊢
  rw [Int64.toInt_minValue]
  by_cases h₁ : b = 1
  · subst h₁
    rw [Int.tdiv_one]
    omega
  by_cases h₂ : b = -1
  · subst h₂
    rw [Int.tdiv_neg, Int.tdiv_one]
    omega
  · -- Any other divisor at least halves.
    have hle : a.natAbs / b.natAbs ≤ a.natAbs / 2 := Nat.div_le_div_left (by omega) (by omega)
    have hq : (a.tdiv b).natAbs = a.natAbs / b.natAbs := Int.natAbs_tdiv a b
    omega

theorem tdiv_remainder (a : Int) {b : Int} (hb : b ≠ 0) :
    a = a.tdiv b * b + a.tmod b ∧ (a.tmod b).natAbs < b.natAbs ∧
      (a.tmod b = 0 ∨ (a.tmod b).sign = a.sign) := by
  refine ⟨(Int.tdiv_mul_add_tmod a b).symm, ?_, ?_⟩
  · rw [Int.natAbs_tmod]
    exact Nat.mod_lt _ (Int.natAbs_pos.mpr hb)
  · rw [Int.sign_tmod]
    split
    · rename_i hd
      exact .inl (Int.tmod_eq_zero_of_dvd hd)
    · exact .inr rfl

/-- A quotient from the magnitudes, with its sign put on afterwards. -/
theorem tdiv_eq_magnitudes (a b : Int) :
    a.tdiv b = if a < 0 ↔ b < 0 then ((a.natAbs / b.natAbs : Nat) : Int)
      else -((a.natAbs / b.natAbs : Nat) : Int) := by
  have hpos (m : Nat) : ¬Int.ofNat m < 0 := Int.not_lt.mpr (Int.natCast_nonneg m)
  cases a with
  | ofNat m =>
    cases b with
    | ofNat n => exact (if_pos (iff_of_false (hpos m) (hpos n))).symm
    | negSucc n => exact (if_neg fun h => hpos m (h.mpr (Int.negSucc_lt_zero n))).symm
  | negSucc m =>
    cases b with
    | ofNat n => exact (if_neg fun h => hpos n (h.mp (Int.negSucc_lt_zero m))).symm
    | negSucc n => exact (if_pos (iff_of_true (Int.negSucc_lt_zero m) (Int.negSucc_lt_zero n))).symm

namespace Evaluation

namespace Operation

def operands : Operation → List Int
  | negation n => [n]
  | sum a b | difference a b | product a b | quotient a b => [a, b]

/-- What a machine computes on the words of the operands. -/
def word : Operation → Int64
  | negation n => -.ofInt n
  | sum a b => .ofInt a + .ofInt b
  | difference a b => .ofInt a - .ofInt b
  | product a b => .ofInt a * .ofInt b
  | quotient a b => .ofInt a / .ofInt b

/-- The word is the exact result, or else the outcome is an overflow. -/
def Checked (operation : Operation) (outcome : Except Fault (Option Value)) : Prop :=
  if Int64.minValue.toInt ≤ operation.result ∧ operation.result ≤ Int64.maxValue.toInt then
    outcome = .ok (some (.integer operation.result)) ∧ operation.result = operation.word.toInt
  else outcome = .error (.problem operation.overflow)

theorem toInt_word (operation : Operation) (h : ∀ n ∈ operation.operands, inRange n = true) :
    operation.word.toInt = operation.result.bmod Int64.size := by
  cases operation with
  | negation n =>
    simp only [operands, List.forall_mem_singleton] at h
    rw [word, result, Int64.toInt_neg, toInt_ofInt_of_inRange h]
  | _ a b =>
    simp only [operands, List.forall_mem_cons] at h
    simp only [word, result, Int64.toInt_add, Int64.toInt_sub, Int64.toInt_mul, Int64.toInt_div,
      toInt_ofInt_of_inRange h.1, toInt_ofInt_of_inRange h.2.1]

theorem operator_isOperator (operation : Operation) : operation.operator.isOperator = true := by
  cases operation <;> rfl

theorem checked_of_words (operation : Operation) (h : ∀ n ∈ operation.operands, inRange n = true) :
    operation.Checked (return some (← checked inRange operation.operator operation.result)) := by
  by_cases hr : inRange operation.result = true
  · rw [Checked, if_pos (inRange_iff_word.mp hr), checked, if_pos hr]
    exact ⟨rfl, (inRange_iff_bmod.mp hr).symm.trans (operation.toInt_word h).symm⟩
  · rw [Checked, if_neg (mt inRange_iff_word.mpr hr), checked, if_neg hr,
      symbolOf_of_isOperator operation.operator_isOperator]
    rfl

variable {operation : Operation}

theorem Checked.ok {outcome : Except Fault (Option Value)} (h : operation.Checked outcome)
    (hr : inRange operation.result = true) :
    outcome = .ok (some (.integer operation.result)) ∧
      operation.result = operation.word.toInt := by
  rwa [Checked, if_pos (inRange_iff_word.mp hr)] at h

theorem Checked.error {outcome : Except Fault (Option Value)} (h : operation.Checked outcome)
    (hr : ¬inRange operation.result = true) : outcome = .error (.problem operation.overflow) := by
  rwa [Checked, if_neg (mt inRange_iff_word.mpr hr)] at h

theorem Checked.division {a b : Int} {outcome : Except Fault (Option Value)}
    (ha : inRange a = true) (hz : b = 0 → outcome = .error (.problem .divisionByZero))
    (hq : b ≠ 0 → (quotient a b).Checked outcome) :
    (outcome = .error (.problem .divisionByZero) ↔ b = 0) ∧
    (outcome = .error (.problem (.integerOverflow "/")) ↔ a = Int64.minValue.toInt ∧ b = -1) ∧
    (b ≠ 0 → ¬(a = Int64.minValue.toInt ∧ b = -1) → ∃ q r, outcome = .ok (some (.integer q)) ∧
      a = q * b + r ∧ r.natAbs < b.natAbs ∧ (r = 0 ∨ r.sign = a.sign) ∧
      q = (if a < 0 ↔ b < 0 then ((a.natAbs / b.natAbs : Nat) : Int)
        else -((a.natAbs / b.natAbs : Nat) : Int)) ∧
      q = (Int64.ofInt a / Int64.ofInt b).toInt) := by
  by_cases hb : b = 0
  · have ho := hz hb
    exact ⟨iff_of_true ho hb, by simp [ho, hb], absurd hb⟩
  by_cases hr : inRange (a.tdiv b) = true
  · obtain ⟨ho, hw⟩ := (hq hb).ok hr
    have hn := (inRange_tdiv_iff ha hb).mp hr
    obtain ⟨he, hlt, hs⟩ := tdiv_remainder a hb
    exact ⟨by simp [ho, hb], iff_of_false (by simp [ho]) hn,
      fun _ _ => ⟨a.tdiv b, a.tmod b, ho, he, hlt, hs,
        tdiv_eq_magnitudes a b, hw⟩⟩
  · have ho := (hq hb).error hr
    have hm : a = Int64.minValue.toInt ∧ b = -1 := not_not.mp (mt (inRange_tdiv_iff ha hb).mpr hr)
    exact ⟨by simp [ho, hb, overflow], iff_of_true ho hm, fun _ hn => absurd hm hn⟩

end Operation

section
variable {fits : Int → Bool} {levels : Option Nat} {x y : Expr} {v w : Value}

theorem eval_unary_of_operand (op : TokenKind)
    (hx : x.eval { fits, levels } = .ok (some v)) :
    (Expr.unary op (some x)).eval { fits, levels := levels.map (· + 1) } =
      return some (← applyUnary fits op v) := by
  cases levels <;> simp only [Expr.eval, Expr.evalOperand, Option.map, Limits.enter, hx] <;> rfl

theorem eval_binary_of_operands (op : TokenKind)
    (hx : x.eval { fits, levels } = .ok (some v)) (hy : y.eval { fits, levels } = .ok (some w)) :
    (Expr.binary op x (some y)).eval { fits, levels := levels.map (· + 1) } =
      return some (← applyBinary fits op v w) := by
  cases levels <;> simp only [Expr.eval, Expr.evalOperand, Option.map, Limits.enter, hx, hy] <;> rfl

end

end Evaluation

open Evaluation

/-- Operators on integers compute on machine words as long as these hold the exact result. Division
drops the fraction, and comparisons are those of words. -/
theorem eval_on_words {levels : Option Nat} {x y : Expr} {a b : Int}
    (ha : inRange a = true) (hb : inRange b = true)
    (hx : x.eval { fits := inRange, levels } = .ok (some (.integer a)))
    (hy : y.eval { fits := inRange, levels } = .ok (some (.integer b))) :
    let outer : Limits := { fits := inRange, levels := levels.map (· + 1) }
    let outcome (op : TokenKind) := (Expr.binary op x (some y)).eval outer
    (Operation.negation a).Checked ((Expr.unary .minus (some x)).eval outer) ∧
    (Operation.sum a b).Checked (outcome .plus) ∧
    (Operation.difference a b).Checked (outcome .minus) ∧
    (Operation.product a b).Checked (outcome .star) ∧
    (outcome .slash = .error (.problem .divisionByZero) ↔ b = 0) ∧
    (outcome .slash = .error (.problem (.integerOverflow "/")) ↔
      a = Int64.minValue.toInt ∧ b = -1) ∧
    (b ≠ 0 → ¬(a = Int64.minValue.toInt ∧ b = -1) → ∃ q r,
      outcome .slash = .ok (some (.integer q)) ∧
      a = q * b + r ∧ r.natAbs < b.natAbs ∧ (r = 0 ∨ r.sign = a.sign) ∧
      q = (if a < 0 ↔ b < 0 then ((a.natAbs / b.natAbs : Nat) : Int)
        else -((a.natAbs / b.natAbs : Nat) : Int)) ∧
      q = (Int64.ofInt a / Int64.ofInt b).toInt) ∧
    outcome .less = .ok (some (.boolean (Int64.ofInt a < Int64.ofInt b))) ∧
    outcome .greater = .ok (some (.boolean (Int64.ofInt a > Int64.ofInt b))) ∧
    outcome .equal = .ok (some (.boolean (Int64.ofInt a = Int64.ofInt b))) ∧
    outcome .notEqual = .ok (some (.boolean (Int64.ofInt a ≠ Int64.ofInt b))) := by
  intro outer outcome
  have hab : ∀ n ∈ [a, b], inRange n = true := by simp [ha, hb]
  have ho (op : TokenKind) : outcome op = return some (← applyInteger inRange op a b) :=
    eval_binary_of_operands op hx hy
  have hzero (h : b = 0) : outcome .slash = .error (.problem .divisionByZero) := by
    rw [ho, applyInteger, if_pos h]
    rfl
  have hquotient (h : b ≠ 0) : (Operation.quotient a b).Checked (outcome .slash) := by
    rw [ho, applyInteger, if_neg h]
    exact Operation.checked_of_words (.quotient a b) hab
  obtain ⟨hdivision, hoverflow, hrest⟩ := Operation.Checked.division ha hzero hquotient
  refine ⟨?_, ?_, ?_, ?_, hdivision, hoverflow, hrest, ?_, ?_, ?_, ?_⟩
  · rw [eval_unary_of_operand .minus hx]
    exact Operation.checked_of_words (.negation a) (by simp [Operation.operands, ha])
  · exact ho .plus ▸ Operation.checked_of_words (.sum a b) hab
  · exact ho .minus ▸ Operation.checked_of_words (.difference a b) hab
  · exact ho .star ▸ Operation.checked_of_words (.product a b) hab
  · rw [ho, decide_eq_decide.mpr (ofInt_lt_iff ha hb)]
    rfl
  · rw [ho, decide_eq_decide.mpr (ofInt_lt_iff hb ha)]
    rfl
  · rw [ho, decide_eq_decide.mpr (ofInt_eq_iff ha hb)]
    rfl
  · rw [ho, decide_eq_decide.mpr (ofInt_eq_iff ha hb).not]
    rfl

/-- The smallest word, divided by and multiplied with `-1`. -/
theorem eval_on_words_smallest :
    let smallest : Expr := .number (some Int64.minValue.toInt)
    let minusOne : Expr := .number (some (-1))
    (Expr.binary .slash smallest (some minusOne)).eval .standard =
        .error (.problem (.integerOverflow "/")) ∧
      (Expr.binary .star smallest (some minusOne)).eval .standard =
        .error (.problem (.integerOverflow "*")) ∧
      (Expr.binary .less smallest (some minusOne)).eval .standard = .ok (some (.boolean true)) := by
  intro smallest minusOne
  have hx : smallest.eval { fits := inRange, levels := some 499 } =
      .ok (some (.integer Int64.minValue.toInt)) := rfl
  have hy : minusOne.eval { fits := inRange, levels := some 499 } =
      .ok (some (.integer (-1))) := rfl
  obtain ⟨_, _, _, hm, _, hd, _, hl, _⟩ := eval_on_words (by decide) (by decide) hx hy
  exact ⟨hd.mpr ⟨rfl, rfl⟩, hm.error (by decide), hl⟩

end ExprLang
