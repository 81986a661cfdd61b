import ExprLang.Proofs.RenderedMeaning
import ExprLang.Proofs.RunOutcomes

/-!
Printed values as program texts. The value of a run is a truth value or a machine word; its text
runs to the same value, with one exception: the smallest word has no negation that could be written.
-/

namespace ExprLang

open Evaluation

section
variable {text : String}

theorem within_of_runText {v : Value} (h : runText text = .ok (.ok (some v))) :
    v.Within (inRange · = true) := by
  obtain ⟨program, hr, he⟩ := exists_program_of_runText h
  have hs := settles_eval hr
  rw [he] at hs
  exact hs v rfl

theorem runText_of_spells {g : Grade} (hg : g.Loosens .loosest) {d : Derivation (.expr g)}
    (hb : d.Bounded) (hs : Spells text.toList d.tokens) (hl : d.tokens.length < Parser.maxLevels)
    {result : Option Value} (he : Expr.eval d.tree .standard = .ok result) :
    runText text = .ok (.ok result) := by
  -- The last statement of a text needs no semicolon.
  obtain ⟨d', ha⟩ := hg d
  let statements : Derivation .statements := .statement (.exprClause d') none .noStatements
  have hts : statements.tokens = d.tokens := (List.append_nil _).trans ha.tokens_eq
  have ht : statements.tree = [.expr d.tree] := congrArg (fun e => [Stmt.expr e]) ha.tree_eq
  have hb' : statements.Bounded := ⟨ha.bounded hb, trivial, nofun⟩
  have hr := (reads_of_spells hb' (hts ▸ hs)).2 Parser.maxLevels (hts ▸ hl)
  have hv : Program.eval [.expr d.tree] = .ok result := by
    simp only [Program.eval, Program.evalWithin, Stmt.evalList, Stmt.eval, he]
    rfl
  rw [ht] at hr
  rw [runText_of_ok hr, hv]

theorem runText_rendered {program : Program} (hw : ∀ s ∈ program, s.WellFormed)
    (hl : program.text.length < Parser.maxLevels) {result : Option Value}
    (he : program.eval = .ok result) : runText program.text = .ok (.ok result) := by
  obtain ⟨d, hb, rfl, hs⟩ := Program.exists_derivation hw
  have hlen := hs.length_le
  rw [String.length_toList] at hlen
  have hr := (reads_of_spells hb hs).2 Parser.maxLevels (Nat.lt_of_le_of_lt hlen hl)
  rw [runText_of_ok hr, he]

end

theorem spells_lexeme {w : List Char} {t : Token} (h : Lexeme w t) : Spells w [t] := by
  have hs : Spells (w ++ []) [t] := .lexeme h (by simp) .nil
  rwa [List.append_nil] at hs

theorem spells_numeral {n : Nat} (hn : n ≤ maxInteger) : Spells n.repr.toList [numeralToken n] := by
  rw [Nat.toList_repr]
  exact spells_lexeme (lexeme_numeral hn)

theorem runText_truth {kind : TokenKind} (hk : kind.isTruth = true) {text : String}
    (hs : kind.spelling? = some text) :
    runText text = .ok (.ok (some (.boolean (kind = .trueWord)))) := by
  let d : Derivation (.expr .primary) := .truth (.sample hk)
  have hd : d.tokens.length = 1 := rfl
  apply runText_of_spells (Grade.loosens_of_le (by decide) (by decide)) (d := d) trivial
  · exact spells_lexeme (lexeme_sample hs)
  · rw [hd]
    decide
  · simp only [d, Derivation.tree, Leaf.sample_token, Token.sample_kind]
    rfl

theorem runText_numeral {n : Nat} (hn : n ≤ maxInteger) :
    runText n.repr = .ok (.ok (some (.integer n))) := by
  let d : Derivation (.expr .primary) := .number ⟨numeralToken n, rfl⟩
  have hd : d.tokens.length = 1 := rfl
  apply runText_of_spells (Grade.loosens_of_le (by decide) (by decide)) (d := d) trivial
  · exact spells_numeral hn
  · rw [hd]
    decide
  · rfl

theorem runText_negation {n : Nat} (hn : n ≤ maxInteger) :
    runText ("-" ++ n.repr) = .ok (.ok (some (.integer (-n)))) := by
  have hm : TokenKind.minus.isSign = true := rfl
  have hl : TokenKind.minus.spelling? = some "-" := rfl
  let number : Derivation (.expr .called) := .called (.number ⟨numeralToken n, rfl⟩) .noCalls
  let d : Derivation (.expr .unary) := .signed (.sample hm) (.unsigned number)
  have hd : d.tokens.length = 2 := rfl
  apply runText_of_spells (Grade.loosens_of_le (by decide) (by decide)) (d := d) ⟨trivial, trivial⟩
  · rw [String.toList_append]
    exact .lexeme (lexeme_sample hl) (fun _ _ => rfl) (spells_numeral hn)
  · rw [hd]
    decide
  · have hr : inRange (-n) = true := inRange_iff.mpr (by omega)
    have hc : checked inRange .minus (-n) = .ok (.integer (-n)) := if_pos hr
    have he : d.tree.eval .standard = do return some (← checked inRange .minus (-n)) := rfl
    rw [he, hc]
    rfl

theorem over_smallest : Pass.over "-9223372036854775808".toList =
    { tokens := [.sample .minus]
      fault := some (.problem (.integerOutOfRange "9223372036854775808"))
      rest := [] } := by
  have hm : scan "-9223372036854775808".toList =
      (.ok (.sample .minus), "9223372036854775808".toList) := rfl
  have hn : scan "9223372036854775808".toList =
      (.error (.problem (.integerOutOfRange "9223372036854775808")), []) := rfl
  rw [Pass.over_eq, hm]
  simp only
  rw [if_neg (by decide), Pass.over_eq, hn]

theorem runText_smallest :
    runText "-9223372036854775808" =
      .ok (.error (.integerOutOfRange "9223372036854775808")) := by
  have hs : TokenStream.ofText "-9223372036854775808" =
      { source :=
          { tokens := [.sample .minus]
            fault := some (.problem (.integerOutOfRange "9223372036854775808")) } } := by
    simp only [TokenStream.ofText, Source.ofText, over_smallest]
  have hp : Program.ofText "-9223372036854775808" =
      .error (.problem (.integerOutOfRange "9223372036854775808")) := by
    rw [Program.ofText, hs]
    with_unfolding_all rfl
  exact runText_of_error hp

/-- The text of a value runs to the value, except for the smallest integer. -/
theorem runText_inspect {text : String} {v : Value} (h : runText text = .ok (.ok (some v))) :
    runText v.inspect = .ok
      (if v = .integer (-9223372036854775808) then
        .error (.integerOutOfRange "9223372036854775808")
      else .ok (some v)) := by
  cases v with
  | boolean b =>
    rw [if_neg nofun]
    cases b with
    | true =>
      have hk : TokenKind.trueWord.isTruth = true := rfl
      exact runText_truth hk rfl
    | false =>
      have hk : TokenKind.falseWord.isTruth = true := rfl
      exact runText_truth hk rfl
  | integer n =>
    have hr := inRange_iff.mp (within_of_runText h)
    by_cases hn : n = -9223372036854775808
    · subst hn
      rw [if_pos rfl]
      exact runText_smallest
    · rw [if_neg fun he => hn (Value.integer.inj he)]
      have hm : maxInteger = 9223372036854775807 := rfl
      cases n with
      | ofNat m => exact runText_numeral (Int.ofNat_le.mp hr.2)
      | negSucc k => exact runText_negation (n := k + 1) (by omega)

theorem runText_inspect_difference :
    runText "(3 - 10);" = .ok (.ok (some (.integer (-7)))) ∧
      runText "-7" = .ok (.ok (some (.integer (-7)))) := by
  have hn (n : Nat) (hl : n ≤ maxInteger) : (Expr.number (some (n : Int))).WellFormed :=
    .number (Int.natCast_nonneg n) (Int.ofNat_le.mpr hl)
  let difference : Expr := .binary .minus (.number (some 3)) (some (.number (some 10)))
  have hw : ∀ s ∈ [Stmt.expr difference], s.WellFormed := by
    intro s hs
    obtain rfl := List.mem_singleton.mp hs
    exact .expr (.binary (l := .sum) rfl (hn 3 (by decide)) (hn 10 (by decide)))
  have hr : runText "(3 - 10);" = .ok (.ok (some (.integer (-7)))) :=
    runText_rendered hw (by decide) rfl
  have hi := runText_inspect hr
  rw [if_neg (by decide)] at hi
  have ht : (Value.integer (-7)).inspect = "-7" := rfl
  exact ⟨hr, ht ▸ hi⟩

theorem runText_inspect_smallest :
    let v : Value := .integer (-9223372036854775808)
    runText "((-9223372036854775807) - 1);" = .ok (.ok (some v)) ∧
      runText v.inspect ≠ .ok (.ok (some v)) := by
  intro v
  have hw : ∀ s ∈ [Stmt.expr (unsignedNumber (-9223372036854775808))], s.WellFormed := by
    intro s hs
    obtain rfl := List.mem_singleton.mp hs
    exact .expr (wellFormed_unsignedNumber (by decide))
  have hr : runText "((-9223372036854775807) - 1);" = .ok (.ok (some v)) :=
    runText_rendered hw (by decide) rfl
  refine ⟨hr, ?_⟩
  intro he
  cases runText_smallest.symm.trans he

end ExprLang
