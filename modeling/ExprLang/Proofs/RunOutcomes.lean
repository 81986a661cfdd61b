import Mathlib.Data.List.TakeWhile
import ExprLang.Execution
import ExprLang.Proofs.EvaluationOutcomes
import ExprLang.Proofs.ParsedPrograms

/-!
What running a text ends in: a result or a problem with one of the known codes. Only a number with
more digits than are read stops the run with a fault that is no problem.
-/

namespace ExprLang

open Evaluation Text

def Problem.codes : List String :=
  ["E001", "E002", "E101", "E102", "E103", "E104", "E105", "E201", "E202", "E203", "E301", "E302",
    "E303", "E304"]

theorem Problem.code_mem (problem : Problem) : problem.code ∈ codes := by
  cases problem <;> simp [code, codes]

section
variable {text : String}

theorem runText_of_error {fault : Fault} (h : Program.ofText text = .error fault) :
    runText text = match fault with
      | .problem problem => .ok (.error problem)
      | fault => .error fault := by
  simp only [runText, Execution.ofText, h]
  cases fault <;> rfl

theorem runText_of_ok {program : Program} (h : Program.ofText text = .ok program) :
    runText text = match program.eval with
      | .ok result => .ok (.ok result)
      | .error (.problem problem) => .ok (.error problem)
      | .error fault => .error fault := by
  simp only [runText, Execution.ofText, h]
  cases program.eval with
  | ok result => rfl
  | error fault => cases fault <;> rfl

theorem exists_program_of_runText {result : Option Value} (h : runText text = .ok (.ok result)) :
    ∃ program, Program.ofText text = .ok program ∧ program.eval = .ok result := by
  cases hr : Program.ofText text with
  | error fault =>
    rw [runText_of_error hr] at h
    cases fault <;> simp at h
  | ok program =>
    rw [runText_of_ok hr] at h
    cases he : program.eval with
    | error fault =>
      rw [he] at h
      cases fault <;> simp at h
    | ok result' =>
      rw [he] at h
      obtain rfl := Except.ok.inj (Except.ok.inj h)
      exact ⟨program, rfl, he⟩

theorem settles_eval {program : Program} (h : Program.ofText text = .ok program) :
    Settles (ResultWithin (inRange · = true)) program.eval := by
  have hw := Program.ofText_outcome text
  rw [h] at hw
  exact Program.settles_evalWithin (fun _ => Lexicon.inRange_of_written)
    (fun s hs => (hw s hs).complete) fun _ hf => hf

end

/-- A run comes to an outcome, and its problems have known codes, unless it meets a number with more
digits than are read. -/
theorem runText_outcome (text : String) :
    (∃ outcome, runText text = .ok outcome ∧
      ∀ problem, outcome = .error problem → problem.code ∈ Problem.codes) ∨
    (runText text = .error .numberTooLong ∧
      ∃ digits, digits <:+: text.toList ∧ (∀ c ∈ digits, isDigit c = true) ∧
        maxDigits < digits.length) := by
  have ho := Program.ofText_outcome text
  cases hr : Program.ofText text with
  | error fault =>
    rw [hr] at ho
    obtain ⟨problem, rfl⟩ | ⟨rfl, hd⟩ := ho
    · exact .inl ⟨_, runText_of_error hr, fun _ _ => Problem.code_mem _⟩
    · exact .inr ⟨runText_of_error hr, hd⟩
  | ok program =>
    have hs := settles_eval hr
    cases he : program.eval with
    | ok result =>
      refine .inl ⟨.ok result, ?_, nofun⟩
      rw [runText_of_ok hr, he]
    | error fault =>
      rw [he] at hs
      obtain ⟨problem, rfl, _⟩ := hs
      refine .inl ⟨.error problem, ?_, fun _ _ => Problem.code_mem _⟩
      rw [runText_of_ok hr, he]

section
variable {digits : List Char}

theorem over_of_long (hd : ∀ c ∈ digits, isDigit c = true) (hl : maxDigits < digits.length) :
    Pass.over digits = { tokens := [], fault := some .numberTooLong, rest := [] } := by
  obtain ⟨c, cs, rfl⟩ := List.exists_cons_of_length_pos (Nat.zero_lt_of_lt hl)
  have hc := hd c (by simp)
  have hcs : ∀ d ∈ cs, isDigit d = true := fun d hd' => hd d (by simp [hd'])
  have hs : scan (c :: cs) = (.error .numberTooLong, []) := by
    rw [scan_cons (isBlank_of_isDigit hc) (ne_hash_of_isDigit hc)]
    have ht : cs.takeWhile isDigit = cs := List.takeWhile_eq_self_iff.mpr hcs
    have hr : cs.dropWhile isDigit = [] := List.dropWhile_eq_nil_iff.mpr hcs
    simp only [scanFrom, hc, if_true, ht, hr, numberToken, if_pos hl]
  rw [Pass.over_eq, hs]

theorem runText_of_long (hd : ∀ c ∈ digits, isDigit c = true) (hl : maxDigits < digits.length) :
    runText (String.ofList digits) = .error .numberTooLong := by
  have hs : TokenStream.ofText (String.ofList digits) =
      { source := ⟨[], some .numberTooLong⟩ } := by
    simp only [TokenStream.ofText, Source.ofText, String.toList_ofList, over_of_long hd hl]
  have hp : Program.ofText (String.ofList digits) = .error .numberTooLong := by
    rw [Program.ofText, hs]
    with_unfolding_all rfl
  exact runText_of_error hp

end

theorem runText_outcome_long :
    ¬ ∃ outcome, runText (String.ofList (List.replicate 4301 '1')) = .ok outcome := by
  rintro ⟨outcome, ho⟩
  have hd : ∀ c ∈ List.replicate 4301 '1', isDigit c = true := by
    intro c hc
    rw [List.eq_of_mem_replicate hc]
    decide
  have hl : maxDigits < (List.replicate 4301 '1').length := by
    rw [List.length_replicate]
    decide
  have he := runText_of_long hd hl
  cases he.symm.trans ho

end ExprLang
