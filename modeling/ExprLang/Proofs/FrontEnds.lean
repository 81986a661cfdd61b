import Mathlib
import ExprLang.Proofs.LineAnswers
import ExprLang.Proofs.ResumedScans

/-!
Running a file, parsing it and listing its tokens. Each of these ends with the first problem that it
meets. A text that can be run has no problem for the parser, and one that can be parsed has none for
the listing. A text on one line comes to the same in the line loop as in a file.
-/

namespace ExprLang

open Text

namespace Text

theorem unifyNewlines_of_not_mem {text : List Char} (h : '\r' ∉ text) :
    unifyNewlines text = text := by
  fun_induction unifyNewlines text with
  | case1 => rfl
  | case2 cs ih => simp at h
  | case3 c cs hc ih =>
    rw [List.mem_cons, not_or] at h
    rw [ih h.2, if_neg (Ne.symm h.1)]

section
variable {digits xs ys text : List Char}

theorem eq_nil_of_prefix_newline (hd : ∀ c ∈ digits, isDigit c = true)
    (h : digits <+: '\n' :: xs) : digits = [] := by
  obtain rfl | ⟨ds, rfl, _⟩ := List.prefix_cons_iff.mp h
  · rfl
  · exact absurd (hd '\n' List.mem_cons_self) (by decide)

theorem infix_cons_of {c d : Char} (hp : digits <+: c :: xs → digits <+: d :: ys)
    (hi : digits <:+: xs → digits <:+: ys) (h : digits <:+: c :: xs) : digits <:+: d :: ys := by
  obtain h | h := List.infix_cons_iff.mp h
  · exact (hp h).isInfix
  · exact List.infix_cons (hi h)

/-- Runs of digits hold no newline, so unifying newlines makes no new ones. -/
theorem digits_of_unifyNewlines (hd : ∀ c ∈ digits, isDigit c = true) :
    (digits <+: unifyNewlines text → digits <+: text) ∧
      (digits <:+: unifyNewlines text → digits <:+: text) := by
  fun_induction unifyNewlines text generalizing digits with
  | case1 => exact ⟨id, id⟩
  | case2 cs ih =>
    have hp (h : digits <+: '\n' :: unifyNewlines cs) : digits <+: '\r' :: '\n' :: cs := by
      rw [eq_nil_of_prefix_newline hd h]
      exact List.nil_prefix
    exact ⟨hp, infix_cons_of hp fun h => List.infix_cons ((ih hd).2 h)⟩
  | case3 c cs _ ih =>
    by_cases hc : c = '\r'
    · have hp (h : digits <+: '\n' :: unifyNewlines cs) : digits <+: c :: cs := by
        rw [eq_nil_of_prefix_newline hd h]
        exact List.nil_prefix
      rw [if_pos hc]
      exact ⟨hp, infix_cons_of hp (ih hd).2⟩
    · have hp (h : digits <+: c :: unifyNewlines cs) : digits <+: c :: cs := by
        obtain rfl | ⟨ds, rfl, hds⟩ := List.prefix_cons_iff.mp h
        · exact List.nil_prefix
        · have hd' := (List.forall_mem_cons.mp hd).2
          exact List.cons_prefix_cons.mpr ⟨rfl, (ih hd').1 hds⟩
      rw [if_neg hc]
      exact ⟨hp, infix_cons_of hp (ih hd).2⟩

end

end Text

theorem ShortRuns.unified {text : List Char} (hs : ShortRuns text) :
    ShortRuns (unifyNewlines text) :=
  fun digits hi hd => hs digits ((digits_of_unifyNewlines hd).2 hi) hd

theorem Pass.over_of_isBlankLine {text : List Char} (h : isBlankLine text = true) :
    Pass.over text = Pass.over [] := by
  induction text with
  | nil => rfl
  | cons c cs ih =>
    obtain ⟨hc, hcs⟩ := Bool.and_eq_true_iff.mp (List.all_cons.symm.trans h)
    rw [Pass.over_blank hc, ih hcs]

theorem runText_of_isBlankLine {text : List Char} (h : isBlankLine text = true) :
    runText (.ofList text) = .ok (.ok none) := by
  have hs : TokenStream.ofText (.ofList text) = TokenStream.ofText (.ofList []) := by
    simp only [TokenStream.ofText, Source.ofText, String.toList_ofList, Pass.over_of_isBlankLine h]
  have hp : Program.ofText (.ofList text) = .ok [] := by
    rw [Program.ofText, hs]
    with_unfolding_all rfl
  rw [runText_of_ok hp]
  rfl

section
variable {text : String}

theorem Lexer.passes_ofText (text : String) : (ofText text).Passes (Pass.over text.toList) :=
  passes_over (ofText text)

theorem Lexer.items_of_finished (hf : (Pass.over text.toList).fault = none) :
    Finished (Pass.over text.toList).tokens ∧
      (ofText text).items 0 (Pass.over text.toList).tokens.length =
        (Pass.over text.toList).tokens.map .ok := by
  cases passes_ofText text with
  | ended _ hts hi _ => exact ⟨hts, hi⟩
  | cut hf' _ _ _ => cases hf'.symm.trans hf

theorem Lexer.items_of_cut {fault : Fault} (hf : (Pass.over text.toList).fault = some fault) :
    (∀ t ∈ (Pass.over text.toList).tokens, t.kind ≠ .endOfInput) ∧
      (ofText text).items 0 ((Pass.over text.toList).tokens.length + 1) =
        (Pass.over text.toList).tokens.map .ok ++ [.error fault] := by
  cases passes_ofText text with
  | ended hf' _ _ _ => cases hf'.symm.trans hf
  | cut hf' hts hi _ =>
    obtain rfl := Option.some.inj (hf'.symm.trans hf)
    exact ⟨hts, hi⟩

end

namespace Console

/-- The text of a file as the commands have it. -/
def fileText (source : String) : String :=
  .ofList (unifyNewlines source.toList)

/-- What a command reports when no level is given for the log. -/
def Command.report (command : Command) (directory : Directory) (input : String) :
    Except Fault Report :=
  ({ command, logLevel := none } : Invocation).report directory input none

/-- What is seen of a finish without its log. -/
def reported (finish : Except Fault Finish) : Except Fault Report :=
  finish.map fun finish => { exit := finish.exit, out := finish.out, err := finish.complaint }

namespace Report

/-- A result is written to the output, a problem to the error output. -/
def ofResult {α : Type} (text : α → String) : Except Problem α → Report
  | .ok result => { exit := 0, out := text result, err := "" }
  | .error p => { exit := 1, out := "", err := withNewline p.text }

/-- Tokens are listed whether or not a problem follows. -/
def ofTokens (tokens : List Token) (problem : Option Problem) : Report :=
  { exit := if problem.isSome then 1 else 0
    out := linesText (tokens.map Token.listed)
    err := problem.elim "" fun p => withNewline p.text }

/-- A failure is told by the exit, and there is a complaint only then. -/
def Tells (report : Report) : Prop :=
  report.exit = 0 ∧ report.err = "" ∨ report.exit = 1

section
variable {α : Type} {text : α → String} {result : Except Problem α}

theorem ofResult_exit : (ofResult text result).exit = 0 ↔ ∃ a, result = .ok a := by
  cases result <;> simp [ofResult]

theorem ofResult_tells : (ofResult text result).Tells := by
  cases result with
  | ok a => exact .inl ⟨rfl, rfl⟩
  | error p => exact .inr rfl

theorem ofResult_out (h : (ofResult text result).exit = 1) : (ofResult text result).out = "" := by
  cases result with
  | ok a => cases h
  | error p => rfl

end

theorem ofTokens_tells (tokens : List Token) (problem : Option Problem) :
    (ofTokens tokens problem).Tells := by
  cases problem with
  | none => exact .inl ⟨rfl, rfl⟩
  | some p => exact .inr rfl

end Report

def valueText : Option Value → String
  | some value => withNewline value.inspect
  | none => ""

def dumpText (program : Program) : String :=
  linesText ((Node.program program).dump 0)

section
variable {text : String}

theorem runFile_reported (hs : ShortRuns text.toList) :
    ∃ outcome, runText text = .ok outcome ∧
      reported (runFile text) = .ok (.ofResult valueText outcome) := by
  obtain ⟨execution, he⟩ := exists_execution hs
  refine ⟨execution.outcome, runText_of_execution he, ?_⟩
  rw [runFile, he]
  obtain ⟨outcome, log⟩ := execution
  cases outcome with
  | error p => rfl
  | ok result => cases result <;> rfl

theorem parseFile_reported (hs : ShortRuns text.toList) :
    ∃ read : Except Problem Program, Program.ofText text = read.mapError .problem ∧
      reported (parseFile text) = .ok (.ofResult dumpText read) := by
  have ho := Program.ofText_outcome text
  cases hr : Program.ofText text with
  | ok program =>
    rw [parseFile, hr]
    exact ⟨.ok program, rfl, rfl⟩
  | error fault =>
    rw [hr] at ho
    obtain ⟨p, rfl⟩ := ho.problem hs
    rw [parseFile, hr]
    exact ⟨.error p, rfl, rfl⟩

theorem tokensFile_reported (hs : ShortRuns text.toList) :
    ∃ problem : Option Problem, (Pass.over text.toList).fault = problem.map .problem ∧
      reported (tokensFile text) = .ok (.ofTokens (Pass.over text.toList).tokens problem) := by
  simp only [tokensFile]
  cases hf : (Pass.over text.toList).fault with
  | none => exact ⟨none, rfl, rfl⟩
  | some fault =>
    obtain ⟨p, rfl⟩ := ((Pass.over_of text.toList).cut fault hf).1.problem hs
    exact ⟨some p, rfl, rfl⟩

end

theorem isVerbose_default : isVerbose none none = false := by
  decide

theorem reported_log (finish : Except Fault Finish) (record : LogRecord) :
    reported (do
      let finish ← finish
      return { finish with log := record :: finish.log }) = reported finish := by
  cases finish <;> rfl

theorem report_eq (command : Command) (directory : Directory) (input : String) :
    command.report directory input =
      reported (command.perform (command.path?.bind directory.read) input) := by
  rw [Command.report, Invocation.report, isVerbose_default]
  cases command.perform (command.path?.bind directory.read) input with
  | error fault => rfl
  | ok finish =>
    have he : finish.err false = finish.complaint := String.empty_append ..
    exact congrArg (fun err => Except.ok (Report.mk finish.exit finish.out err)) he

/-- A file that can be read is opened by its path, and its text is unified. -/
theorem report_of_read {directory : Directory} {path source : String}
    (hread : directory.read (.ofString path) = some source) (input : String) :
    (Command.run path).report directory input = reported (runFile (fileText source)) ∧
      (Command.parse path).report directory input = reported (parseFile (fileText source)) ∧
      (Command.tokens path).report directory input = reported (tokensFile (fileText source)) := by
  simp only [report_eq, Command.path?, Option.bind_some, hread]
  exact ⟨reported_log .., reported_log .., reported_log ..⟩

/-- A text on one line is one reply. -/
theorem loop_of_one (mode : LoopMode) {text : List Char} (h : '\n' ∉ text)
    (hs : ShortRuns text) :
    ∃ answer, loop mode false text = .ok answer ∧ Reply mode text answer.out := by
  cases text with
  | nil => exact ⟨_, rfl, .blank rfl⟩
  | cons c cs =>
    obtain ⟨answer, reply, ha, hr, hout⟩ :=
      loop_line (List.cons_ne_nil c cs) (fun hm => h (List.dropLast_subset _ hm)) hs false
    obtain rfl : answer.out = reply := hout
    exact ⟨answer, ha, hr⟩

/-- What the loop replies to a line is what a run of it writes, to the output or else to the error
output. -/
theorem Reply.eq_written {line : List Char} {reply : String}
    {outcome : Except Problem (Option Value)} (h : Reply .values line reply)
    (ho : runText (.ofList line) = .ok outcome) :
    reply = (Report.ofResult valueText outcome).out ++ (Report.ofResult valueText outcome).err := by
  cases h with
  | blank hb =>
    obtain rfl := Except.ok.inj ((runText_of_isBlankLine hb).symm.trans ho)
    rfl
  | problem _ h =>
    obtain rfl := Except.ok.inj (h.symm.trans ho)
    simp only [Report.ofResult, withNewline, String.empty_append]
  | value _ h =>
    obtain rfl := Except.ok.inj (h.symm.trans ho)
    simp only [Report.ofResult, valueText, withNewline, String.append_empty]
  | nothing _ h =>
    obtain rfl := Except.ok.inj (h.symm.trans ho)
    rfl

theorem report_loop (directory : Directory) {source : String} (hn : '\n' ∉ source.toList)
    (hr : '\r' ∉ source.toList) (hs : ShortRuns source.toList)
    {outcome : Except Problem (Option Value)} (ho : runText source = .ok outcome) :
    ∃ loop, (Command.loop .values).report directory source = .ok loop ∧ loop.exit = 0 ∧
      loop.out = (Report.ofResult valueText outcome).out ++
        (Report.ofResult valueText outcome).err := by
  obtain ⟨answer, ha, hreply⟩ := loop_of_one .values hn hs
  rw [← String.ofList_toList (s := source)] at ho
  rw [report_eq, Command.perform, unifyNewlines_of_not_mem hr, ha]
  exact ⟨_, rfl, rfl, hreply.eq_written ho⟩

theorem read_of_outcome {text : String} {read : Except Problem Program} {result : Option Value}
    (h : runText text = .ok (.ok result)) (hr : Program.ofText text = read.mapError .problem) :
    ∃ program, read = .ok program := by
  obtain ⟨program, hp, _⟩ := exists_program_of_runText h
  cases read with
  | ok program => exact ⟨program, rfl⟩
  | error p => cases hp.symm.trans hr

end Console

open Console

end ExprLang
