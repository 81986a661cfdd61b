import Mathlib.Data.List.Forall2
import ExprLang.Console.Command
import ExprLang.Proofs.RunOutcomes

/-!
The line loop answers each line on its own. A problem is an answer like any other, so the loop comes
to the end of its text, unless a number in it has more digits than are read. What it writes for two
texts, one behind the other, is what it writes for each of them.
-/

namespace ExprLang

open Text

/-- No run of digits is longer than what is read as a number. -/
def ShortRuns (text : List Char) : Prop :=
  ∀ digits, digits <:+: text → (∀ c ∈ digits, isDigit c = true) → digits.length ≤ maxDigits

theorem ShortRuns.part {text part : List Char} (h : ShortRuns text) (hp : part <:+: text) :
    ShortRuns part :=
  fun digits hi hd => h digits (hi.trans hp) hd

theorem Fault.OfText.problem {text : List Char} {fault : Fault} (h : fault.OfText text)
    (hs : ShortRuns text) : ∃ problem, fault = .problem problem := by
  obtain h | ⟨_, digits, hi, hd, hl⟩ := h
  · exact h
  · exact absurd (hs digits hi hd) (Nat.not_le_of_lt hl)

namespace Text

theorem flatten_lines (text : List Char) : (lines text).flatten = text := by
  fun_induction lines text with
  | case1 => rfl
  | case2 cs ih => simp [ih]
  | case3 c cs _ hl ih =>
    rw [hl] at ih
    simp [← ih]
  | case4 c cs _ line rest hl ih =>
    rw [hl] at ih
    simp [← ih]

/-- Behind a newline, or at the start, a new line begins. -/
theorem lines_append {text : List Char} (h : ∀ c ∈ text.getLast?, c = '\n') (more : List Char) :
    lines (text ++ more) = lines text ++ lines more := by
  have htail {c : Char} {cs : List Char} (h : ∀ d ∈ (c :: cs).getLast?, d = '\n') :
      ∀ d ∈ cs.getLast?, d = '\n' := by
    intro d hd
    apply h
    rw [List.getLast?_cons, Option.mem_def.mp hd]
    rfl
  fun_induction lines text with
  | case1 => rfl
  | case2 cs ih => simp [lines, ih (htail h)]
  | case3 c cs hc hl ih =>
    -- The last line is not ended.
    have hcs := flatten_lines cs
    rw [hl] at hcs
    subst hcs
    exact absurd (h c rfl) hc
  | case4 c cs hc line rest hl ih =>
    have ih := ih (htail h)
    rw [hl] at ih
    simp [lines, hc, ih]

theorem lines_of_line {line : List Char} (hne : line ≠ []) (hn : '\n' ∉ line.dropLast) :
    lines line = [line] := by
  induction line with
  | nil => exact absurd rfl hne
  | cons c cs ih =>
    cases cs with
    | nil => simp [lines]
    | cons d ds =>
      rw [List.dropLast_cons_cons, List.mem_cons, not_or] at hn
      rw [lines, if_neg (Ne.symm hn.1), ih (by simp) hn.2]

end Text

namespace Console

/-- What the loop writes about a line, the prompts aside. -/
inductive Reply : LoopMode → List Char → String → Prop where
  | blank {mode : LoopMode} {line : List Char} (hb : isBlankLine line = true) : Reply mode line ""
  | problem {line : List Char} {p : Problem} (hb : isBlankLine line = false)
      (h : runText (.ofList line) = .ok (.error p)) : Reply .values line (p.text ++ "\n")
  | value {line : List Char} {v : Value} (hb : isBlankLine line = false)
      (h : runText (.ofList line) = .ok (.ok (some v))) : Reply .values line (v.inspect ++ "\n")
  | nothing {line : List Char} (hb : isBlankLine line = false)
      (h : runText (.ofList line) = .ok (.ok none)) : Reply .values line ""
  | unread {line : List Char} {p : Problem} (hb : isBlankLine line = false)
      (h : Program.ofText (.ofList line) = .error (.problem p)) :
      Reply .trees line (p.text ++ "\n")
  | rendering {line : List Char} {program : Program} {text : String}
      (hb : isBlankLine line = false) (h : Program.ofText (.ofList line) = .ok program)
      (ht : program.render = .ok text) : Reply .trees line (text ++ "\n")

section
variable {text : String}

theorem exists_execution (hs : ShortRuns text.toList) :
    ∃ execution, Execution.ofText text = .ok execution := by
  have ho := Program.ofText_outcome text
  unfold Execution.ofText
  split <;> rename_i hr
  · rw [hr] at ho
    obtain ⟨problem, rfl⟩ := ho.problem hs
    exact ⟨_, rfl⟩
  · split <;> rename_i he
    · have hsettles := settles_eval hr
      rw [he] at hsettles
      obtain ⟨problem, rfl, _⟩ := hsettles
      exact ⟨_, rfl⟩
    · exact ⟨_, rfl⟩

theorem runText_of_execution {execution : Execution} (h : Execution.ofText text = .ok execution) :
    runText text = .ok execution.outcome := by
  rw [runText, h]
  rfl

end

section
variable {line : List Char}

theorem answerTree_reply (hb : isBlankLine line = false) (hs : ShortRuns line) :
    ∃ answer, answerTree (.ofList line) = .ok answer ∧ Reply .trees line answer.out := by
  have ho := Program.ofText_outcome (.ofList line)
  rw [String.toList_ofList] at ho
  unfold answerTree
  split <;> rename_i hr
  · rw [hr] at ho
    have ht := Program.render_of_wellFormed ho
    rw [ht]
    exact ⟨_, rfl, .rendering hb hr ht⟩
  · exact ⟨_, rfl, .unread hb hr⟩
  · rename_i hn
    rw [hr] at ho
    obtain ⟨problem, rfl⟩ := ho.problem hs
    exact absurd rfl (hn problem)

theorem answerValue_reply (hb : isBlankLine line = false) (hs : ShortRuns line) :
    ∃ answer, answerValue (.ofList line) = .ok answer ∧ Reply .values line answer.out := by
  rw [← String.toList_ofList (l := line)] at hs
  obtain ⟨execution, he⟩ := exists_execution hs
  have hr := runText_of_execution he
  rw [answerValue, he]
  refine ⟨_, rfl, ?_⟩
  split <;> rename_i ho
  · exact .nothing hb (ho ▸ hr)
  · exact .value hb (ho ▸ hr)
  · exact .problem hb (ho ▸ hr)

/-- Each line has an answer, whatever is wrong with it. -/
theorem answerLine_reply (mode : LoopMode) (hs : ShortRuns line) :
    ∃ answer, answerLine mode line = .ok answer ∧ Reply mode line answer.out := by
  unfold answerLine
  split <;> rename_i hb
  · exact ⟨{}, rfl, .blank hb⟩
  · rw [Bool.not_eq_true] at hb
    cases mode with
    | trees => exact answerTree_reply hb hs
    | values => exact answerValue_reply hb hs

end

section
variable {ls ls' : List (List Char)}

theorem Answer.ext {a b : Answer} (ho : a.out = b.out) (hl : a.log = b.log) : a = b := by
  cases a
  cases b
  simp_all

theorem Answer.append_assoc (a b c : Answer) : a ++ b ++ c = a ++ (b ++ c) :=
  Answer.ext (String.append_assoc ..) (List.append_assoc ..)

theorem Answer.empty_append (a : Answer) : ({} : Answer) ++ a = a :=
  Answer.ext (String.empty_append ..) (List.nil_append _)

/-- The prompt in front of the end is the first one of what follows, if something follows. -/
theorem answerLines_append {mode : LoopMode} {p : String} {second : Answer}
    (hs : ∀ line ∈ ls, ShortRuns line) (h : answerLines mode p ls' = .ok second) :
    ∃ first, answerLines mode p ls = .ok (first ++ { out := p }) ∧
      answerLines mode p (ls ++ ls') = .ok (first ++ second) := by
  induction ls with
  | nil => exact ⟨{}, by rw [Answer.empty_append]; rfl, by rw [Answer.empty_append]; exact h⟩
  | cons line ls ih =>
    obtain ⟨hline, hls⟩ := List.forall_mem_cons.mp hs
    obtain ⟨answer, ha, _⟩ := answerLine_reply mode hline
    obtain ⟨first, hfirst, hboth⟩ := ih hls
    refine ⟨{ out := p } ++ answer ++ first, ?_, ?_⟩
    · rw [answerLines, ha, hfirst, Answer.append_assoc _ first]
      rfl
    · rw [List.cons_append, answerLines, ha, hboth, Answer.append_assoc _ first]
      rfl

/-- The loop comes to the end of any lines, and replies to each of them behind its prompt. -/
theorem answerLines_replies (mode : LoopMode) (p : String) (hs : ∀ line ∈ ls, ShortRuns line) :
    ∃ answer replies, answerLines mode p ls = .ok answer ∧
      List.Forall₂ (Reply mode) ls replies ∧
      answer.out = String.join (replies.map (p ++ ·)) ++ p := by
  induction ls with
  | nil => exact ⟨_, [], rfl, .nil, (String.empty_append ..).symm⟩
  | cons line ls ih =>
    obtain ⟨hline, hls⟩ := List.forall_mem_cons.mp hs
    obtain ⟨first, hfirst, hreply⟩ := answerLine_reply mode hline
    obtain ⟨others, replies, hothers, hreplies, hout⟩ := ih hls
    refine ⟨{ out := p } ++ first ++ others, first.out :: replies, ?_, .cons hreply hreplies, ?_⟩
    · rw [answerLines, hfirst, hothers]
      rfl
    · have ho : ({ out := p } ++ first ++ others : Answer).out = p ++ first.out ++ others.out := rfl
      simp only [ho, hout, List.map_cons, String.join_cons, String.append_assoc]

end

theorem shortRuns_of_mem_lines {text line : List Char} (hs : ShortRuns text)
    (h : line ∈ lines text) : ShortRuns line := by
  apply hs.part
  have hi := List.infix_of_mem_flatten h
  rwa [flatten_lines] at hi

theorem shortRuns_of_length_le {text : List Char} (h : text.length ≤ maxDigits) :
    ShortRuns text :=
  fun _ hi _ => Nat.le_trans hi.length_le h

section
variable {t₁ t₂ : List Char}

theorem loop_append (mode : LoopMode) (h : ∀ c ∈ t₁.getLast?, c = '\n') (hs : ShortRuns (t₁ ++ t₂))
    (interactive : Bool) :
    ∃ first second, loop mode interactive t₁ =
        .ok (first ++ { out := if interactive then prompt else "" }) ∧
      loop mode interactive t₂ = .ok second ∧
      loop mode interactive (t₁ ++ t₂) = .ok (first ++ second) := by
  have hs₁ : ∀ line ∈ lines t₁, ShortRuns line :=
    fun _ => shortRuns_of_mem_lines (hs.part (List.prefix_append t₁ t₂).isInfix)
  have hs₂ : ∀ line ∈ lines t₂, ShortRuns line :=
    fun _ => shortRuns_of_mem_lines (hs.part (List.suffix_append t₁ t₂).isInfix)
  obtain ⟨second, _, hsecond, _⟩ :=
    answerLines_replies mode (if interactive then prompt else "") hs₂
  obtain ⟨first, hfirst, hboth⟩ := answerLines_append hs₁ hsecond
  refine ⟨first, second, hfirst, hsecond, ?_⟩
  rw [loop, lines_append h]
  exact hboth

theorem loop_line {mode : LoopMode} {line : List Char} (hne : line ≠ []) (hn : '\n' ∉ line.dropLast)
    (hs : ShortRuns line) (interactive : Bool) :
    ∃ answer reply, loop mode interactive line = .ok answer ∧ Reply mode line reply ∧
      answer.out = if interactive then prompt ++ reply ++ prompt else reply := by
  have hs' : ∀ l ∈ lines line, ShortRuns l := fun _ => shortRuns_of_mem_lines hs
  rw [lines_of_line hne hn] at hs'
  obtain ⟨answer, replies, ha, hr, hout⟩ :=
    answerLines_replies mode (if interactive then prompt else "") hs'
  cases hr with
  | cons hreply hnil =>
    cases hnil
    refine ⟨answer, _, ?_, hreply, ?_⟩
    · rw [loop, lines_of_line hne hn, ha]
    · rw [hout]
      cases interactive <;> simp

theorem perform_loop {mode : LoopMode} {answer : Answer} {input : String}
    (h : loop mode false (unifyNewlines input.toList) = .ok answer) (source : Option String) :
    ∃ finish, (Command.loop mode).perform source input = .ok finish ∧ finish.exit = 0 ∧
      finish.out = answer.out ∧ finish.complaint = "" := by
  rw [Command.perform, h]
  exact ⟨_, rfl, rfl, rfl, rfl⟩

end

end Console

open Console

end ExprLang
