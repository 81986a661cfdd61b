import ExprLang.Proofs.ResumedScans
import ExprLang.Proofs.RunOutcomes

/-!
Layout: white space and comments at a place of a text. Which layout it is makes no difference to the
tokens, so it makes none to the program and to its result. The place may be anywhere but in a
comment, and layout ends the word that it cuts.
-/

namespace ExprLang

open Text

/-- White space and comments, each comment with its newline, at least one of them. -/
structure Layout (g : List Char) : Prop where
  trivia : Trivia g
  ne_nil : g ≠ []

/-- No number sign stands behind the last newline. -/
def NoOpenComment (text : List Char) : Prop :=
  ∀ front body, text = front ++ '#' :: body → '\n' ∈ body

/-- A character that is part of no token but its own. -/
def Parts (c : Char) : Prop :=
  isDigit c = false ∧ continuesWord c = false ∧ c ≠ '='

section
variable {p : Char → Bool} {xs ys : List Char}

theorem takeWhile_append_of_head (h : ∀ c ∈ ys.head?, p c = false) :
    (xs ++ ys).takeWhile p = xs.takeWhile p := by
  induction xs with
  | nil =>
    cases ys with
    | nil => rfl
    | cons y ys => simp [h y rfl]
  | cons x xs ih => simp only [List.cons_append, List.takeWhile_cons, ih]

theorem dropWhile_append_of_head (h : ∀ c ∈ ys.head?, p c = false) :
    (xs ++ ys).dropWhile p = xs.dropWhile p ++ ys := by
  induction xs with
  | nil =>
    cases ys with
    | nil => rfl
    | cons y ys => simp [h y rfl]
  | cons x xs ih =>
    by_cases hx : p x = true
    · simp only [List.cons_append, List.dropWhile_cons, hx, if_true, ih]
    · simp [hx]

end

theorem isNumeral_of_isBlank {c : Char} (h : isBlank c = true) : isNumeral c = false :=
  CodeRanges.has_eq_false_of_apart (by decide +kernel) h

theorem parts_of_isBlank {c : Char} (h : isBlank c = true) : Parts c := by
  have hd : isDigit c = false := by
    apply Bool.eq_false_iff.mpr
    intro hd
    rw [isBlank_of_isDigit hd] at h
    cases h
  have hl : isLetter c = false := by
    apply Bool.eq_false_iff.mpr
    intro hl
    rw [isBlank_of_isLetter hl] at h
    cases h
  refine ⟨hd, ?_, ?_⟩
  · have hu : c ≠ '_' := by
      rintro rfl
      revert h
      decide
    simp [continuesWord, hl, isNumeral_of_isBlank h, hu]
  · rintro rfl
    revert h
    decide

theorem Layout.parts {g : List Char} (h : Layout g) (rest : List Char) :
    ∀ d ∈ (g ++ rest).head?, Parts d := by
  obtain ⟨ht, hne⟩ := h
  cases ht with
  | nil => exact absurd rfl hne
  | blank hc _ =>
    intro d hd
    obtain rfl := Option.some.inj hd
    exact parts_of_isBlank hc
  | comment _ _ =>
    intro d hd
    obtain rfl := Option.some.inj hd
    exact ⟨by decide, by decide, by decide⟩

/-- A token is scanned as if the text ended in front of a character that parts tokens. -/
theorem scanFrom_append {rest : List Char} (h : ∀ d ∈ rest.head?, Parts d) (c : Char)
    (cs : List Char) :
    scanFrom c (cs ++ rest) = ((scanFrom c cs).1, (scanFrom c cs).2 ++ rest) := by
  have hdigit : ∀ d ∈ rest.head?, isDigit d = false := fun d hd => (h d hd).1
  have hword : ∀ d ∈ rest.head?, continuesWord d = false := fun d hd => (h d hd).2.1
  by_cases hd : isDigit c = true
  · simp only [scanFrom, hd, if_true, takeWhile_append_of_head hdigit,
      dropWhile_append_of_head hdigit]
  · by_cases hw : startsWord c = true
    · simp only [scanFrom, hd, hw, if_true, takeWhile_append_of_head hword,
        dropWhile_append_of_head hword]
      rfl
    · rw [Bool.not_eq_true] at hd hw
      cases cs with
      | nil =>
        have hp : ∀ d ∈ rest.head?, pairKind? c d = none := by
          intro d hm
          simp [pairKind?, (h d hm).2.2]
        rw [List.nil_append, scanFrom_sign hd hw rest hp, scanFrom_sign hd hw [] (by simp)]
        rfl
      | cons d ds =>
        simp only [scanFrom, hd, hw, List.cons_append]
        cases pairKind? c d <;> rfl

theorem NoOpenComment.of_suffix {text rest : List Char} (h : NoOpenComment text)
    (hs : rest <:+ text) : NoOpenComment rest := by
  obtain ⟨behind, rfl⟩ := hs
  rintro front body rfl
  exact h (behind ++ front) body (List.append_assoc ..).symm

theorem scan_congr {text text' : List Char} (h : dropTrivia false text = dropTrivia false text') :
    scan text = scan text' := by
  rw [scan, scan, h]

def Pass.source (pass : Pass) : Source :=
  { tokens := pass.tokens, fault := pass.fault }

/-- Texts whose first tokens are the same yield the same, if what is behind those tokens does. -/
theorem source_over_congr {text text' : List Char} (h : (scan text).1 = (scan text').1)
    (hr : (Pass.over (scan text).2).source = (Pass.over (scan text').2).source) :
    (Pass.over text).source = (Pass.over text').source := by
  obtain ⟨hts, hf⟩ := Source.mk.inj hr
  rw [Pass.over_eq text, Pass.over_eq text']
  cases hs : scan text with
  | mk result rest =>
    cases hs' : scan text' with
    | mk result' rest' =>
      simp only [hs, hs'] at h hts hf
      subst h
      cases result with
      | error fault => rfl
      | ok t =>
        by_cases ht : t.kind = .endOfInput
        · simp only [if_pos ht, Pass.source]
        · simp only [if_neg ht, Pass.source, hts, hf]

/-- The same text may follow any layout: what is in front is scanned in the same way. -/
theorem source_over_layout {a g g' b : List Char} (hg : Layout g) (hg' : Layout g')
    (ha : NoOpenComment a) :
    (Pass.over (a ++ (g ++ b))).source = (Pass.over (a ++ (g' ++ b))).source := by
  induction hl : a.length using Nat.strongRecOn generalizing a with
  | ind n ih =>
    obtain ⟨front, hf, hfront | ⟨_, body, hb, rfl⟩⟩ := exists_trivia a
    · have hdrop (rest : List Char) :
          dropTrivia false (a ++ rest) = dropTrivia false (dropTrivia false a ++ rest) := by
        have hd := hf.dropTrivia (dropTrivia false a ++ rest)
        rwa [← List.append_assoc, ← hfront] at hd
      cases hd : dropTrivia false a with
      | nil =>
        -- Nothing but layout stands in front of the rest.
        have hscan {h : List Char} (hh : Layout h) : scan (a ++ (h ++ b)) = scan b := by
          apply scan_congr
          rw [hdrop, hd, List.nil_append, hh.trivia.dropTrivia]
        rw [Pass.over_eq, Pass.over_eq (a ++ (g' ++ b)), hscan hg, hscan hg']
      | cons c cs =>
        obtain ⟨hblank, hhash⟩ := apart_of_dropTrivia hd
        have hscan {h : List Char} (hh : Layout h) :
            scan (a ++ (h ++ b)) = ((scanFrom c cs).1, (scanFrom c cs).2 ++ (h ++ b)) := by
          rw [← scanFrom_append (hh.parts b), ← scan_cons hblank hhash]
          apply scan_congr
          rw [hdrop, hd, List.cons_append]
        have hsuffix : (scanFrom c cs).2 <:+ a :=
          (scanFrom_suffix c cs).trans
            ((List.suffix_cons c cs).trans (hd ▸ dropTrivia_suffix false a))
        have hlt : (scanFrom c cs).2.length < n := by
          have hle := length_scanFrom_le c cs
          have hcons := length_dropTrivia_le false a
          rw [hd, List.length_cons] at hcons
          omega
        apply source_over_congr
        · rw [hscan hg, hscan hg']
        · rw [hscan hg, hscan hg']
          exact ih _ hlt (ha.of_suffix hsuffix) rfl
    · exact absurd (ha front body rfl) hb

theorem misfit_of_over {text : List Char} {fault : Fault}
    (h : (Pass.over text).fault = some fault) : ∃ w behind, Misfit w behind fault := by
  fun_induction Pass.over text with
  | case1 text first rest hs =>
    obtain rfl := Option.some.inj h
    obtain ⟨_, w, hm, _⟩ := misfit_of_scan hs
    exact ⟨w, rest, hm⟩
  | case2 => cases h
  | case3 _ _ _ _ _ _ _ ih => exact ih h

theorem ofText_congr {text text' : String}
    (h : (Pass.over text.toList).source = (Pass.over text'.toList).source) :
    TokenStream.ofText text = .ofText text' :=
  congrArg (fun source => ({ source } : TokenStream)) h

theorem tokenize_congr {text text' : String}
    (h : (Pass.over text.toList).source = (Pass.over text'.toList).source) :
    tokenize text = tokenize text' := by
  obtain ⟨hts, hf⟩ := Source.mk.inj h
  rw [tokenize, tokenize, Pass.result, Pass.result, hts, hf]

theorem execution_congr {text text' : String} (h : Program.ofText text = Program.ofText text') :
    Execution.ofText text = Execution.ofText text' := by
  rw [Execution.ofText, Execution.ofText, h]

/-- The tokens of a text, the fault in it, its program and its run are the same whatever layout
stands at a place that is in no comment. -/
theorem layout_never_matters (a b : String) {t t' : String} (ht : Layout t.toList)
    (ht' : Layout t'.toList) (ha : NoOpenComment a.toList) :
    let pass := Pass.over (a ++ t ++ b).toList
    let pass' := Pass.over (a ++ t' ++ b).toList
    pass.tokens = pass'.tokens ∧ pass.fault = pass'.fault ∧
      (match pass.fault with
        | none => Finished pass.tokens
        | some fault => (∃ w behind, Misfit w behind fault) ∧
            ∀ token ∈ pass.tokens, token.kind ≠ .endOfInput) ∧
      tokenize (a ++ t ++ b) = tokenize (a ++ t' ++ b) ∧
      (∀ levels, ((Parser.programWithin levels).run (.ofText (a ++ t ++ b))).1 =
        ((Parser.programWithin levels).run (.ofText (a ++ t' ++ b))).1) ∧
      Program.ofText (a ++ t ++ b) = Program.ofText (a ++ t' ++ b) ∧
      Execution.ofText (a ++ t ++ b) = Execution.ofText (a ++ t' ++ b) ∧
      runText (a ++ t ++ b) = runText (a ++ t' ++ b) := by
  intro pass pass'
  have hsource : pass.source = pass'.source := by
    simpa only [pass, pass', String.toList_append, List.append_assoc] using
      source_over_layout ht ht' ha
  obtain ⟨hts, hf⟩ := Source.mk.inj hsource
  have hstream := ofText_congr hsource
  have hprogram : Program.ofText (a ++ t ++ b) = Program.ofText (a ++ t' ++ b) := by
    rw [Program.ofText, hstream, Program.ofText]
  have hrun := execution_congr hprogram
  refine ⟨hts, hf, ?_, tokenize_congr hsource, ?_, hprogram, hrun, ?_⟩
  · have hpass : pass.Of _ := Pass.over_of _
    split
    · rename_i hn
      exact hpass.finished hn
    · rename_i fault hs
      exact ⟨misfit_of_over hs, (hpass.cut fault hs).2⟩
  · intro levels
    rw [hstream]
  · exact congrArg (Except.map Execution.outcome) hrun

/-- The layout cuts what would be one sign in two. -/
theorem layout_never_matters_cut :
    Layout " ".toList ∧ Layout "#==\n\t".toList ∧ NoOpenComment "1 =".toList ∧
      tokenize ("1 =" ++ " " ++ "= 2") = tokenize ("1 =" ++ "#==\n\t" ++ "= 2") ∧
      runText ("1 =" ++ " " ++ "= 2") = runText ("1 =" ++ "#==\n\t" ++ "= 2") := by
  have ht : Layout " ".toList := ⟨.blank (by decide) .nil, by decide⟩
  have ht' : Layout "#==\n\t".toList := by
    have hg : Trivia ['\t'] := .blank (by decide) .nil
    have hb : '\n' ∉ ['=', '='] := by decide
    exact ⟨.comment hb hg, by decide⟩
  have ha : NoOpenComment "1 =".toList := by
    intro front body h
    have hm : '#' ∈ "1 =".toList := by simp [h]
    exact absurd hm (by decide)
  obtain ⟨_, _, _, htokens, _, _, _, hrun⟩ := layout_never_matters "1 =" "= 2" ht ht' ha
  exact ⟨ht, ht', ha, htokens, hrun⟩

end ExprLang
