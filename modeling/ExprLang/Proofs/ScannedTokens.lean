import ExprLang.Proofs.ParserExactness
import ExprLang.Proofs.WrittenTokens

/-!
What scanning yields: lexemes of the text in their order, then the end of the input or a fault. A
fault is a problem of the text, unless a number has more digits than are read.
-/

namespace ExprLang

open Text

section
variable {text rest : List Char} {t : Token} {fault : Fault}

theorem dropTrivia_suffix (inComment : Bool) (text : List Char) :
    dropTrivia inComment text <:+ text := by
  fun_induction dropTrivia inComment text with
  | case1 => exact List.suffix_refl _
  | case2 c cs ih => exact ih.trans (List.suffix_cons c cs)
  | case3 c cs _ ih => exact ih.trans (List.suffix_cons c cs)
  | case4 cs _ ih => exact ih.trans (List.suffix_cons '#' cs)
  | case5 => exact List.suffix_refl _

theorem lexeme_of_numberToken {digits : List Char} (hne : digits ≠ [])
    (hd : ∀ c ∈ digits, isDigit c = true) (h : numberToken digits = .ok t) : Lexeme digits t := by
  unfold numberToken at h
  split at h
  · cases h
  · rename_i hl
    dsimp only at h
    split at h
    · cases h
    · rename_i hn
      obtain rfl := Except.ok.inj h
      exact .number hne hd (Nat.le_of_not_lt hl) (Nat.le_of_not_lt hn)

theorem lexeme_of_singleToken {c : Char} (h : singleToken c = .ok t) : Lexeme [c] t := by
  unfold singleToken at h
  dsimp only at h
  split at h
  · rename_i hk
    obtain rfl := Except.ok.inj h
    exact .single hk
  · cases h

theorem of_mem_takeWhile {p : Char → Bool} {cs : List Char} : ∀ d ∈ cs.takeWhile p, p d = true :=
  List.all_eq_true.mp List.all_takeWhile

theorem of_mem_cons_takeWhile {p : Char → Bool} {c : Char} (hc : p c = true) (cs : List Char) :
    ∀ d ∈ c :: cs.takeWhile p, p d = true :=
  List.forall_mem_cons.mpr ⟨hc, of_mem_takeWhile⟩

theorem lexeme_of_scanFrom {c : Char} {cs : List Char} (h : scanFrom c cs = (.ok t, rest)) :
    ∃ w, Lexeme w t ∧ w ++ rest = c :: cs := by
  unfold scanFrom at h
  split at h
  · rename_i hc
    obtain ⟨hn, rfl⟩ := Prod.mk.inj h
    refine ⟨_, lexeme_of_numberToken (by simp) (of_mem_cons_takeWhile hc cs) hn, ?_⟩
    rw [List.cons_append, List.takeWhile_append_dropWhile]
  · split at h
    · rename_i hc
      obtain ⟨hw, rfl⟩ := Prod.mk.inj h
      obtain rfl := Except.ok.inj hw
      refine ⟨_, .word hc of_mem_takeWhile, ?_⟩
      rw [List.cons_append, List.takeWhile_append_dropWhile]
    · split at h
      · obtain ⟨hs, rfl⟩ := Prod.mk.inj h
        exact ⟨_, lexeme_of_singleToken hs, rfl⟩
      · split at h
        · rename_i hk
          obtain ⟨ht, rfl⟩ := Prod.mk.inj h
          obtain rfl := Except.ok.inj ht
          exact ⟨_, .pair hk, rfl⟩
        · obtain ⟨hs, rfl⟩ := Prod.mk.inj h
          exact ⟨_, lexeme_of_singleToken hs, rfl⟩

theorem lexeme_of_scan (h : scan text = (.ok t, rest)) :
    t.kind = .endOfInput ∨ ∃ w, Lexeme w t ∧ w ++ rest <:+ text := by
  unfold scan at h
  split at h
  · obtain ⟨ht, _⟩ := Prod.mk.inj h
    obtain rfl := Except.ok.inj ht
    exact .inl rfl
  · rename_i c cs hc
    obtain ⟨w, hw, hcs⟩ := lexeme_of_scanFrom h
    exact .inr ⟨w, hw, hcs ▸ hc ▸ dropTrivia_suffix false text⟩

/-- A problem of a text, or a number in it with more digits than are read. -/
def Fault.OfText (text : List Char) (fault : Fault) : Prop :=
  (∃ problem, fault = .problem problem) ∨
    fault = .numberTooLong ∧
      ∃ digits, digits <:+: text ∧ (∀ c ∈ digits, isDigit c = true) ∧ maxDigits < digits.length

theorem Fault.OfText.mono {part : List Char} (h : fault.OfText part) (hp : part <:+ text) :
    fault.OfText text := by
  obtain h | ⟨rfl, digits, hi, hd, hl⟩ := h
  · exact .inl h
  · exact .inr ⟨rfl, digits, hi.trans hp.isInfix, hd, hl⟩

theorem ofText_of_singleToken {c : Char} (h : singleToken c = .error fault) :
    fault.OfText text := by
  unfold singleToken at h
  dsimp only at h
  split at h
  · cases h
  · exact .inl ⟨_, (Except.error.inj h).symm⟩

theorem ofText_of_numberToken {digits : List Char} (hi : digits <:+: text)
    (hd : ∀ c ∈ digits, isDigit c = true) (h : numberToken digits = .error fault) :
    fault.OfText text := by
  unfold numberToken at h
  split at h
  · rename_i hl
    exact .inr ⟨(Except.error.inj h).symm, digits, hi, hd, hl⟩
  · dsimp only at h
    split at h
    · exact .inl ⟨_, (Except.error.inj h).symm⟩
    · cases h

theorem ofText_of_scanFrom {c : Char} {cs : List Char} (h : scanFrom c cs = (.error fault, rest)) :
    fault.OfText (c :: cs) := by
  unfold scanFrom at h
  split at h
  · rename_i hc
    have hp : c :: cs.takeWhile isDigit <+: c :: cs :=
      List.cons_prefix_cons.mpr ⟨rfl, List.takeWhile_prefix _⟩
    exact ofText_of_numberToken hp.isInfix (of_mem_cons_takeWhile hc cs) (Prod.mk.inj h).1
  · split at h
    · cases (Prod.mk.inj h).1
    · split at h
      · exact ofText_of_singleToken (Prod.mk.inj h).1
      · split at h
        · cases (Prod.mk.inj h).1
        · exact ofText_of_singleToken (Prod.mk.inj h).1

theorem ofText_of_scan (h : scan text = (.error fault, rest)) : fault.OfText text := by
  unfold scan at h
  split at h
  · cases (Prod.mk.inj h).1
  · rename_i c cs hc
    exact (ofText_of_scanFrom h).mono (hc ▸ dropTrivia_suffix false text)

theorem scan_suffix (h : scan text = (.ok t, rest)) (ht : t.kind ≠ .endOfInput) :
    rest <:+ text := by
  obtain hk | ⟨w, _, hw⟩ := lexeme_of_scan h
  · exact absurd hk ht
  · exact (List.suffix_append w rest).trans hw

end

theorem pairKind_ne {c d : Char} {kind : TokenKind} (h : pairKind? c d = some kind) :
    kind ≠ .number ∧ kind ≠ .name := by
  obtain ⟨_, ⟨_, rfl⟩ | ⟨_, rfl⟩⟩ := pairKind_eq h <;> decide

theorem singleKind_ne {c : Char} {kind : TokenKind} (h : singleKind? c = some kind) :
    kind ≠ .number ∧ kind ≠ .name := by
  unfold singleKind? at h
  split at h <;> cases h <;> decide

def Token.Scanned (t : Token) : Prop :=
  t.kind = .endOfInput ∨ ∃ w, Lexeme w t

namespace Token.Scanned

variable {t : Token}

theorem number (h : t.Scanned) (hk : t.kind = .number) :
    ∃ n : Nat, t.number? = some (n : Int) ∧ n ≤ maxInteger := by
  obtain he | ⟨w, hw⟩ := h
  · rw [hk] at he
    cases he
  · cases hw with
    | number _ _ _ hn => exact ⟨_, rfl, hn⟩
    | @word c cs hc hcs =>
      exfalso
      have hw := wordToken_kind (c :: cs)
      rw [hk] at hw
      revert hw
      decide
    | pair hp => exact absurd hk (pairKind_ne hp).1
    | single hs => exact absurd hk (singleKind_ne hs).1

theorem name (h : t.Scanned) (hk : t.kind = .name) : ∃ word, t.text? = some word ∧ IsName word := by
  obtain he | ⟨w, hw⟩ := h
  · rw [hk] at he
    cases he
  · cases hw with
    | number => cases hk
    | @word c cs hc hcs =>
      cases ho : TokenKind.ofKeyword? (String.ofList (c :: cs)) with
      | none =>
        refine ⟨String.ofList (c :: cs), by simp only [wordToken, ho, Token.text?], ho, c, cs, ?_⟩
        exact ⟨String.toList_ofList, hc, hcs⟩
      | some kind =>
        exfalso
        have hm : kind ∈ TokenKind.keywords := List.mem_of_find?_eq_some ho
        obtain rfl : kind = .name := by simpa only [wordToken, ho] using hk
        revert hm
        decide
    | pair hp => exact absurd hk (pairKind_ne hp).2
    | single hs => exact absurd hk (singleKind_ne hs).2

end Token.Scanned

/-- A pass that ends at the end of the input, the first one that it meets, or is cut short by a
fault of the text before that. -/
structure Pass.Of (text : List Char) (pass : Pass) : Prop where
  scanned : ∀ t ∈ pass.tokens, t.Scanned
  finished : pass.fault = none → Finished pass.tokens
  cut : ∀ fault ∈ pass.fault, fault.OfText text ∧ ∀ t ∈ pass.tokens, t.kind ≠ .endOfInput

theorem Pass.over_of (text : List Char) : (Pass.over text).Of text := by
  fun_induction Pass.over text with
  | case1 text fault rest h =>
    constructor
    · simp
    · nofun
    · intro fault' hf
      obtain rfl := Option.some.inj hf
      exact ⟨ofText_of_scan h, by simp⟩
  | case2 text t rest h ht =>
    constructor
    · intro u hu
      obtain rfl := List.mem_singleton.mp hu
      exact .inl ht
    · exact fun _ => ⟨[], ⟨t, decide_eq_true ht⟩, rfl, by simp⟩
    · nofun
  | case3 text t rest h ht hlt later ih =>
    constructor
    · intro u hu
      rcases List.mem_cons.mp hu with rfl | hu
      · exact (lexeme_of_scan h).imp_right fun ⟨w, hw, _⟩ => ⟨w, hw⟩
      · exact ih.scanned u hu
    · intro hf
      obtain ⟨body, finish, hts, hb⟩ := ih.finished hf
      refine ⟨t :: body, finish, congrArg (t :: ·) hts, ?_⟩
      exact List.forall_mem_cons.mpr ⟨ht, hb⟩
    · intro fault hf
      obtain ⟨ho, hts⟩ := ih.cut fault hf
      exact ⟨ho.mono (scan_suffix h ht), List.forall_mem_cons.mpr ⟨ht, hts⟩⟩

end ExprLang
