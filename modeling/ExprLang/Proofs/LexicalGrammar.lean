import ExprLang.Proofs.ScannedTokens

/-!
The lexical grammar. A text has tokens just if it can be cut into words of the grammar with white
space and comments between them, each word ended by what stands behind it. There is one such cut at
most, and the tokens are those of its words.
-/

namespace ExprLang

open Text

/-- White space and comments, each comment with the newline that ends it. -/
inductive Trivia : List Char → Prop where
  | nil : Trivia []
  | blank {c : Char} {g : List Char} (hc : isBlank c = true) (h : Trivia g) : Trivia (c :: g)
  | comment {body g : List Char} (hb : '\n' ∉ body) (h : Trivia g) :
      Trivia ('#' :: (body ++ '\n' :: g))

/-- White space and comments at the end of a text, where no newline need end the last comment. -/
inductive FinalTrivia : List Char → Prop where
  | ended {g : List Char} (h : Trivia g) : FinalTrivia g
  | comment {g body : List Char} (h : Trivia g) (hb : '\n' ∉ body) : FinalTrivia (g ++ '#' :: body)

/-- The words of the grammar with their tokens: numbers, fixed spellings and names, which are the
words that are no fixed spelling. -/
inductive Lexical : List Char → Token → Prop where
  | number {ds : List Char} (hne : ds ≠ []) (hd : ∀ c ∈ ds, isDigit c = true)
      (hl : ds.length ≤ maxDigits) (hn : Nat.ofDigitChars 10 ds 0 ≤ maxInteger) :
      Lexical ds
        { kind := .number
          payload := .number (Nat.ofDigitChars 10 ds 0)
          lexeme := .ofList ds }
  | fixed {kind : TokenKind} {text : String} (h : kind.spelling? = some text) :
      Lexical text.toList { kind, lexeme := text }
  | name {c : Char} {cs : List Char} (hc : startsWord c = true)
      (hcs : ∀ d ∈ cs, continuesWord d = true)
      (hk : ∀ kind : TokenKind, kind.spelling? ≠ some (.ofList (c :: cs))) :
      Lexical (c :: cs)
        { kind := .name, payload := .text (.ofList (c :: cs)), lexeme := .ofList (c :: cs) }

/-- A word of a text with its token, and the trivia in front of it. -/
structure Piece where
  trivia : List Char
  word : List Char
  token : Token

/-- Cuts of a text into pieces and the trivia behind them. The character right behind a word does
not make the word longer. -/
inductive Cuts : List Piece → List Char → Prop where
  | last {g : List Char} (h : FinalTrivia g) : Cuts [] g
  | piece {p : Piece} {ps : List Piece} {rest : List Char} (hg : Trivia p.trivia)
      (hw : Lexical p.word p.token) (hb : ∀ c ∈ rest.head?, p.token.breaks c = true)
      (h : Cuts ps rest) : Cuts (p :: ps) (p.trivia ++ p.word ++ rest)

section
variable {w : List Char} {t : Token}

theorem Token.sample_of_spelling {kind : TokenKind} {text : String}
    (h : kind.spelling? = some text) : Token.sample kind = { kind, lexeme := text } := by
  have hs : Token.sample kind = { kind, lexeme := kind.spelling?.getD "" } := by
    cases kind <;> first | rfl | cases h
  rw [hs, h]
  rfl

theorem TokenKind.ofKeyword_eq_none {word : String}
    (h : ∀ kind : TokenKind, kind.spelling? ≠ some word) : ofKeyword? word = none :=
  List.find?_eq_none.mpr fun kind _ hk => h kind (of_decide_eq_true hk)

theorem Lexical.lexeme (h : Lexical w t) : Lexeme w t := by
  cases h with
  | number hne hd hl hn => exact .number hne hd hl hn
  | fixed h => exact Token.sample_of_spelling h ▸ lexeme_sample h
  | name hc hcs hk =>
    have hw := Lexeme.word hc hcs
    rwa [wordToken, TokenKind.ofKeyword_eq_none hk] at hw

/-- The fixed spellings that could be names are the reserved words. -/
theorem TokenKind.mem_keywords_or (kind : TokenKind) :
    kind ∈ keywords ∨
      (kind.spelling?.bind fun text => text.toList.head?).all (! startsWord ·) = true := by
  cases kind <;> decide

theorem TokenKind.mem_keywords_of_startsWord {kind : TokenKind} {c : Char} {cs : List Char}
    (h : kind.spelling? = some (.ofList (c :: cs))) (hc : startsWord c = true) :
    kind ∈ keywords := by
  rcases kind.mem_keywords_or with hk | hk
  · exact hk
  · simp [h, hc] at hk

theorem lexical_of_spelling {kind : TokenKind} {cs : List Char}
    (h : kind.spelling? = some (.ofList cs)) : Lexical cs { kind, lexeme := .ofList cs } := by
  have hf := Lexical.fixed h
  rwa [String.toList_ofList] at hf

theorem spelling_of_pairKind {c d : Char} {kind : TokenKind} (h : pairKind? c d = some kind) :
    kind.spelling? = some (.ofList [c, d]) := by
  obtain ⟨rfl, ⟨rfl, rfl⟩ | ⟨rfl, rfl⟩⟩ := pairKind_eq h <;> decide

theorem spelling_of_singleKind {c : Char} {kind : TokenKind} (h : singleKind? c = some kind) :
    kind.spelling? = some (.ofList [c]) := by
  unfold singleKind? at h
  split at h <;> cases h <;> decide

theorem lexical_word {c : Char} {cs : List Char} (hc : startsWord c = true)
    (hcs : ∀ d ∈ cs, continuesWord d = true) : Lexical (c :: cs) (wordToken (c :: cs)) := by
  cases hk : TokenKind.ofKeyword? (.ofList (c :: cs)) with
  | some kind =>
    rw [wordToken, hk]
    exact lexical_of_spelling (TokenKind.spelling_of_ofKeyword hk)
  | none =>
    rw [wordToken, hk]
    apply Lexical.name hc hcs
    intro kind hs
    have hm := TokenKind.mem_keywords_of_startsWord hs hc
    exact List.find?_eq_none.mp hk kind hm (decide_eq_true hs)

theorem Lexeme.lexical (h : Lexeme w t) : Lexical w t := by
  cases h with
  | number hne hd hl hn => exact .number hne hd hl hn
  | word hc hcs => exact lexical_word hc hcs
  | pair h => exact lexical_of_spelling (spelling_of_pairKind h)
  | single h =>
    rw [String.singleton_eq_ofList]
    exact lexical_of_spelling (spelling_of_singleKind h)

theorem Lexical.lexeme_eq (h : Lexical w t) : t.lexeme = .ofList w := by
  cases h with
  | fixed h => exact String.ofList_toList.symm
  | _ => rfl

/-- A word starts with neither white space nor a comment. -/
theorem Lexeme.dropTrivia (h : Lexeme w t) (rest : List Char) :
    dropTrivia false (w ++ rest) = w ++ rest := by
  have hh : ∃ c cs, w = c :: cs ∧ isBlank c = false ∧ c ≠ '#' := by
    cases h with
    | number hne hd =>
      obtain ⟨d, ds, rfl⟩ := List.exists_cons_of_ne_nil hne
      have hdd := hd d (by simp)
      exact ⟨d, ds, rfl, isBlank_of_isDigit hdd, ne_hash_of_isDigit hdd⟩
    | @word c cs hc =>
      obtain ⟨hb, _, hh⟩ := startsWord_apart hc
      exact ⟨c, cs, rfl, hb, hh⟩
    | @pair c d kind h =>
      obtain ⟨rfl, ⟨rfl, _⟩ | ⟨rfl, _⟩⟩ := pairKind_eq h
      · exact ⟨_, _, rfl, by decide, by decide⟩
      · exact ⟨_, _, rfl, by decide, by decide⟩
    | @single c kind h =>
      obtain ⟨hb, hh, _⟩ := singleKind_apart h
      exact ⟨c, [], rfl, hb, hh⟩
  obtain ⟨c, cs, rfl, hb, hh⟩ := hh
  simp [ExprLang.dropTrivia, hb, hh]

end

section
variable {g body : List Char}

theorem dropTrivia_comment (hb : '\n' ∉ body) (cs : List Char) :
    dropTrivia true (body ++ '\n' :: cs) = dropTrivia false cs := by
  induction body with
  | nil => rfl
  | cons c body ih =>
    simp only [List.mem_cons, not_or] at hb
    have hc : (c != '\n') = true := bne_iff_ne.mpr (Ne.symm hb.1)
    rw [List.cons_append, dropTrivia, hc]
    exact ih hb.2

theorem dropTrivia_unended (hb : '\n' ∉ body) : dropTrivia true body = [] := by
  induction body with
  | nil => rfl
  | cons c body ih =>
    simp only [List.mem_cons, not_or] at hb
    have hc : (c != '\n') = true := bne_iff_ne.mpr (Ne.symm hb.1)
    rw [dropTrivia, hc]
    exact ih hb.2

theorem dropTrivia_hash (cs : List Char) : dropTrivia false ('#' :: cs) = dropTrivia true cs := by
  have hb : isBlank '#' = false := by decide
  simp [dropTrivia, hb]

theorem Trivia.dropTrivia (h : Trivia g) (cs : List Char) :
    dropTrivia false (g ++ cs) = dropTrivia false cs := by
  induction h with
  | nil => rfl
  | blank hc _ ih => simp only [List.cons_append, ExprLang.dropTrivia, hc, if_true, ih]
  | comment hb _ ih =>
    rw [List.cons_append, List.append_assoc, List.cons_append, dropTrivia_hash,
      dropTrivia_comment hb, ih]

theorem FinalTrivia.dropTrivia (h : FinalTrivia g) : dropTrivia false g = [] := by
  cases h with
  | ended h => simpa [ExprLang.dropTrivia] using h.dropTrivia []
  | comment h hb => rw [h.dropTrivia, dropTrivia_hash, dropTrivia_unended hb]

/-- What scanning drops is trivia, or all of the text. -/
theorem exists_trivia (text : List Char) :
    ∃ g, Trivia g ∧ (text = g ++ dropTrivia false text ∨
      dropTrivia false text = [] ∧ ∃ body, '\n' ∉ body ∧ text = g ++ '#' :: body) := by
  induction hl : text.length using Nat.strongRecOn generalizing text with
  | ind n ih =>
    -- A blank, or a comment with its newline, goes in front of what the rest is made of.
    have hfront (front rest : List Char) (hlt : rest.length < n) (htext : text = front ++ rest)
        (hd : dropTrivia false text = dropTrivia false rest)
        (hg : ∀ g, Trivia g → Trivia (front ++ g)) :
        ∃ g, Trivia g ∧ (text = g ++ dropTrivia false text ∨
          dropTrivia false text = [] ∧ ∃ body, '\n' ∉ body ∧ text = g ++ '#' :: body) := by
      obtain ⟨g, hgt, hr⟩ := ih rest.length hlt rest rfl
      refine ⟨front ++ g, hg g hgt, ?_⟩
      rw [hd, htext]
      simp only [List.append_assoc, List.append_cancel_left_eq]
      exact hr
    cases text with
    | nil => exact ⟨[], .nil, .inl rfl⟩
    | cons c cs =>
      rw [List.length_cons] at hl
      by_cases hc : isBlank c = true
      · apply hfront [c] cs (by omega) rfl
        · simp only [dropTrivia, hc, if_true]
        · exact fun g hg => .blank hc hg
      · by_cases hh : c = '#'
        · subst hh
          by_cases hn : '\n' ∈ cs
          · obtain ⟨body, rest, rfl, hb⟩ := List.eq_append_cons_of_mem hn
            rw [List.length_append, List.length_cons] at hl
            apply hfront ('#' :: (body ++ ['\n'])) rest (by omega) (by simp)
            · rw [dropTrivia_hash, dropTrivia_comment hb]
            · intro g hg
              simpa using Trivia.comment hb hg
          · refine ⟨[], .nil, .inr ⟨?_, cs, hn, rfl⟩⟩
            rw [dropTrivia_hash, dropTrivia_unended hn]
        · refine ⟨[], .nil, .inl ?_⟩
          simp [dropTrivia, hc, hh]

end

section
variable {text rest : List Char} {t : Token} {ps qs : List Piece}

theorem breaks_of_pairKind {c d : Char} {kind : TokenKind} {lexeme : String}
    (h : singleKind? c = some kind) (hp : pairKind? c d = none) :
    Token.breaks { kind, lexeme } d = true := by
  have hd : c = '=' ∨ c = '!' → d ≠ '=' := by
    rintro (rfl | rfl) rfl
    · cases hp
    · cases hp
  unfold singleKind? at h
  split at h <;> cases h <;> simp_all [Token.breaks, TokenKind.keywords]

theorem breaks_of_dropWhile {p : Char → Bool} {cs : List Char} :
    ∀ d ∈ (cs.dropWhile p).head?, p d = false := by
  intro d hd
  have hn := List.head?_dropWhile_not p cs
  rwa [hd] at hn

theorem kind_of_numberToken {digits : List Char} (h : numberToken digits = .ok t) :
    t.kind = .number := by
  unfold numberToken at h
  split at h
  · cases h
  · dsimp only at h
    split at h
    · cases h
    · obtain rfl := Except.ok.inj h
      rfl

/-- A scanned word goes on as far as it can. -/
theorem breaks_of_scanFrom {c : Char} {cs : List Char} (h : scanFrom c cs = (.ok t, rest)) :
    ∀ d ∈ rest.head?, t.breaks d = true := by
  unfold scanFrom at h
  split at h
  · obtain ⟨hn, rfl⟩ := Prod.mk.inj h
    intro d hd
    simp [Token.breaks, kind_of_numberToken hn, breaks_of_dropWhile d hd]
  · split at h
    · obtain ⟨hw, rfl⟩ := Prod.mk.inj h
      obtain rfl := Except.ok.inj hw
      intro d hd
      rw [wordToken_breaks, breaks_of_dropWhile d hd]
      rfl
    · split at h
      · obtain ⟨_, rfl⟩ := Prod.mk.inj h
        intro d hd
        cases hd
      · split at h
        · rename_i hk
          obtain ⟨ht, rfl⟩ := Prod.mk.inj h
          obtain rfl := Except.ok.inj ht
          intro d _
          obtain ⟨_, ⟨_, rfl⟩ | ⟨_, rfl⟩⟩ := pairKind_eq hk <;> rfl
        · rename_i e es hp
          obtain ⟨hs, rfl⟩ := Prod.mk.inj h
          intro d hd
          obtain rfl := Option.some.inj hd
          unfold singleToken at hs
          dsimp only at hs
          split at hs
          · rename_i hk
            obtain rfl := Except.ok.inj hs
            exact breaks_of_pairKind hk hp
          · cases hs

theorem cut_of_scan (h : scan text = (.ok t, rest)) :
    t = .endOfInput ∧ FinalTrivia text ∨
      ∃ p : Piece, p.token = t ∧ Trivia p.trivia ∧ Lexical p.word t ∧
        (∀ c ∈ rest.head?, t.breaks c = true) ∧ text = p.trivia ++ p.word ++ rest := by
  obtain ⟨g, hg, hd⟩ := exists_trivia text
  unfold scan at h
  split at h
  · rename_i hn
    obtain ⟨ht, _⟩ := Prod.mk.inj h
    refine .inl ⟨(Except.ok.inj ht).symm, ?_⟩
    obtain hd | ⟨_, body, hb, rfl⟩ := hd
    · rw [hd, hn, List.append_nil]
      exact .ended hg
    · exact .comment hg hb
  · rename_i c cs hc
    obtain ⟨w, hw, hcs⟩ := lexeme_of_scanFrom h
    refine .inr ⟨⟨g, w, t⟩, rfl, hg, hw.lexical, breaks_of_scanFrom h, ?_⟩
    obtain hd | ⟨hn, _⟩ := hd
    · rw [List.append_assoc, hcs, ← hc]
      exact hd
    · rw [hn] at hc
      cases hc

theorem exists_cuts (h : (Pass.over text).fault = none) :
    ∃ ps, Cuts ps text ∧ (Pass.over text).tokens = ps.map Piece.token ++ [.endOfInput] := by
  fun_induction Pass.over text with
  | case1 => cases h
  | case2 text t rest hs ht =>
    obtain ⟨rfl, hg⟩ | ⟨p, _, _, hw, _⟩ := cut_of_scan hs
    · exact ⟨[], .last hg, rfl⟩
    · exact absurd ht hw.lexeme.kind_ne_endOfInput
  | case3 text t rest hs ht hlt later ih =>
    obtain ⟨rfl, _⟩ | ⟨p, rfl, hg, hw, hb, rfl⟩ := cut_of_scan hs
    · exact absurd rfl ht
    · obtain ⟨ps, hps, hts⟩ := ih h
      refine ⟨p :: ps, .piece hg hw hb hps, ?_⟩
      exact congrArg (p.token :: ·) hts

theorem scan_last {g : List Char} (h : FinalTrivia g) : scan g = (.ok .endOfInput, []) := by
  rw [scan, h.dropTrivia]

theorem scan_piece {p : Piece} (hg : Trivia p.trivia) (hw : Lexical p.word p.token)
    (hb : ∀ c ∈ rest.head?, p.token.breaks c = true) :
    scan (p.trivia ++ p.word ++ rest) = (.ok p.token, rest) := by
  have hs := scan_lexeme hw.lexeme hb
  rw [List.append_assoc]
  simpa only [scan, hg.dropTrivia] using hs

theorem Cuts.over (h : Cuts ps text) :
    Pass.over text =
      { tokens := ps.map Piece.token ++ [.endOfInput], fault := none, rest := [] } := by
  induction h with
  | last h =>
    rw [Pass.over_eq, scan_last h]
    rfl
  | piece hg hw hb _ ih =>
    rw [Pass.over_eq, scan_piece hg hw hb]
    simp only [if_neg hw.lexeme.kind_ne_endOfInput, ih]
    rfl

theorem Piece.eq_of_append {p q : Piece} (hp : Trivia p.trivia) (hpw : Lexical p.word p.token)
    (hq : Trivia q.trivia) (hqw : Lexical q.word q.token) (ht : p.token = q.token)
    (h : p.trivia ++ p.word ++ rest = q.trivia ++ q.word ++ rest) : p = q := by
  rw [List.append_assoc, List.append_assoc] at h
  have hd := congrArg (dropTrivia false) h
  rw [hp.dropTrivia, hq.dropTrivia, hpw.lexeme.dropTrivia, hqw.lexeme.dropTrivia] at hd
  have hw := List.append_cancel_right hd
  rw [hw] at h
  have hg := List.append_cancel_right h
  cases p
  cases q
  simp_all

theorem Cuts.unique (hp : Cuts ps text) (hq : Cuts qs text) : ps = qs := by
  induction hp generalizing qs with
  | last h =>
    cases hq with
    | last => rfl
    | piece hg hw hb =>
      have hs := (scan_last h).symm.trans (scan_piece hg hw hb)
      have ht := Except.ok.inj (Prod.mk.inj hs).1
      exact absurd (congrArg Token.kind ht.symm) hw.lexeme.kind_ne_endOfInput
  | @piece p ps rest hg hw hb _ ih =>
    generalize ht : p.trivia ++ p.word ++ rest = text at hq
    cases hq with
    | last h =>
      have hs := (scan_piece hg hw hb).symm.trans (ht ▸ scan_last h)
      have hk := Except.ok.inj (Prod.mk.inj hs).1
      exact absurd (congrArg Token.kind hk) hw.lexeme.kind_ne_endOfInput
    | @piece q qs rest' hg' hw' hb' h' =>
      have hs := (scan_piece hg hw hb).symm.trans (ht ▸ scan_piece hg' hw' hb')
      obtain ⟨hk, rfl⟩ := Prod.mk.inj hs
      rw [Piece.eq_of_append hg hw hg' hw' (Except.ok.inj hk) ht, ih h']

theorem Cuts.lexical (h : Cuts ps text) : ∀ p ∈ ps, Lexical p.word p.token := by
  induction h with
  | last => simp
  | piece _ hw _ _ ih => exact List.forall_mem_cons.mpr ⟨hw, ih⟩

end

theorem of_tokenize {text : String} {ts : List Token} (h : tokenize text = .ok ts) :
    (Pass.over text.toList).fault = none ∧ (Pass.over text.toList).tokens = ts := by
  unfold tokenize Pass.result at h
  split at h
  · cases h
  · exact ⟨‹_›, Except.ok.inj h⟩

/-- A text has tokens if and only if it can be cut into words of the grammar, in one way only. Its
tokens are those of the words, and the end of the input behind them. -/
theorem tokenize_iff_cuts (text : String) :
    (∀ ts, tokenize text = .ok ts ↔
      ∃ ps, Cuts ps text.toList ∧ ts = ps.map Piece.token ++ [.endOfInput]) ∧
    (∀ ps qs, Cuts ps text.toList → Cuts qs text.toList → ps = qs) ∧
    ∀ ps, Cuts ps text.toList → ∀ p ∈ ps,
      p.token.lexeme = .ofList p.word ∧ p.token.kind ≠ .endOfInput := by
  refine ⟨fun ts => ⟨fun h => ?_, ?_⟩, fun ps qs => Cuts.unique, fun ps hps p hp => ?_⟩
  · obtain ⟨hf, rfl⟩ := of_tokenize h
    exact exists_cuts hf
  · rintro ⟨ps, hps, rfl⟩
    rw [tokenize, hps.over]
    rfl
  · have hw := hps.lexical p hp
    exact ⟨hw.lexeme_eq, hw.lexeme.kind_ne_endOfInput⟩

/-- The words of the text touch, and its last comment is not ended. -/
theorem tokenize_iff_cuts_touching :
    let ps : List Piece :=
      [⟨['#', '\n'], ['x', '1'], nameToken "x1"⟩, ⟨[], ['=', '='], .sample .equal⟩,
        ⟨[], ['0', '7'], { kind := .number, payload := .number 7, lexeme := "07" }⟩]
    Cuts ps "#\nx1==07#".toList ∧ (∀ qs, Cuts qs "#\nx1==07#".toList → qs = ps) ∧
      tokenize "#\nx1==07#" = .ok (ps.map Piece.token ++ [.endOfInput]) := by
  intro ps
  have hlast : Cuts [] ['#'] := .last (.comment .nil (by simp))
  have hnumber : Cuts ps.tail.tail ['0', '7', '#'] := by
    have hw : Lexical ['0', '7'] _ :=
      .number (by decide) (List.all_eq_true.mp rfl) (by decide) (by decide)
    refine .piece .nil hw ?_ hlast
    rintro c ⟨⟩
    decide
  have hspelling : TokenKind.equal.spelling? = some (.ofList ['=', '=']) := by decide
  have hequal : Cuts ps.tail ['=', '=', '0', '7', '#'] := by
    refine .piece .nil (lexical_of_spelling hspelling) ?_ hnumber
    rintro c ⟨⟩
    decide
  have hname : Lexical ['x', '1'] (nameToken "x1") :=
    .name (by decide) (List.all_eq_true.mp rfl) fun kind => by cases kind <;> decide
  have hps : Cuts ps "#\nx1==07#".toList := by
    refine .piece (.comment List.not_mem_nil .nil) hname ?_ hequal
    rintro c ⟨⟩
    decide
  obtain ⟨hiff, hunique, _⟩ := tokenize_iff_cuts "#\nx1==07#"
  exact ⟨hps, fun qs hqs => hunique qs ps hqs hps, (hiff _).mpr ⟨ps, hps, rfl⟩⟩

end ExprLang
