import ExprLang.Token.Stream

/-!
Lexemes: the texts of tokens. A lexeme is scanned as its token wherever the character behind it does
not make it longer, so lexemes may be written one after another with white space between them.
-/

namespace ExprLang

namespace Text

def CodeRanges.apart (rs ss : CodeRanges) : Bool :=
  rs.all fun r => ss.all fun s => r.2 < s.1 || s.2 < r.1

theorem CodeRanges.has_eq_false_of_apart {rs ss : CodeRanges} {n : Nat} (h : rs.apart ss = true)
    (hr : rs.has n = true) : ss.has n = false := by
  apply Bool.eq_false_iff.mpr
  intro hs
  obtain ⟨r, hrm, hr₁, hr₂⟩ := exists_of_has hr
  obtain ⟨s, hsm, hs₁, hs₂⟩ := exists_of_has hs
  have ha := List.all_eq_true.mp (List.all_eq_true.mp h r hrm) s hsm
  simp only [Bool.or_eq_true, decide_eq_true_eq] at ha
  omega

theorem isBlank_of_isLetter {c : Char} (h : isLetter c = true) : isBlank c = false :=
  CodeRanges.has_eq_false_of_apart (by decide +kernel) h

def digitRanges : CodeRanges :=
  [(0x30, 0x39)]

theorem toNat_of_isDigit {c : Char} (h : isDigit c = true) : 48 ≤ c.toNat ∧ c.toNat ≤ 57 := by
  simpa [isDigit, Char.le_def, UInt32.le_iff_toNat_le] using h

theorem has_digitRanges {c : Char} (h : isDigit c = true) : digitRanges.has c.toNat = true := by
  have hd := toNat_of_isDigit h
  rw [digitRanges, CodeRanges.has, if_neg (by omega), if_pos hd.2]

theorem isNumeral_of_isDigit {c : Char} (h : isDigit c = true) : isNumeral c = true := by
  have hd := toNat_of_isDigit h
  rw [isNumeral, numeralRanges, CodeRanges.has, if_neg (by omega), if_pos hd.2]

theorem isBlank_of_isDigit {c : Char} (h : isDigit c = true) : isBlank c = false :=
  CodeRanges.has_eq_false_of_apart (by decide +kernel) (has_digitRanges h)

theorem isDigit_of_isLetter {c : Char} (h : isLetter c = true) : isDigit c = false := by
  apply Bool.eq_false_iff.mpr
  intro hd
  have ha : letterRanges.has c.toNat = false :=
    CodeRanges.has_eq_false_of_apart (by decide +kernel) (has_digitRanges hd)
  rw [isLetter, ha] at h
  cases h

theorem ne_hash_of_isLetter {c : Char} (h : isLetter c = true) : c ≠ '#' := by
  rintro rfl
  revert h
  decide

theorem ne_hash_of_isDigit {c : Char} (h : isDigit c = true) : c ≠ '#' := by
  rintro rfl
  revert h
  decide

theorem startsWord_apart {c : Char} (h : startsWord c = true) :
    isBlank c = false ∧ isDigit c = false ∧ c ≠ '#' := by
  simp only [startsWord, Bool.or_eq_true, decide_eq_true_eq] at h
  rcases h with h | rfl
  · exact ⟨isBlank_of_isLetter h, isDigit_of_isLetter h, ne_hash_of_isLetter h⟩
  · decide

end Text

open Text

inductive Lexeme : List Char → Token → Prop where
  | number {ds : List Char} (hne : ds ≠ []) (hd : ∀ c ∈ ds, isDigit c = true)
      (hl : ds.length ≤ maxDigits) (hn : Nat.ofDigitChars 10 ds 0 ≤ maxInteger) :
      Lexeme ds
        { kind := .number
          payload := .number (Nat.ofDigitChars 10 ds 0)
          lexeme := .ofList ds }
  | word {c : Char} {cs : List Char} (hc : startsWord c = true)
      (hcs : ∀ c ∈ cs, continuesWord c = true) : Lexeme (c :: cs) (wordToken (c :: cs))
  | pair {c d : Char} {kind : TokenKind} (h : pairKind? c d = some kind) :
      Lexeme [c, d] { kind, lexeme := .ofList [c, d] }
  | single {c : Char} {kind : TokenKind} (h : singleKind? c = some kind) :
      Lexeme [c] { kind, lexeme := .singleton c }

/-- Whether a character right behind a token leaves it as it is. -/
def Token.breaks (t : Token) (c : Char) : Bool :=
  match t.kind with
  | .number => !isDigit c
  | .assign | .bang => c ≠ '='
  | kind => if kind = .name || kind ∈ TokenKind.keywords then !continuesWord c else true

theorem takeWhile_append_of_stop {p : Char → Bool} {xs ys : List Char} (hx : ∀ c ∈ xs, p c = true)
    (hy : ∀ c ∈ ys.head?, p c = false) : (xs ++ ys).takeWhile p = xs := by
  rw [List.takeWhile_append_of_pos hx]
  cases ys with
  | nil => simp
  | cons y ys => simp [hy y rfl]

theorem dropWhile_append_of_stop {p : Char → Bool} {xs ys : List Char} (hx : ∀ c ∈ xs, p c = true)
    (hy : ∀ c ∈ ys.head?, p c = false) : (xs ++ ys).dropWhile p = ys := by
  rw [List.dropWhile_append_of_pos hx]
  cases ys with
  | nil => simp
  | cons y ys => simp [hy y rfl]

theorem scan_cons {c : Char} {cs : List Char} (hb : isBlank c = false) (hc : c ≠ '#') :
    scan (c :: cs) = scanFrom c cs := by
  simp [scan, dropTrivia, hb, hc]

theorem wordToken_kind (cs : List Char) :
    (wordToken cs).kind = .name ∨ (wordToken cs).kind ∈ TokenKind.keywords := by
  cases hk : TokenKind.ofKeyword? (String.ofList cs) with
  | none => exact .inl (by simp only [wordToken, hk])
  | some kind =>
    have hm : kind ∈ TokenKind.keywords := List.mem_of_find?_eq_some hk
    exact .inr (by simpa only [wordToken, hk] using hm)

theorem Token.breaks_of_word {t : Token} (h : t.kind = .name ∨ t.kind ∈ TokenKind.keywords)
    (c : Char) : t.breaks c = !continuesWord c := by
  simp only [Token.breaks]
  generalize t.kind = kind at h ⊢
  rcases h with rfl | hk
  · rfl
  · simp only [TokenKind.keywords, List.mem_cons, List.not_mem_nil, or_false] at hk
    rcases hk with rfl | rfl | rfl | rfl | rfl | rfl | rfl | rfl | rfl | rfl <;> rfl

theorem wordToken_breaks (cs : List Char) (c : Char) :
    (wordToken cs).breaks c = !continuesWord c :=
  Token.breaks_of_word (wordToken_kind cs) c

theorem pairKind_eq {c d : Char} {kind : TokenKind} (h : pairKind? c d = some kind) :
    d = '=' ∧ (c = '=' ∧ kind = .equal ∨ c = '!' ∧ kind = .notEqual) := by
  simp only [pairKind?] at h
  split at h
  · rename_i hd
    split at h
    · rename_i hc
      exact ⟨hd, .inl ⟨hc, (Option.some.inj h).symm⟩⟩
    · split at h
      · rename_i hc
        exact ⟨hd, .inr ⟨hc, (Option.some.inj h).symm⟩⟩
      · cases h
  · cases h

theorem singleKind_apart {c : Char} {kind : TokenKind} (h : singleKind? c = some kind) :
    isBlank c = false ∧ c ≠ '#' ∧ isDigit c = false ∧ startsWord c = false := by
  unfold singleKind? at h
  split at h <;> first | decide | cases h

theorem pairKind_of_breaks {c d : Char} {kind : TokenKind} {lexeme : String}
    (h : singleKind? c = some kind) (hd : Token.breaks { kind, lexeme } d = true) :
    pairKind? c d = none := by
  cases hp : pairKind? c d with
  | none => rfl
  | some other =>
    obtain ⟨rfl, ⟨rfl, _⟩ | ⟨rfl, _⟩⟩ := pairKind_eq hp
    · obtain rfl : TokenKind.assign = kind := Option.some.inj h
      cases hd
    · obtain rfl : TokenKind.bang = kind := Option.some.inj h
      cases hd

theorem scanFrom_sign {c : Char} (hd : isDigit c = false) (hw : startsWord c = false)
    (cs : List Char) (hp : ∀ d ∈ cs.head?, pairKind? c d = none) :
    scanFrom c cs = (singleToken c, cs) := by
  cases cs with
  | nil => simp [scanFrom, hd, hw]
  | cons d cs => simp [scanFrom, hd, hw, hp d rfl]

theorem scan_lexeme {w rest : List Char} {t : Token} (h : Lexeme w t)
    (hr : ∀ c ∈ rest.head?, t.breaks c = true) : scan (w ++ rest) = (.ok t, rest) := by
  cases h with
  | number hne hd hl hn =>
    obtain ⟨d, ds, rfl⟩ := List.exists_cons_of_ne_nil hne
    have hdd := hd d (by simp)
    have hds : ∀ c ∈ ds, isDigit c = true := fun c hc => hd c (by simp [hc])
    have hstop : ∀ c ∈ rest.head?, isDigit c = false := fun c hc => by
      simpa [Token.breaks] using hr c hc
    rw [List.cons_append, scan_cons (isBlank_of_isDigit hdd) (ne_hash_of_isDigit hdd)]
    simp only [scanFrom, hdd, if_true, takeWhile_append_of_stop hds hstop,
      dropWhile_append_of_stop hds hstop, numberToken, if_neg (Nat.not_lt.mpr hl),
      if_neg (Nat.not_lt.mpr hn)]
  | @word c cs hc hcs =>
    obtain ⟨hb, hd, hh⟩ := startsWord_apart hc
    have hstop : ∀ c ∈ rest.head?, continuesWord c = false := fun c hc => by
      simpa [wordToken_breaks] using hr c hc
    rw [List.cons_append, scan_cons hb hh]
    simp only [scanFrom, hd, hc, takeWhile_append_of_stop hcs hstop,
      dropWhile_append_of_stop hcs hstop]
    rfl
  | @pair c d kind hk =>
    have hc : isBlank c = false ∧ c ≠ '#' ∧ isDigit c = false ∧ startsWord c = false := by
      obtain ⟨_, ⟨rfl, _⟩ | ⟨rfl, _⟩⟩ := pairKind_eq hk <;> decide
    obtain ⟨hb, hh, hd, hw⟩ := hc
    rw [List.cons_append, scan_cons hb hh]
    simp [scanFrom, hd, hw, hk]
  | @single c kind hk =>
    obtain ⟨hb, hh, hd, hw⟩ := singleKind_apart hk
    rw [List.cons_append, scan_cons hb hh, List.nil_append, scanFrom_sign hd hw rest]
    · simp [singleToken, hk]
    · exact fun d hd => pairKind_of_breaks hk (hr d hd)

theorem Lexeme.kind_ne_endOfInput {w : List Char} {t : Token} (h : Lexeme w t) :
    t.kind ≠ .endOfInput := by
  cases h with
  | number => simp
  | @word c cs hc hcs =>
    intro he
    have hk := wordToken_kind (c :: cs)
    rw [he] at hk
    rcases hk with hk | hk
    · cases hk
    · revert hk
      decide
  | pair hk =>
    obtain ⟨_, ⟨_, rfl⟩ | ⟨_, rfl⟩⟩ := pairKind_eq hk <;> simp
  | single hk =>
    rintro rfl
    unfold singleKind? at hk
    split at hk <;> cases hk

/-- Texts made of lexemes and white space, each lexeme ended by what stands behind it. -/
inductive Spells : List Char → List Token → Prop where
  | nil : Spells [] []
  | blank {c : Char} {cs : List Char} {ts : List Token} (hc : isBlank c = true)
      (h : Spells cs ts) : Spells (c :: cs) ts
  | lexeme {w cs : List Char} {t : Token} {ts : List Token} (hw : Lexeme w t)
      (hb : ∀ c ∈ cs.head?, t.breaks c = true) (h : Spells cs ts) : Spells (w ++ cs) (t :: ts)

theorem Lexeme.ne_nil {w : List Char} {t : Token} (h : Lexeme w t) : w ≠ [] := by
  cases h with
  | number hne => exact hne
  | word | pair | single => exact List.cons_ne_nil _ _

theorem Spells.length_le {text : List Char} {ts : List Token} (h : Spells text ts) :
    ts.length ≤ text.length := by
  induction h with
  | nil => exact Nat.le_refl _
  | blank _ _ ih => exact Nat.le_succ_of_le ih
  | lexeme hw _ _ ih =>
    have hp := List.length_pos_iff.mpr hw.ne_nil
    simp only [List.length_cons, List.length_append]
    omega

theorem Pass.over_eq (text : List Char) :
    Pass.over text =
      match scan text with
      | (.error fault, rest) => { tokens := [], fault := some fault, rest }
      | (.ok t, rest) =>
        if t.kind = .endOfInput then { tokens := [t], fault := none, rest }
        else { Pass.over rest with tokens := t :: (Pass.over rest).tokens } := by
  rw [Pass.over.eq_def]
  split
  · rename_i heq
    rw [heq]
  · rename_i heq
    split <;> rename_i ht
    · simp only [heq, if_pos ht]
    · simp only [heq, if_neg ht]

theorem Pass.over_blank {c : Char} (hc : isBlank c = true) (cs : List Char) :
    Pass.over (c :: cs) = Pass.over cs := by
  have hs : scan (c :: cs) = scan cs := by simp [scan, dropTrivia, hc]
  rw [Pass.over_eq, Pass.over_eq cs, hs]

theorem Spells.over {text : List Char} {ts : List Token} (h : Spells text ts) :
    Pass.over text = { tokens := ts ++ [.endOfInput], fault := none, rest := [] } := by
  induction h with
  | nil =>
    rw [Pass.over_eq]
    rfl
  | blank hc _ ih => rw [Pass.over_blank hc, ih]
  | lexeme hw hb _ ih =>
    rw [Pass.over_eq, scan_lexeme hw hb]
    simp only [if_neg hw.kind_ne_endOfInput, ih]
    rfl

end ExprLang
