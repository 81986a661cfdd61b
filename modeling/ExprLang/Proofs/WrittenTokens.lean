import ExprLang.Proofs.Beginnings
import ExprLang.Proofs.Lexemes

/-!
Written tokens: texts that spell tokens when they stand in front of other text. A word or a number
may be made longer by what stands behind it, and the other tokens of a rendering may not.
-/

namespace ExprLang

open Text

/-- Texts that may stand as names. -/
def IsName (word : String) : Prop :=
  TokenKind.ofKeyword? word = none ∧
    ∃ c cs, word.toList = c :: cs ∧ startsWord c = true ∧ ∀ d ∈ cs, continuesWord d = true

def separates (text : List Char) : Bool :=
  text.head?.any (! continuesWord ·)

/-- A text that spells tokens, whatever stands behind it. -/
def Sealed (text : String) (ts : List Token) : Prop :=
  ∀ rest us, Spells rest us → Spells (text.toList ++ rest) (ts ++ us)

/-- A text that spells tokens unless what stands behind it makes the last one longer. -/
def Written (text : String) (ts : List Token) : Prop :=
  ∀ rest us, separates rest = true → Spells rest us → Spells (text.toList ++ rest) (ts ++ us)

section Written

variable {a b : String} {ts us : List Token}

theorem Sealed.written (h : Sealed a ts) : Written a ts :=
  fun rest us _ hs => h rest us hs

theorem Sealed.append (ha : Sealed a ts) (hb : Sealed b us) : Sealed (a ++ b) (ts ++ us) := by
  intro rest vs hs
  rw [String.toList_append, List.append_assoc, List.append_assoc]
  exact ha _ _ (hb rest vs hs)

theorem Sealed.before (ha : Sealed a ts) (hb : Written b us) : Written (a ++ b) (ts ++ us) := by
  intro rest vs hr hs
  rw [String.toList_append, List.append_assoc, List.append_assoc]
  exact ha _ _ (hb rest vs hr hs)

theorem separates_append {cs : List Char} (h : separates cs = true) (ds : List Char) :
    separates (cs ++ ds) = true := by
  cases cs with
  | nil => cases h
  | cons c cs => exact h

theorem Written.seal (ha : Written a ts) (hb : Sealed b us) (hl : separates b.toList = true) :
    Sealed (a ++ b) (ts ++ us) := by
  intro rest vs hs
  rw [String.toList_append, List.append_assoc, List.append_assoc]
  exact ha _ _ (separates_append hl rest) (hb rest vs hs)

end Written

theorem sealed_empty : Sealed "" [] :=
  fun _ _ hs => hs

theorem sealed_blank : Sealed " " [] :=
  fun _ _ hs => .blank (by decide) hs

theorem continuesWord_of_separates {cs : List Char} (h : separates cs = true) :
    ∀ c ∈ cs.head?, continuesWord c = false := by
  intro c hc
  rw [separates, hc] at h
  simpa using h

theorem isDigit_of_continuesWord {c : Char} (h : continuesWord c = false) : isDigit c = false := by
  apply Bool.eq_false_iff.mpr
  intro hd
  simp [continuesWord, isNumeral_of_isDigit hd] at h

theorem lexeme_sample {kind : TokenKind} {text : String} (h : kind.spelling? = some text) :
    Lexeme text.toList (Token.sample kind) := by
  cases kind with
  | number | name | endOfInput => cases h
  | equal | notEqual =>
    obtain rfl := Option.some.inj h
    exact Lexeme.pair rfl
  | plus | minus | star | slash | less | greater | bang | assign | comma | semicolon | openParen
  | closeParen | openBrace | closeBrace =>
    obtain rfl := Option.some.inj h
    exact Lexeme.single rfl
  | _ =>
    obtain rfl := Option.some.inj h
    exact Lexeme.word (by decide) (List.all_eq_true.mp (by decide))

theorem sealed_mark {kind : TokenKind} {text : String} (hk : kind.spelling? = some text)
    (hb : ∀ c, (Token.sample kind).breaks c = true) : Sealed text [.sample kind] :=
  fun _ _ hs => .lexeme (lexeme_sample hk) (fun c _ => hb c) hs

theorem written_word {kind : TokenKind} {text : String} (hk : kind.spelling? = some text)
    (hw : kind ∈ TokenKind.keywords) : Written text [.sample kind] := by
  intro rest us hr hs
  refine .lexeme (lexeme_sample hk) ?_ hs
  intro c hc
  have hm : (Token.sample kind).kind ∈ TokenKind.keywords := by rwa [Token.sample_kind]
  rw [Token.breaks_of_word (.inr hm), continuesWord_of_separates hr c hc]
  rfl

def nameToken (word : String) : Token :=
  { kind := .name, payload := .text word, lexeme := word }

@[simp] theorem nameToken_text (word : String) : (nameToken word).text? = some word :=
  rfl

theorem written_name {word : String} (h : IsName word) : Written word [nameToken word] := by
  intro rest us hr hs
  obtain ⟨hk, c, cs, hw, hc, hcs⟩ := h
  have ht : wordToken (c :: cs) = nameToken word := by
    have hl : String.ofList (c :: cs) = word := by rw [← hw, String.ofList_toList]
    simp only [wordToken, hl, hk, nameToken]
  rw [hw, ← ht]
  refine .lexeme (.word hc hcs) ?_ hs
  intro d hd
  rw [wordToken_breaks, continuesWord_of_separates hr d hd]
  rfl

def numeralToken (n : Nat) : Token :=
  { kind := .number, payload := .number n, lexeme := n.repr }

theorem isDigit_of_isDigit {c : Char} (h : c.isDigit = true) : isDigit c = true := by
  simpa [isDigit, Char.isDigit, Char.le_def] using h

theorem lexeme_numeral {n : Nat} (hn : n ≤ maxInteger) :
    Lexeme (Nat.toDigits 10 n) (numeralToken n) := by
  have hd : ∀ c ∈ Nat.toDigits 10 n, isDigit c = true := fun c hc =>
    isDigit_of_isDigit (Nat.isDigit_of_mem_toDigits (by decide) (by decide) hc)
  have hl : (Nat.toDigits 10 n).length ≤ maxDigits := by
    have hlt : n < 10 ^ 19 := Nat.lt_of_le_of_lt hn (by decide)
    exact Nat.le_trans ((Nat.length_toDigits_le_iff (by decide) (by decide)).mpr hlt) (by decide)
  have hv : Nat.ofDigitChars 10 (Nat.toDigits 10 n) 0 = n := Nat.ofDigitChars_ten_toDigits
  have h := Lexeme.number Nat.toDigits_ne_nil hd hl (hv.symm ▸ hn)
  rwa [hv, ← Nat.repr_eq_ofList_toDigits] at h

theorem written_number {n : Nat} (hn : n ≤ maxInteger) : Written n.repr [numeralToken n] := by
  intro rest us hr hs
  rw [Nat.toList_repr]
  refine .lexeme (lexeme_numeral hn) ?_ hs
  intro c hc
  have hd := isDigit_of_continuesWord (continuesWord_of_separates hr c hc)
  simp [numeralToken, Token.breaks, hd]

theorem sealed_spaced (kind : TokenKind) {text : String} (hk : kind.spelling? = some text) :
    Sealed (text ++ " ") [.sample kind] := by
  intro rest us hs
  rw [String.toList_append, List.append_assoc]
  refine .lexeme (lexeme_sample hk) ?_ (sealed_blank rest us hs)
  intro c hc
  obtain rfl := Option.some.inj hc
  cases kind <;> decide

theorem sealed_openParen : Sealed "(" [.sample .openParen] :=
  sealed_mark rfl fun _ => rfl

theorem sealed_closeParen : Sealed ")" [.sample .closeParen] :=
  sealed_mark rfl fun _ => rfl

theorem sealed_openBrace : Sealed "\x7b " [.sample .openBrace] :=
  sealed_spaced .openBrace rfl

theorem sealed_closeBrace : Sealed "\x7d" [.sample .closeBrace] :=
  sealed_mark rfl fun _ => rfl

theorem sealed_semicolon : Sealed ";" [.sample .semicolon] :=
  sealed_mark rfl fun _ => rfl

theorem sealed_comma : Sealed ", " [.sample .comma] :=
  sealed_spaced .comma rfl

theorem sealed_let : Sealed "let " [.sample .letWord] :=
  sealed_spaced .letWord rfl

theorem sealed_return : Sealed "return " [.sample .returnWord] :=
  sealed_spaced .returnWord rfl

theorem sealed_assign : Sealed " = " [.sample .assign] :=
  sealed_blank.append (sealed_spaced .assign rfl)

theorem sealed_else : Sealed " else " [.sample .elseWord] :=
  sealed_blank.append (sealed_spaced .elseWord rfl)

theorem sealed_if : Sealed "if (" [.sample .ifWord, .sample .openParen] :=
  (sealed_spaced .ifWord rfl).append sealed_openParen

theorem sealed_fn : Sealed "fn(" [.sample .fnWord, .sample .openParen] := by
  have hw : Written "fn" [.sample .fnWord] := written_word rfl (by decide)
  exact hw.seal sealed_openParen (by decide)

end ExprLang
