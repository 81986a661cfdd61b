import ExprLang.Fault
import ExprLang.Integer
import ExprLang.Text.Blank
import ExprLang.Text.Word
import ExprLang.Token.Basic

/-!
Scanning: the token at the head of a text, and the text after it. White space and comments before a
token are dropped. A number is the longest run of digits, a word the longest run of word characters,
and two-character operators win over single ones. Whatever is not at its end gets shorter
(`length_lt_of_scan`).
-/

namespace ExprLang

open Text

/-- What is left after white space and comments; a comment goes on up to the next newline. -/
def dropTrivia : (inComment : Bool) → List Char → List Char
  | _, [] => []
  | true, c :: cs => dropTrivia (c != '\n') cs
  | false, c :: cs =>
    if isBlank c then dropTrivia false cs
    else if c = '#' then dropTrivia true cs
    else c :: cs

/-- The most digits that a number may have, leading zeros included. -/
def maxDigits : Nat := 4300

def numberToken (digits : List Char) : Except Fault Token :=
  if maxDigits < digits.length then .error .numberTooLong
  else
    let value := Nat.ofDigitChars 10 digits 0
    let lexeme := String.ofList digits
    if maxInteger < value then .error (.problem (.integerOutOfRange lexeme))
    else .ok { kind := .number, payload := .number value, lexeme }

def wordToken (chars : List Char) : Token :=
  let word := String.ofList chars
  match TokenKind.ofKeyword? word with
  | some kind => { kind, lexeme := word }
  | none => { kind := .name, payload := .text word, lexeme := word }

def pairKind? (c d : Char) : Option TokenKind :=
  if d = '=' then
    if c = '=' then some .equal
    else if c = '!' then some .notEqual
    else none
  else none

def singleKind? (c : Char) : Option TokenKind :=
  match c with
  | '+' => some .plus
  | '-' => some .minus
  | '*' => some .star
  | '/' => some .slash
  | '<' => some .less
  | '>' => some .greater
  | '!' => some .bang
  | '=' => some .assign
  | ',' => some .comma
  | ';' => some .semicolon
  | '(' => some .openParen
  | ')' => some .closeParen
  | '\x7b' => some .openBrace
  | '\x7d' => some .closeBrace
  | _ => none

def singleToken (c : Char) : Except Fault Token :=
  let lexeme := String.singleton c
  match singleKind? c with
  | some kind => .ok { kind, lexeme }
  | none => .error (.problem (.unexpectedCharacter lexeme))

/-- The token that starts with the character `c`, and what follows it. -/
def scanFrom (c : Char) (cs : List Char) : Except Fault Token × List Char :=
  if isDigit c then
    (numberToken (c :: cs.takeWhile isDigit), cs.dropWhile isDigit)
  else if startsWord c then
    (.ok (wordToken (c :: cs.takeWhile continuesWord)), cs.dropWhile continuesWord)
  else match cs with
    | [] => (singleToken c, [])
    | d :: rest =>
      match pairKind? c d with
      | some kind => (.ok { kind, lexeme := String.ofList [c, d] }, rest)
      | none => (singleToken c, d :: rest)

/-- The first token of a text, or what is wrong with it, and the text after it. -/
def scan (text : List Char) : Except Fault Token × List Char :=
  match dropTrivia false text with
  | [] => (.ok .endOfInput, [])
  | c :: cs => scanFrom c cs

theorem length_dropTrivia_le (inComment : Bool) (cs : List Char) :
    (dropTrivia inComment cs).length ≤ cs.length := by
  fun_induction dropTrivia inComment cs with
  | case1 => simp
  | case2 c cs ih => simp only [List.length_cons]; omega
  | case3 c cs _ ih => simp only [List.length_cons]; omega
  | case4 cs _ ih => simp only [List.length_cons]; omega
  | case5 => exact Nat.le_refl _

theorem length_dropWhile_le {α : Type} (p : α → Bool) (xs : List α) :
    (xs.dropWhile p).length ≤ xs.length :=
  (List.dropWhile_sublist p).length_le

theorem length_scanFrom_le (c : Char) (cs : List Char) :
    (scanFrom c cs).2.length ≤ cs.length := by
  unfold scanFrom
  split
  · exact length_dropWhile_le _ _
  · split
    · exact length_dropWhile_le _ _
    · split
      · exact Nat.le_refl _
      · split <;> simp

theorem length_scan_le (text : List Char) : (scan text).2.length ≤ text.length := by
  have h := length_dropTrivia_le false text
  unfold scan
  split
  · exact Nat.zero_le _
  · rename_i c cs hc
    rw [hc, List.length_cons] at h
    have := length_scanFrom_le c cs
    omega

/-- Only the end of the input leaves the text as long as it was. -/
theorem length_lt_of_scan {text rest : List Char} {result : Except Fault Token}
    (h : scan text = (result, rest)) (hr : result ≠ .ok .endOfInput) :
    rest.length < text.length := by
  have hd := length_dropTrivia_le false text
  cases hc : dropTrivia false text with
  | nil =>
    simp only [scan, hc] at h
    exact absurd (Prod.mk.inj h).1.symm hr
  | cons c cs =>
    rw [hc, List.length_cons] at hd
    have hs := length_scanFrom_le c cs
    simp only [scan, hc] at h
    rw [h] at hs
    exact Nat.lt_of_le_of_lt hs hd

end ExprLang
