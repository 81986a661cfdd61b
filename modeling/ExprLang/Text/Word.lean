import ExprLang.Text.Letter
import ExprLang.Text.Numeral

/-!
The characters of words and numbers.
-/

namespace ExprLang.Text

/-- Whether a character is one of the ten ASCII digits, the only ones that make a number. -/
def isDigit (c : Char) : Bool :=
  decide ('0' ≤ c ∧ c ≤ '9')

/-- A word starts with a letter or an underscore. -/
def startsWord (c : Char) : Bool :=
  isLetter c || c = '_'

/-- A word goes on with letters, numerals and underscores. -/
def continuesWord (c : Char) : Bool :=
  isLetter c || isNumeral c || c = '_'

theorem continuesWord_of_startsWord {c : Char} (h : startsWord c = true) :
    continuesWord c = true := by
  simp only [startsWord, Bool.or_eq_true] at h
  rcases h with h | h <;> simp [continuesWord, h]

end ExprLang.Text
