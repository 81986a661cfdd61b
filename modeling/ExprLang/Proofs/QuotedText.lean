import ExprLang.Text.Quoted

/-!
Quoted texts differ where the texts do. A quoted character can be cut off from whatever stands
behind it: escapes by code point have as many digits as their first letter says.
-/

namespace ExprLang.Text

def hexValue (c : Char) : Nat :=
  if c.toNat < 'a'.toNat then c.toNat - '0'.toNat else c.toNat - 'a'.toNat + 10

theorem hexValue_digitChar : ∀ n < 16, hexValue n.digitChar = n := by
  decide

def ofHexDigits (digits : List Char) : Nat :=
  digits.foldl (fun n c => 16 * n + hexValue c) 0

theorem ofHexDigits_concat (digits : List Char) (c : Char) :
    ofHexDigits (digits ++ [c]) = 16 * ofHexDigits digits + hexValue c := by
  simp [ofHexDigits]

theorem ofHexDigits_toDigits (n : Nat) : ofHexDigits (Nat.toDigits 16 n) = n := by
  induction n using Nat.strongRecOn with
  | ind n ih =>
    rcases Nat.lt_or_ge n 16 with hn | hn
    · rw [Nat.toDigits_of_lt_base hn]
      simpa [ofHexDigits] using hexValue_digitChar n hn
    · rw [Nat.toDigits_of_base_le (by decide) hn, ofHexDigits_concat, ih (n / 16) (by omega),
        hexValue_digitChar _ (Nat.mod_lt n (by decide))]
      omega

theorem ofHexDigits_hexDigits (width n : Nat) : ofHexDigits (hexDigits width n) = n := by
  have hzeros (k : Nat) :
      (List.replicate k '0').foldl (fun n c => 16 * n + hexValue c) 0 = 0 := by
    induction k with
    | zero => rfl
    | succ k ih => exact ih
  rw [hexDigits, ofHexDigits, List.foldl_append, hzeros]
  exact ofHexDigits_toDigits n

theorem length_hexDigits {width n : Nat} (hl : (Nat.toDigits 16 n).length ≤ width) :
    (hexDigits width n).length = width := by
  simp only [hexDigits, List.length_append, List.length_replicate]
  omega

def readCode (width : Nat) (text : List Char) : Option (Char × List Char) :=
  some (Char.ofNat (ofHexDigits (text.take width)), text.drop width)

def readEscape : List Char → Option (Char × List Char)
  | 't' :: rest => some ('\t', rest)
  | 'n' :: rest => some ('\n', rest)
  | 'r' :: rest => some ('\r', rest)
  | 'x' :: rest => readCode 2 rest
  | 'u' :: rest => readCode 4 rest
  | 'U' :: rest => readCode 8 rest
  | c :: rest => some (c, rest)
  | [] => none

/-- The first character of an escaped text, and the rest of the text. -/
def readChar : List Char → Option (Char × List Char)
  | c :: rest => if c = '\\' then readEscape rest else some (c, rest)
  | [] => none

theorem readCode_hexDigits {width : Nat} {c : Char}
    (hc : (Nat.toDigits 16 c.toNat).length ≤ width) (rest : List Char) :
    readCode width (hexDigits width c.toNat ++ rest) = some (c, rest) := by
  have hl := length_hexDigits hc
  rw [readCode, List.take_left' hl, List.drop_left' hl, ofHexDigits_hexDigits, Char.ofNat_toNat]

theorem readChar_escapeCode (c : Char) (rest : List Char) :
    readChar (escapeCode c.toNat ++ rest) = some (c, rest) := by
  have hl {width : Nat} (hw : 0 < width) :=
    (Nat.length_toDigits_le_iff (b := 16) (n := c.toNat) (by decide) hw).mpr
  unfold escapeCode
  split
  · rename_i hc
    exact readCode_hexDigits (hl (by decide) (by simpa using hc)) rest
  · split
    · rename_i hc
      exact readCode_hexDigits (hl (by decide) (by simpa using hc)) rest
    · exact readCode_hexDigits (hl (by decide) c.val.toNat_lt) rest

section
variable {quote : Char} (hq : quote = '\'' ∨ quote = '"')
include hq

theorem readChar_escapeChar (c : Char) (rest : List Char) :
    readChar (escapeChar quote c ++ rest) = some (c, rest) := by
  unfold escapeChar
  split
  · rename_i hc
    rcases hc with rfl | rfl
    · rcases hq with rfl | rfl <;> rfl
    · rfl
  rename_i hc
  split
  · rename_i ht
    exact ht ▸ rfl
  split
  · rename_i hn
    exact hn ▸ rfl
  split
  · rename_i hr
    exact hr ▸ rfl
  split
  · exact if_neg fun hb => hc (.inr hb)
  · exact readChar_escapeCode c rest

theorem escaped_injective {s t : List Char}
    (h : s.flatMap (escapeChar quote) = t.flatMap (escapeChar quote)) : s = t := by
  induction s generalizing t with
  | nil =>
    cases t with
    | nil => rfl
    | cons d t =>
      have hd := readChar_escapeChar hq d (t.flatMap (escapeChar quote))
      rw [← List.flatMap_cons, ← h] at hd
      cases hd
  | cons c s ih =>
    have hc := readChar_escapeChar hq c (s.flatMap (escapeChar quote))
    rw [← List.flatMap_cons, h] at hc
    cases t with
    | nil => cases hc
    | cons d t =>
      rw [List.flatMap_cons, readChar_escapeChar hq d] at hc
      obtain ⟨rfl, hst⟩ := Prod.mk.inj (Option.some.inj hc)
      rw [ih hst.symm]

end

theorem quoteFor_cases (text : List Char) : quoteFor text = '\'' ∨ quoteFor text = '"' := by
  unfold quoteFor
  split
  · exact .inr rfl
  · exact .inl rfl

theorem quoted_injective {a b : String} (h : quoted a = quoted b) : a = b := by
  obtain ⟨hq, ht⟩ := List.cons.inj (String.ofList_injective h)
  rw [hq] at ht
  have hb := escaped_injective (quoteFor_cases b.toList) (List.append_cancel_right ht)
  exact String.toList_injective hb

theorem quoted_ne_none (text : String) : quoted text ≠ "None" := by
  intro h
  have hl : quotedChars text.toList = "None".toList := String.ofList_injective h
  have hc := (List.cons.inj hl).1
  rcases quoteFor_cases text.toList with hq | hq <;> rw [hq] at hc <;> cases hc

end ExprLang.Text
