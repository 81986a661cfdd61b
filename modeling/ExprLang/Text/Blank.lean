import ExprLang.Text.CodeRanges

/-!
White space: the characters of bidirectional type B, S or WS and those of category Zs. They separate
tokens, and a line of nothing else is blank.
-/

namespace ExprLang.Text

def blankRanges : CodeRanges :=
  [(0x9, 0xd), (0x1c, 0x20), (0x85, 0x85), (0xa0, 0xa0), (0x1680, 0x1680), (0x2000, 0x200a),
   (0x2028, 0x2029), (0x202f, 0x202f), (0x205f, 0x205f), (0x3000, 0x3000)]

def isBlank (c : Char) : Bool :=
  blankRanges.has c.toNat

end ExprLang.Text
