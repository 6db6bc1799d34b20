import Mathlib.Data.List.Basic

/-! `str.strip`, `str.lower` and `str.upper` of Python, on the characters of a text. White space is
that of Unicode. Case is folded for the letters of ASCII; others stay as they are. -/

namespace PyText

/-- `str.isspace` of one character. -/
def isSpace (c : Char) : Bool :=
  let n := c.toNat
  (9 ≤ n && n ≤ 13) || (28 ≤ n && n ≤ 32) || (0x2000 ≤ n && n ≤ 0x200a) ||
    n ∈ [0x85, 0xa0, 0x1680, 0x2028, 0x2029, 0x202f, 0x205f, 0x3000]

def strip (text : List Char) : List Char :=
  ((text.dropWhile isSpace).reverse.dropWhile isSpace).reverse

def lower (text : List Char) : List Char := text.map Char.toLower

def upper (text : List Char) : List Char := text.map Char.toUpper

/-- A function of the characters, on a string. -/
def onString (f : List Char → List Char) (text : String) : String := String.ofList (f text.toList)

end PyText
