/-
# Blank characters

Dice notation is typed by hand, so blanks may stand anywhere in it, even
inside a number.  What counts as blank is the Unicode property
White_Space: twenty-five characters, listed here as ranges.  Core's
`Char.isWhitespace` knows only four of them (`isBlank_of_isWhitespace`).
-/

namespace DiceRoller

/-- The ranges of code points with the property White_Space, in order. -/
def blankRanges : List (Nat × Nat) :=
  [(0x09, 0x0D), (0x20, 0x20), (0x85, 0x85), (0xA0, 0xA0), (0x1680, 0x1680),
    (0x2000, 0x200A), (0x2028, 0x2029), (0x202F, 0x202F), (0x205F, 0x205F),
    (0x3000, 0x3000)]

def isBlank (c : Char) : Bool :=
  blankRanges.any fun range => range.1 ≤ c.toNat && c.toNat ≤ range.2

theorem isBlank_of_isWhitespace {c : Char} (h : c.isWhitespace = true) :
    isBlank c = true := by
  simp only [Char.isWhitespace, Bool.or_eq_true, decide_eq_true_eq] at h
  rcases h with ((rfl | rfl) | rfl) | rfl <;> decide

def dropBlanks (text : String) : List Char :=
  text.toList.filter fun c => !isBlank c

/-- The text without the blanks at its two ends. -/
def trimBlanks (text : String) : List Char :=
  ((text.toList.dropWhile isBlank).reverse.dropWhile isBlank).reverse

/-- Letters `A` to `Z` in lower case; every other character stays. -/
def lowerCase (text : List Char) : List Char :=
  text.map Char.toLower

end DiceRoller
