/-!
# Blank characters

Two sets of blanks matter when a number is read from text: the six ASCII blanks that may stand
around its digits, and the wider set that Unicode counts as white space, which is stripped from
the ends of a configuration value. The wider set contains the separators U+001C to U+001F, the
smaller one does not.

Main statement: every ASCII blank is a blank (`isBlank_of_isAsciiBlank`).
-/

namespace BeaconHarness.Text

/-- Tab, line feed, vertical tab, form feed, carriage return and space. -/
def isAsciiBlank (c : Char) : Bool := (9 ≤ c.toNat && c.toNat ≤ 13) || c.toNat = 32

/-- The code points of white space beyond ASCII. -/
def wideBlanks : List Nat := [
  0x85, 0xa0, 0x1680, 0x2000, 0x2001, 0x2002, 0x2003, 0x2004, 0x2005, 0x2006, 0x2007, 0x2008,
  0x2009, 0x200a, 0x2028, 0x2029, 0x202f, 0x205f, 0x3000]

/-- The characters that Unicode counts as white space, with the four ASCII separators. -/
def isBlank (c : Char) : Bool :=
  isAsciiBlank c || (28 ≤ c.toNat && c.toNat ≤ 31) || wideBlanks.contains c.toNat

/-- A text without the blanks at its two ends. -/
def strip (text : List Char) : List Char :=
  ((text.dropWhile isBlank).reverse.dropWhile isBlank).reverse

theorem isBlank_of_isAsciiBlank {c : Char} (h : isAsciiBlank c = true) : isBlank c = true := by
  simp [isBlank, h]

end BeaconHarness.Text
