import BeaconHarness.Text.Lowercase

/-!
# Letter case

Names are compared without regard to case by lowering both, and hosts are shown in lower case. In
the other direction only names of the harness matter, which are ASCII; the characters beyond ASCII
whose capitals are ASCII letters are a handful of Latin letters and ligatures.

Main statement: a text of ASCII alone is lowered character by character (`lowerFrom_ascii`).
-/

namespace BeaconHarness.Text

/-- The lower-case form of a character inside a word. -/
def lowerChar (c : Char) : List Char :=
  if c.toNat < 128 then [c.toLower]
  else if c.toNat = 0x130 then ['i', Char.ofNat 0x307]
  else [lowerWide c]

/-- The lower-case form of characters behind a letter, or not behind one. -/
def lowerFrom : (afterLetter : Bool) → List Char → List Char
  | _, [] => []
  | afterLetter, c :: rest =>
    -- A sigma that ends a word has a form of its own.
    let ends := c.toNat = 0x3A3 && afterLetter && !(rest.head?.map isCased).getD false
    (if ends then [Char.ofNat 0x3C2] else lowerChar c) ++ lowerFrom (isCased c) rest

/-- A text in lower case. -/
def lower (s : String) : String := String.ofList (lowerFrom false s.toList)

theorem lowerFrom_ascii {text : List Char} (h : ∀ c ∈ text, c.toNat < 128) (afterLetter : Bool) :
    lowerFrom afterLetter text = text.map Char.toLower := by
  induction text generalizing afterLetter with
  | nil => rfl
  | cons c rest ih =>
    have hc : c.toNat < 128 := h c (by simp)
    have hsigma : (c.toNat = 0x3A3) = False := by simp; omega
    simp [lowerFrom, lowerChar, hc, hsigma, ih fun d hd => h d (by simp [hd])]

/-- The characters beyond ASCII whose capitals are ASCII letters, by code point. -/
def wideCapitals : List (Nat × List Char) := [
  (0xDF, ['S', 'S']), (0x131, ['I']), (0x17F, ['S']), (0xFB00, ['F', 'F']), (0xFB01, ['F', 'I']),
  (0xFB02, ['F', 'L']), (0xFB03, ['F', 'F', 'I']), (0xFB04, ['F', 'F', 'L']),
  (0xFB05, ['S', 'T']), (0xFB06, ['S', 'T'])]

/-- The capitals of a character, as far as they are ASCII letters. -/
def upperChar (c : Char) : List Char :=
  match wideCapitals.find? (fun w => w.1 = c.toNat) with
  | some w => w.2
  | none => [c.toUpper]

/-- A text in capitals. -/
def upper (s : String) : String := String.ofList (s.toList.flatMap upperChar)

end BeaconHarness.Text
