import Docweave.Text.Basic

/-!
# White space

Three classes are in use. `isSpace` is the white space of Unicode, which trims the outside of texts;
`isBlankAscii` are the six ASCII blanks that Markdown knows; `isGap` are the four that separate the
words of a qualifier.
-/

namespace Docweave.Text

/-- White space of Unicode: the separators, the tab-to-return controls and NEL. -/
def isSpace (c : Char) : Bool :=
  let n := c.toNat
  n = 32 || (9 ≤ n && n ≤ 13) || n = 0x85 || n = 0xA0 || n = 0x1680 || (0x2000 ≤ n && n ≤ 0x200A) ||
    n = 0x2028 || n = 0x2029 || n = 0x202F || n = 0x205F || n = 0x3000

/-- The ASCII blanks: space, tab, newline, vertical tab, form feed and carriage return. -/
def isBlankAscii (c : Char) : Bool :=
  let n := c.toNat
  n = 32 || (9 ≤ n && n ≤ 13)

/-- The blanks a pattern calls `\s`: the ASCII ones without the vertical tab. -/
def isPatternSpace (c : Char) : Bool :=
  let n := c.toNat
  n = 32 || n = 9 || n = 10 || n = 12 || n = 13

/-- What separates words: space, tab, newline and carriage return. -/
def isGap (c : Char) : Bool := c = ' ' || c = '\t' || c = '\n' || c = '\r'

/-- The text without white space at its ends. -/
def trim (t : Text) : Text := trimBoth isSpace t

/-- The words between white space. -/
def words (t : Text) : List Text := fields isSpace t

/-- Nothing but ASCII blanks. -/
def isBlank (t : Text) : Bool := t.all isBlankAscii

/-- Every blank of ASCII is white space. -/
theorem isSpace_of_isBlankAscii {c : Char} (h : isBlankAscii c = true) : isSpace c = true := by
  simp only [isBlankAscii, isSpace, Bool.or_eq_true, Bool.and_eq_true, decide_eq_true_eq] at *
  omega

/-- Every gap is a blank of ASCII. -/
theorem isBlankAscii_of_isGap {c : Char} (h : isGap c = true) : isBlankAscii c = true := by
  simp only [isGap, Bool.or_eq_true, decide_eq_true_eq] at h
  rcases h with ((rfl | rfl) | rfl) | rfl <;> decide

end Docweave.Text
