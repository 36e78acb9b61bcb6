import Docweave.Text.JsonString

/-!
# Quoted texts in messages

Messages quote texts between double quotes. Characters that show nothing on their own are written as
escapes, so that a quoted text stays on one line and every character of it can be seen.
-/

namespace Docweave.Text

/-- Characters that show nothing: controls, formats, the separators except the space, private use and
the code points that are no characters. -/
def isUnseen (c : Char) : Bool :=
  let n := c.toNat
  let within := fun (a b : Nat) => a ≤ n && n ≤ b
  n < 0x20 || within 0x7F 0xA0 || n = 0xAD || within 0x600 0x605 || n = 0x61C || n = 0x6DD || n = 0x70F ||
    within 0x890 0x891 || n = 0x8E2 || n = 0x1680 || n = 0x180E || within 0x2000 0x200F ||
    within 0x2028 0x202F || within 0x205F 0x206F || n = 0x3000 || within 0xE000 0xF8FF ||
    within 0xFDD0 0xFDEF || n = 0xFEFF || within 0xFFF9 0xFFFB || n % 0x10000 ≥ 0xFFFE || n = 0x110BD ||
    n = 0x110CD || within 0x13430 0x1343F || within 0x1BCA0 0x1BCA3 || within 0x1D173 0x1D17A ||
    within 0xE0000 0xE007F || n ≥ 0xF0000

/-- The escape of a character by its code point in hexadecimal: two digits for ASCII, else four or eight. -/
def hexEscape (c : Char) : Text :=
  let n := c.toNat
  if n < 0x80 then ['\\', 'x', hexDigit (n / 16), hexDigit (n % 16)]
  else if n < 0x10000 then unicodeEscape n
  else
    ['\\', 'U', '0', '0', hexDigit (n / 0x100000 % 16), hexDigit (n / 0x10000 % 16),
      hexDigit (n / 4096 % 16), hexDigit (n / 256 % 16), hexDigit (n / 16 % 16), hexDigit (n % 16)]

/-- One character of a quoted text. -/
def quotedChar (c : Char) : Text :=
  if c = quote then ['\\', quote]
  else if c = '\\' then ['\\', '\\']
  else if c = '\n' then "\\n"
  else if c = '\r' then "\\r"
  else if c = '\t' then "\\t"
  else if c.toNat = 7 then "\\a"
  else if c.toNat = 8 then "\\b"
  else if c.toNat = 11 then "\\v"
  else if c.toNat = 12 then "\\f"
  else if isUnseen c then hexEscape c
  else [c]

/-- A text between double quotes, with escapes. -/
def quoted (t : Text) : Text := quote :: t.flatMap quotedChar ++ [quote]

end Docweave.Text
