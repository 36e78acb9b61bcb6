import Docweave.Text.Basic

/-!
# Strings in JSON

A text between double quotes. Control characters are escaped, and so are the two line separators of
Unicode; for use inside markup also the characters that mean something there.
-/

namespace Docweave.Text

/-- A hexadecimal digit in lower case. -/
def hexDigit (n : Nat) : Char := if n < 10 then Char.ofNat (48 + n) else Char.ofNat (87 + n)

/-- The escape of a code unit by its four hexadecimal digits. -/
def unicodeEscape (n : Nat) : Text :=
  ['\\', 'u', hexDigit (n / 4096 % 16), hexDigit (n / 256 % 16), hexDigit (n / 16 % 16), hexDigit (n % 16)]

/-- One character of a JSON string. -/
def jsonChar (c : Char) : Text :=
  if c = quote then ['\\', quote]
  else if c = '\\' then ['\\', '\\']
  else if c = '\n' then "\\n"
  else if c = '\r' then "\\r"
  else if c = '\t' then "\\t"
  else if c = Char.ofNat 8 then "\\b"
  else if c = Char.ofNat 12 then "\\f"
  else if c.toNat < 0x20 || c.toNat = 0x2028 || c.toNat = 0x2029 then unicodeEscape c.toNat
  else [c]

/-- One character of a JSON string that is safe inside markup. -/
def markupJsonChar (c : Char) : Text :=
  if c = '<' || c = '>' || c = '&' then unicodeEscape c.toNat else jsonChar c

/-- A text as a JSON string. -/
def jsonString (t : Text) : Text := quote :: t.flatMap jsonChar ++ [quote]

/-- A text as a JSON string that is safe inside markup. -/
def markupJsonString (t : Text) : Text := quote :: t.flatMap markupJsonChar ++ [quote]

/-- An array of strings in JSON, safe inside markup. -/
def markupJsonStrings (ts : List Text) : Text := "[" ++ join "," (ts.map markupJsonString) ++ "]"

end Docweave.Text
