import Docweave.Text.Utf8

/-!
# Base 64

Texts of bytes in letters, digits, `+` and `/`, six bits each, filled up with `=` to groups of four.
-/

namespace Docweave.Yaml

/-- The six bits of a character. -/
def sixBits? (c : Char) : Option Nat :=
  if 'A' ≤ c && c ≤ 'Z' then some (c.toNat - 65)
  else if 'a' ≤ c && c ≤ 'z' then some (c.toNat - 71)
  else if Text.isDigit c then some (c.toNat + 4)
  else if c = '+' then some 62
  else if c = '/' then some 63
  else none

/-- The bytes of groups of four characters. Only the last group may be filled up. -/
def groupBytes? : Text → Option (List Nat)
  | [] => some []
  | a :: b :: c :: d :: r => do
    let w ← sixBits? a
    let x ← sixBits? b
    if c = '=' && d = '=' && r.isEmpty then return [w * 4 + x / 16]
    let y ← sixBits? c
    if d = '=' && r.isEmpty then return [w * 4 + x / 16, x % 16 * 16 + y / 4]
    let z ← sixBits? d
    let rest ← groupBytes? r
    return [w * 4 + x / 16, x % 16 * 16 + y / 4, y % 4 * 64 + z] ++ rest
  | _ => none

/-- The text that base 64 stands for. Line breaks between the characters are passed over. -/
def decodeBase64? (t : Text) : Option Text :=
  (groupBytes? (t.filter fun c => c ≠ '\n' && c ≠ '\r')).map Text.ofBytes

end Docweave.Yaml
