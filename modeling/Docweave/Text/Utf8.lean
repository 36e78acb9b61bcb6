import Docweave.Text.Basic

/-!
# UTF-8

The bytes of characters, and the characters of bytes.
-/

namespace Docweave.Text

/-- The bytes of a character. -/
def charBytes (c : Char) : List Nat :=
  let n := c.toNat
  if n < 0x80 then [n]
  else if n < 0x800 then [0xC0 + n / 64, 0x80 + n % 64]
  else if n < 0x10000 then [0xE0 + n / 4096, 0x80 + n / 64 % 64, 0x80 + n % 64]
  else [0xF0 + n / 262144, 0x80 + n / 4096 % 64, 0x80 + n / 64 % 64, 0x80 + n % 64]

/-- The bytes of a text. -/
def bytes (t : Text) : List Nat := t.flatMap charBytes

/-- How many bytes the character has that starts with a byte; zero when none does. -/
def characterLength (b : Nat) : Nat :=
  if b < 0x80 then 1 else if b < 0xC2 then 0 else if b < 0xE0 then 2 else if b < 0xF0 then 3
  else if b < 0xF5 then 4 else 0

/-- The characters of bytes. A byte that starts none stands for the replacement character. -/
def ofBytesWithin : Nat → List Nat → Text
  | 0, _ => []
  | _ + 1, [] => []
  | n + 1, b :: r =>
    let len := characterLength b
    let more := r.take (len - 1)
    if len ≥ 1 && more.length = len - 1 && more.all (fun m => m / 64 = 2) then
      let first := if len = 1 then b else b % Nat.pow 2 (7 - len)
      Char.ofNat (more.foldl (fun v m => v * 64 + m % 64) first) :: ofBytesWithin n (r.drop (len - 1))
    else Char.ofNat 0xFFFD :: ofBytesWithin n r

/-- The characters of bytes. -/
def ofBytes (bs : List Nat) : Text := ofBytesWithin bs.length bs

end Docweave.Text
