import Docweave.Text.Utf8
import Docweave.Text.JsonString

/-!
# Durations

A duration is a number of nanoseconds. It is written in the units from hours to nanoseconds: `1h0m0s`,
`1.5s`, `20ms`.
-/

namespace Docweave

/-- A duration in nanoseconds. -/
structure Duration where
  nanos : Int
deriving DecidableEq, Inhabited

namespace Duration

def microsecond : Nat := 1000
def millisecond : Nat := 1000000
def second : Nat := 1000000000

/-- The longest duration, in nanoseconds. -/
def longest : Int := Nat.pow 2 63 - 1

/-- Rounded to a multiple of a unit; a half goes away from zero. A result that is too long is cut. -/
def round (d : Duration) (unit : Nat) : Duration :=
  let n := d.nanos.natAbs
  let rounded : Nat := if 2 * (n % unit) < unit then n - n % unit else n - n % unit + unit
  ⟨if d.nanos < 0 then max (-(rounded : Int)) (-longest - 1) else min (rounded : Int) longest⟩

/-- The digits behind the point, without the zeros at their end; nothing when there are none. `places` is
their number and `n` their value. -/
def fraction (places n : Nat) : Text :=
  let digits := Text.ofNat n
  let padded := List.replicate (places - digits.length) '0' ++ digits
  match Text.trimRight (· = '0') padded with
  | [] => []
  | ds => '.' :: ds

/-- A number of units with its fraction. -/
def inUnits (places n : Nat) : Text := Text.ofNat (n / Nat.pow 10 places) ++ fraction places (n % Nat.pow 10 places)

/-- The text of a number of nanoseconds. -/
def magnitude (n : Nat) : Text :=
  if n = 0 then "0s"
  else if n < microsecond then inUnits 0 n ++ "ns"
  else if n < millisecond then inUnits 3 n ++ "µs"
  else if n < second then inUnits 6 n ++ "ms"
  else
    let minutes := n / second / 60
    let seconds : Text := inUnits 9 (n % (60 * second)) ++ "s"
    if minutes = 0 then seconds
    else if minutes < 60 then Text.ofNat minutes ++ "m" ++ seconds
    else Text.ofNat (minutes / 60) ++ "h" ++ Text.ofNat (minutes % 60) ++ "m" ++ seconds

/-- The text of a duration. -/
def text (d : Duration) : Text := if d.nanos < 0 then '-' :: magnitude d.nanos.natAbs else magnitude d.nanos.natAbs

/-! ## Reading -/

/-- Why a text is no duration. -/
inductive Fault
  | invalid | missingUnit | unknownUnit (name : Text)
deriving DecidableEq, Inhabited

/-- One character between quotes: what is not plain ASCII shows its bytes. -/
def quotedChar (c : Char) : Text :=
  if c.toNat < 0x20 || c.toNat ≥ 0x80 then
    (Text.charBytes c).flatMap fun b => ['\\', 'x', Text.hexDigit (b / 16), Text.hexDigit (b % 16)]
  else if c = Text.quote || c = '\\' then ['\\', c]
  else [c]

/-- A text between quotes. -/
def quoted (t : Text) : Text := Text.quote :: t.flatMap quotedChar ++ [Text.quote]

/-- The fault of a text in words. -/
def Fault.message (t : Text) : Fault → Text
  | invalid => "time: invalid duration " ++ quoted t
  | missingUnit => "time: missing unit in duration " ++ quoted t
  | unknownUnit u => "time: unknown unit " ++ quoted u ++ " in duration " ++ quoted t

/-- The nanoseconds of a unit. -/
def unit? (t : Text) : Option Nat :=
  match String.ofList t with
  | "ns" => some 1
  | "us" | "µs" | "μs" => some microsecond
  | "ms" => some millisecond
  | "s" => some second
  | "m" => some (60 * second)
  | "h" => some (3600 * second)
  | _ => none

/-- A digit or the point. -/
def isNumeral (c : Char) : Bool := Text.isDigit c || c = '.'

/-- Adds up numbers with units. The text gets shorter with every one, so its length bounds their number. -/
def sum : Nat → Nat → Text → Except Fault Nat
  | 0, total, _ => .ok total
  | fuel + 1, total, t =>
    if t.isEmpty then .ok total
    else
      let whole := t.takeWhile Text.isDigit
      let r := t.dropWhile Text.isDigit
      let (part, r) := match r with
        | '.' :: r => (r.takeWhile Text.isDigit, r.dropWhile Text.isDigit)
        | r => ([], r)
      if whole.isEmpty && part.isEmpty || Text.digitsValue whole > Nat.pow 2 63 then .error .invalid
      else
        let name := r.takeWhile (!isNumeral ·)
        if name.isEmpty then .error .missingUnit
        else
          match unit? name with
          | none => .error (.unknownUnit name)
          | some unit =>
            let n := Text.digitsValue whole * unit + Text.digitsValue part * unit / Nat.pow 10 part.length
            if total + n > Nat.pow 2 63 then .error .invalid
            else sum fuel (total + n) (r.dropWhile (!isNumeral ·))

/-- Reads a duration: numbers with units, behind a sign or none. -/
def parse (t : Text) : Except Fault Duration :=
  let (negative, r) := match t with
    | '-' :: r => (true, r)
    | '+' :: r => (false, r)
    | r => (false, r)
  if r = ['0'] then .ok ⟨0⟩
  else if r.isEmpty then .error .invalid
  else
    match sum r.length 0 r with
    | .error f => .error f
    | .ok n =>
      if negative then .ok ⟨-(n : Int)⟩
      else if (n : Int) > longest then .error .invalid
      else .ok ⟨n⟩

end Duration

end Docweave
