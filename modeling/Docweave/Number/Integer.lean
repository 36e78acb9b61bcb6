import Docweave.Text.Basic

/-!
# Integers in words of 64 bits

An integer may be written in another base than ten: `0x1f`, `0o17`, `017`, `0b101`. Underscores may separate
digits. What is no integer is told apart from what is too large for 64 bits.
-/

namespace Docweave

/-- Why a text is no integer. -/
inductive IntegerFault
  | malformed | range
deriving DecidableEq, Inhabited

/-- The fault in words. -/
def IntegerFault.text : IntegerFault → Text
  | malformed => "invalid syntax"
  | range => "value out of range"

namespace Integer

/-- The value of a digit, letters of both cases included. -/
def digitValue? (c : Char) : Option Nat :=
  if Text.isDigit c then some (c.toNat - 48)
  else if Text.isLetter c then some ((Text.lowerChar c).toNat - 87)
  else none

/-- The digits of a text behind the mark of its base, and the base. -/
def splitBase (t : Text) : Nat × Text :=
  match t with
  | '0' :: c :: d :: r =>
    if Text.lowerChar c = 'b' then (2, d :: r)
    else if Text.lowerChar c = 'o' then (8, d :: r)
    else if Text.lowerChar c = 'x' then (16, d :: r)
    else (8, c :: d :: r)
  | '0' :: r => (8, r)
  | t => (10, t)

/-- The value of digits, which may be separated by underscores. The first digit that makes the number too
large decides before what follows it is read. -/
def value (base : Nat) (n : Nat) : Text → Except IntegerFault Nat
  | [] => .ok n
  | c :: t =>
    if c = '_' then value base n t
    else
      match digitValue? c with
      | none => .error .malformed
      | some d =>
        if d ≥ base then .error .malformed
        else if n * base + d ≥ Nat.pow 2 64 then .error .range
        else value base (n * base + d) t

/-- What stands in front of a character. -/
inductive Before
  | start | digit | underscore | other
deriving DecidableEq

/-- Every underscore has a digit on both sides. -/
def separates (hex : Bool) (b : Before) : Text → Bool
  | [] => b ≠ .underscore
  | c :: t =>
    if Text.isDigit c || (hex && 'a' ≤ Text.lowerChar c && Text.lowerChar c ≤ 'f') then separates hex .digit t
    else if c = '_' then b = .digit && separates hex .underscore t
    else b ≠ .underscore && separates hex .other t

/-- Underscores stand where they may: between digits, or behind the mark of the base. -/
def underscoresFit (t : Text) : Bool :=
  match t with
  | '0' :: c :: r =>
    let m := Text.lowerChar c
    if m = 'b' || m = 'o' || m = 'x' then separates (m = 'x') .digit r else separates false .start t
  | t => separates false .start t

/-- A natural number. -/
def natural (t : Text) : Except IntegerFault Nat :=
  if t.isEmpty then .error .malformed
  else
    match splitBase t with
    | (base, digits) =>
      match value base 0 digits with
      | .error f => .error f
      | .ok n => if digits.contains '_' && !underscoresFit t then .error .malformed else .ok n

/-- An integer of 64 bits. -/
def parse (t : Text) : Except IntegerFault Int :=
  let (negative, digits) := match t with
    | '+' :: r => (false, r)
    | '-' :: r => (true, r)
    | t => (false, t)
  match natural digits with
  | .error f => .error f
  | .ok n =>
    if negative then (if n ≤ Nat.pow 2 63 then .ok (-(n : Int)) else .error .range)
    else if n < Nat.pow 2 63 then .ok n
    else .error .range

end Integer

/-- A truth value: `1`, `t` and `true`, or `0`, `f` and `false`, the words also in upper case. -/
def truth? (t : Text) : Option Bool :=
  if ["1", "t", "T", "true", "TRUE", "True"].contains (String.ofList t) then some true
  else if ["0", "f", "F", "false", "FALSE", "False"].contains (String.ofList t) then some false
  else none

end Docweave
