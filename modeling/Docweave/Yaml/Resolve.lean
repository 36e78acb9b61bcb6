import Docweave.Yaml.Fault
import Docweave.Yaml.Scalar
import Docweave.Yaml.Value

/-!
# The values of scalars

A plain scalar without tag is a null, a truth value, a number, a timestamp or a text by its characters. A
tag restricts what it may be; a tag that is none of the standard ones leaves the text as it is.
-/

namespace Docweave.Yaml

/-! ## Tags -/

/-- The tags of the standard, in their short form. -/
def Tag.null : Text := "!!null"

/-- The tag of truth values. -/
def Tag.bool : Text := "!!bool"

/-- The tag of whole numbers. -/
def Tag.int : Text := "!!int"

/-- The tag of floating-point numbers. -/
def Tag.float : Text := "!!float"

/-- The tag of timestamps. -/
def Tag.timestamp : Text := "!!timestamp"

/-- The tag of texts. -/
def Tag.text : Text := "!!str"

/-- The tag of texts written in base 64. -/
def Tag.binary : Text := "!!binary"

/-- The tag of the key whose value is merged into its mapping. -/
def Tag.merge : Text := "!!merge"

/-- The tag of sequences. -/
def Tag.seq : Text := "!!seq"

/-- The tag of mappings. -/
def Tag.map : Text := "!!map"

/-- What the tags of the standard have in front in their long form. -/
def Tag.standard : Text := "tag:yaml.org,2002:"

/-- A tag of the standard in its short form; other tags as they are. -/
def Tag.short (t : Text) : Text :=
  match Text.dropPrefix? Tag.standard t with
  | some r => "!!" ++ r
  | none => t

/-- The tags that restrict what a scalar may be. -/
def Tag.restricts (t : Text) : Bool :=
  [[], Tag.text, Tag.bool, Tag.int, Tag.float, Tag.null, Tag.timestamp].contains t

/-! ## Numbers -/

/-- The value of digits of a base. -/
def digitsIn? (base : Nat) (t : Text) : Option Nat :=
  t.foldl (fun acc c => acc.bind fun n => (Text.hexValue? c).bind fun d => if d < base then some (n * base + d) else none)
    (some 0)

/-- A natural number. What stands behind a zero is octal, unless a letter names another base. -/
def natural? (t : Text) : Option Nat :=
  match t with
  | [] => none
  | '0' :: c :: d :: r =>
    if c = 'b' || c = 'B' then digitsIn? 2 (d :: r)
    else if c = 'o' || c = 'O' then digitsIn? 8 (d :: r)
    else if c = 'x' || c = 'X' then digitsIn? 16 (d :: r)
    else digitsIn? 8 (c :: d :: r)
  | '0' :: r => digitsIn? 8 r
  | t => digitsIn? 10 t

/-- An integer of 64 bits: a sign and a natural number. -/
def signed? (read : Text → Option Nat) (t : Text) : Option Int :=
  let bounded := fun (negative : Bool) (r : Text) => (read r).bind fun n =>
    if negative then (if n ≤ Nat.pow 2 63 then some (-(n : Int)) else none)
    else if n < Nat.pow 2 63 then some (n : Int) else none
  match t with
  | '+' :: r => bounded false r
  | '-' :: r => bounded true r
  | t => bounded false t

/-- A natural number of 64 bits. -/
def unsigned? (read : Text → Option Nat) (t : Text) : Option Int :=
  (read t).bind fun n => if n < Nat.pow 2 64 then some (n : Int) else none

/-- Digits of a base, at least one. -/
def someDigits? (base : Nat) (t : Text) : Option Nat := if t.isEmpty then none else digitsIn? base t

/-- An integer whose sign stands behind the letter of its base. -/
def lateSigned? (t : Text) : Option Int :=
  let read := fun (base : Nat) (r : Text) => (signed? (someDigits? base) r).orElse fun _ => unsigned? (someDigits? base) r
  match t with
  | '0' :: 'b' :: r => read 2 r
  | '-' :: '0' :: 'b' :: r => signed? (someDigits? 2) ('-' :: r)
  | '0' :: 'o' :: r => read 8 r
  | '-' :: '0' :: 'o' :: r => signed? (someDigits? 8) ('-' :: r)
  | _ => none

/-- An exponent: a letter, a sign or none, and digits. Nothing is the exponent zero. -/
def exponent? (t : Text) : Option Int :=
  match t with
  | [] => some 0
  | e :: r =>
    if e ≠ 'e' && e ≠ 'E' then none
    else
      let (negative, r) := match r with
        | '-' :: r => (true, r)
        | '+' :: r => (false, r)
        | r => (false, r)
      if r.isEmpty || !r.all Text.isDigit then none
      else
        let n := Text.digitsValue r
        some (if negative then -(n : Int) else n)

/-- A decimal number: digits, a point and digits, an exponent. Numbers too large are none. -/
def decimal? (t : Text) : Option Binary64 := do
  let (negative, t) := match t with
    | '-' :: r => (true, r)
    | '+' :: r => (false, r)
    | t => (false, t)
  let whole := t.takeWhile Text.isDigit
  let t := t.dropWhile Text.isDigit
  let (part, t) := match t with
    | '.' :: r => (r.takeWhile Text.isDigit, r.dropWhile Text.isDigit)
    | t => ([], t)
  guard (!(whole.isEmpty && part.isEmpty))
  let e ← exponent? t
  Binary64.ofDecimal? negative (Text.digitsValue (whole ++ part)) (e - part.length)

/-- Every underscore stands between two digits. -/
def underscoresSeparate : Option Char → Text → Bool
  | _, [] => true
  | before, c :: t =>
    if c = '_' then
      (before.map Text.isDigit).getD false && (t.head?.map Text.isDigit).getD false && underscoresSeparate (some c) t
    else underscoresSeparate (some c) t

/-! ## Scalars -/

/-- Texts that are a value by themselves. -/
def constants : List (Text × Text × Value) :=
  [("true", Tag.bool, .bool true), ("True", Tag.bool, .bool true), ("TRUE", Tag.bool, .bool true),
   ("false", Tag.bool, .bool false), ("False", Tag.bool, .bool false), ("FALSE", Tag.bool, .bool false),
   ([], Tag.null, .null), ("~", Tag.null, .null), ("null", Tag.null, .null), ("Null", Tag.null, .null),
   ("NULL", Tag.null, .null),
   (".nan", Tag.float, .float .nan), (".NaN", Tag.float, .float .nan), (".NAN", Tag.float, .float .nan),
   (".inf", Tag.float, .float (.infinite false)), (".Inf", Tag.float, .float (.infinite false)),
   (".INF", Tag.float, .float (.infinite false)), ("+.inf", Tag.float, .float (.infinite false)),
   ("+.Inf", Tag.float, .float (.infinite false)), ("+.INF", Tag.float, .float (.infinite false)),
   ("-.inf", Tag.float, .float (.infinite true)), ("-.Inf", Tag.float, .float (.infinite true)),
   ("-.INF", Tag.float, .float (.infinite true))]

/-- A number or timestamp that starts with a digit or sign. -/
def numeric? (timestamps : Bool) (t : Text) : Option (Text × Value) :=
  let plain := t.filter (· ≠ '_')
  match (if timestamps then Timestamp.parse? t else none) with
  | some s => some (Tag.timestamp, .time s)
  | none =>
    match (signed? natural? plain).orElse fun _ => unsigned? natural? plain with
    | some i => some (Tag.int, .int i)
    | none =>
      match decimal? plain with
      | some f => some (Tag.float, .float f)
      | none => (lateSigned? plain).map fun i => (Tag.int, .int i)

/-- A scalar by its characters, as far as it is no text. -/
def recognized? (timestamps : Bool) (t : Text) : Option (Text × Value) :=
  match constants.find? (·.1 = t) with
  | some (_, r) => some r
  | none =>
    match t with
    | [] => none
    | c :: _ =>
      if c = '.' then
        if underscoresSeparate none t then
          (decimal? (t.filter (· ≠ '_'))).map fun f => (Tag.float, .float f)
        else none
      else if Text.isDigit c || c = '+' || c = '-' then numeric? timestamps t
      else none

/-- The tag and value of a scalar without tag. -/
def resolvePlain (t : Text) : Text × Value := (recognized? true t).getD (Tag.text, .text t)

/-- The tag and value of a scalar under a tag. Whole numbers of 64 bits with sign are floating-point numbers,
too; otherwise the tag must be the one that the characters give. -/
def resolveTagged (tag t : Text) : Except Fault (Text × Value) :=
  let tag := Tag.short tag
  if !Tag.restricts tag || tag = Tag.text then .ok (tag, .text t)
  else
    let (found, value) := (recognized? (tag = [] || tag = Tag.timestamp) t).getD (Tag.text, .text t)
    if tag = [] || tag = found then .ok (found, value)
    else
      match (if tag = Tag.float then value else .null) with
      | .int i =>
        match (if i < Nat.pow 2 63 then Binary64.ofInt? i else none) with
        | some f => .ok (Tag.float, .float f)
        | none => .error (.wrongTag found t tag)
      | _ => .error (.wrongTag found t tag)

end Docweave.Yaml
