/-!
# Texts

A text is a list of characters. Everything the compiler reads and writes is one, so that a scan is a
recursion on the list and a law about it an induction.

Lengths and columns that the outside world sees count UTF-8 bytes; `Text.byteSize` is that measure.
-/

namespace Docweave

/-- A text: its characters in order. -/
abbrev Text := List Char

/-- A string literal stands for the text of its characters. -/
instance : Coe String Text := ⟨String.toList⟩

namespace Text

/-- The back quote, which opens code. -/
def backtick : Char := '\x60'

/-- The double quote. -/
def quote : Char := '\x22'

/-- The single quote. -/
def apostrophe : Char := '\x27'

/-- Number of bytes of the UTF-8 form. -/
def byteSize (t : Text) : Nat := t.foldr (fun c n => c.utf8Size + n) 0

/-- Cuts at every `sep`. The parts have no `sep` in them and there is always at least one. -/
def splitOn (sep : Char) : Text → List Text
  | [] => [[]]
  | c :: t =>
    if c = sep then [] :: splitOn sep t
    else match splitOn sep t with
      | [] => [[c]]
      | p :: ps => (c :: p) :: ps

/-- The lines of a text, without their newlines. -/
def lines (t : Text) : List Text := splitOn '\n' t

/-- Parts with `sep` between each two of them. -/
def join (sep : Text) : List Text → Text
  | [] => []
  | [p] => p
  | p :: q :: ps => p ++ sep ++ join sep (q :: ps)

/-- Lines, each with the newline that ends it; the last one has none when the text ends without. -/
def linesWithEnds : Text → List Text
  | [] => []
  | c :: t =>
    if c = '\n' then [c] :: linesWithEnds t
    else match linesWithEnds t with
      | [] => [[c]]
      | p :: ps => (c :: p) :: ps

/-- The text behind `p`, when it starts with `p`. -/
def dropPrefix? (p t : Text) : Option Text :=
  match p, t with
  | [], t => some t
  | _ :: _, [] => none
  | a :: p, c :: t => if a = c then dropPrefix? p t else none

/-- `t` begins with `p`. -/
def startsWith (t p : Text) : Bool := (dropPrefix? p t).isSome

/-- `t` ends with `s`. -/
def endsWith (t s : Text) : Bool := startsWith t.reverse s.reverse

/-- `t` without `p` in front, when it starts with it. -/
def trimPrefix (p t : Text) : Text := (dropPrefix? p t).getD t

/-- `t` without `s` at its end, when it ends with it. -/
def trimSuffix (s t : Text) : Text :=
  match dropPrefix? s.reverse t.reverse with
  | some r => r.reverse
  | none => t

/-- The text before and behind the first `p`. -/
def cut? (p : Text) : Text → Option (Text × Text)
  | [] => if p.isEmpty then some ([], []) else none
  | c :: t =>
    match dropPrefix? p (c :: t) with
    | some rest => some ([], rest)
    | none => (cut? p t).map fun (a, b) => (c :: a, b)

/-- Some place of `t` holds `p`. -/
def has (t p : Text) : Bool := (cut? p t).isSome

/-- The text from the first character on that is not of the class. -/
def trimLeft (p : Char → Bool) (t : Text) : Text := t.dropWhile p

/-- The text up to the last character that is not of the class. -/
def trimRight (p : Char → Bool) (t : Text) : Text := (t.reverse.dropWhile p).reverse

/-- The text between the first and the last character that is not of the class. -/
def trimBoth (p : Char → Bool) (t : Text) : Text := trimRight p (trimLeft p t)

/-- Maximal runs of characters that are not of the class. -/
def fields (p : Char → Bool) : Text → List Text
  | [] => []
  | c :: t =>
    if p c then fields p t
    else match t with
      | [] => [[c]]
      | d :: _ =>
        if p d then [c] :: fields p t
        else match fields p t with
          | [] => [[c]]
          | w :: ws => (c :: w) :: ws

/-- Every `a` replaced by `b`. -/
def replaceChar (a b : Char) (t : Text) : Text := t.map fun c => if c = a then b else c

/-- Every `p` replaced by `by'`, found from left to right without overlap. -/
def replaceAll (p by' : Text) (t : Text) : Text :=
  go t.length t
where
  go : Nat → Text → Text
  | 0, t => t
  | n + 1, t =>
    if p.isEmpty then t
    else match cut? p t with
      | none => t
      | some (a, b) => a ++ by' ++ go n b

/-- `n` spaces. -/
def spaces (n : Nat) : Text := List.replicate n ' '

/-- Decimal digits of a natural number. -/
def ofNat (n : Nat) : Text := Nat.toDigits 10 n

/-- Decimal digits of an integer, with a minus sign when it is negative. -/
def ofInt : Int → Text
  | .ofNat n => ofNat n
  | .negSucc n => '-' :: ofNat (n + 1)

/-- Ordered by code point, which is also the order of the UTF-8 bytes. -/
def lt : Text → Text → Bool
  | _, [] => false
  | [], _ :: _ => true
  | a :: s, b :: t => if a = b then lt s t else a.val < b.val

/-- The order as a test for sorting. -/
def le (s t : Text) : Bool := !lt t s

/-- Texts in increasing order. -/
def sort (l : List Text) : List Text := l.mergeSort le

/-- The class of ASCII digits. -/
def isDigit (c : Char) : Bool := '0' ≤ c && c ≤ '9'

/-- The class of ASCII letters. -/
def isLetter (c : Char) : Bool := ('a' ≤ c && c ≤ 'z') || ('A' ≤ c && c ≤ 'Z')

/-- The class of ASCII letters and digits. -/
def isAlphanumeric (c : Char) : Bool := isLetter c || isDigit c

/-- The class of ASCII punctuation. -/
def isPunctuation (c : Char) : Bool :=
  ('!' ≤ c && c ≤ '/') || (':' ≤ c && c ≤ '@') || ('[' ≤ c && c ≤ '\x60') || ('\x7b' ≤ c && c ≤ '~')

/-- ASCII letters in lower case. -/
def lowerChar (c : Char) : Char := if 'A' ≤ c && c ≤ 'Z' then Char.ofNat (c.toNat + 32) else c

/-- ASCII letters in upper case. -/
def upperChar (c : Char) : Char := if 'a' ≤ c && c ≤ 'z' then Char.ofNat (c.toNat - 32) else c

/-- The value of a hexadecimal digit. -/
def hexValue? (c : Char) : Option Nat :=
  if isDigit c then some (c.toNat - 48)
  else if 'a' ≤ c && c ≤ 'f' then some (c.toNat - 87)
  else if 'A' ≤ c && c ≤ 'F' then some (c.toNat - 55)
  else none

/-- The value of a run of decimal digits. -/
def digitsValue (t : Text) : Nat := t.foldl (fun n c => n * 10 + (c.toNat - 48)) 0

/-! ## Small facts -/

@[simp] theorem splitOn_nil (sep : Char) : splitOn sep [] = [[]] := rfl

theorem splitOn_ne_nil (sep : Char) (t : Text) : splitOn sep t ≠ [] := by
  induction t with
  | nil => simp [splitOn]
  | cons c t ih =>
    unfold splitOn
    split
    · simp
    · split <;> simp

@[simp] theorem byteSize_nil : byteSize [] = 0 := rfl

@[simp] theorem byteSize_cons (c : Char) (t : Text) : byteSize (c :: t) = c.utf8Size + byteSize t := rfl

@[simp] theorem byteSize_append (s t : Text) : byteSize (s ++ t) = byteSize s + byteSize t := by
  induction s with
  | nil => simp
  | cons c s ih => simp [ih, Nat.add_assoc]

end Text

end Docweave
