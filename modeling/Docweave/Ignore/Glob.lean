import Docweave.Text.Basic

/-!
# Globs

A pattern for one name of a path: `*` stands for any run of characters, `?` for one character, `[a-c]` for
one of a class and `[^a-c]` for one outside it; a backslash takes the next character as it is. A pattern
that breaks off in the middle of a class or behind a backslash is malformed.
-/

namespace Docweave.Glob

/-- What matches one character. -/
inductive Atom
  | anyOne
  | exactly (c : Char)
  | oneOf (negated : Bool) (ranges : List (Char × Char))
deriving DecidableEq, Inhabited

/-- The character stands for the atom. -/
def Atom.accepts : Atom → Char → Bool
  | anyOne, _ => true
  | exactly c, d => c = d
  | oneOf negated ranges, d => ranges.any (fun r => r.1 ≤ d && d ≤ r.2) != negated

/-- A bound of a range and what follows it. Something has to follow. -/
def bound? : Text → Option (Char × Text)
  | [] => none
  | c :: t =>
    if c = '-' || c = ']' then none
    else
      match (if c = '\\' then t else c :: t) with
      | d :: e :: r => some (d, e :: r)
      | _ => none

/-- The ranges of a class and what follows its closing bracket. -/
def ranges? : Nat → List (Char × Char) → Text → Option (List (Char × Char) × Text)
  | 0, _, _ => none
  | fuel + 1, found, t =>
    match t with
    | ']' :: r => if found.isEmpty then none else some (found.reverse, r)
    | t => do
      let (lo, r) ← bound? t
      match r with
      | '-' :: r =>
        let (hi, r) ← bound? r
        ranges? fuel ((lo, hi) :: found) r
      | r => ranges? fuel ((lo, lo) :: found) r

/-- The atoms of a piece of pattern without stars; none when it is malformed. -/
def atoms? : Nat → Text → Option (List Atom)
  | _, [] => some []
  | 0, _ => none
  | fuel + 1, c :: t =>
    if c = '[' then do
      let (negated, t) := match t with
        | '^' :: t => (true, t)
        | t => (false, t)
      let (ranges, r) ← ranges? (t.length + 1) [] t
      (← atoms? fuel r) |> fun as => some (.oneOf negated ranges :: as)
    else if c = '?' then (atoms? fuel t).map (.anyOne :: ·)
    else if c = '\\' then
      match t with
      | [] => none
      | d :: t => (atoms? fuel t).map (.exactly d :: ·)
    else (atoms? fuel t).map (.exactly c :: ·)

/-- The pattern up to the next star outside a class, and the rest. -/
def chunk (inClass : Bool) : Text → Text × Text
  | [] => ([], [])
  | c :: t =>
    if c = '\\' then
      match t with
      | d :: t =>
        let (a, b) := chunk inClass t
        (c :: d :: a, b)
      | [] => ([c], [])
    else if c = '*' && !inClass then ([], c :: t)
    else
      let (a, b) := chunk (if c = '[' then true else if c = ']' then false else inClass) t
      (c :: a, b)

/-- What follows when the atoms stand at the front of a name. -/
def matchAtoms : List Atom → Text → Option Text
  | [], s => some s
  | _ :: _, [] => none
  | a :: as, c :: s => if a.accepts c then matchAtoms as s else none

/-- The first place behind the front of a name where the atoms stand; at the end of the pattern they have
to reach the end of the name. -/
def matchBehind (as : List Atom) (last : Bool) : Text → Option Text
  | [] => none
  | _ :: s =>
    match matchAtoms as s with
    | some r => if last && !r.isEmpty then matchBehind as last s else some r
    | none => matchBehind as last s

/-- The pattern stands for the name. A malformed piece is only noticed when the match gets to it. -/
def matchFrom : Nat → Text → Text → Option Bool
  | _, [], name => some name.isEmpty
  | 0, _, _ => none
  | fuel + 1, pattern, name =>
    let behind := pattern.dropWhile (· = '*')
    let star := behind.length < pattern.length
    let (piece, rest) := chunk false behind
    if star && piece.isEmpty then some true
    else
      match atoms? piece.length piece with
      | none => none
      | some as =>
        match matchAtoms as name with
        | some r =>
          if r.isEmpty || !rest.isEmpty then matchFrom fuel rest r
          else if star then
            match matchBehind as rest.isEmpty name with
            | some r => matchFrom fuel rest r
            | none => some false
          else some false
        | none =>
          if star then
            match matchBehind as rest.isEmpty name with
            | some r => matchFrom fuel rest r
            | none => some false
          else some false

/-- Whether the pattern stands for the name; none when the pattern turns out malformed. -/
def isMatch? (pattern name : Text) : Option Bool := matchFrom (pattern.length + 1) pattern name

/-- The pattern is well-formed, as far as it is read, and stands for the name. -/
def isMatch (pattern name : Text) : Bool := isMatch? pattern name = some true

end Docweave.Glob
