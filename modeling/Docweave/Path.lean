import Docweave.Text.Basic

/-!
# Paths

Paths are texts with slashes. A clean path has no empty or `.` elements, and `..` only at the front of a
relative path. `join` and `relative?` give clean paths.
-/

namespace Docweave.Path

/-- The path starts at the root. -/
def isRooted (p : Text) : Bool := p.head? = some '/'

/-- The elements of a path, without the empty ones and `.`. -/
def elements (p : Text) : List Text := (Text.splitOn '/' p).filter fun e => !e.isEmpty && e ≠ ['.']

/-- Resolves `..` against the elements in front of it, which are given newest first. At the root there is
nothing above. -/
def squash (rooted : Bool) (front : List Text) : List Text → List Text
  | [] => front.reverse
  | e :: es =>
    if e = ['.', '.'] then
      match front with
      | [] => if rooted then squash rooted [] es else squash rooted [e] es
      | f :: fs => if f = ['.', '.'] then squash rooted (e :: front) es else squash rooted fs es
    else squash rooted (e :: front) es

/-- The path of elements. -/
def ofElements (rooted : Bool) (es : List Text) : Text :=
  if rooted then '/' :: Text.join "/" es
  else if es.isEmpty then "."
  else Text.join "/" es

/-- The shortest path that names the same place by its text alone. -/
def clean (p : Text) : Text := ofElements (isRooted p) (squash (isRooted p) [] (elements p))

/-- Elements under each other as one clean path; empty ones are left out. -/
def joinAll (parts : List Text) : Text :=
  match parts.filter (!·.isEmpty) with
  | [] => []
  | ps => clean (Text.join "/" ps)

/-- One path under another. -/
def join (dir p : Text) : Text := joinAll [dir, p]

/-- The last element of a path: `.` for the empty path, `/` for slashes alone. -/
def base (p : Text) : Text :=
  if p.isEmpty then "."
  else
    let t := Text.trimRight (· = '/') p
    if t.isEmpty then "/" else (t.reverse.takeWhile (· ≠ '/')).reverse

/-- The path without its last element. -/
def dir (p : Text) : Text := clean (p.reverse.dropWhile (· ≠ '/')).reverse

/-- The words of a clean path: its elements, and an empty one in front when it starts at the root. -/
def words (p : Text) : List Text :=
  if isRooted p then [] :: elements p else if p = ['.'] then [['.']] else elements p

/-- Drops the words that two lists have in common at the front. -/
def dropCommon : List Text → List Text → List Text × List Text
  | b :: bs, t :: ts => if b = t then dropCommon bs ts else (b :: bs, t :: ts)
  | bs, ts => (bs, ts)

/-- The path that leads from `from'` to `to'`. There is none between a rooted and a relative path, nor out
of a directory that is not known. -/
def relative? (from' to' : Text) : Option Text :=
  let b := clean from'
  let t := clean to'
  if b = t then some "."
  else if (b ≠ ['.'] && isRooted b) != isRooted t then none
  else
    match dropCommon (if b = ['.'] then [] else words b) (words t) with
    | (up, down) =>
      if up.head? = some ['.', '.'] && !down.isEmpty then none
      else some (Text.join "/" (List.replicate up.length ['.', '.'] ++ if down = [['.']] then [] else down))

/-- Why a path cannot be made relative. -/
def relativeError (from' to' : Text) : Text := "Rel: can't make " ++ to' ++ " relative to " ++ from'

/-- The path leads out of the directory it starts from. -/
def leavesDir (p : Text) : Bool := p = ['.', '.'] || Text.startsWith p "../"

end Docweave.Path
