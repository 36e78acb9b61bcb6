import Docweave.Ignore.Glob
import Docweave.Text.Space

/-!
# Ignored paths

Rules say which paths below a folder are left out. A rule is a glob for a name anywhere, or, when it has a
slash in it, globs for the names of a path from the top. The last rule that speaks about a path decides; a
rule with a leading exclamation mark takes the path in again.
-/

namespace Docweave

/-- A rule about paths. -/
structure IgnoreRule where
  /-- Matching paths are taken in, not left out. -/
  keeps : Bool
  /-- Only folders are meant. -/
  foldersOnly : Bool
  /-- The globs between the slashes. -/
  globs : List Text
deriving DecidableEq, Inhabited

namespace IgnoreRule

/-- The glob for any number of folders. -/
def anyFolders : Text := "**"

/-- Reads a rule. -/
def ofText (t : Text) : IgnoreRule :=
  let (keeps, t) := match t with
    | '!' :: t => (true, t)
    | t => (false, t)
  let t := if Text.endsWith t "\\ " then t else Text.trimRight (· = ' ') t
  let foldersOnly := Text.endsWith t "/"
  let t := if foldersOnly then t.dropLast else t
  ⟨keeps, foldersOnly, Text.splitOn '/' t⟩

/-- A single glob matches one of the names. A rule for folders does not match a file by its own name. -/
def matchesName (glob : Text) (foldersOnly isFolder : Bool) : List Text → Bool
  | [] => false
  | name :: names =>
    match Glob.isMatch? glob name with
    | none => false
    | some false => matchesName glob foldersOnly isFolder names
    | some true => !(foldersOnly && !isFolder && names.isEmpty)

/-- The names behind the first that matches. None when the glob is malformed; `some none` when no name
matches. -/
def seek (glob : Text) : List Text → Option (Option (List Text))
  | [] => some none
  | name :: names =>
    match Glob.isMatch? glob name with
    | none => none
    | some true => some (some names)
    | some false => seek glob names

/-- Globs against the names of a path from the top. `matched` is the verdict so far and `free` says that
folders may be skipped. Gives the verdict and the names that are left. -/
def matchesPath (matched free : Bool) : List Text → List Text → Bool × List Text
  | [], names => (matched, names)
  | glob :: globs, names =>
    if glob.isEmpty then matchesPath matched false globs names
    else if glob = anyFolders then
      if globs.isEmpty then (matched, names) else matchesPath matched true globs names
    else if Text.has glob anyFolders then (false, names)
    else
      match names with
      | [] => (false, [])
      | name :: rest =>
        if free then
          match seek glob names with
          | none => (false, names)
          | some none => matchesPath false false globs []
          | some (some rest) => matchesPath true false globs rest
        else if Glob.isMatch glob name then matchesPath (!(rest.isEmpty && !globs.isEmpty)) false globs rest
        else (false, names)

/-- The rule speaks about a path. -/
def applies (r : IgnoreRule) (names : List Text) (isFolder : Bool) : Bool :=
  match r.globs with
  | [glob] => matchesName glob r.foldersOnly isFolder names
  | globs =>
    match matchesPath false false globs names with
    | (matched, left) => matched && !(r.foldersOnly && !isFolder && left.isEmpty)

end IgnoreRule

/-- The rules leave a path out. -/
def isIgnored (rules : List IgnoreRule) (names : List Text) (isFolder : Bool) : Bool :=
  match rules.reverse.find? fun r => r.applies names isFolder with
  | some r => !r.keeps
  | none => false

/-- The rules of a file: a rule a line, without blank lines and comments. -/
def ignoreRules (t : Text) : List IgnoreRule :=
  (((Text.lines t).map Text.trim).filter fun l => !l.isEmpty && l.head? ≠ some '#').map IgnoreRule.ofText

end Docweave
