import Docweave.Disk.Basic

/-!
# Walking a disk

`Disk.walk` visits a path and everything below it, folders in front of what is in them and names in order.
A visit may change the disk: a folder is listed when the walk enters it, so what was added to it by then is
visited too and what was taken from it is not. The state of the walk carries the disk.
-/

namespace Docweave

/-- What a walk does behind a visited folder. -/
inductive WalkNext
  | enter | skip
deriving DecidableEq, Inhabited

namespace Disk

/-- How deep folders can be nested. -/
def maxDepth : Nat := 4096

/-- A step of a walk: the outcome, and the state it leaves behind also when it failed. -/
abbrev WalkStep (ε σ α : Type) := σ → Except ε α × σ

/-- Visits the paths one after the other up to the first failure. -/
def walkEach {ε σ : Type} (visit : Text → Bool → WalkStep ε σ Unit) (dir : Text) :
    List (Text × Bool) → WalkStep ε σ Unit
  | [], s => (.ok (), s)
  | (name, isFolder) :: rest, s =>
    match visit (Path.join dir name) isFolder s with
    | (.error e, s) => (.error e, s)
    | (.ok (), s) => walkEach visit dir rest s

/-- Visits a path and, when it is a folder to enter, what is below it. -/
def walkFrom {ε σ : Type} (disk : σ → Disk) (lift : DiskFault → ε) (visit : Text → Bool → WalkStep ε σ WalkNext) :
    Nat → Text → Bool → WalkStep ε σ Unit
  | depth, path, isFolder, s =>
    match visit path isFolder s with
    | (.error e, s) => (.error e, s)
    | (.ok next, s) =>
      if !isFolder || next = .skip then (.ok (), s)
      else
        match depth with
        | 0 => (.error (lift ⟨"open", path, .tooDeep⟩), s)
        | depth + 1 =>
          match (disk s).listing path with
          | .error f => (.error (lift f), s)
          | .ok names => walkEach (walkFrom disk lift visit depth) path names s

/-- Visits a path and everything below it. -/
def walk {ε σ : Type} (disk : σ → Disk) (lift : DiskFault → ε) (visit : Text → Bool → WalkStep ε σ WalkNext)
    (root : Text) : WalkStep ε σ Unit := fun s =>
  match (disk s).entryOf root with
  | .error c => (.error (lift ⟨"lstat", root, c⟩), s)
  | .ok e => walkFrom disk lift visit maxDepth root e.isFolder s

end Disk

end Docweave
