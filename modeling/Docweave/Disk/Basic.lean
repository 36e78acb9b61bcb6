import Docweave.Path

/-!
# Disks

A disk is a finite map from places to entries: folders, and files with a text and the time they were last
written. Every operation that can fail says which of its calls failed, on which path and why. Relative
paths start in the working folder, and `..` leads to the folder that the path has really come to.
-/

namespace Docweave

/-- A place on a disk: the names that lead to it from the root. -/
abbrev Place := List Text

/-- What stands at a place. -/
inductive Entry
  | folder
  | file (text : Text) (modified : Int)
deriving DecidableEq, Inhabited

/-- It is a folder. -/
def Entry.isFolder : Entry → Bool
  | folder => true
  | file _ _ => false

/-- A disk. The root is a folder that has no entry of its own. -/
structure Disk where
  entries : List (Place × Entry) := []
  /-- The folder that relative paths start in. -/
  workFolder : Place := []
  /-- The time that the next written file gets. -/
  clock : Int := 0
deriving Inhabited

/-- Why a disk refuses an operation. -/
inductive DiskCause
  | missing | notFolder | isFolder | notEmpty | occupied
  /-- Folders are nested too deep. -/
  | tooDeep
deriving DecidableEq, Inhabited

/-- The cause in words. -/
def DiskCause.text : DiskCause → Text
  | missing => "no such file or directory"
  | notFolder => "not a directory"
  | isFolder => "is a directory"
  | notEmpty => "directory not empty"
  | occupied => "file exists"
  | tooDeep => "file name too long"

/-- A refused operation: the call, the path it was about, and the cause. -/
structure DiskFault where
  call : Text
  path : Text
  cause : DiskCause
deriving DecidableEq, Inhabited

/-- The fault in words. -/
def DiskFault.message (f : DiskFault) : Text := f.call ++ " " ++ f.path ++ ": " ++ f.cause.text

namespace Disk

/-! ## Entries by place -/

/-- The entry at a place. -/
def find? (d : Disk) (p : Place) : Option Entry :=
  if p = [] then some .folder else (d.entries.find? (·.1 = p)).map (·.2)

/-- The entry at a place set. -/
def put (d : Disk) (p : Place) (e : Entry) : Disk :=
  { d with entries := (p, e) :: d.entries.filter fun x => x.1 ≠ p }

/-- The entry at a place, and everything below it, taken away. -/
def clear (d : Disk) (p : Place) : Disk :=
  { d with entries := d.entries.filter fun x => !p.isPrefixOf x.1 }

/-- Nothing stands below a place. -/
def isEmptyAt (d : Disk) (p : Place) : Bool := d.entries.all fun x => x.1 = p || !p.isPrefixOf x.1

/-- The names right below a place, in order, each with whether it is a folder. -/
def namesAt (d : Disk) (p : Place) : List (Text × Bool) :=
  let found := d.entries.filterMap fun (q, e) =>
    match q.getLast? with
    | some name => if q.dropLast = p then some (name, e.isFolder) else none
    | none => none
  found.mergeSort fun a b => Text.le a.1 b.1

/-! ## Places of paths -/

/-- The elements of a path that are walked one after the other. A slash at the end asks for a folder. -/
def steps (path : Text) : List Text :=
  let es := (Text.splitOn '/' path).filter (!·.isEmpty)
  if Text.endsWith path "/" then es ++ [['.']] else es

/-- One step from a place, which has to be a folder. -/
def step (d : Disk) (p : Place) (name : Text) : Except DiskCause Place :=
  match d.find? p with
  | none => .error .missing
  | some (.file _ _) => .error .notFolder
  | some .folder =>
    if name = ['.'] then .ok p
    else if name = ['.', '.'] then .ok p.dropLast
    else .ok (p ++ [name])

/-- The place that steps lead to. The last one need not exist. -/
def walkSteps (d : Disk) (p : Place) : List Text → Except DiskCause Place
  | [] => .ok p
  | name :: names =>
    match d.step p name with
    | .error c => .error c
    | .ok q => walkSteps d q names

/-- The place of a path. -/
def locate (d : Disk) (path : Text) : Except DiskCause Place :=
  if path.isEmpty then .error .missing
  else d.walkSteps (if Path.isRooted path then [] else d.workFolder) (steps path)

/-- The entry of a path. -/
def entryOf (d : Disk) (path : Text) : Except DiskCause Entry :=
  match d.locate path with
  | .error c => .error c
  | .ok p =>
    match d.find? p with
    | none => .error .missing
    | some e => .ok e

/-! ## Reading -/

/-- What stands at a path. -/
def stat (d : Disk) (path : Text) : Except DiskFault Entry := (d.entryOf path).mapError (⟨"stat", path, ·⟩)

/-- Something stands at a path. -/
def has (d : Disk) (path : Text) : Bool := (d.entryOf path).toBool

/-- The text of a file. -/
def contents (d : Disk) (path : Text) : Except DiskFault Text :=
  match d.entryOf path with
  | .error c => .error ⟨"open", path, c⟩
  | .ok .folder => .error ⟨"read", path, .isFolder⟩
  | .ok (.file text _) => .ok text

/-- The names in a folder, in order, each with whether it is a folder. -/
def listing (d : Disk) (path : Text) : Except DiskFault (List (Text × Bool)) :=
  match d.locate path with
  | .error c => .error ⟨"open", path, c⟩
  | .ok p =>
    match d.find? p with
    | none => .error ⟨"open", path, .missing⟩
    | some (.file _ _) => .error ⟨"open", path, .notFolder⟩
    | some .folder => .ok (d.namesAt p)

/-! ## Writing -/

/-- A file written with the time of the clock, which moves on. The folder it is in has to exist. -/
def store (d : Disk) (path text : Text) : Except DiskFault Disk :=
  match d.locate path with
  | .error c => .error ⟨"open", path, c⟩
  | .ok p =>
    match d.find? p, d.find? p.dropLast with
    | some .folder, _ => .error ⟨"open", path, .isFolder⟩
    | _, some .folder => .ok { d.put p (.file text d.clock) with clock := d.clock + 1 }
    | _, some (.file _ _) => .error ⟨"open", path, .notFolder⟩
    | _, none => .error ⟨"open", path, .missing⟩

/-- A file dated to a time. Folders are left alone. -/
def setTime (d : Disk) (path : Text) (time : Int) : Disk :=
  match d.locate path with
  | .error _ => d
  | .ok p =>
    match d.find? p with
    | some (.file text _) => d.put p (.file text time)
    | _ => d

/-- The path up to and with the slash in front of its last element. -/
def parentPath (path : Text) : Text :=
  ((path.reverse.dropWhile (· = '/')).dropWhile (· ≠ '/')).reverse

/-- A folder made in one that exists. -/
def makeFolder (d : Disk) (path : Text) : Except DiskFault Disk :=
  let bare := Text.trimRight (· = '/') path
  match d.locate bare with
  | .error c => .error ⟨"mkdir", path, c⟩
  | .ok p =>
    match d.find? p, d.find? p.dropLast with
    | some _, _ => .error ⟨"mkdir", path, .occupied⟩
    | none, some .folder => .ok (d.put p .folder)
    | none, some (.file _ _) => .error ⟨"mkdir", path, .notFolder⟩
    | none, none => .error ⟨"mkdir", path, .missing⟩

/-- A folder made with every folder above it that is missing. The paths get shorter, so their number of
characters bounds how many there are. -/
def makeFoldersWithin : Nat → Disk → Text → Except DiskFault Disk
  | 0, _, path => .error ⟨"mkdir", path, .tooDeep⟩
  | fuel + 1, d, path =>
    match d.entryOf path with
    | .ok .folder => .ok d
    | .ok (.file _ _) => .error ⟨"mkdir", path, .notFolder⟩
    | .error _ =>
      let parent := parentPath path
      if parent.isEmpty then d.makeFolder path
      else
        match makeFoldersWithin fuel d parent with
        | .error f => .error f
        | .ok d => d.makeFolder path

/-- A folder made with every folder above it that is missing. -/
def makeFolders (d : Disk) (path : Text) : Except DiskFault Disk := makeFoldersWithin (path.length + 1) d path

/-- A file or an empty folder removed. -/
def remove (d : Disk) (path : Text) : Except DiskFault Disk :=
  match d.locate path with
  | .error c => .error ⟨"remove", path, c⟩
  | .ok p =>
    match d.find? p with
    | none => .error ⟨"remove", path, .missing⟩
    | some (.file _ _) => .ok (d.clear p)
    | some .folder => if d.isEmptyAt p then .ok (d.clear p) else .error ⟨"remove", path, .notEmpty⟩

/-- A file, or a folder with everything in it, removed. Where there is nothing there is nothing to do. -/
def removeAll (d : Disk) (path : Text) : Disk :=
  match d.locate path with
  | .error _ => d
  | .ok p => d.clear p

/-- The paths of the files below a folder, relative to it and in order. -/
def filesBelow (d : Disk) (path : Text) : List Text :=
  match d.locate path with
  | .error _ => []
  | .ok p =>
    Text.sort (d.entries.filterMap fun (q, e) =>
      if p.isPrefixOf q && !e.isFolder then some (Text.join "/" (q.drop p.length)) else none)

/-! ## Small facts -/

@[simp] theorem find?_nil (d : Disk) : d.find? [] = some .folder := rfl

theorem find?_put_self (d : Disk) {p : Place} (h : p ≠ []) (e : Entry) : (d.put p e).find? p = some e := by
  simp [find?, put, h]

theorem find?_put_of_ne (d : Disk) {p q : Place} (h : q ≠ p) (e : Entry) : (d.put p e).find? q = d.find? q := by
  by_cases hq : q = []
  · simp [find?, hq]
  · have hp : ¬p = q := fun x => h x.symm
    simp only [find?, put, hq, if_false, List.find?_cons, hp, decide_false, List.find?_filter]
    congr 2
    funext x
    by_cases hx : x.1 = q <;> simp [hx, h]

end Disk

end Docweave
