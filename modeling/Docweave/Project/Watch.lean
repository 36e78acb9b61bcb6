import Docweave.Project.Build

/-!
# Watching a project

A watcher follows what happens below the source root. Each event about a document puts off the work for it,
and only the last one counts: when a document has been quiet for a while, it is compiled, or its artifacts
are removed when it is gone. New folders are followed as they appear.
-/

namespace Docweave

/-- What can happen at a path. -/
inductive WatchOp
  | create | write | remove | rename
  /-- Something that does not change the text. -/
  | chmod
deriving DecidableEq, Inhabited

/-- Things that happened at a path at once. -/
structure WatchEvent where
  path : Text
  ops : List WatchOp
deriving DecidableEq, Inhabited

/-- The work that is put off for a document. -/
inductive WatchTask
  | compile
  /-- Compile the document if it is there and remove its artifacts if not. -/
  | compileOrDiscard
deriving DecidableEq, Inhabited

/-- What was done about a document. -/
structure WatchReport where
  path : Text
  result : ProcessResult
  removed : List Text := []
deriving Inhabited

/-- The folders that are followed, and the work put off for each document. -/
structure Watcher where
  folders : List Text := []
  pending : List (Text × WatchTask) := []
deriving Inhabited

namespace Watcher

/-- A visit on the way through a folder to follow. Hidden folders below it are not followed. -/
def followVisit (root path : Text) (isFolder : Bool) : Disk.WalkStep DiskFault (Disk × List Text) WalkNext :=
  fun (d, folders) =>
    if !isFolder then (.ok .enter, (d, folders))
    else if path ≠ root && (Path.base path).head? = some '.' then (.ok .skip, (d, folders))
    else (.ok .enter, (d, if folders.contains path then folders else folders ++ [path]))

/-- Follows a folder and the folders below it. -/
def follow (root : Text) (d : Disk) (w : Watcher) : Except DiskFault Unit × Watcher :=
  match Disk.walk (fun c : Disk × List Text => c.1) id (followVisit root) root (d, w.folders) with
  | (outcome, (_, folders)) => (outcome, { w with folders := folders })

/-- Puts work for a document off, in place of what was put off for it before. -/
def schedule (path : Text) (task : WatchTask) (w : Watcher) : Watcher :=
  { w with pending := w.pending.filter (fun x => x.1 ≠ path) ++ [(path, task)] }

/-- The work that an event asks for. -/
def taskOf? (ops : List WatchOp) : Option WatchTask :=
  if ops.contains .remove || ops.contains .rename then some .compileOrDiscard
  else if ops.contains .create || ops.contains .write then some .compile
  else none

/-- A folder stands at a path. -/
def isFolderAt (d : Disk) (path : Text) : Bool :=
  match d.entryOf path with
  | .ok .folder => true
  | _ => false

/-- Takes notice of an event. -/
def notice (e : WatchEvent) (d : Disk) (w : Watcher) : Watcher :=
  if e.ops.contains .create && isFolderAt d e.path then (w.follow e.path d).2
  else if !Text.endsWith e.path documentExt then w
  else
    match taskOf? e.ops with
    | some task => w.schedule e.path task
    | none => w

/-- Drops all work that was put off. -/
def stop (w : Watcher) : Watcher := { w with pending := [] }

/-- Compiles a document whatever the record says. Nothing is reported when the work was called off. -/
def compileNow (s : TransformSettings) (cancelled : Bool) (path : Text) (w : Workspace) :
    Option WatchReport × Workspace :=
  match Project.processFile s cancelled path (w.forget path) with
  | (r, w) =>
    if (r.fault.map ProcessFault.isCancelled).getD false then (none, w) else (some ⟨path, r, []⟩, w)

/-- Does what was put off for a document. -/
def perform (s : TransformSettings) (cancelled : Bool) (path : Text) (task : WatchTask) (w : Workspace) :
    Option WatchReport × Workspace :=
  if task = .compileOrDiscard && !w.disk.has path then
    match w.discard s path with
    | (removed, fault, w) => (some ⟨path, ⟨path, {}, fault⟩, removed⟩, w)
  else compileNow s cancelled path w

/-- Does all work that was put off, in the order it was asked for. -/
def settle (s : TransformSettings) (cancelled : Bool) : List (Text × WatchTask) → Workspace →
    List WatchReport × Workspace
  | [], w => ([], w)
  | (path, task) :: rest, w =>
    match perform s cancelled path task w with
    | (report, w) =>
      match settle s cancelled rest w with
      | (reports, w) => (report.toList ++ reports, w)

end Watcher

end Docweave
