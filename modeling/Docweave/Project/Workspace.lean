import Docweave.Compile
import Docweave.Disk.Basic
import Docweave.Script.Check

/-!
# Workspaces

A workspace is a disk together with the record of what has been compiled on it: for each document the time
it was written when it last compiled. `transform` brings the artifacts of a document up to date, and does
nothing when the record says that they are; `discard` removes them.

What a compile changes on the disk is first laid down as a `Plan`, a list of changes that are then made one
after the other until one is refused.
-/

namespace Docweave

/-- How documents are compiled into the cache. -/
structure TransformSettings where
  highlighter : Highlighter
  /-- The order in which the highlighting of a document goes on. -/
  schedule : Schedule := []
  parser : Script.Parser
  options : CompileOptions := {}
  srcRoot : Text
  cacheDir : Text
  checkScript : Bool := false

/-- `yes` and `no`. -/
def yesOrNo (b : Bool) : Text := if b then "yes" else "no"

/-- The settings on one line. -/
def TransformSettings.pretty (s : TransformSettings) : Text :=
  "src=" ++ s.srcRoot ++ " cache=" ++ s.cacheDir ++ " check_script=" ++ yesOrNo s.checkScript

/-- The part of the cache that a change is about. -/
inductive Stage
  | outputFolder | component | metadata | highlights | staleHighlights
deriving DecidableEq, Inhabited

/-- What was going on. -/
def Stage.text : Stage → Text
  | outputFolder => "failed to create output directory"
  | component => "writing component"
  | metadata => "writing meta"
  | highlights => "writing highlights"
  | staleHighlights => "removing stale highlights"

/-- Why a document is not processed. -/
inductive ProcessFault
  | extension
  | stat (fault : DiskFault)
  | path (fault : PathFault)
  | read (fault : DiskFault)
  | script (fault : Script.CheckFault)
  | compile (fault : CompileFault)
  | encoding (fault : Yaml.JsonFault)
  | change (stage : Stage) (fault : DiskFault)
  | removal (file : Text) (fault : DiskFault)
deriving Inhabited

/-- The fault in words. -/
def ProcessFault.message : ProcessFault → Text
  | extension => "invalid file extension, expected " ++ documentExt
  | stat f => "stat source: " ++ f.message
  | path f => f.message
  | read f => "reading source: " ++ f.message
  | script f => f.message
  | compile f => f.message
  | encoding f => "encoding meta: " ++ f.message
  | change stage f => stage.text ++ ": " ++ f.message
  | removal file f => "removing " ++ file ++ ": " ++ f.message

/-- The work was called off. -/
def ProcessFault.isCancelled : ProcessFault → Bool
  | compile .cancelled => true
  | _ => false

/-! ## Plans -/

/-- A change of a disk. -/
inductive Change
  | makeFolders (path : Text)
  | write (path text : Text)
  /-- Removes what is there; nothing need be. -/
  | erase (path : Text)
deriving DecidableEq, Inhabited

/-- The disk with a change made. -/
def Disk.apply (d : Disk) : Change → Except DiskFault Disk
  | .makeFolders path => d.makeFolders path
  | .write path text => d.store path text
  | .erase path =>
    match d.remove path with
    | .error f => if f.cause = .missing then .ok d else .error f
    | .ok d => .ok d

/-- Changes to make, and the fault that stops them in the end if there is one. -/
structure Plan where
  changes : List (Stage × Change)
  fault : Option ProcessFault := none

/-- Makes changes up to the first that is refused. -/
def Disk.applyAll (d : Disk) : List (Stage × Change) → Disk × Option ProcessFault
  | [] => (d, none)
  | (stage, change) :: rest =>
    match d.apply change with
    | .error f => (d, some (.change stage f))
    | .ok d => Disk.applyAll d rest

/-- Carries a plan out. -/
def Plan.run (p : Plan) (d : Disk) : Disk × Option ProcessFault :=
  match d.applyAll p.changes with
  | (d, some f) => (d, some f)
  | (d, none) => (d, p.fault)

/-- Metadata as the text of a file. -/
def metadataText (m : Metadata) : Except Yaml.JsonFault Text :=
  (Yaml.Value.toJson (.map true (m.map fun (k, v) => (.text k, v)))).map (Json.writeIndented "  " 0)

/-- What a compiled document changes in the cache. A document without code has no highlight module, so one
that an earlier version left behind goes. -/
def Compiled.plan (c : Compiled) (a : Artifacts) : Plan :=
  let component := [(Stage.outputFolder, Change.makeFolders (Path.dir a.component)),
    (Stage.component, .write a.component c.content)]
  match metadataText c.metadata with
  | .error f => ⟨component, some (.encoding f)⟩
  | .ok text =>
    let highlights :=
      if c.highlights.isEmpty then (Stage.staleHighlights, Change.erase a.highlights)
      else (Stage.highlights, .write a.highlights (highlightModule c.highlights))
    ⟨component ++ [(.metadata, .write a.metadata text), highlights], none⟩

/-! ## Workspaces -/

/-- A disk, and when each compiled document had been written. -/
structure Workspace where
  disk : Disk
  record : List (Text × Int) := []
deriving Inhabited

/-- What became of a document. -/
structure Output where
  source : Text := []
  artifacts : Artifacts := ⟨[], [], []⟩
  /-- The document had not changed, and nothing was written. -/
  skipped : Bool := false
deriving DecidableEq, Inhabited

namespace Workspace

/-- When the document had been written that was last compiled. -/
def recorded? (w : Workspace) (path : Text) : Option Int := (w.record.find? (·.1 = path)).map (·.2)

/-- Drops a document from the record, so that it is compiled again. -/
def forget (w : Workspace) (path : Text) : Workspace :=
  { w with record := w.record.filter fun x => x.1 ≠ path }

/-- Records a document as compiled. -/
def remember (w : Workspace) (path : Text) (time : Int) : Workspace :=
  { w with record := (path, time) :: (w.forget path).record }

/-- The time of an entry; folders count as never written. -/
def timeOf : Entry → Option Int
  | .folder => none
  | .file _ time => some time

/-- Compiles a document that has been found, for the artifacts it has. -/
def compileSource (s : TransformSettings) (cancelled : Bool) (a : Artifacts) (src : Text) :
    Except ProcessFault Compiled :=
  match (if s.checkScript then Script.checkWith s.parser src else .ok ()) with
  | .error f => .error (.script f)
  | .ok () =>
    match referencePaths s.cacheDir a with
    | .error f => .error (.path f)
    | .ok paths => (compileUnless cancelled s.highlighter s.schedule s.options src paths).mapError .compile

/-- Brings the artifacts of a document up to date. The document is recorded only when all of them have been
written. -/
def transform (s : TransformSettings) (cancelled : Bool) (path : Text) (w : Workspace) :
    Output × Option ProcessFault × Workspace :=
  match w.disk.stat path with
  | .error f => ({ source := path }, some (.stat f), w)
  | .ok entry =>
    match resolveArtifacts s.srcRoot s.cacheDir path with
    | .error f => ({ source := path }, some (.path f), w)
    | .ok a =>
      let out : Output := { source := path, artifacts := a }
      let time := timeOf entry
      if time.isSome && w.recorded? path = time then ({ out with skipped := true }, none, w)
      else
        match w.disk.contents path with
        | .error f => (out, some (.read f), w)
        | .ok src =>
          match compileSource s cancelled a src with
          | .error f => (out, some f, w)
          | .ok c =>
            match (c.plan a).run w.disk with
            | (d, some f) => (out, some f, { w with disk := d })
            | (d, none) => (out, none, { w with disk := d }.remember path (time.getD 0))

/-- Removes files one after the other; those that are missing are passed over. Gives the files that were
there, also when one could not be removed. -/
def removeFiles (d : Disk) : List Text → List Text × Option ProcessFault × Disk
  | [] => ([], none, d)
  | f :: fs =>
    match d.remove f with
    | .ok d =>
      match removeFiles d fs with
      | (removed, fault, d) => (f :: removed, fault, d)
    | .error e => if e.cause = .missing then removeFiles d fs else ([], some (.removal f e), d)

/-- The files of artifacts. -/
def filesOf (a : Artifacts) : List Text := [a.component, a.metadata, a.highlights]

/-- Removes the artifacts of a document and forgets it. Gives the files that were there. -/
def discard (s : TransformSettings) (path : Text) (w : Workspace) :
    List Text × Option ProcessFault × Workspace :=
  let w := w.forget path
  match resolveArtifacts s.srcRoot s.cacheDir path with
  | .error f => ([], some (.path f), w)
  | .ok a =>
    match removeFiles w.disk (filesOf a) with
    | (removed, fault, d) => (removed, fault, { w with disk := d })

end Workspace

end Docweave
