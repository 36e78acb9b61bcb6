import Docweave.Disk.Walk
import Docweave.Ignore.Rule
import Docweave.Project.Workspace

/-!
# Building a project

A build brings the cache of a whole source tree up to date: it removes the artifacts of documents that are
gone, mirrors the folder of handwritten components, processes every document, and declares all documents as
global components. A document that fails does not stop the others.
-/

namespace Docweave

/-- How a project is built. -/
structure BuildSettings extends TransformSettings where
  /-- Keep the artifacts of documents that are gone. -/
  skipCleanup : Bool := false
  workers : Int := 1
  theme : Text := []

/-- The settings on one line. -/
def BuildSettings.pretty (s : BuildSettings) : Text :=
  "src=" ++ s.srcRoot ++ " cache=" ++ s.cacheDir ++ " workers=" ++ Text.ofInt s.workers ++ " theme=" ++ s.theme ++
    " cleanup=" ++ yesOrNo (!s.skipCleanup) ++ " check_script=" ++ yesOrNo s.checkScript

/-- The folder of handwritten components. -/
def componentsFolder : Text := "components"

/-- The file that declares the global components. -/
def declarationsFile : Text := "mdv-global-components.d.ts"

/-- What became of one document of a project. -/
structure ProcessResult where
  path : Text
  output : Output := {}
  fault : Option ProcessFault := none
deriving Inhabited

/-- What a build did. -/
structure BuildResult where
  compiled : List Output := []
  skipped : Nat := 0
  failed : List ProcessResult := []
  /-- Files of the cache removed because their document is gone. -/
  removed : List Text := []
  /-- The path of the file that declares the global components. -/
  declarations : Text := []
deriving Inhabited

/-- Why a build fails. -/
inductive BuildFault
  | cacheFolder (fault : DiskFault)
  | cleaningDisk (fault : DiskFault)
  | cleaningPath (fault : PathFault)
  | cleaningRemoval (fault : ProcessFault)
  | componentsAccess (fault : DiskFault)
  /-- Mirroring the components failed at a folder. -/
  | componentsWalk (fault : DiskFault)
  | componentsOpen (fault : DiskFault)
  | componentsCreate (fault : DiskFault)
  | scanning (root : Text) (fault : DiskFault)
  | cancelled
  | declarations (fault : DiskFault)
  /-- This many documents did not compile. -/
  | documents (count : Nat)
deriving Inhabited

/-- The fault in words. -/
def BuildFault.message : BuildFault → Text
  | cacheFolder f => "creating cache directory: " ++ f.message
  | cleaningDisk f => "cleaning cache: " ++ f.message
  | cleaningPath f => "cleaning cache: " ++ f.message
  | cleaningRemoval f => "cleaning cache: " ++ f.message
  | componentsAccess f => "accessing components: " ++ f.message
  | componentsWalk f => f.message
  | componentsOpen f => "failed to open source file: " ++ f.message
  | componentsCreate f => "failed to create destination file: " ++ f.message
  | scanning root f => "scanning " ++ root ++ ": " ++ f.message
  | cancelled => "context canceled"
  | declarations f => "writing " ++ declarationsFile ++ ": " ++ f.message
  | documents n =>
    "encountered " ++ Text.ofNat n ++ " errors during compilation. Please rerun with --debug to see trace"

namespace Project

/-! ## Cleaning up -/

/-- The state of a cleanup: the workspace and the files removed so far. -/
abbrev Cleanup := Workspace × List Text

/-- Removes the artifacts behind a component of the cache when its document is gone. Anything but a clear
answer about the document stops the cleanup. -/
def cleanComponent (s : BuildSettings) (path : Text) : Disk.WalkStep BuildFault Cleanup WalkNext := fun (w, removed) =>
  match documentOf s.srcRoot s.cacheDir path with
  | .error f => (.error (.cleaningPath f), (w, removed))
  | .ok src =>
    match w.disk.stat src with
    | .ok _ => (.ok .enter, (w, removed))
    | .error f =>
      if f.cause = .missing then
        match w.discard s.toTransformSettings src with
        | (files, none, w) => (.ok .enter, (w, removed ++ files))
        | (files, some f, w) => (.error (.cleaningRemoval f), (w, removed ++ files))
      else (.error (.cleaningDisk f), (w, removed))

/-- A visit of the cleanup. The mirrored components are left alone. -/
def cleanVisit (s : BuildSettings) (path : Text) (isFolder : Bool) : Disk.WalkStep BuildFault Cleanup WalkNext :=
  fun state =>
    if isFolder then (.ok (if path = Path.join s.cacheDir componentsFolder then .skip else .enter), state)
    else if Text.endsWith path componentExt then cleanComponent s path state
    else (.ok .enter, state)

/-- Removes the artifacts of documents that are gone. -/
def cleanOrphans (s : BuildSettings) (w : Workspace) : Except BuildFault (List Text) × Workspace :=
  match Disk.walk (fun c : Cleanup => c.1.disk) .cleaningDisk (cleanVisit s) s.cacheDir (w, []) with
  | (.error f, (w, _)) => (.error f, w)
  | (.ok (), (w, removed)) => (.ok removed, w)

/-! ## Components -/

/-- Copies a file. -/
def copyFile (src dst : Text) (d : Disk) : Except BuildFault Disk :=
  match d.entryOf src with
  | .error c => .error (.componentsOpen ⟨"open", src, c⟩)
  | .ok .folder => .error (.componentsOpen ⟨"read", src, .isFolder⟩)
  | .ok (.file text _) => (d.store dst text).mapError .componentsCreate

/-- A visit of the mirroring: folders are made and files copied at the same place below `dst`. -/
def copyVisit (src dst path : Text) (isFolder : Bool) : Disk.WalkStep BuildFault Disk WalkNext := fun d =>
  let target := Path.join dst ((Path.relative? src path).getD path)
  let copied := if isFolder then (d.makeFolders target).mapError .componentsWalk else copyFile path target d
  match copied with
  | .error f => (.error f, d)
  | .ok d => (.ok .enter, d)

/-- Mirrors the handwritten components into the cache, so that compiled documents find them there. -/
def copyComponents (s : BuildSettings) (d : Disk) : Except BuildFault Unit × Disk :=
  let src := Path.join s.srcRoot componentsFolder
  let dst := Path.join s.cacheDir componentsFolder
  match d.stat src with
  | .error f => if f.cause = .missing then (.ok (), d) else (.error (.componentsAccess f), d)
  | .ok (.file _ _) => (.ok (), d)
  | .ok .folder => Disk.walk id .componentsWalk (copyVisit src dst) src (d.removeAll dst)

/-! ## Documents -/

/-- The rules for what is left out below a root: its own, and never the version store. -/
def rulesOf (root : Text) (d : Disk) : List IgnoreRule :=
  IgnoreRule.ofText ".git/" ::
    match d.contents (Path.join root ".gitignore") with
    | .ok t => ignoreRules t
    | .error _ => []

/-- A visit of the search for documents. -/
def findVisit (root : Text) (rules : List IgnoreRule) (path : Text) (isFolder : Bool) :
    Disk.WalkStep DiskFault (Disk × List Text) WalkNext := fun (d, found) =>
  let rel := (Path.relative? root path).getD path
  if rel = ['.'] then (.ok .enter, (d, found))
  else if isIgnored rules (Text.splitOn '/' rel) isFolder then (.ok .skip, (d, found))
  else if !isFolder && Text.endsWith path documentExt then (.ok .enter, (d, path :: found))
  else (.ok .enter, (d, found))

/-- The documents below a root, in order. -/
def findDocuments (root : Text) (d : Disk) : Except DiskFault (List Text) :=
  match Disk.walk (fun c : Disk × List Text => c.1) id (findVisit root (rulesOf root d)) root (d, []) with
  | (.error f, _) => .error f
  | (.ok (), (_, found)) => .ok (Text.sort found)

/-- Processes one document, which is named by a path from the root. -/
def processFile (s : TransformSettings) (cancelled : Bool) (path : Text) (w : Workspace) :
    ProcessResult × Workspace :=
  let path := Path.clean path
  if Text.endsWith path documentExt then
    match w.transform s cancelled path with
    | (out, fault, w) => (⟨path, out, fault⟩, w)
  else (⟨path, {}, some .extension⟩, w)

/-- Processes documents one after the other. -/
def processAll (s : TransformSettings) : List Text → Workspace → List ProcessResult × Workspace
  | [], w => ([], w)
  | p :: ps, w =>
    match processFile s false p w with
    | (r, w) =>
      match processAll s ps w with
      | (rs, w) => (r :: rs, w)

/-- Processed documents sorted by what became of them. -/
def tally (results : List ProcessResult) : BuildResult :=
  { compiled := (results.filter fun r => r.fault.isNone && !r.output.skipped).map (·.output)
    skipped := (results.filter fun r => r.fault.isNone && r.output.skipped).length
    failed := results.filter (·.fault.isSome) }

/-- Declares documents as global components. Gives the path of the declarations. -/
def declareComponents (s : BuildSettings) (documents : List Text) (d : Disk) : Except BuildFault (Text × Disk) :=
  let paths := documents.map fun p => ("./" ++ (Path.relative? s.srcRoot p).getD p : Text)
  let out := Path.join s.cacheDir declarationsFile
  match d.store out (globalComponentsModule paths) with
  | .error f => .error (.declarations f)
  | .ok d => .ok (out, d)

/-! ## Building -/

/-- Processes the documents of a project and declares them. -/
def buildDocuments (s : BuildSettings) (cancelled : Bool) (removed documents : List Text) (w : Workspace) :
    Option BuildResult × Option BuildFault × Workspace :=
  if cancelled && !documents.isEmpty then (none, some .cancelled, w)
  else
    match processAll s.toTransformSettings documents w with
    | (results, w) =>
      match declareComponents s documents w.disk with
      | .error f => (none, some f, w)
      | .ok (out, d) =>
        let res := { tally results with removed := removed, declarations := out }
        let fault := if res.failed.isEmpty then none else some (.documents res.failed.length)
        (some res, fault, { w with disk := d })

/-- Cleans the cache unless the settings say otherwise. -/
def cleanUnlessSkipped (s : BuildSettings) (w : Workspace) : Except BuildFault (List Text) × Workspace :=
  if s.skipCleanup then (.ok [], w) else cleanOrphans s w

/-- Builds a project. There is a result unless something went wrong outside the documents. -/
def build (s : BuildSettings) (cancelled : Bool) (w : Workspace) :
    Option BuildResult × Option BuildFault × Workspace :=
  match w.disk.makeFolders s.cacheDir with
  | .error f => (none, some (.cacheFolder f), w)
  | .ok d =>
    match cleanUnlessSkipped s { w with disk := d } with
    | (.error f, w) => (none, some f, w)
    | (.ok removed, w) =>
      match copyComponents s w.disk with
      | (.error f, d) => (none, some f, { w with disk := d })
      | (.ok (), d) =>
        let w := { w with disk := d }
        match findDocuments s.srcRoot w.disk with
        | .error f => (none, some (.scanning s.srcRoot f), w)
        | .ok documents => buildDocuments s cancelled removed documents w

end Project

end Docweave
