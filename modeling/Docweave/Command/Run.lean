import Docweave.Command.Line
import Docweave.Config.Load
import Docweave.Editor.Documents
import Docweave.Project.Watch
import Docweave.Report

/-!
# Running commands

`Command.run` does what a command line asks for on a disk. It gives what the program prints, the fault it
ends with, and the disk it leaves behind.
-/

namespace Docweave

/-- What surrounds a run of the program. -/
structure RunContext where
  environment : List (Text × Text) := []
  /-- The run has been called off before it starts. -/
  cancelled : Bool := false
  /-- The time that a document takes. -/
  documentTime : Duration := ⟨0⟩
  /-- The time that a build takes. -/
  buildTime : Duration := ⟨0⟩

/-- Why a run fails. -/
inductive RunFault
  | line (fault : Command.Fault)
  | config (fault : ConfigFault)
  | build (fault : BuildFault)
  | watching (root : Text) (fault : DiskFault)
  | reading (fault : DiskFault)
  | document (fault : DocumentFault)
deriving Inhabited

/-- What is said of a folder that cannot be followed. -/
def watchingMessage (root : Text) (f : DiskFault) : Text := "watching " ++ root ++ ": " ++ f.message

/-- The fault in words. -/
def RunFault.message : RunFault → Text
  | line f => f.message
  | config f => f.message
  | build f => f.message
  | watching root f => watchingMessage root f
  | reading f => "error reading file: " ++ f.message
  | document f => f.message

/-- What a run leaves behind. -/
structure RunResult where
  out : Text := []
  fault : Option RunFault := none
  disk : Disk

namespace Command

/-- A path below a folder as the reports name it. -/
def below (folder path : Text) : Text := (Path.relative? folder path).getD path

/-- The report of a build. -/
def buildReport (ctx : RunContext) (c : Config) (r : BuildResult) : Text :=
  let compiled := r.compiled.flatMap fun o =>
    Report.compiled c.srcRoot o.source (below c.cacheDir o.artifacts.component) ctx.documentTime
  let failed := r.failed.flatMap fun p =>
    Report.failed c.srcRoot p.path ((p.fault.map ProcessFault.message).getD [])
  r.removed.flatMap (fun p => Report.removed (below c.cacheDir p)) ++ compiled ++ failed ++
    Report.summary ⟨r.compiled.length, r.skipped, r.removed.length, r.failed.length⟩ ctx.buildTime

/-- Builds a project from nothing known. -/
def runBuild (ctx : RunContext) (c : Config) (d : Disk) : RunResult :=
  match Project.build c.buildSettings ctx.cancelled ⟨d, []⟩ with
  | (result, fault, w) =>
    { out := (result.map (buildReport ctx c)).getD [], fault := fault.map .build, disk := w.disk }

/-- Builds a project and follows its folders for as long as the run is not called off. Documents that fail
do not keep the others from being followed. -/
def runWatch (ctx : RunContext) (c : Config) (d : Disk) : RunResult :=
  match Project.build c.buildSettings ctx.cancelled ⟨d, []⟩ with
  | (none, fault, w) => { fault := fault.map .build, disk := w.disk }
  | (some result, _, w) =>
    let out := buildReport ctx c result
    match Watcher.follow c.srcRoot w.disk {} with
    | (.ok (), _) => { out := out, disk := w.disk }
    | (.error f, _) => { out := out, fault := some (.watching c.srcRoot f), disk := w.disk }

/-- Compiles one document and prints the component. Nothing is written. -/
def compileOne (s : TransformSettings) (cancelled : Bool) (file : Text) (d : Disk) : RunResult :=
  let path := Config.absoluteFrom (Config.workPath d) "." file
  match d.contents path with
  | .error f => { fault := some (.reading f), disk := d }
  | .ok src =>
    match Documents.compileAt s cancelled path src with
    | .error f => { fault := some (.document f), disk := d }
    | .ok compiled => { out := compiled.content, disk := d }

/-- Compiles one document under a configuration. -/
def runCompile (ctx : RunContext) (c : Config) (file : Text) (d : Disk) : RunResult :=
  compileOne c.buildSettings.toTransformSettings ctx.cancelled file d

/-- Does what is asked for under the configuration. -/
def runConfigured (ctx : RunContext) (p : ParsedLine) (d : Disk) (work : Config → RunResult) : RunResult :=
  match Config.load d ctx.environment (p.textOf "config") (Config.ofFlags p) with
  | .error f => { fault := some (.config f), disk := d }
  | .ok c => work c

/-- Runs a command line. -/
def run (ctx : RunContext) (args : List Text) (d : Disk) : RunResult :=
  match read args with
  | .error f => { fault := some (.line f), disk := d }
  | .ok (request, p) =>
    match request with
    | .help => { disk := d }
    | .version => { out := programName ++ " " ++ programVersion ++ "\n", disk := d }
    | .ownVersion => { out := programName ++ " version " ++ programVersion ++ "\n", disk := d }
    | .build => runConfigured ctx p d fun c => runBuild ctx c d
    | .watch => runConfigured ctx p d fun c => runWatch ctx c d
    | .compile file => runConfigured ctx p d fun c => runCompile ctx c file d

end Command

end Docweave
