import Docweave.Config.Decode
import Docweave.Project.Build
import Docweave.Script.Plain

/-!
# Loading a configuration

Settings come from the defaults, from a file, from the environment and from flags, each over the ones
before. Folders that are not given from the root are taken from the folder of the file, or from the working
folder when there is none.
-/

namespace Docweave

/-- Why a configuration cannot be loaded. -/
inductive ConfigFault
  | unreadable (file : Text) (fault : DiskFault)
  | malformed (file : Text) (fault : Yaml.Fault)
  | fields (faults : List Config.FieldFault)
deriving Inhabited

/-- The fault in words. -/
def ConfigFault.message : ConfigFault → Text
  | unreadable file f => "reading config file " ++ file ++ ": " ++ f.message
  | malformed file f => "reading config file " ++ file ++ ": " ++ f.message
  | fields faults =>
    "decoding config: decoding failed due to the following error(s):\n\n" ++
      Text.join "\n" (faults.map Config.FieldFault.message)

namespace Config

open Docweave.Yaml (Value)

/-- The theme of code blocks when none is named. -/
def defaultTheme : Text := "github-dark"

/-- The settings that hold when nothing else is said. -/
def defaults : Layer :=
  [("src_root".toList, .text "src"), ("cache_dir".toList, .text ".mdv"), ("skip_cleanup".toList, .bool false),
   ("workers".toList, .int 4), ("theme".toList, .text defaultTheme),
   ("code_block_component".toList, .text defaultCodeBlock), ("check_script".toList, .bool false)]

/-- The files that are looked for in the working folder, in this order. -/
def fileNames : List Text := ["mdv.yaml".toList, "mdv.yml".toList]

/-- The file to read: the one that is named, or else the first that is there; empty when there is none. -/
def findFile (named : Text) (d : Disk) : Text :=
  if named.isEmpty then (fileNames.find? fun f => d.has f).getD [] else named

/-- The layer of a file. -/
def ofFile (file : Text) (d : Disk) : Except ConfigFault Layer :=
  if file.isEmpty then .ok []
  else
    match d.contents (Path.clean file) with
    | .error f => .error (.unreadable file f)
    | .ok t => (Yaml.decodeMapping "map[string]interface \x7b\x7d" t).mapError (.malformed file)

/-- The working folder as a path. -/
def workPath (d : Disk) : Text := Path.ofElements true d.workFolder

/-- A path from the root, for one that starts in a folder of the working folder. -/
def absoluteFrom (work base path : Text) : Text :=
  if Path.isRooted path then Path.clean path
  else
    let p := Path.join base path
    if Path.isRooted p then p else Path.join work p

/-- The configuration with its folders given from the root and at least one worker. -/
def resolve (work : Text) (c : Config) : Config :=
  let base : Text := if c.file.isEmpty then "." else Path.dir c.file
  { c with
    srcRoot := absoluteFrom work base c.srcRoot
    cacheDir := absoluteFrom work base c.cacheDir
    workers := if c.workers < 1 then 1 else c.workers }

/-- Loads the configuration. `named` is the file asked for, or empty. -/
def load (d : Disk) (environment : List (Text × Text)) (named : Text) (flags : Layer) : Except ConfigFault Config :=
  let file := findFile named d
  match ofFile file d with
  | .error f => .error f
  | .ok layer =>
    let layers := Layer.over flags (Layer.over (ofEnvironment environment) (Layer.over layer defaults))
    match ofLayer layers with
    | .error faults => .error (.fields faults)
    | .ok c => .ok (resolve (workPath d) { c with file := file })

/-- How documents are compiled under a configuration. -/
def compileOptions (c : Config) : CompileOptions :=
  { components := c.components, scriptAttrs := c.scriptAttrs, codeBlock := c.codeBlock }

/-- How a project is built under a configuration, with code shown as plain text and scripts read as such. -/
def buildSettings (c : Config) : BuildSettings :=
  { highlighter := plainHighlighter (Theme.ofName c.theme), parser := Script.plainParser
    options := c.compileOptions, srcRoot := c.srcRoot
    cacheDir := c.cacheDir, checkScript := c.checkScript, skipCleanup := c.skipCleanup, workers := c.workers
    theme := c.theme }

end Config

end Docweave
