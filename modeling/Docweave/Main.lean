import Docweave.Command.Run

/-!
# The program

The program takes a picture of the working folder, runs the command line on it, and then makes the changes
of the run where the picture was taken. Everything it decides is decided in `Command.run`.
-/

namespace Docweave

/-- What is to be done to make one disk of another: folders to make, files to write, and paths of files
that go. -/
structure DiskChanges where
  folders : List Text := []
  files : List (Text × Text) := []
  gone : List Text := []

/-- The path of a place. -/
def placePath (p : Place) : Text := Path.ofElements true p

/-- What makes a disk of an earlier one. -/
def Disk.changesFrom (earlier d : Disk) : DiskChanges :=
  { folders := d.entries.reverse.filterMap fun (p, e) =>
      if e.isFolder && (earlier.find? p).isNone then some (placePath p) else none
    files := d.entries.filterMap fun (p, e) =>
      match e with
      | .file text _ => if earlier.find? p = some e then none else some (placePath p, text)
      | .folder => none
    gone := earlier.entries.filterMap fun (p, e) =>
      if !e.isFolder && (d.find? p).isNone then some (placePath p) else none }

/-- The variables of the environment that configure. -/
def variableNames : List String :=
  ["SRC_ROOT", "CACHE_DIR", "SKIP_CLEANUP", "WORKERS", "THEME", "CODE_BLOCK_COMPONENT", "SCRIPT_SETUP_PROPS",
   "CHECK_SCRIPT", "DEBUG"].map ("MDV_" ++ ·)

/-- Adds a file or folder, with everything below it, to a disk. What cannot be read is left out. A run knows
nothing of earlier ones, so the times of files say nothing to it. -/
partial def picture (path : String) (d : Disk) : IO Disk := do
  let here := (← IO.currentDir) / path
  let place := Path.elements path.toList
  if ← here.isDir then
    let mut d := d.put place .folder
    for e in ← here.readDir do
      d ← picture e.path.toString d
    return d
  try
    return d.put place (.file (← IO.FS.readFile here).toList 0)
  catch _ => return d

/-- Makes changes. -/
def carryOut (c : DiskChanges) : IO Unit := do
  for p in c.gone do
    IO.FS.removeFile (String.ofList p)
  for p in c.folders do
    IO.FS.createDirAll (String.ofList p)
  for (p, t) in c.files do
    IO.FS.writeFile (String.ofList p) (String.ofList t)

/-- Runs a command line in the working folder. Gives the exit code. -/
def runProgram (args : List String) : IO UInt32 := do
  let here := (← IO.currentDir).toString
  let mut disk : Disk := { workFolder := Path.elements here.toList }
  for path in here :: args.filter (·.startsWith "/") do
    disk ← picture path disk
  let environment ← variableNames.filterMapM fun name => do
    return (← IO.getEnv name).map fun v => (name.toList, v.toList)
  let result := Command.run { environment } (args.map String.toList) disk
  carryOut (result.disk.changesFrom disk)
  IO.print (String.ofList result.out)
  match result.fault with
  | none => return 0
  | some f =>
    IO.eprintln ("Error: " ++ String.ofList f.message)
    return 1

end Docweave

/-- Runs the program. -/
def main (args : List String) : IO UInt32 := Docweave.runProgram args
