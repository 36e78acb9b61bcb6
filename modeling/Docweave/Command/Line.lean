import Docweave.Command.Flag

/-!
# The command line

A command line names a command, and has flags and arguments around it. `Command.read` finds the command and
reads its flags. A command that is not known is answered with those that are spelled alike.
-/

namespace Docweave

/-- The commands. -/
inductive Command
  /-- No command at all. -/
  | root
  | build | watch | compile | version
  /-- What only tells how things are used. -/
  | help | completion
deriving DecidableEq, Inhabited

/-- The name of the program. -/
def programName : Text := "mdv"

/-- The version of the program. -/
def programVersion : Text := "dev"

namespace Command

/-- The commands that can be named, in the order they are told. -/
def all : List Command := [build, watch, compile, version, help, completion]

/-- The name of a command. -/
def name : Command → Text
  | root => programName
  | build => "build"
  | watch => "watch"
  | compile => "compile"
  | version => "version"
  | help => "help"
  | completion => "completion"

/-- A command with the program it belongs to. -/
def path (c : Command) : Text := if c = root then programName else programName ++ " " ++ c.name

/-- The command of a name. -/
def ofName? (t : Text) : Option Command := all.find? (·.name = t)

/-! ## Flags -/

/-- Flags that set what a configuration sets. -/
def configFlags : List Flag :=
  [⟨"debug", .toggle, none⟩, ⟨"src-root", .text, none⟩, ⟨"cache-dir", .text, none⟩, ⟨"workers", .integer, none⟩,
   ⟨"skip-cleanup", .toggle, none⟩, ⟨"theme", .text, none⟩, ⟨"check-script", .toggle, none⟩]

/-- The flag that names the file of the configuration. -/
def fileFlag : Flag := ⟨"config", .text, none⟩

/-- Flags that are known while the command is looked for. -/
def searchFlags (c : Command) : List Flag :=
  (fileFlag :: configFlags) ++ if c = watch then [⟨"debounce", .duration, none⟩] else []

/-- Flags of a command. -/
def flags (c : Command) : List Flag :=
  c.searchFlags ++ [⟨"help", .toggle, some 'h'⟩] ++ if c = root then [⟨"version", .toggle, some 'v'⟩] else []

/-! ## Finding the command -/

/-- The flag stands alone: it is known and on or off. -/
def standsAlone : Option Flag → Bool
  | some f => f.kind = .toggle
  | none => false

/-- The argument is a flag whose value is the next argument. Flags that are not known count as such. -/
def takesNext (flags : List Flag) (arg : Text) : Bool :=
  match arg with
  | '-' :: '-' :: name =>
    !name.contains '=' && !standsAlone (Flag.named? flags name)
  | ['-', c] => c ≠ '=' && !standsAlone (flags.find? (·.letter = some c))
  | _ => false

/-- The arguments that are neither flags nor values of flags. -/
def plainArgs (flags : List Flag) : List Text → List Text
  | [] => []
  | arg :: rest =>
    if arg = "--" then []
    else if takesNext flags arg then
      match rest with
      | _ :: next :: rest => plainArgs flags (next :: rest)
      | _ => []
    else if !arg.isEmpty && arg.head? ≠ some '-' then arg :: plainArgs flags rest
    else plainArgs flags rest

/-- The arguments without the first plain one that is `x`. -/
def without (flags : List Flag) (x : Text) : List Text → List Text
  | [] => []
  | arg :: rest =>
    if arg = "--" then arg :: rest
    else if takesNext flags arg then
      match rest with
      | value :: rest => arg :: value :: without flags x rest
      | [] => [arg]
    else if arg.head? ≠ some '-' && arg = x then rest
    else arg :: without flags x rest

/-- The command of a command line, and the line without its name. -/
def find (args : List Text) : Command × List Text :=
  match plainArgs root.searchFlags args with
  | [] => (root, args)
  | first :: _ =>
    match ofName? first with
    | some c => (c, without root.searchFlags first args)
    | none => (root, args)

/-! ## Names spelled alike -/

/-- A further row of distances, for one more character `c` of the first word: `above` is the row in front of
it, `left` the distance to its left and `corner` the one above that. -/
def distanceRow (c : Nat) (left corner : Nat) : List Nat → List Nat → List Nat
  | t :: ts, a :: above =>
    let d := if c = t then corner else min (min a left) corner + 1
    d :: distanceRow c d a ts above
  | _, _ => []

/-- The least number of bytes to insert, delete or replace to make one word of another, row by row: `i` is
the number of bytes read and `row` the distances to the starts of the second word. -/
def distanceFrom (second : List Nat) (i : Nat) (row : List Nat) : List Nat → Nat
  | [] => row.getLastD i
  | c :: cs =>
    let corner := row.headD 0
    distanceFrom second (i + 1) ((i + 1) :: distanceRow c (i + 1) corner second (row.drop 1)) cs

/-- The distance of two words. -/
def distance (a b : Text) : Nat :=
  let second := Text.bytes b
  distanceFrom second 0 (List.range (second.length + 1)) (Text.bytes a)

/-- The names that are spelled like a word or start with it. -/
def suggestions (word : Text) : List Text :=
  let word := word.map Text.lowerChar
  (all.map name).filter fun n => distance word n ≤ 2 || Text.startsWith n word

/-! ## Reading -/

/-- Why a command line asks for nothing that can be done. -/
inductive Fault
  /-- A word where a command should be. -/
  | unknown (word : Text) (parent : Command) (suggested : List Text)
  | argumentCount (expected received : Nat)
  | flag (fault : FlagFault)
deriving DecidableEq, Inhabited

/-- Suggested names, a line each. -/
def suggestionText (names : List Text) : Text :=
  if names.isEmpty then [] else "\n\nDid you mean this?\n" ++ names.flatMap fun n => '\t' :: n ++ ['\n']

/-- The fault in words. -/
def Fault.message : Fault → Text
  | unknown word parent suggested =>
    "unknown command " ++ Text.quoted word ++ " for " ++ Text.quoted parent.path ++ suggestionText suggested
  | argumentCount expected received =>
    "accepts " ++ Text.ofNat expected ++ " arg(s), received " ++ Text.ofNat received
  | flag f => f.message

/-- What a command line asks for. -/
inductive Request
  | build | watch
  | compile (file : Text)
  | version
  /-- The version as the program tells it about itself. -/
  | ownVersion
  | help
deriving DecidableEq, Inhabited

/-- What a command asks for with its arguments. -/
def request (c : Command) (args : List Text) : Except Fault Request :=
  match c, args with
  | root, _ => .ok .help
  | help, _ => .ok .help
  | completion, _ => .ok .help
  | compile, [file] => .ok (.compile file)
  | compile, args => .error (.argumentCount 1 args.length)
  | c, word :: _ => .error (.unknown word c [])
  | build, [] => .ok .build
  | watch, [] => .ok .watch
  | version, [] => .ok .version

/-- Reads a command line. -/
def read (args : List Text) : Except Fault (Request × ParsedLine) :=
  let (c, rest) := find args
  match c, plainArgs root.searchFlags rest with
  | root, word :: _ => .error (.unknown word root (suggestions word))
  | c, _ =>
    match Flag.parse c.flags rest with
    | .error .help => .ok (.help, {})
    | .error f => .error (.flag f)
    | .ok p =>
      if p.isOn "help" then .ok (.help, p)
      else if p.isOn "version" then .ok (.ownVersion, p)
      else (c.request p.args).map (·, p)

end Command

end Docweave
