import Docweave.Number.Duration
import Docweave.Number.Integer
import Docweave.Text.Quoted

/-!
# Flags of a command line

Flags are written `--name value` or `--name=value`; those that are on or off may stand alone, and some have
a letter. Everything else is an argument, and so is everything behind `--`.
-/

namespace Docweave

/-- What a flag takes. -/
inductive FlagKind
  /-- On or off; on when nothing is said. -/
  | toggle
  | text | integer | duration
deriving DecidableEq, Inhabited

/-- A flag. -/
structure Flag where
  name : Text
  kind : FlagKind
  letter : Option Char := none
deriving DecidableEq, Inhabited

/-- What a flag was set to. -/
inductive FlagValue
  | toggle (on : Bool)
  | text (value : Text)
  | integer (value : Int)
  | duration (value : Duration)
deriving DecidableEq, Inhabited

/-- Why a command line is refused. -/
inductive FlagFault
  | malformed (arg : Text)
  | unknown (name : Text)
  | unknownLetter (letter : Char) (letters : Text)
  | missingValue (name : Text)
  | invalid (value : Text) (flag : Flag) (cause : Text)
  /-- The user asks for help where there is none. -/
  | help
deriving DecidableEq, Inhabited

/-- A flag as it is shown. -/
def Flag.label (f : Flag) : Text :=
  match f.letter with
  | some c => ['-', c] ++ ", --" ++ f.name
  | none => "--" ++ f.name

/-- A character between single quotes. -/
def quotedLetter (c : Char) : Text :=
  let inner : Text :=
    if c = Text.apostrophe then ['\\', c] else if c = Text.quote then [c] else Text.quotedChar c
  Text.apostrophe :: inner ++ [Text.apostrophe]

/-- The fault in words. -/
def FlagFault.message : FlagFault → Text
  | malformed arg => "bad flag syntax: " ++ arg
  | unknown name => "unknown flag: --" ++ name
  | unknownLetter c letters => "unknown shorthand flag: " ++ quotedLetter c ++ " in -" ++ letters
  | missingValue name => "flag needs an argument: --" ++ name
  | invalid value flag cause =>
    "invalid argument " ++ Text.quoted value ++ " for " ++ Text.quoted flag.label ++ " flag: " ++ cause
  | help => "pflag: help requested"

/-- What a reader says of a text it cannot read. -/
def readerMessage (reader t reason : Text) : Text := "strconv." ++ reader ++ ": parsing " ++ Text.quoted t ++ ": " ++ reason

/-- A command line that has been read: the flags that were set, the last setting first, and the rest. -/
structure ParsedLine where
  values : List (Text × FlagValue) := []
  args : List Text := []
deriving Inhabited

namespace ParsedLine

/-- What a flag was last set to. -/
def value? (p : ParsedLine) (name : Text) : Option FlagValue := (p.values.find? (·.1 = name)).map (·.2)

/-- A flag is on. -/
def isOn (p : ParsedLine) (name : Text) : Bool := p.value? name = some (.toggle true)

/-- The text of a flag; empty when it was not set. -/
def textOf (p : ParsedLine) (name : Text) : Text :=
  match p.value? name with
  | some (.text t) => t
  | _ => []

end ParsedLine

namespace Flag

/-- The value of a flag from its text. -/
def read (f : Flag) (t : Text) : Except FlagFault FlagValue :=
  match f.kind with
  | .text => .ok (.text t)
  | .toggle =>
    match truth? t with
    | some b => .ok (.toggle b)
    | none => .error (.invalid t f (readerMessage "ParseBool" t "invalid syntax"))
  | .integer =>
    match Integer.parse t with
    | .ok i => .ok (.integer i)
    | .error e => .error (.invalid t f (readerMessage "ParseInt" t e.text))
  | .duration =>
    match Duration.parse t with
    | .ok d => .ok (.duration d)
    | .error e => .error (.invalid t f (e.message t))

/-- A flag set on a line. -/
def set (f : Flag) (t : Text) (p : ParsedLine) : Except FlagFault ParsedLine :=
  (f.read t).map fun v => { p with values := (f.name, v) :: p.values }

/-- The flag of a name. -/
def named? (flags : List Flag) (name : Text) : Option Flag := flags.find? (·.name = name)

/-- Reads `--name`, `--name=value` or `--name value`, where `rest` follows. Gives what is left of `rest`. -/
def readLong (flags : List Flag) (arg : Text) (rest : List Text) (p : ParsedLine) :
    Except FlagFault (ParsedLine × List Text) :=
  let body := arg.drop 2
  if body.head? = some '-' || body.head? = some '=' then .error (.malformed arg)
  else
    let (name, value) := match Text.cut? "=" body with
      | some (a, b) => (a, some b)
      | none => (body, none)
    match named? flags name with
    | none => .error (if name = "help" then .help else .unknown name)
    | some f =>
      match value, f.kind, rest with
      | some v, _, _ => (f.set v p).map (·, rest)
      | none, .toggle, _ => (f.set "true" p).map (·, rest)
      | none, _, v :: rest => (f.set v p).map (·, rest)
      | none, _, [] => .error (.missingValue name)

/-- Reads letters behind one dash; all flags with letters are on or off. -/
def readLetters (flags : List Flag) : Text → ParsedLine → Except FlagFault ParsedLine
  | [], p => .ok p
  | c :: t, p =>
    if Text.startsWith (c :: t) "test." then .ok p
    else
      match flags.find? (·.letter = some c) with
      | none => .error (if c = 'h' then .help else .unknownLetter c (c :: t))
      | some f =>
        match t with
        | '=' :: v :: vs => f.set (v :: vs) p
        | t =>
          match f.set "true" p with
          | .error e => .error e
          | .ok p => readLetters flags t p

/-- Reads a command line. Every step takes at least one argument, so their number bounds the steps. -/
def readLine (flags : List Flag) : Nat → List Text → ParsedLine → Except FlagFault ParsedLine
  | 0, args, p => .ok { p with args := p.args ++ args }
  | _, [], p => .ok p
  | fuel + 1, arg :: rest, p =>
    match arg with
    | '-' :: '-' :: t =>
      if t.isEmpty then .ok { p with args := p.args ++ rest }
      else
        match readLong flags arg rest p with
        | .error e => .error e
        | .ok (p, rest) => readLine flags fuel rest p
    | '-' :: c :: t =>
      match readLetters flags (c :: t) p with
      | .error e => .error e
      | .ok p => readLine flags fuel rest p
    | arg => readLine flags fuel rest { p with args := p.args ++ [arg] }

/-- Reads a command line. -/
def parse (flags : List Flag) (args : List Text) : Except FlagFault ParsedLine :=
  readLine flags args.length args {}

end Flag

end Docweave
