import Docweave.Editor.Documents
import Docweave.Text.CaseFold

/-!
# The language server

A server answers the messages of an editor: documents are opened, changed, saved and closed, and after
every change their diagnostics are published. A message whose number has been cancelled is passed over
once; a message without a number counts as number zero.
-/

namespace Docweave

/-- The number of a request: an integer or a text. -/
inductive RequestId
  | number (value : Nat)
  | name (text : Text)
deriving DecidableEq, Inhabited

/-- A request as it is told apart from others: names are quoted. -/
def RequestId.key : RequestId → Text
  | number n => Text.ofNat n
  | name t => Text.quoted t

/-- A message of an editor. Without a number it is a notification. -/
structure Message where
  method : Text
  id : Option RequestId := none
  params : Option Json := none
deriving Inhabited

/-- The number that a message counts as. -/
def Message.key (m : Message) : Text := (m.id.getD (.number 0)).key

/-- What a server answers. -/
inductive Reply
  | nothing
  /-- What the server can do. -/
  | capabilities
  | compiled (content : Text) (metadata : Metadata)
deriving Inhabited

/-- Why a server does not answer. -/
inductive ServerFault
  | missingParams
  | unknownMethod (name : Text)
  /-- The parameters do not have the shape that the method asks for. -/
  | malformedParams
  | document (fault : DocumentFault)
  /-- The connection is closed. -/
  | closed
deriving Inhabited

/-- The fault in words, for those that are told to the editor with a number. -/
def ServerFault.remote? : ServerFault → Option (Int × Text)
  | missingParams => some (-32602, "missing params")
  | unknownMethod name => some (-32601, "method not supported: " ++ name)
  | _ => none

/-- Diagnostics that are sent to the editor. -/
structure Publication where
  uri : Text
  diagnostics : List Diagnostic
deriving Inhabited

/-! ## Parameters -/

namespace Params

/-- Entries of an object that a name stands for, letter case aside. `name` has no upper-case letters where
it is compared. -/
def named (name : Text) (entries : List (Text × Json)) : List Json :=
  (entries.filter fun e =>
    Text.dropPrefixFold? (name.map Text.lowerChar) e.1 = some []).map (·.2)

/-- Reads the entries for a name one after the other; `null` leaves things as they are. -/
def readField {α : Type} (read : α → Json → Option α) (name : Text) (entries : List (Text × Json)) (start : α) :
    Option α :=
  (named name entries).foldlM (fun a j => match j with | .null => some a | j => read a j) start

/-- A text. -/
def text? (_ : Text) : Json → Option Text
  | .string t => some t
  | _ => none

/-- Digits of an integer, with a minus sign if it may be negative. -/
def isInteger (signed : Bool) (literal : Text) : Bool :=
  let digits := match literal with
    | '-' :: t => if signed then t else []
    | t => t
  let limit := if signed then Nat.pow 2 63 else Nat.pow 2 64
  !digits.isEmpty && digits.all Text.isDigit &&
    (Text.digitsValue digits < limit || (literal.head? = some '-' && Text.digitsValue digits = limit))

/-- An integer, of which nothing is kept. -/
def integer? (signed : Bool) (_ : Unit) : Json → Option Unit
  | .number literal => if isInteger signed literal then some () else none
  | _ => none

/-- A place in a document, of which nothing is kept. -/
def position? (_ : Unit) : Json → Option Unit
  | .object es => do
    readField (integer? true) "line" es ()
    readField (integer? true) "character" es ()
  | _ => none

/-- A range of a document, of which nothing is kept. -/
def range? (_ : Unit) : Json → Option Unit
  | .object es => do
    readField position? "start" es ()
    readField position? "end" es ()
  | _ => none

/-- A change of a document: the new text. -/
def change? (start : Text) : Json → Option Text
  | .null => some start
  | .object es => do
    readField range? "range" es ()
    readField (integer? false) "rangeLength" es ()
    readField text? "text" es start
  | _ => none

/-- The texts of changes. -/
def changes? (_ : List Text) : Json → Option (List Text)
  | .array js => js.mapM (change? [])
  | _ => none

/-- The document that a message is about: its URI and, where it is sent along, its text. -/
structure Subject where
  uri : Text := []
  text : Text := []
deriving Inhabited

/-- A document named by its URI. -/
def identifier? (s : Subject) : Json → Option Subject
  | .object es => do
    let uri ← readField text? "uri" es s.uri
    return { s with uri := uri }
  | _ => none

/-- A document named by its URI, with a version. -/
def versioned? (s : Subject) : Json → Option Subject
  | .object es => do
    let uri ← readField text? "uri" es s.uri
    readField (integer? true) "version" es ()
    return { s with uri := uri }
  | _ => none

/-- A document with its text. -/
def item? (s : Subject) : Json → Option Subject
  | .object es => do
    let uri ← readField text? "uri" es s.uri
    let _ ← readField text? "languageId" es []
    readField (integer? true) "version" es ()
    let text ← readField text? "text" es s.text
    return ⟨uri, text⟩
  | _ => none

/-- The parameters as an object; `null` counts as an empty one. -/
def entries? : Json → Option (List (Text × Json))
  | .null => some []
  | .object es => some es
  | _ => none

/-- The document of a message. -/
def subject? (read : Subject → Json → Option Subject) (j : Json) : Option Subject := do
  readField read "textDocument" (← entries? j) {}

/-- A changed document and the texts of its changes. -/
def changed? (j : Json) : Option (Subject × List Text) := do
  let es ← entries? j
  let s ← readField versioned? "textDocument" es {}
  let changes ← readField changes? "contentChanges" es []
  return (s, changes)

/-- The number of a request. -/
def requestId? : Json → Option RequestId
  | .null => some (.number 0)
  | .number literal => if isInteger false literal then some (.number (Text.digitsValue literal)) else none
  | .string t => some (.name t)
  | _ => none

/-- The number of the request to cancel. -/
def cancelled? (j : Json) : Option RequestId := do
  (named "id" (← entries? j)).foldlM (fun _ j => requestId? j) (.number 0)

end Params

/-! ## Serving -/

/-- A language server: the open documents, the keys of cancelled requests, and whether it still has a
connection. -/
structure Server where
  documents : Documents := {}
  cancelled : List Text := []
  closed : Bool := false
deriving Inhabited

/-- The answer to a message, and what was sent beside it. -/
structure Response where
  reply : Except ServerFault Reply := .ok .nothing
  sent : List Publication := []

namespace Server

/-- The methods that a server knows. -/
inductive Method
  | start | initialized | shutdown | exit
  | didOpen | didChange | didSave | didClose
  | compile | cancel
deriving DecidableEq, Inhabited

/-- The name of the method that compiles a document. -/
def compileMethod : Text := "mdv/compile"

/-- The method of a name. -/
def Method.ofName? (name : Text) : Option Method :=
  if name = "initialize" then some start
  else if name = "initialized" then some initialized
  else if name = "shutdown" then some shutdown
  else if name = "exit" then some exit
  else if name = "textDocument/didOpen" then some didOpen
  else if name = "textDocument/didChange" then some didChange
  else if name = "textDocument/didSave" then some didSave
  else if name = "textDocument/didClose" then some didClose
  else if name = compileMethod then some compile
  else if name = "$/cancelRequest" then some cancel
  else none

/-- Sends diagnostics, unless the connection is closed. -/
def publish (uri : Text) (diagnostics : List Diagnostic) (s : Server) : Response :=
  if s.closed then { reply := .error .closed } else { sent := [⟨uri, diagnostics⟩] }

/-- Sends the diagnostics of a document. -/
def publishDiagnosis (settings : TransformSettings) (interrupted : Bool) (uri : Text) (s : Server) : Response :=
  s.publish uri (s.documents.diagnose settings interrupted uri)

/-- Reads the parameters of a message. -/
def readParams {α : Type} (read : Json → Option α) (params : Option Json) : Except ServerFault α :=
  match params with
  | none => .error .missingParams
  | some j =>
    match read j with
    | none => .error .malformedParams
    | some a => .ok a

/-- A message that failed before anything was done. -/
def refuse (f : ServerFault) (s : Server) (w : Workspace) : Response × Server × Workspace :=
  ({ reply := .error f }, s, w)

/-- Answers a message of a known method. -/
def answer (settings : EditorSettings) (interrupted : Bool) (method : Method) (params : Option Json) (s : Server)
    (w : Workspace) : Response × Server × Workspace :=
  let t := settings.toTransformSettings
  match method with
  | .start => ({ reply := .ok .capabilities }, s, w)
  | .initialized => ({}, s, w)
  | .shutdown => ({}, s, w)
  | .exit => if s.closed then s.refuse .closed w else ({}, { s with closed := true }, w)
  | .didOpen =>
    match readParams (Params.subject? Params.item?) params with
    | .error f => s.refuse f w
    | .ok d =>
      let s := { s with documents := s.documents.update d.uri d.text }
      (s.publishDiagnosis t interrupted d.uri, s, w)
  | .didChange =>
    match readParams Params.changed? params with
    | .error f => s.refuse f w
    | .ok (d, changes) =>
      let s := match changes.getLast? with
        | some text => { s with documents := s.documents.update d.uri text }
        | none => s
      (s.publishDiagnosis t interrupted d.uri, s, w)
  | .didSave =>
    match readParams (Params.subject? Params.identifier?) params with
    | .error f => s.refuse f w
    | .ok d =>
      match w.save settings interrupted d.uri with
      | (_, _, w) => ({}, s, w)
  | .didClose =>
    match readParams (Params.subject? Params.identifier?) params with
    | .error f => s.refuse f w
    | .ok d =>
      let s := { s with documents := s.documents.close d.uri }
      (s.publish d.uri [], s, w)
  | .compile =>
    match readParams (Params.subject? Params.identifier?) params with
    | .error f => s.refuse f w
    | .ok d =>
      match s.documents.compile t interrupted d.uri with
      | .error f => s.refuse (.document f) w
      | .ok c => ({ reply := .ok (.compiled c.content c.metadata) }, s, w)
  | .cancel =>
    match readParams Params.cancelled? params with
    | .error f => s.refuse f w
    | .ok id => ({}, { s with cancelled := id.key :: s.cancelled.filter (· ≠ id.key) }, w)

/-- Handles a message. -/
def handle (settings : EditorSettings) (interrupted : Bool) (m : Message) (s : Server) (w : Workspace) :
    Response × Server × Workspace :=
  if s.cancelled.contains m.key then
    ({}, { s with cancelled := s.cancelled.filter (· ≠ m.key) }, w)
  else
    match Method.ofName? m.method with
    | some method => s.answer settings interrupted method m.params w
    | none => if m.id.isNone then ({}, s, w) else s.refuse (.unknownMethod m.method) w

end Server

end Docweave
