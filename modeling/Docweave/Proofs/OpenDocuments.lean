import Docweave.Editor.Server
import Docweave.Proofs.TextLaws

/-!
# What a server knows of open documents

An editor tells a server of its documents by notifications: a document is
opened, changed or closed. The server should know the text that was told last,
and should have shown what is wrong with that text and with no other.

A message whose key is cancelled is passed over, and a notification has the
key of request number zero. So whoever cancels request zero makes the server
pass over the next notification, whatever it tells.

> `handleAll_news`: in every session, the text that is stored for a document
> is that of the last news of it that was heard, and the diagnostics that were
> last sent for it are those of that text, or none when it was closed.

> `news_heard`: when nobody cancels request zero, all news are heard.
-/

namespace Docweave

/-! ## News -/

/-- What is wrong with a text, as the document of a URI. -/
def diagnosticsOf (settings : TransformSettings) (uri text : Text) : List Diagnostic :=
  match Uri.toPath uri with
  | .error f => Diagnostic.ofFault (.uri f)
  | .ok path =>
    match Documents.compileAt settings false path text with
    | .error f => Diagnostic.ofFault f
    | .ok _ => []

/-- What a message tells of a document: the text it has from now on, or that it
is closed. -/
inductive News
  | told (uri text : Text)
  | closed (uri : Text)
deriving DecidableEq

namespace News

/-- The document that the news are about. -/
def uri : News → Text
  | told uri _ => uri
  | closed uri => uri

/-- The text that is to be stored. -/
def text? : News → Option Text
  | told _ text => some text
  | closed _ => none

/-- What is to be shown of the document. -/
def diagnostics (settings : TransformSettings) : News → List Diagnostic
  | told uri text => diagnosticsOf settings uri text
  | closed _ => []

end News

namespace Message

/-- The news in a message. A document is changed to the last of the texts that
are sent. -/
def news? (m : Message) : Option News :=
  match Server.Method.ofName? m.method with
  | some .didOpen => (m.params.bind (Params.subject? Params.item?)).map fun d => .told d.uri d.text
  | some .didChange =>
    (m.params.bind Params.changed?).bind fun (d, changes) => changes.getLast?.map (.told d.uri ·)
  | some .didClose =>
    (m.params.bind (Params.subject? Params.identifier?)).map fun d => .closed d.uri
  | _ => none

/-- The request that a message cancels. -/
def cancels? (m : Message) : Option RequestId :=
  match Server.Method.ofName? m.method with
  | some .cancel => m.params.bind Params.cancelled?
  | _ => none

/-- A message of an editor that keeps to the protocol and stays: messages
about documents are notifications that can be read, and a change brings a text. -/
def isWellFormed (m : Message) : Bool :=
  match Server.Method.ofName? m.method with
  | some .didOpen | some .didChange | some .didClose => m.id.isNone && m.news?.isSome
  | some .exit => false
  | _ => true

/-- The keys that are cancelled behind a message. -/
def cancelling (m : Message) (cancelled : List Text) : List Text :=
  match m.cancels? with
  | some id => id.key :: cancelled.filter (· ≠ id.key)
  | none => cancelled

end Message

/-- The messages that are not passed over, where some keys are cancelled. -/
def heard (cancelled : List Text) : List Message → List Message
  | [] => []
  | m :: ms =>
    if cancelled.contains m.key then heard (cancelled.filter (· ≠ m.key)) ms
    else m :: heard (m.cancelling cancelled) ms

/-- The last news of a document. -/
def lastNews? (uri : Text) (ms : List Message) : Option News :=
  (ms.filterMap Message.news?).reverse.find? (·.uri = uri)

/-- The diagnostics that were last sent for a document. -/
def lastSent? (uri : Text) (sent : List Publication) : Option (List Diagnostic) :=
  (sent.reverse.find? (·.uri = uri)).map (·.diagnostics)

/-- Handles messages one after the other. Gives all that was sent. -/
def Server.handleAll (settings : EditorSettings) :
    List Message → Server → Workspace → List Publication × Server × Workspace
  | [], s, w => ([], s, w)
  | m :: ms, s, w =>
    match s.handle settings false m w with
    | (r, s, w) =>
      match handleAll settings ms s w with
      | (sent, s, w) => (r.sent ++ sent, s, w)

/-! ## Documents by URI -/

namespace Documents

theorem text?_close (d : Documents) (closed uri : Text) :
    (d.close closed).text? uri = if closed = uri then none else d.text? uri := by
  unfold text? close
  split
  next h =>
    rw [List.find?_eq_none.2, Option.map_none]
    intro x hx
    have hne := (List.mem_filter.1 hx).2
    simp_all
  next h =>
    rw [List.find?_filter]
    congr 2
    funext x
    by_cases hx : x.1 = uri <;> simp [hx, Ne.symm h]

theorem text?_update (d : Documents) (changed text uri : Text) :
    (d.update changed text).text? uri = if changed = uri then some text else d.text? uri := by
  unfold update
  by_cases h : changed = uri
  · simp [text?, h]
  · have hclose := text?_close d changed uri
    rw [if_neg h] at hclose ⊢
    rw [← hclose]
    simp [text?, h]

/-- The documents with news heard. -/
def learn (d : Documents) : News → Documents
  | .told uri text => d.update uri text
  | .closed uri => d.close uri

theorem text?_learn (d : Documents) (n : News) (uri : Text) :
    (d.learn n).text? uri = if n.uri = uri then n.text? else d.text? uri := by
  cases n with
  | told changed text => exact text?_update d changed text uri
  | closed closed => exact text?_close d closed uri

/-- A document that has just been changed is diagnosed by its new text. -/
theorem diagnose_update (settings : TransformSettings) (d : Documents) (uri text : Text) :
    (d.update uri text).diagnose settings false uri = diagnosticsOf settings uri text := by
  unfold diagnose compile diagnosticsOf
  rw [text?_update, if_pos rfl]
  simp only
  cases Uri.toPath uri with
  | error f => rfl
  | ok path => rfl

end Documents

/-! ## One message -/

section

variable {settings : EditorSettings} {s : Server} {w : Workspace} {m : Message}

/-- What a message that is heard does to a server: its news are stored and
shown, the request it cancels is noted, and nothing else. -/
structure Hears (settings : EditorSettings) (m : Message) (s : Server) (r : Response) (t : Server) :
    Prop where
  documents : t.documents = m.news?.elim s.documents s.documents.learn
  cancelled : t.cancelled = m.cancelling s.cancelled
  closed : t.closed = false
  sent : r.sent = m.news?.toList.map fun n => ⟨n.uri, n.diagnostics settings.toTransformSettings⟩

/-- A message without news that cancels nothing leaves the server alone. -/
theorem hears_nothing {r : Response} (hopen : s.closed = false) (hnews : m.news? = none)
    (hcancels : m.cancels? = none) (hsent : r.sent = []) : Hears settings m s r s where
  documents := by rw [hnews]; rfl
  cancelled := by rw [Message.cancelling, hcancels]
  closed := hopen
  sent := by rw [hnews, hsent]; rfl

/-- News are stored and shown. -/
theorem hears_news {n : News} {r : Response} (hopen : s.closed = false) (hnews : m.news? = some n)
    (hcancels : m.cancels? = none)
    (hsent : r.sent = [⟨n.uri, n.diagnostics settings.toTransformSettings⟩]) :
    Hears settings m s r { s with documents := s.documents.learn n } where
  documents := by rw [hnews]; rfl
  cancelled := by rw [Message.cancelling, hcancels]
  closed := hopen
  sent := by rw [hnews, hsent]; rfl

/-- With a connection, diagnostics are sent. -/
theorem sent_publish (hopen : s.closed = false) (uri : Text) (diagnostics : List Diagnostic) :
    (s.publish uri diagnostics).sent = [⟨uri, diagnostics⟩] := by
  rw [Server.publish, hopen]
  rfl

/-- Parameters are read as they are there. -/
theorem readParams_eq_ok {α : Type} {read : Json → Option α} {params : Option Json} {a : α} :
    Server.readParams read params = .ok a ↔ params.bind read = some a := by
  unfold Server.readParams
  cases params with
  | none => simp
  | some j =>
    cases hread : read j with
    | none => simp [hread]
    | some b => simp [hread]

/-- Every known method does what is to be done with its news. -/
theorem answer_hears {method : Server.Method} (hmethod : Server.Method.ofName? m.method = some method)
    (hopen : s.closed = false) (hform : m.isWellFormed = true) :
    Hears settings m s (s.answer settings false method m.params w).1
      (s.answer settings false method m.params w).2.1 := by
  have hquiet : ∀ {r : Response}, m.news? = none → m.cancels? = none → r.sent = [] →
      Hears settings m s r s := fun h₁ h₂ h₃ => hears_nothing hopen h₁ h₂ h₃
  unfold Server.answer
  cases method with
  | start => exact hquiet (by rw [Message.news?, hmethod]) (by rw [Message.cancels?, hmethod]) rfl
  | initialized =>
    exact hquiet (by rw [Message.news?, hmethod]) (by rw [Message.cancels?, hmethod]) rfl
  | shutdown => exact hquiet (by rw [Message.news?, hmethod]) (by rw [Message.cancels?, hmethod]) rfl
  | exit =>
    -- an editor that stays does not send it
    rw [Message.isWellFormed, hmethod] at hform
    exact absurd hform (by simp)
  | didOpen =>
    rw [Message.isWellFormed, hmethod, Bool.and_eq_true] at hform
    obtain ⟨n, hn⟩ := Option.isSome_iff_exists.1 hform.2
    have hnews := hn
    rw [Message.news?, hmethod] at hnews
    obtain ⟨d, hd, rfl⟩ := Option.map_eq_some_iff.1 hnews
    simp only [readParams_eq_ok.2 hd]
    refine hears_news hopen hn (by rw [Message.cancels?, hmethod]) ((sent_publish hopen _ _).trans ?_)
    rw [Documents.diagnose_update]
    rfl
  | didChange =>
    rw [Message.isWellFormed, hmethod, Bool.and_eq_true] at hform
    obtain ⟨n, hn⟩ := Option.isSome_iff_exists.1 hform.2
    have hnews := hn
    rw [Message.news?, hmethod] at hnews
    obtain ⟨⟨d, changes⟩, hd, hlast⟩ := Option.bind_eq_some_iff.1 hnews
    obtain ⟨text, htext, rfl⟩ := Option.map_eq_some_iff.1 hlast
    simp only [readParams_eq_ok.2 hd, htext]
    refine hears_news hopen hn (by rw [Message.cancels?, hmethod]) ((sent_publish hopen _ _).trans ?_)
    rw [Documents.diagnose_update]
    rfl
  | didSave =>
    have hnews : m.news? = none := by rw [Message.news?, hmethod]
    have hcancels : m.cancels? = none := by rw [Message.cancels?, hmethod]
    simp only
    split
    next => exact hquiet hnews hcancels rfl
    next => exact hquiet hnews hcancels rfl
  | didClose =>
    rw [Message.isWellFormed, hmethod, Bool.and_eq_true] at hform
    obtain ⟨n, hn⟩ := Option.isSome_iff_exists.1 hform.2
    have hnews := hn
    rw [Message.news?, hmethod] at hnews
    obtain ⟨d, hd, rfl⟩ := Option.map_eq_some_iff.1 hnews
    simp only [readParams_eq_ok.2 hd]
    exact hears_news hopen hn (by rw [Message.cancels?, hmethod]) (sent_publish hopen _ _)
  | compile =>
    have hnews : m.news? = none := by rw [Message.news?, hmethod]
    have hcancels : m.cancels? = none := by rw [Message.cancels?, hmethod]
    simp only
    split
    next => exact hquiet hnews hcancels rfl
    next =>
      split
      next => exact hquiet hnews hcancels rfl
      next => exact hquiet hnews hcancels rfl
  | cancel =>
    have hnews : m.news? = none := by rw [Message.news?, hmethod]
    cases hread : Server.readParams Params.cancelled? m.params with
    | error f =>
      -- what cannot be read cancels nothing
      refine hquiet hnews ?_ rfl
      rw [Message.cancels?, hmethod]
      cases hid : m.params.bind Params.cancelled? with
      | none => rfl
      | some id =>
        rw [readParams_eq_ok.2 hid] at hread
        exact absurd hread (by simp)
    | ok id =>
      have hcancels : m.cancels? = some id := by
        rw [Message.cancels?, hmethod]
        exact readParams_eq_ok.1 hread
      exact ⟨by rw [hnews]; rfl, by rw [Message.cancelling, hcancels], hopen, by rw [hnews]; rfl⟩

/-- A message whose key is not cancelled is heard. -/
theorem handle_hears (hopen : s.closed = false) (hform : m.isWellFormed = true)
    (hkey : s.cancelled.contains m.key = false) :
    Hears settings m s (s.handle settings false m w).1 (s.handle settings false m w).2.1 := by
  unfold Server.handle
  rw [hkey, if_neg (by simp)]
  cases hmethod : Server.Method.ofName? m.method with
  | some method => exact answer_hears hmethod hopen hform
  | none =>
    have hnews : m.news? = none := by rw [Message.news?, hmethod]
    have hcancels : m.cancels? = none := by rw [Message.cancels?, hmethod]
    simp only
    split
    next => exact hears_nothing hopen hnews hcancels rfl
    next => exact hears_nothing hopen hnews hcancels rfl

end

/-! ## A session -/

theorem lastNews?_cons (uri : Text) (m : Message) (ms : List Message) :
    lastNews? uri (m :: ms) = (lastNews? uri ms).or (m.news?.filter (·.uri = uri)) := by
  unfold lastNews?
  rw [List.filterMap_cons]
  cases m.news? with
  | none => simp
  | some n =>
    simp only [List.reverse_cons, List.find?_append, Option.filter]
    congr 1
    by_cases h : n.uri = uri <;> simp [h]

theorem uri_of_lastNews? {uri : Text} {ms : List Message} {n : News} (h : lastNews? uri ms = some n) :
    n.uri = uri := by
  have hfound := List.find?_some h
  exact of_decide_eq_true hfound

theorem lastSent?_append (uri : Text) (front back : List Publication) :
    lastSent? uri (front ++ back) = (lastSent? uri back).or (lastSent? uri front) := by
  unfold lastSent?
  rw [List.reverse_append, List.find?_append, Option.map_or]

/-- **Last news decide.** In a session of messages that keep to the protocol,
a document has the text of the last news of it that were heard, or else the one
it had; the diagnostics that were last sent for it are those of its last news. -/
theorem handleAll_news (settings : EditorSettings) (uri : Text) {ms : List Message} :
    ∀ {s : Server} {w : Workspace}, s.closed = false → (∀ m ∈ ms, m.isWellFormed = true) →
      (s.handleAll settings ms w).2.1.documents.text? uri
        = (lastNews? uri (heard s.cancelled ms)).elim (s.documents.text? uri) News.text? ∧
      lastSent? uri (s.handleAll settings ms w).1
        = (lastNews? uri (heard s.cancelled ms)).map (·.diagnostics settings.toTransformSettings) := by
  induction ms with
  | nil => exact fun _ _ => ⟨rfl, rfl⟩
  | cons m ms ih =>
    intro s w hopen hform
    have hms : ∀ m ∈ ms, m.isWellFormed = true := fun m' h => hform m' (List.mem_cons_of_mem _ h)
    unfold Server.handleAll heard
    cases hkey : s.cancelled.contains m.key with
    | true =>
      -- passed over: only the key is taken from the table
      have hpassed : s.handle settings false m w
          = ({}, { s with cancelled := s.cancelled.filter (· ≠ m.key) }, w) := by
        unfold Server.handle
        rw [hkey, if_pos rfl]
      rw [hpassed, if_pos rfl]
      exact ih (s := { s with cancelled := s.cancelled.filter (· ≠ m.key) }) hopen hms
    | false =>
      have hstep : Hears settings m s (s.handle settings false m w).1 (s.handle settings false m w).2.1 :=
        handle_hears hopen (hform m (List.mem_cons_self ..)) hkey
      obtain ⟨htext, hsent⟩ := ih (s := (s.handle settings false m w).2.1)
        (w := (s.handle settings false m w).2.2) hstep.closed hms
      rw [if_neg (by simp), lastNews?_cons, ← hstep.cancelled]
      refine ⟨htext.trans ?_, (lastSent?_append uri _ _).trans ?_⟩
      · rw [hstep.documents]
        cases lastNews? uri (heard (s.handle settings false m w).2.1.cancelled ms) with
        | some n => rfl
        | none =>
          cases m.news? with
          | none => rfl
          | some n =>
            show (s.documents.learn n).text? uri = _
            rw [Documents.text?_learn]
            by_cases h : n.uri = uri <;> simp [h, Option.filter]
      · rw [hsent, hstep.sent]
        cases lastNews? uri (heard (s.handle settings false m w).2.1.cancelled ms) with
        | some n => rfl
        | none =>
          cases m.news? with
          | none => rfl
          | some n => by_cases h : n.uri = uri <;> simp [h, lastSent?, Option.filter]

/-! ## Cancelled keys -/

/-- The key of a notification. -/
def zeroKey : Text := (RequestId.number 0).key

theorem key_of_notification {m : Message} (h : m.id.isNone = true) : m.key = zeroKey := by
  rw [Message.key, Option.isNone_iff_eq_none.1 h]
  rfl

/-- No other request has the key of request number zero. -/
theorem eq_zero_of_key {id : RequestId} (h : id.key = zeroKey) : id = .number 0 := by
  cases id with
  | number n =>
    have hn : n = 0 := Text.ofNat_inj h
    rw [hn]
  | name t =>
    have hhead : (Text.quoted t).head? = zeroKey.head? := congrArg List.head? h
    exact absurd (show some Text.quote = some '0' from hhead) (by decide)

theorem id_of_news {m : Message} (hform : m.isWellFormed = true) {n : News} (hnews : m.news? = some n) :
    m.id.isNone = true := by
  unfold Message.isWellFormed at hform
  unfold Message.news? at hnews
  split at hform
  next => exact (Bool.and_eq_true _ _ ▸ hform).1
  next => exact (Bool.and_eq_true _ _ ▸ hform).1
  next => exact (Bool.and_eq_true _ _ ▸ hform).1
  next => exact absurd hform (by simp)
  next => simp_all

/-- When nobody cancels request number zero, all news are heard. -/
theorem news_heard {ms : List Message} :
    ∀ {cancelled : List Text}, zeroKey ∉ cancelled → (∀ m ∈ ms, m.isWellFormed = true) →
      (∀ m ∈ ms, m.cancels? ≠ some (.number 0)) →
      (heard cancelled ms).filterMap Message.news? = ms.filterMap Message.news? := by
  induction ms with
  | nil => exact fun _ _ _ => rfl
  | cons m ms ih =>
    intro cancelled hzero hform hcancels
    have hrest := fun cancelled' (h : zeroKey ∉ cancelled') =>
      ih h (fun m' h' => hform m' (List.mem_cons_of_mem _ h'))
        (fun m' h' => hcancels m' (List.mem_cons_of_mem _ h'))
    unfold heard
    split
    next hkey =>
      -- passed over, so it is no notification and has no news
      have hsilent : m.news? = none := by
        cases hnews : m.news? with
        | none => rfl
        | some n =>
          have hid := id_of_news (hform m (List.mem_cons_self ..)) hnews
          rw [key_of_notification hid, List.contains_iff_mem] at hkey
          exact absurd hkey hzero
      rw [hrest _ fun h => hzero (List.mem_filter.1 h).1, List.filterMap_cons, hsilent]
    next =>
      have hstill : zeroKey ∉ m.cancelling cancelled := by
        unfold Message.cancelling
        split
        next id hid =>
          intro hmem
          rcases List.mem_cons.1 hmem with heq | hmem'
          · rw [eq_zero_of_key heq.symm] at hid
            exact hcancels m (List.mem_cons_self ..) hid
          · exact hzero (List.mem_filter.1 hmem').1
        next => exact hzero
      rw [List.filterMap_cons, List.filterMap_cons, hrest _ hstill]

/-! ## The last update -/

/-- A server knows of a document what messages told last, and has shown the
diagnostics of that and of nothing later. -/
def Knows (settings : TransformSettings) (uri : Text) (ms : List Message) (sent : List Publication)
    (s : Server) : Prop :=
  match lastNews? uri ms with
  | some (.told _ text) =>
    s.documents.text? uri = some text ∧ lastSent? uri sent = some (diagnosticsOf settings uri text)
  | some (.closed _) => s.documents.text? uri = none ∧ lastSent? uri sent = some []
  | none => s.documents.text? uri = none ∧ lastSent? uri sent = none

theorem knows_of_lastNews {settings : TransformSettings} {uri : Text} {ms : List Message}
    {sent : List Publication} {s : Server}
    (htext : s.documents.text? uri = (lastNews? uri ms).elim none News.text?)
    (hsent : lastSent? uri sent = (lastNews? uri ms).map (·.diagnostics settings)) :
    Knows settings uri ms sent s := by
  unfold Knows
  split
  next told text hlast =>
    have huri : told = uri := uri_of_lastNews? hlast
    rw [hlast, huri] at hsent
    exact ⟨by rw [htext, hlast]; rfl, hsent⟩
  next closed hlast => exact ⟨by rw [htext, hlast]; rfl, by rw [hsent, hlast]; rfl⟩
  next hlast => exact ⟨by rw [htext, hlast]; rfl, by rw [hsent, hlast]; rfl⟩

/-- **No update is lost, but for request zero.** Behind every message of a
session the server knows of each document what the messages told last that it
heard. It hears all they tell when none of them cancels request number zero,
whatever else is cancelled and in whatever order. -/
theorem server_knows_last_news (settings : EditorSettings) (w : Workspace) {ms : List Message}
    (hform : ∀ m ∈ ms, m.isWellFormed = true) (uri : Text) :
    Knows settings.toTransformSettings uri (heard [] ms)
        (({} : Server).handleAll settings ms w).1 (({} : Server).handleAll settings ms w).2.1 ∧
      ((∀ m ∈ ms, m.cancels? ≠ some (.number 0)) →
        Knows settings.toTransformSettings uri ms
          (({} : Server).handleAll settings ms w).1 (({} : Server).handleAll settings ms w).2.1) := by
  obtain ⟨htext, hsent⟩ := handleAll_news settings uri (s := {}) (w := w) rfl hform
  refine ⟨knows_of_lastNews htext hsent, fun hcancels => ?_⟩
  have hheard : lastNews? uri (heard [] ms) = lastNews? uri ms := by
    unfold lastNews?
    rw [news_heard (by simp) hform hcancels]
  exact knows_of_lastNews (htext.trans (by rw [hheard]; rfl)) (hsent.trans (by rw [hheard]))

/-- Settings of a server for two folders. -/
def noteSettings : EditorSettings :=
  { highlighter := plainHighlighter .github, parser := fun _ _ => [], srcRoot := "/src", cacheDir := "/cache" }

def noteUri : Text := "file:///src/note.v.md"

/-- A container that is not closed. -/
def openNote : Message :=
  { method := "textDocument/didOpen"
    params := some (.object [("textDocument", .object [("uri", .string noteUri), ("text", .string "[\n")])]) }

/-- It is closed. -/
def changeNote : Message :=
  { method := "textDocument/didChange"
    params := some (.object
      [("textDocument", .object [("uri", .string noteUri)]),
       ("contentChanges", .array [.object [("text", .string "[\n\n]\n")]])]) }

def cancelRequest (number : Text) : Message :=
  { method := "$/cancelRequest", params := some (.object [("id", .number number)]) }

/-- A session in which a request is cancelled between two updates. -/
def noteSession : List Message := [openNote, cancelRequest "7", changeNote]

theorem server_knows_changed_note :
    (∀ m ∈ noteSession, m.isWellFormed = true ∧ m.cancels? ≠ some (.number 0)) ∧
    ((({} : Server).handleAll noteSettings noteSession default).2.1.documents.text? noteUri
        = some "[\n\n]\n".toList ∧
      lastSent? noteUri (({} : Server).handleAll noteSettings noteSession default).1
        = some (diagnosticsOf noteSettings.toTransformSettings noteUri "[\n\n]\n")) := by
  have hform : ∀ m ∈ noteSession, m.isWellFormed = true ∧ m.cancels? ≠ some (.number 0) := by decide
  have hknows :=
    (server_knows_last_news noteSettings default (fun m hm => (hform m hm).1) noteUri).2
      fun m hm => (hform m hm).2
  have hlast : lastNews? noteUri noteSession = some (.told noteUri "[\n\n]\n") := by decide
  unfold Knows at hknows
  rw [hlast] at hknows
  exact ⟨hform, hknows⟩

/-- Where request zero has been cancelled, a document is opened and the server
knows and shows nothing of it. -/
theorem news_lost_behind_cancel :
    (∀ m ∈ [cancelRequest "0", openNote], m.isWellFormed = true) ∧
    lastNews? noteUri [cancelRequest "0", openNote] = some (.told noteUri "[\n") ∧
    (({} : Server).handleAll noteSettings [cancelRequest "0", openNote] default).2.1.documents.text?
      noteUri = none ∧
    (lastSent? noteUri
      (({} : Server).handleAll noteSettings [cancelRequest "0", openNote] default).1).isNone = true := by
  decide

end Docweave
