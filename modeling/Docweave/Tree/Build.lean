import Docweave.ComponentName
import Docweave.Text.Escape
import Docweave.Tree.Marker
import Docweave.Tree.Node

/-!
# Building the tree

`buildTree` turns a token stream into nodes. Open blocks are frames on a stack; when a block closes, its
markup becomes one fragment of the block around it. A container is built from its own part of the stream,
and a top-level table with a data source becomes a table node. Code blocks are queued for highlighting,
imports of custom components are recorded; both are handed through in the order of the document.
-/

namespace Docweave

/-- A code block that waits for highlighting. -/
structure HighlightJob where
  key : Text
  code : Text
  lang : Text
deriving DecidableEq, Inhabited

/-- What a build is given. -/
structure BuildContext where
  /-- The whole document. -/
  src : Text
  /-- Lines of the document in front of the tokenized part. -/
  lineOffset : Int
  /-- Component files that replace elements, by element name. -/
  components : List (Text × Text)
  /-- Where code blocks find their highlighted form. -/
  highlightPath : Text

/-- What a build collects besides the nodes: import lines in the order of first use, and queued code. -/
structure BuildLog where
  imports : List Text := []
  jobs : List HighlightJob := []
deriving Inhabited

/-- Records an import line once. -/
def BuildLog.addImport (log : BuildLog) (line : Text) : BuildLog :=
  if log.imports.contains line then log else { log with imports := log.imports ++ [line] }

/-- An open block: its element, attributes and content so far. -/
structure Frame where
  tag : Text
  attrs : Text
  children : List Node
deriving Inhabited

/-! ## Inline runs -/

/-- The attributes of a token in the order of their names. -/
def tokenAttrs (t : Token) : Text :=
  let sorted := t.attrs.mergeSort fun a b => Text.le a.1 b.1
  Text.join " " (sorted.map fun (k, v) => Qualifier.quoted k (Text.escapeHtml v))

/-- The title attribute of a link or image, nothing without a title. -/
def titleAttr (r : Token) : Text :=
  let title := r.attr "title"
  if title.isEmpty then [] else ' ' :: Qualifier.quoted "title" (Text.escapeHtml title)

/-- The markup of one inline run. -/
def renderRun (r : Token) : Text :=
  match r.kind with
  | .text => r.content
  | .softbreak => "<br>"
  | .hardbreak => "<br>"
  | .codeInline => "<code>" ++ Text.escapeCode r.content ++ "</code>"
  | .opens .strong => "<" ++ r.tag ++ ">"
  | .opens .em => "<" ++ r.tag ++ ">"
  | .opens .s => "<" ++ r.tag ++ ">"
  | .closes .strong => "</" ++ r.tag ++ ">"
  | .closes .em => "</" ++ r.tag ++ ">"
  | .closes .s => "</" ++ r.tag ++ ">"
  | .closes .link => "</" ++ r.tag ++ ">"
  | .opens .link =>
    let href := r.attr "href"
    let href := if href.isEmpty then ['#'] else href
    "<a " ++ Qualifier.quoted "href" (Text.escapeHtml href) ++ titleAttr r ++ ">"
  | .image =>
    "<img " ++ Qualifier.quoted "src" (Text.escapeHtml (r.attr "src")) ++ " " ++
      Qualifier.quoted "alt" (Text.escapeHtml (r.attr "alt")) ++ titleAttr r ++ ">"
  | _ => r.content

/-- The markup of inline runs. -/
def renderInline (runs : List Token) : Text := runs.flatMap renderRun

/-! ## Tables -/

/-- A line in braces that names a data source. -/
def isDataSourceLine (t : Text) : Bool :=
  let t := Text.trim t
  Text.startsWith t "\x7b" && Text.endsWith t "\x7d" && Text.has t ":data-source"

/-- What has been seen of a table. -/
structure TableScan where
  headers : List Text := []
  source : Text := []
  placeholder : Text := []

/-- The first cell of a table body that opens at the front of the stream. -/
def firstBodyCell? : List Token → Option Text
  | b :: r :: d :: i :: _ =>
    if b.kind = .opens .tbody && r.kind = .opens .tr && d.kind = .opens .td && i.kind = .inline &&
        !isDataSourceLine i.content then some i.content
    else none
  | _ => none

/-- The text of a header cell that opens at the front of the stream. -/
def headerCell? : List Token → Option Text
  | h :: i :: _ => if h.kind = .opens .th && i.kind = .inline then some i.content else none
  | _ => none

/-- What a token inside a table adds to what has been seen. -/
def TableScan.see (s : TableScan) (ts : List Token) : TableScan :=
  let s := match firstBodyCell? ts with
    | some p => { s with placeholder := p }
    | none => s
  match ts with
  | t :: _ =>
    if t.kind = .inline && isDataSourceLine t.content then { s with source := Text.trim t.content } else s
  | [] => s

/-- Looks at the tokens of a table up to its end: the header texts, the last line that names a data
source, and the first cell of the body. Also the stream from the end of the table on. -/
def scanTable (s : TableScan) : List Token → TableScan × List Token
  | [] => (s, [])
  | t :: ts =>
    if t.kind = .closes .table then (s, t :: ts)
    else
      match headerCell? (t :: ts) with
      | some h => scanTable { s with headers := s.headers ++ [h] } (ts.drop 1)
      | none => scanTable (s.see (t :: ts)) ts
termination_by ts => ts.length
decreasing_by all_goals simp only [List.length_cons, List.length_drop]; omega

/-- A table with a data source, from behind its opening token: the node and the stream behind it. The line
that names the source may also be the paragraph below the table. -/
def dynamicTable? (ts : List Token) : Option (Node × List Token) :=
  let (s, rest) := scanTable {} ts
  let behind := rest.drop 1
  if !s.source.isEmpty then some (.table s.headers s.source s.placeholder [], behind)
  else
    match markerParagraph? behind with
    | some i =>
      if isDataSourceLine i.content then
        some (.table s.headers (Text.trim i.content) s.placeholder [], behind.drop 3)
      else none
    | none => none

/-! ## Frames -/

/-- Takes the qualifier off the end of the last text of a block: the children without it, and its body.
It stays when it belongs to a bracket, when it is an interpolation, or when it is all there is. -/
def takeQualifier? (children : List Node) : Option (List Node × Text) :=
  match children.getLast? with
  | some (.html markup) =>
    match Braces.splitTrailing? markup with
    | some (text, body) =>
      let text := Text.trimRight (fun c => c = ' ' || c = '\t') text
      if Text.startsWith body "\x7b" || text.isEmpty || Text.endsWith text "]" then none
      else some (children.dropLast ++ [.html text], body)
    | none => none
  | _ => none

/-- Attribute texts side by side, empty ones left out. -/
def joinAttrs (parts : List Text) : Text := Text.join " " ((parts.map Text.trim).filter (!·.isEmpty))

/-- The component file that replaces an element. -/
def BuildContext.component? (ctx : BuildContext) (tag : Text) : Option Text :=
  match ctx.components.find? (·.1 = tag) with
  | some (_, path) => if path.isEmpty then none else some path
  | none => none

/-- The fragment of a block that closes. A registered component replaces the element, and is imported,
unless the block's own qualifier names a component or slot. -/
def Frame.close (ctx : BuildContext) (f : Frame) (log : BuildLog) : Node × BuildLog :=
  let registered := ctx.component? f.tag
  let tag := match registered with
    | some path => componentName path
    | none => f.tag
  let (children, tag, attrs, registered) :=
    match takeQualifier? f.children with
    | some (children, body) =>
      let a := Qualifier.parse body
      (children, a.tag tag, joinAttrs [a.attrText, f.attrs], if a.kind = QualifierKind.none then registered else none)
    | none => (f.children, tag, f.attrs, registered)
  let log := match registered with
    | some path => log.addImport (importLine tag path ++ ";")
    | none => log
  (.html (element tag attrs (children.flatMap Node.value)), log)

/-- A code block: the placeholder that names its key, and the log with the code queued under that key. -/
def codeBlock (ctx : BuildContext) (t : Token) (log : BuildLog) : Node × BuildLog :=
  let key : Text := "shiki_" ++ Text.ofNat log.jobs.length
  let markup := "<CodeBlock " ++ Qualifier.quoted "name" key ++ " " ++
    Qualifier.quoted "highlight-path" ctx.highlightPath ++ " raw='" ++ Text.escapeCode t.content ++
    "'></CodeBlock>"
  (.html markup, { log with jobs := log.jobs ++ [⟨key, t.content, t.info⟩] })

/-! ## Containers -/

/-- The content of a container, from behind its opening marker: the tokens inside, the qualifier of the
closing marker, and the stream behind it. `depth` more containers are open inside. -/
def splitContainer? (depth : Nat) : List Token → Option (List Token × Option Text × List Token)
  | [] => none
  | t :: ts =>
    if opensContainer (t :: ts) then
      (splitContainer? (depth + 1) (ts.drop 2)).map fun (inner, a, rest) =>
        (t :: ts.take 2 ++ inner, a, rest)
    else
      match closesContainer? (t :: ts) with
      | some a =>
        match depth with
        | 0 => some ([], a, ts.drop 2)
        | d + 1 =>
          (splitContainer? d (ts.drop 2)).map fun (inner, a, rest) => (t :: ts.take 2 ++ inner, a, rest)
      | none => (splitContainer? depth ts).map fun (inner, a, rest) => (t :: inner, a, rest)
termination_by ts => ts.length
decreasing_by all_goals simp only [List.length_cons, List.length_drop]; omega

theorem length_splitContainer? {depth : Nat} {ts inner rest : List Token} {a : Option Text}
    (h : splitContainer? depth ts = some (inner, a, rest)) : inner.length + rest.length ≤ ts.length := by
  fun_induction splitContainer? depth ts generalizing inner a rest with
  | case1 => simp at h
  | case2 depth t ts _ ih =>
    obtain ⟨⟨i, b, r⟩, hp, heq⟩ := Option.map_eq_some_iff.1 h
    simp only [Prod.mk.injEq] at heq
    have := ih hp
    rw [← heq.1, ← heq.2.2]
    simp only [List.length_append, List.length_cons, List.length_take, List.length_drop] at *
    omega
  | case3 t ts _ a' _ =>
    simp only [Option.some.injEq, Prod.mk.injEq] at h
    rw [← h.1, ← h.2.2]
    simp only [List.length_nil, List.length_cons, List.length_drop]
    omega
  | case4 t ts _ a' _ d ih =>
    obtain ⟨⟨i, b, r⟩, hp, heq⟩ := Option.map_eq_some_iff.1 h
    simp only [Prod.mk.injEq] at heq
    have := ih hp
    rw [← heq.1, ← heq.2.2]
    simp only [List.length_append, List.length_cons, List.length_take, List.length_drop] at *
    omega
  | case5 depth t ts _ _ ih =>
    obtain ⟨⟨i, b, r⟩, hp, heq⟩ := Option.map_eq_some_iff.1 h
    simp only [Prod.mk.injEq] at heq
    have := ih hp
    rw [← heq.1, ← heq.2.2]
    simp only [List.length_cons] at *
    omega

/-- The node of a container with this content, qualifier and line. -/
def containerNode (children : List Node) (qualifier : Option Text) (line : Nat) : Node :=
  match qualifier with
  | none => .container Node.defaultContainerTag [] children line []
  | some body =>
    let a := Qualifier.parse body
    .container (a.tag Node.defaultContainerTag) a.attrText children line []

theorem length_scanTable_le (s : TableScan) (ts : List Token) : (scanTable s ts).2.length ≤ ts.length := by
  fun_induction scanTable s ts with
  | case1 => simp
  | case2 => simp
  | case3 _ _ _ _ _ _ ih => simp only [List.length_cons, List.length_drop] at *; omega
  | case4 _ _ _ _ _ ih => simp only [List.length_cons] at *; omega

theorem length_dynamicTable? {ts rest : List Token} {n : Node} (h : dynamicTable? ts = some (n, rest)) :
    rest.length ≤ ts.length := by
  have key := length_scanTable_le {} ts
  unfold dynamicTable? at h
  simp only at h
  split at h
  · simp only [Option.some.injEq, Prod.mk.injEq] at h
    rw [← h.2]; simp only [List.length_drop]; omega
  · split at h
    · split at h
      · simp only [Option.some.injEq, Prod.mk.injEq] at h
        rw [← h.2]; simp only [List.length_drop]; omega
      · simp at h
    · simp at h

/-! ## The build -/

/-- The nodes built so far: those at the top, and the frames that are open, innermost first. -/
structure Scaffold where
  nodes : List Node := []
  frames : List Frame := []

/-- Adds a node to the innermost open block, or to the top. -/
def Scaffold.push (s : Scaffold) (n : Node) : Scaffold :=
  match s.frames with
  | [] => { s with nodes := s.nodes ++ [n] }
  | f :: fs => { s with frames := { f with children := f.children ++ [n] } :: fs }

/-- The fragment of a token that is no block of its own. -/
def leafNode? (ctx : BuildContext) (t : Token) (log : BuildLog) : Option (Node × BuildLog) :=
  match t.kind with
  | .inline => some (.html (renderInline t.children), log)
  | .fence => some (codeBlock ctx t log)
  | .codeBlock => some (codeBlock ctx t log)
  | .htmlBlock => some (.html (Text.trimRight (fun c => c = '\r' || c = '\n') t.content), log)
  | .hr => some (.html "<hr>", log)
  | _ => none

/-- A block that no token closes, or a closing token that no block waits for. -/
def unbalanced (what : Text) : Fault := ⟨.unbalancedBlock, 0, what⟩

/-- Builds the rest of a stream onto what has been built. -/
def buildFrom (ctx : BuildContext) (s : Scaffold) (log : BuildLog) :
    List Token → Except Fault (List Node × BuildLog)
  | [] =>
    match s.frames with
    | [] => .ok (s.nodes, log)
    | f :: _ => .error (unbalanced ("<" ++ f.tag ++ "> is never closed"))
  | t :: ts =>
    if opensContainer (t :: ts) then
      match _split : splitContainer? 0 (ts.drop 2) with
      | none => .error (.at' .unclosedContainer (t.line + ctx.lineOffset) ctx.src)
      | some (inner, qualifier, rest) =>
        match buildFrom ctx {} log inner with
        | .error e => .error e
        | .ok (children, log) => buildFrom ctx (s.push (containerNode children qualifier t.line)) log rest
    else
      match _table : if t.kind = .opens .table && s.frames.isEmpty then dynamicTable? ts else none with
      | some (n, rest) => buildFrom ctx (s.push n) log rest
      | none =>
        match t.kind with
        | .opens _ => buildFrom ctx { s with frames := ⟨t.tag, tokenAttrs t, []⟩ :: s.frames } log ts
        | .closes _ =>
          match s.frames with
          | [] => .error (unbalanced (t.kind.name ++ " has no matching open"))
          | f :: fs =>
            let (n, log) := f.close ctx log
            buildFrom ctx (Scaffold.push { s with frames := fs } n) log ts
        | _ =>
          match leafNode? ctx t log with
          | some (n, log) => buildFrom ctx (s.push n) log ts
          | none => buildFrom ctx s log ts
termination_by ts => ts.length
decreasing_by
  all_goals simp only [List.length_cons]
  · have := length_splitContainer? _split
    simp only [List.length_drop] at this; omega
  · have := length_splitContainer? _split
    simp only [List.length_drop] at this; omega
  · split at _table
    · have := length_dynamicTable? _table; omega
    · simp at _table
  all_goals omega

/-- The nodes of a token stream and what the build collected. -/
def buildTree (ctx : BuildContext) (tokens : List Token) : Except Fault (List Node × BuildLog) :=
  buildFrom ctx {} {} tokens

end Docweave
