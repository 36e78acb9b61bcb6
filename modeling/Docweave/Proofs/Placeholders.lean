import Docweave.Proofs.QueuedCode

/-!
# Placeholders of code

In the tree a code block is a placeholder: an element that names the key of
the block and the path of the highlighted code. Markup of the document may
look just like one, so a placeholder is told by where it comes from. A
`Pattern` is markup with places for code, and `Pattern.fill` puts the
placeholders for a path into it. The markup of a build is a pattern that does
not depend on the path:

> `build_patterns`: there are patterns such that the build for any path has
> them, filled for the path, as its fragments in document order, and the code
> in them is the queue: one place for each block, in the order of the queue.

The build is followed with an `Outline` for each frame, the frame with patterns
in place of its fragments. The one point where markup is read back is the
qualifier at the end of a block. It is never taken from behind code, since the
placeholder and all markup around it end in `>`.
-/

namespace Docweave

/-! ## Patterns -/

/-- A piece of markup: text, or the place of a code block. -/
inductive Piece
  | text (t : Text)
  | code (job : HighlightJob)

/-- Markup with places for code. -/
abbrev Pattern := List Piece

/-- The element that stands for a code block. -/
def placeholder (path : Text) (job : HighlightJob) : Text :=
  "<CodeBlock " ++ Qualifier.quoted "name" job.key ++ " " ++
    Qualifier.quoted "highlight-path" path ++ " raw='" ++ Text.escapeCode job.code ++
    "'></CodeBlock>"

/-- A piece for a path of the highlighted code. -/
def Piece.fill (path : Text) : Piece → Text
  | text t => t
  | code job => placeholder path job

/-- The code that has its place in a piece. -/
def Piece.codes : Piece → List HighlightJob
  | text _ => []
  | code job => [job]

namespace Pattern

/-- The markup for a path of the highlighted code. -/
def fill (path : Text) (p : Pattern) : Text := p.flatMap (Piece.fill path)

/-- The code that has its place in the markup, from left to right. -/
def codes (p : Pattern) : List HighlightJob := p.flatMap Piece.codes

/-- The fragment for a path of the highlighted code. -/
def node (path : Text) (p : Pattern) : Node := .html (p.fill path)

theorem fill_append (path : Text) (p q : Pattern) :
    fill path (p ++ q) = fill path p ++ fill path q :=
  List.flatMap_append

theorem fill_singleton (path : Text) (x : Piece) : fill path [x] = x.fill path :=
  List.flatMap_singleton _ _

theorem codes_append (p q : Pattern) : codes (p ++ q) = codes p ++ codes q := List.flatMap_append

/-- Nothing can be taken off the end of markup with code in it. -/
def Sealed (p : Pattern) : Prop := p.codes = [] ∨ ∀ path, (p.fill path).getLast? = some '>'

/-- Markup without code is the same for all paths. -/
theorem fill_of_codes_nil {p : Pattern} (h : p.codes = []) (path path' : Text) :
    p.fill path = p.fill path' := by
  induction p with
  | nil => simp only [fill, List.flatMap_nil]
  | cons x p ih =>
    cases x with
    | text t => exact congrArg (t ++ ·) (ih h)
    | code job => exact absurd h (by simp [codes, Piece.codes])

end Pattern

theorem sealed_text (t : Text) : Pattern.Sealed [.text t] := Or.inl rfl

theorem getLast?_append_end {s t : Text} {c : Char} (h : t.getLast? = some c) :
    (s ++ t).getLast? = some c := by
  rw [List.getLast?_append, h, Option.some_or]

theorem getLast?_placeholder (path : Text) (job : HighlightJob) : (placeholder path job).getLast? = some '>' := by
  unfold placeholder
  exact getLast?_append_end (by decide +kernel)

theorem sealed_code (job : HighlightJob) : Pattern.Sealed [.code job] := by
  refine Or.inr fun path => ?_
  rw [Pattern.fill_singleton]
  exact getLast?_placeholder path job

/-- A code token leaves its placeholder and joins the queue. -/
theorem codeBlock_eq (ctx : BuildContext) (t : Token) (log : BuildLog) :
    codeBlock ctx t log =
      (Pattern.node ctx.highlightPath [.code (codeJob log.jobs.length t)],
        { log with jobs := log.jobs ++ [codeJob log.jobs.length t] }) := by
  rw [Pattern.node, Pattern.fill_singleton]
  rfl

/-! ## Fragments in document order -/

mutual

/-- The fragments of a node in document order. A table has none before it is
resolved. -/
def Node.fragments : Node → List Text
  | .html m => [m]
  | .table _ _ _ _ => []
  | .container _ _ children _ _ => fragments children
  | .root children => fragments children

/-- The fragments of nodes in document order. -/
def fragments : List Node → List Text
  | [] => []
  | n :: ns => n.fragments ++ fragments ns

end

theorem fragments_containerNode (children : List Node) (q : Option Text) (line : Nat) :
    (containerNode children q line).fragments = fragments children := by
  cases q with
  | none => rw [containerNode, Node.fragments]
  | some body => rw [containerNode, Node.fragments]

/-! ## Frames with places for code -/

/-- A frame with patterns in place of its fragments. -/
structure Outline where
  tag : Text
  attrs : Text
  children : List Pattern

/-- The frame for a path of the highlighted code. -/
def Outline.frame (path : Text) (f : Outline) : Frame :=
  ⟨f.tag, f.attrs, f.children.map (Pattern.node path)⟩

/-- The code in an outline. -/
def Outline.codes (f : Outline) : List HighlightJob := f.children.flatMap Pattern.codes

/-- The code in open outlines, which are given innermost first. -/
def openCodes (fs : List Outline) : List HighlightJob := fs.reverse.flatMap Outline.codes

theorem openCodes_cons (f : Outline) (fs : List Outline) :
    openCodes (f :: fs) = openCodes fs ++ f.codes := by
  unfold openCodes
  rw [List.reverse_cons, List.flatMap_append, List.flatMap_singleton]

/-- The build that puts the highlighted code under another path. -/
def BuildContext.withPath (ctx : BuildContext) (path : Text) : BuildContext :=
  { ctx with highlightPath := path }

theorem splitTrailing?_of_end {t : Text} (h : t.getLast? = some '>') :
    Braces.splitTrailing? t = none := by
  obtain ⟨front, rfl⟩ := List.getLast?_eq_some_iff.1 h
  unfold Braces.splitTrailing?
  rw [List.reverse_append, List.reverse_singleton, List.singleton_append,
    List.dropWhile_cons_of_neg (by decide)]
  rfl

/-- A qualifier is taken from a block for all paths or for none, and no code
goes with it. -/
theorem takeQualifier?_patterns {ps : List Pattern} (h : ∀ p ∈ ps, p.Sealed) :
    (∀ path, takeQualifier? (ps.map (Pattern.node path)) = none) ∨
    ∃ (qs : List Pattern) (body : Text), qs.flatMap Pattern.codes = ps.flatMap Pattern.codes ∧
      ∀ path, takeQualifier? (ps.map (Pattern.node path))
        = some (qs.map (Pattern.node path), body) := by
  rcases List.eq_nil_or_concat ps with rfl | ⟨front, p, rfl⟩
  · exact Or.inl fun _ => rfl
  · rw [List.concat_eq_append] at h ⊢
    have hlast : ∀ path,
        ((front ++ [p]).map (Pattern.node path)).getLast? = some (p.node path) := by
      intro path
      rw [List.map_append, List.map_singleton, List.getLast?_concat]
    have hfront : ∀ path,
        ((front ++ [p]).map (Pattern.node path)).dropLast = front.map (Pattern.node path) := by
      intro path
      rw [List.map_append, List.map_singleton, List.dropLast_concat]
    unfold takeQualifier?
    simp only [hlast, hfront, Pattern.node]
    rcases h p (List.mem_append_right _ (List.mem_singleton_self p)) with hnone | hend
    · -- no code in the last child: what is taken off it is the same for all paths
      have hfill : ∀ path, p.fill path = p.fill [] := fun path => p.fill_of_codes_nil hnone path []
      simp only [hfill]
      split
      next text body hsplit =>
        split
        next => exact Or.inl fun _ => rfl
        next =>
          refine Or.inr ⟨front ++ [[.text (Text.trimRight (fun c => c = ' ' || c = '\t') text)]],
            body, ?_, ?_⟩
          · rw [List.flatMap_append, List.flatMap_append, List.flatMap_singleton,
              List.flatMap_singleton, hnone]
            rfl
          · intro path
            rw [List.map_append, List.map_singleton, Pattern.node, Pattern.fill_singleton]
            rfl
      next => exact Or.inl fun _ => rfl
    · left
      intro path
      rw [splitTrailing?_of_end (hend path)]

theorem flatMap_value_node (path : Text) (ps : List Pattern) :
    (ps.map (Pattern.node path)).flatMap Node.value = Pattern.fill path ps.flatten := by
  induction ps with
  | nil => rfl
  | cons p ps ih =>
    rw [List.map_cons, List.flatMap_cons, ih, List.flatten_cons, Pattern.fill_append]
    rfl

theorem codes_flatten (ps : List Pattern) :
    Pattern.codes ps.flatten = ps.flatMap Pattern.codes := by
  induction ps with
  | nil => rfl
  | cons p ps ih => rw [List.flatten_cons, Pattern.codes_append, ih, List.flatMap_cons]

/-- An element around patterns. -/
def elementPattern (tag attrs : Text) (ps : List Pattern) : Pattern :=
  .text ("<" ++ tag ++ attrGap attrs ++ ">") :: ps.flatten ++ [.text ("</" ++ tag ++ ">")]

theorem elementPattern_fill (tag attrs path : Text) (ps : List Pattern) :
    (elementPattern tag attrs ps).fill path
      = element tag attrs ((ps.map (Pattern.node path)).flatMap Node.value) := by
  rw [flatMap_value_node]
  unfold elementPattern element Pattern.fill
  simp only [List.flatMap_append, List.flatMap_cons, List.flatMap_nil, Piece.fill,
    List.append_assoc, List.append_nil]

theorem elementPattern_codes (tag attrs : Text) (ps : List Pattern) :
    (elementPattern tag attrs ps).codes = ps.flatMap Pattern.codes := by
  rw [elementPattern, Pattern.codes_append, ← codes_flatten]
  exact List.append_nil _

theorem elementPattern_sealed (tag attrs : Text) (ps : List Pattern) :
    (elementPattern tag attrs ps).Sealed := by
  refine Or.inr fun path => ?_
  rw [elementPattern, Pattern.fill_append, Pattern.fill_singleton]
  unfold Piece.fill
  exact getLast?_append_end (getLast?_append_end (by decide +kernel))

/-- A frame closes alike for all paths, and keeps its code. -/
theorem close_outline (ctx : BuildContext) (f : Outline) (log : BuildLog)
    (h : ∀ p ∈ f.children, p.Sealed) :
    ∃ (p : Pattern) (log' : BuildLog), p.Sealed ∧ p.codes = f.codes ∧ log'.jobs = log.jobs ∧
      ∀ path, (f.frame path).close (ctx.withPath path) log = (p.node path, log') := by
  have hcomponent : ∀ path, (ctx.withPath path).component? f.tag = ctx.component? f.tag :=
    fun _ => rfl
  obtain ⟨qs, tag, attrs, log', hcodes, hclose⟩ :
      ∃ (qs : List Pattern) (tag attrs : Text) (log' : BuildLog),
        qs.flatMap Pattern.codes = f.codes ∧
        ∀ path, (f.frame path).close (ctx.withPath path) log
          = (.html (element tag attrs ((qs.map (Pattern.node path)).flatMap Node.value)),
              log') := by
    unfold Frame.close Outline.frame
    rcases takeQualifier?_patterns h with hnone | ⟨qs, body, hcodes, hsome⟩
    · simp only [hnone, hcomponent]
      exact ⟨f.children, _, _, _, rfl, fun path => rfl⟩
    · simp only [hsome, hcomponent]
      exact ⟨qs, _, _, _, hcodes, fun path => rfl⟩
  refine ⟨elementPattern tag attrs qs, log', elementPattern_sealed tag attrs qs,
    (elementPattern_codes tag attrs qs).trans hcodes, ?_, ?_⟩
  · rw [← close_jobs (f.frame []) log, hclose]
  · intro path
    rw [hclose, Pattern.node, elementPattern_fill]

/-! ## Following a build -/

/-- The runs over a stream from outlines on, whatever the path: they leave the
same log and, behind the nodes that were there, fragments of the same patterns.
The code in them is that of the outlines and what the run adds to the queue. -/
def Follows (ctx : BuildContext) (fs : List Outline) (log : BuildLog) (rest : List Token)
    (log' : BuildLog) : Prop :=
  ∃ (ps : List Pattern) (new : List HighlightJob),
    log'.jobs = log.jobs ++ new ∧ ps.flatMap Pattern.codes = openCodes fs ++ new ∧
    ∀ (path : Text) (front : List Node), ∃ behind : List Node,
      BuildState.run (ctx.withPath path) ⟨⟨front, fs.map (Outline.frame path)⟩, log, rest⟩
        = .ok (front ++ behind, log') ∧
      fragments behind = ps.map (Pattern.fill path)

/-- Adds a pattern to the innermost outline. Without one it goes to the top. -/
def placePattern (p : Pattern) : List Outline → List Outline
  | [] => []
  | f :: fs => { f with children := f.children ++ [p] } :: fs

theorem push_placePattern {path : Text} {s : Scaffold} {fs : List Outline} (p : Pattern)
    (h : s.frames = fs.map (Outline.frame path)) :
    (s.push (p.node path)).frames = (placePattern p fs).map (Outline.frame path) := by
  cases fs with
  | nil => rw [push_of_nil h]; rfl
  | cons f fs =>
    rw [push_of_cons h]
    simp only [placePattern, List.map_cons, Outline.frame, List.map_append]
    rfl

/-- The outlines hold nothing but what is closed to the right. -/
def AllSealed (fs : List Outline) : Prop := ∀ f ∈ fs, ∀ p ∈ f.children, p.Sealed

theorem allSealed_place {p : Pattern} {fs : List Outline} (hp : p.Sealed) (h : AllSealed fs) :
    AllSealed (placePattern p fs) := by
  cases fs with
  | nil => exact h
  | cons f fs =>
    intro g hg q hq
    rcases List.mem_cons.1 hg with rfl | hg'
    · rcases List.mem_append.1 hq with hq' | hq'
      · exact h f (List.mem_cons_self ..) q hq'
      · rw [List.mem_singleton.1 hq']
        exact hp
    · exact h g (List.mem_cons_of_mem _ hg') q hq

section

variable {ctx : BuildContext} {fs : List Outline} {log log₁ log' : BuildLog} {rest : List Token}

/-- A step that places a fragment. Where an outline is open the pattern becomes
part of it, at the top it stands for itself. -/
theorem follows_place {gs : List Outline} {p : Pattern} {ts : List Token}
    {added : List HighlightJob}
    (h : Follows ctx (placePattern p fs) log₁ rest log')
    (hjobs₁ : log₁.jobs = log.jobs ++ added)
    (hcodes₁ : openCodes gs ++ added = openCodes fs ++ p.codes)
    (hstep : ∀ path front, BuildStep (ctx.withPath path)
      ⟨⟨front, gs.map (Outline.frame path)⟩, log, ts⟩
      ⟨Scaffold.push ⟨front, fs.map (Outline.frame path)⟩ (p.node path), log₁, rest⟩) :
    Follows ctx gs log ts log' := by
  obtain ⟨ps, new, hjobs, hcodes, hruns⟩ := h
  have hjobs' : log'.jobs = log.jobs ++ (added ++ new) := by
    rw [hjobs, hjobs₁, List.append_assoc]
  cases fs with
  | nil =>
    refine ⟨p :: ps, added ++ new, hjobs', ?_, ?_⟩
    · calc (p :: ps).flatMap Pattern.codes = openCodes [] ++ p.codes ++ new := by
            rw [List.flatMap_cons, hcodes]
            rfl
        _ = openCodes gs ++ (added ++ new) := by rw [← hcodes₁, List.append_assoc]
    · intro path front
      obtain ⟨behind, hrun, hfrag⟩ := hruns path (front ++ [p.node path])
      refine ⟨p.node path :: behind, ?_, ?_⟩
      · rw [buildStep_run (hstep path front), List.append_cons, ← hrun]
        rfl
      · rw [fragments, hfrag]
        rfl
  | cons f fs =>
    refine ⟨ps, added ++ new, hjobs', ?_, ?_⟩
    · have hinner : openCodes (placePattern p (f :: fs)) = openCodes (f :: fs) ++ p.codes := by
        rw [placePattern, openCodes_cons, openCodes_cons, Outline.codes, Outline.codes]
        simp only [List.flatMap_append, List.flatMap_singleton, List.append_assoc]
      rw [hcodes, hinner, ← hcodes₁, List.append_assoc]
    · intro path front
      obtain ⟨behind, hrun, hfrag⟩ := hruns path front
      refine ⟨behind, ?_, hfrag⟩
      rw [buildStep_run (hstep path front), ← hrun]
      simp only [placePattern, List.map_cons, Outline.frame, List.map_append]
      rfl

/-- A step at the top that adds a container or a table, whose fragments are
those of patterns. -/
theorem follows_top {ps₁ : List Pattern} {ts : List Token} {added : List HighlightJob}
    (h : Follows ctx [] log₁ rest log')
    (hjobs₁ : log₁.jobs = log.jobs ++ added) (hcodes₁ : ps₁.flatMap Pattern.codes = added)
    (hstep : ∀ path, ∃ n : Node, n.fragments = ps₁.map (Pattern.fill path) ∧
      ∀ front, BuildStep (ctx.withPath path) ⟨⟨front, []⟩, log, ts⟩
        ⟨⟨front ++ [n], []⟩, log₁, rest⟩) :
    Follows ctx [] log ts log' := by
  obtain ⟨ps, new, hjobs, hcodes, hruns⟩ := h
  refine ⟨ps₁ ++ ps, added ++ new, ?_, ?_, ?_⟩
  · rw [hjobs, hjobs₁, List.append_assoc]
  · rw [List.flatMap_append, hcodes₁, hcodes]
    rfl
  · intro path front
    obtain ⟨n, hn, hone⟩ := hstep path
    obtain ⟨behind, hrun, hfrag⟩ := hruns path (front ++ [n])
    refine ⟨n :: behind, ?_, ?_⟩
    · rw [List.append_cons, ← hrun]
      exact buildStep_run (hone front)
    · rw [fragments, hn, hfrag, List.map_append]

theorem allSealed_open {tag attrs : Text} (h : AllSealed fs) :
    AllSealed (⟨tag, attrs, []⟩ :: fs) := by
  intro f hf p hp
  rcases List.mem_cons.1 hf with rfl | hf'
  · exact absurd hp (by simp)
  · exact h f hf' p hp

/-- A fragment is the same pattern for all paths, with the code that joins the
queue in it. -/
theorem leafNode?_pattern {t : Token} {n : Node} (h : leafNode? ctx t log = some (n, log₁)) :
    ∃ p : Pattern, p.Sealed ∧ log₁.jobs = log.jobs ++ p.codes ∧
      ∀ path, leafNode? (ctx.withPath path) t log = some (p.node path, log₁) := by
  simp only [leafNode?_eq] at h ⊢
  split at h
  next hcode =>
    obtain rfl : _ = log₁ := congrArg Prod.snd (Option.some.inj h)
    refine ⟨[.code (codeJob log.jobs.length t)], sealed_code _, rfl, ?_⟩
    intro path
    rw [if_pos hcode, codeBlock_eq]
    rfl
  next hcode =>
    obtain ⟨m, hm, heq⟩ := Option.map_eq_some_iff.1 h
    obtain rfl : log = log₁ := congrArg Prod.snd heq
    refine ⟨[.text m], sealed_text m, (List.append_nil _).symm, ?_⟩
    intro path
    rw [if_neg hcode, hm, Option.map_some, Pattern.node, Pattern.fill_singleton]
    rfl

/-- One step from outlines, when the runs behind it and inside containers are
followed. -/
theorem buildStep_follows {σ τ : BuildState} {opened : List Element} (h : BuildStep ctx σ τ)
    (hdoc : OnDocument opened σ)
    (hfs : σ.scaffold.frames = fs.map (Outline.frame ctx.highlightPath))
    (hsealed : AllSealed fs)
    (behind : ∀ fs, τ.scaffold.frames = fs.map (Outline.frame ctx.highlightPath) → AllSealed fs →
      Follows ctx fs τ.log τ.rest log')
    (inner : ∀ (log : BuildLog) (ts : List Token) (nodes : List Node) (log' : BuildLog),
      ts.length < σ.rest.length → documentScan [] ts = some [] →
      (BuildState.start log ts).run ctx = .ok (nodes, log') → Follows ctx [] log ts log') :
    Follows ctx fs σ.log σ.rest log' := by
  cases h with
  | @container s log t ts within q rest children log₁ hopen hsplit hinner =>
    -- a container stands outside of all blocks, so its fragments come next at the top
    obtain ⟨rfl, hwithin, _⟩ := documentScan_container hdoc.nested hopen hsplit
    have hnil : s.frames = [] := List.eq_nil_of_length_eq_zero hdoc.depth
    obtain rfl : fs = [] := List.map_eq_nil_iff.1 (hfs.symm.trans hnil)
    obtain ⟨ps, new, hjobs, hcodes, hruns⟩ :=
      inner log within children log₁ (length_container hsplit) hwithin hinner
    refine follows_top (behind [] (by rw [push_of_nil hnil]; rfl) hsealed) hjobs hcodes ?_
    intro path
    obtain ⟨within', hrun, hfrag⟩ := hruns path []
    exact ⟨containerNode within' q t.line, (fragments_containerNode _ _ _).trans hfrag,
      fun front => .container hopen hsplit hrun⟩
  | @table s log t ts n rest hkind hframes htable =>
    obtain rfl : fs = [] := List.map_eq_nil_iff.1 (hfs.symm.trans hframes)
    obtain ⟨⟨headers, source, label, rfl⟩, _⟩ := dynamicTable?_cases htable
    refine follows_top (behind [] (by rw [push_of_nil hframes]; rfl) hsealed)
      (List.append_nil _).symm List.flatMap_nil ?_
    intro path
    exact ⟨.table headers source label [], by rw [Node.fragments]; rfl,
      fun front => .table hkind rfl htable⟩
  | @opening s log t ts e hopen hkind htable =>
    obtain ⟨ps, new, hjobs, hcodes, hruns⟩ := behind (⟨t.tag, tokenAttrs t, []⟩ :: fs)
      (congrArg (_ :: ·) hfs) (allSealed_open hsealed)
    refine ⟨ps, new, hjobs, ?_, ?_⟩
    · rw [hcodes, openCodes_cons, Outline.codes, List.flatMap_nil, List.append_nil]
    · intro path front
      obtain ⟨rest', hrun, hfrag⟩ := hruns path front
      refine ⟨rest', ?_, hfrag⟩
      have hsame : fs.map (Outline.frame path) = [] → s.frames = [] := by
        intro hnil
        rw [List.map_eq_nil_iff.1 hnil] at hfs
        exact hfs
      rw [buildStep_run (.opening hopen hkind fun he hf => htable he (hsame hf)), ← hrun]
      rfl
  | @closing s log t ts e f fs' hkind hframes =>
    obtain ⟨g, gs, rfl, rfl, rfl⟩ := List.map_eq_cons_iff.1 (hfs.symm.trans hframes)
    have hgs : AllSealed gs := fun f hf => hsealed f (List.mem_cons_of_mem _ hf)
    obtain ⟨p, log₁, hp, hpcodes, hpjobs, hclose⟩ :=
      close_outline ctx g log (hsealed g (List.mem_cons_self ..))
    have hself : (g.frame ctx.highlightPath).close ctx log = (p.node ctx.highlightPath, log₁) :=
      hclose ctx.highlightPath
    rw [hself] at behind
    refine follows_place (behind _ (push_placePattern p rfl) (allSealed_place hp hgs))
      (hpjobs.trans (List.append_nil _).symm) ?_ ?_
    · rw [List.append_nil, openCodes_cons, hpcodes]
    · intro path front
      have hstep : BuildStep (ctx.withPath path)
          ⟨⟨front, (g :: gs).map (Outline.frame path)⟩, log, t :: ts⟩ _ := .closing hkind rfl
      rw [hclose] at hstep
      exact hstep
  | @leaf s log t ts n log₁ hleaf =>
    obtain ⟨p, hp, hjobs, hnode⟩ := leafNode?_pattern hleaf
    obtain rfl : p.node ctx.highlightPath = n := by
      have hself : leafNode? ctx t log = some (p.node ctx.highlightPath, log₁) :=
        hnode ctx.highlightPath
      simpa [hleaf] using hself.symm
    exact follows_place (behind _ (push_placePattern p hfs) (allSealed_place hp hsealed)) hjobs rfl
      fun path front => .leaf (hnode path)
  | @skip s log t ts hopens hcloses hleaf =>
    obtain ⟨ps, new, hjobs, hcodes, hruns⟩ := behind fs hfs hsealed
    refine ⟨ps, new, hjobs, hcodes, ?_⟩
    intro path front
    rw [buildStep_run (.skip hopens hcloses (leafNode?_none _ log hleaf))]
    exact hruns path front

/-- **A run is followed from its outlines.** -/
theorem run_follows {σ : BuildState} (opened : List Element) (fs : List Outline) {nodes : List Node}
    (h : σ.run ctx = .ok (nodes, log')) (hdoc : OnDocument opened σ)
    (hfs : σ.scaffold.frames = fs.map (Outline.frame ctx.highlightPath)) (hsealed : AllSealed fs) :
    Follows ctx fs σ.log σ.rest log' := by
  revert opened fs
  refine run_ok_induction ?_ ?_ h
  · intro nodes log opened fs _ hfs _
    obtain rfl : fs = [] := List.map_eq_nil_iff.1 hfs.symm
    refine ⟨[], [], (List.append_nil _).symm, rfl, ?_⟩
    intro path front
    refine ⟨[], ?_, rfl⟩
    rw [BuildState.run, buildFrom.eq_def, List.append_nil]
    rfl
  · intro σ τ nodes log hstep ih inner opened fs hdoc hfs hsealed
    obtain ⟨opened', hdoc'⟩ := buildStep_onDocument hstep hdoc
    refine buildStep_follows hstep hdoc hfs hsealed (fun gs => ih opened' gs hdoc') ?_
    intro log ts nodes log' hlt hts hrun
    exact inner _ nodes log' hlt hrun [] [] (start_onDocument hts) rfl
      fun f hf => absurd hf (by simp)

end

/-- **Every block has its place.** The fragments of a build in document order
are patterns filled with the placeholders for the path. The patterns do not
depend on the path, and the code in them is the queue. -/
theorem build_patterns {ctx : BuildContext} {d : Markdown.Document} {nodes : List Node}
    {log : BuildLog}
    (h : buildTree ctx (Token.ofDocument d) = .ok (nodes, log)) :
    ∃ ps : List Pattern, ps.flatMap Pattern.codes = log.jobs ∧
      ∀ path, ∃ nodes', buildTree (ctx.withPath path) (Token.ofDocument d) = .ok (nodes', log) ∧
        fragments nodes' = ps.map (Pattern.fill path) := by
  have hrun : (BuildState.start {} (Token.ofDocument d)).run ctx = .ok (nodes, log) := h
  obtain ⟨ps, new, hjobs, hcodes, hruns⟩ := run_follows [] [] hrun
    (start_onDocument (documentScan_ofDocument d)) rfl fun f hf => absurd hf (by simp)
  refine ⟨ps, ?_, fun path => hruns path []⟩
  rw [hcodes, hjobs]
  rfl

end Docweave
