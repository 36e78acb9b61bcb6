import Docweave.Proofs.ValidatedBuild

/-!
# Containers compose

A container is built from the part of the stream inside it, and what stands
around it is built as if it were not there. Three facts about single runs say
what a build does not depend on:

> `run_append`: a run goes through its own part of the stream and hands over
> to what follows, when a container marker follows.

> `run_onto`: the nodes that are there already stay in front.

> `run_any`: whether a run succeeds depends on the stream and on the number of
> open frames only.

The main result puts them together. For streams `a`, `b` and `c` that are
well nested, have matching markers and can be built (`Segment`):

> `build_container`: the build of `a`, an opening marker, `b`, a closing
> marker and `c` has the nodes of `a`, one container around the nodes of `b`,
> and the nodes of `c`; what is collected is handed from `a` to `b` to `c`.
-/

namespace Docweave

section

variable {ctx : BuildContext} {σ τ : BuildState}

/-! ## More tokens behind a run -/

/-- A step takes tokens off the front of the stream. -/
theorem buildStep_suffix (h : BuildStep ctx σ τ) : τ.rest <:+ σ.rest := by
  cases h with
  | @container s log t ts inner q rest children log' hopen hsplit hinner =>
    obtain ⟨o, i, c, hts, _⟩ := splitContainer?_eq_some hsplit
    have hdrop : rest <:+ ts.drop 2 := by
      rw [hts]
      exact ⟨inner ++ [o, i, c], by simp⟩
    exact (hdrop.trans (List.drop_suffix 2 ts)).trans (List.suffix_cons t ts)
  | @table s log t ts n rest hkind hframes htable =>
    exact (dynamicTable?_suffix htable).trans (List.suffix_cons t ts)
  | @opening s log t ts | @closing s log t ts | @leaf s log t ts | @skip s log t ts =>
    exact List.suffix_cons t ts

/-- A step leaves a stream that closes all that is open. -/
theorem buildStep_nestScan {opened : List Element} (h : BuildStep ctx σ τ)
    (hn : nestScan opened σ.rest = some []) : ∃ opened', nestScan opened' τ.rest = some [] := by
  obtain ⟨front, hfront⟩ := buildStep_suffix h
  rw [← hfront] at hn
  obtain ⟨mid, _, hrest⟩ := nestScan_append_some hn
  exact ⟨mid, hrest⟩

/-- The state with more tokens behind its stream. -/
def BuildState.extend (σ : BuildState) (more : List Token) : BuildState :=
  { σ with rest := σ.rest ++ more }

/-- A step does not see the tokens behind its stream. The table is closed in
the stream, because the stream closes all that is open. -/
theorem buildStep_extend {opened : List Element} {more : List Token} (h : BuildStep ctx σ τ)
    (hn : nestScan opened σ.rest = some []) (hmore : StartsMarker more) :
    BuildStep ctx (σ.extend more) (τ.extend more) := by
  have closed : ∀ {t : Token} {ts : List Token}, nestScan opened (t :: ts) = some [] →
      t.kind = .opens .table → ∃ c ∈ ts, c.kind = .closes .table := by
    intro t ts hscan hk
    obtain ⟨mid, hstep, hrest⟩ := nestScan_cons_some hscan
    obtain ⟨_, rfl⟩ := nestStep_opens hstep hk
    exact exists_closes_of_nestScan hrest (List.mem_cons_self ..)
  cases h with
  | @container s log t ts inner q rest children log' hopen hsplit hinner =>
    obtain ⟨o, i, c, ts', heq, _⟩ := opensContainer_cases hopen
    obtain ⟨rfl, rfl⟩ := List.cons.inj heq
    exact .container (opensContainer_append more hopen) (splitContainer?_append more hsplit) hinner
  | @table s log t ts n rest hkind hframes htable =>
    have htable' : dynamicTable? (ts ++ more) = some (n, rest ++ more) := by
      rw [dynamicTable?_append (closed hn hkind) hmore, htable]
      rfl
    exact .table hkind hframes htable'
  | @opening s log t ts e hopen hkind htable =>
    have hopen' : opensContainer ((t :: ts) ++ more) = false := by
      rw [← hopen]
      exact opensContainer_congr
        (markerParagraph?_append_paragraph (by simp) (startsParagraph_of_marker hmore))
    have htable' : e = .table → s.frames = [] → dynamicTable? (ts ++ more) = none := by
      rintro rfl hf
      rw [dynamicTable?_append (closed hn hkind) hmore, htable rfl hf]
      rfl
    exact .opening hopen' hkind htable'
  | closing hkind hframes => exact .closing hkind hframes
  | leaf hleaf => exact .leaf hleaf
  | skip hopens hcloses hleaf => exact .skip hopens hcloses hleaf

/-- **A run hands over.** A run over a stream that closes all that is open
reaches the container marker behind the stream with what it has built. -/
theorem run_append (opened : List Element) {more : List Token} {nodes : List Node} {log : BuildLog}
    (h : σ.run ctx = .ok (nodes, log)) (hn : nestScan opened σ.rest = some [])
    (hmore : StartsMarker more) :
    (σ.extend more).run ctx = BuildState.run ctx ⟨⟨nodes, []⟩, log, more⟩ := by
  revert opened
  refine run_ok_induction ?_ ?_ h
  · intro nodes log opened _
    rfl
  · -- a step of the shorter stream is a step of the longer one, so both runs go on alike
    intro σ τ nodes log hstep ih _ opened hn
    obtain ⟨opened', hn'⟩ := buildStep_nestScan hstep hn
    rw [buildStep_run (buildStep_extend hstep hn hmore)]
    exact ih opened' hn'

/-! ## What a run does not depend on -/

/-- The state with nodes in front of those at the top. -/
def BuildState.onto (front : List Node) (σ : BuildState) : BuildState :=
  { σ with scaffold := { σ.scaffold with nodes := front ++ σ.scaffold.nodes } }

theorem push_onto (front : List Node) (s : Scaffold) (n : Node) :
    Scaffold.push { s with nodes := front ++ s.nodes } n
      = { s.push n with nodes := front ++ (s.push n).nodes } := by
  unfold Scaffold.push
  cases s.frames with
  | nil => simp
  | cons f fs => rfl

theorem buildStep_onto (front : List Node) (h : BuildStep ctx σ τ) :
    BuildStep ctx (σ.onto front) (τ.onto front) := by
  unfold BuildState.onto
  cases h with
  | container hopen hsplit hinner =>
    simp only [← push_onto]
    exact .container hopen hsplit hinner
  | table hkind hframes htable =>
    simp only [← push_onto]
    exact .table hkind hframes htable
  | opening hopen hkind htable => exact .opening hopen hkind htable
  | @closing s log t ts e f fs hkind hframes =>
    simp only [← push_onto]
    exact .closing hkind hframes
  | leaf hleaf =>
    simp only [← push_onto]
    exact .leaf hleaf
  | skip hopens hcloses hleaf => exact .skip hopens hcloses hleaf

/-- Nodes that are there already stay in front of what a run builds. -/
theorem run_onto (front : List Node) {nodes : List Node} {log : BuildLog}
    (h : σ.run ctx = .ok (nodes, log)) : (σ.onto front).run ctx = .ok (front ++ nodes, log) := by
  refine run_ok_induction ?_ ?_ h
  · intro nodes log
    rw [BuildState.run, buildFrom.eq_def]
    rfl
  · intro σ τ nodes log hstep ih _
    rw [buildStep_run (buildStep_onto front hstep)]
    exact ih

/-- A step can be taken with whatever has been built and collected before,
from the same stream with as many frames open. -/
theorem buildStep_any {s : Scaffold} (log : BuildLog) (h : BuildStep ctx σ τ)
    (hs : s.frames.length = σ.scaffold.frames.length)
    (inner : ∀ (log : BuildLog) (ts : List Token) {r}, ts.length < σ.rest.length →
      (BuildState.start σ.log ts).run ctx = .ok r →
      ∃ r', (BuildState.start log ts).run ctx = .ok r') :
    ∃ s' log', BuildStep ctx ⟨s, log, σ.rest⟩ ⟨s', log', τ.rest⟩ ∧
      s'.frames.length = τ.scaffold.frames.length := by
  -- a step looks at the frames only to see whether there is one
  have noframes : ∀ {s₀ : Scaffold}, s.frames.length = s₀.frames.length →
      (s.frames = [] ↔ s₀.frames = []) := by
    intro s₀ hlen
    rw [← List.length_eq_zero_iff, ← List.length_eq_zero_iff, hlen]
  cases h with
  | @container s₀ log₀ t ts within q rest children log' hopen hsplit hinner =>
    obtain ⟨⟨children', log''⟩, hrun⟩ := inner log within (length_container hsplit) hinner
    refine ⟨_, _, .container hopen hsplit hrun, ?_⟩
    rw [length_push_frames, length_push_frames]
    exact hs
  | @table s₀ log₀ t ts n rest hkind hframes htable =>
    refine ⟨_, _, .table hkind ((noframes hs).2 hframes) htable, ?_⟩
    rw [length_push_frames, length_push_frames]
    exact hs
  | @opening s₀ log₀ t ts e hopen hkind htable =>
    exact ⟨_, _, .opening hopen hkind fun he hf => htable he ((noframes hs).1 hf),
      congrArg (· + 1) hs⟩
  | @closing s₀ log₀ t ts e f₀ fs₀ hkind hframes =>
    simp only [hframes, List.length_cons] at hs
    obtain ⟨f, fs, hf⟩ := List.exists_cons_of_length_eq_add_one hs
    refine ⟨_, _, .closing hkind hf, ?_⟩
    rw [length_push_frames, length_push_frames]
    rw [hf, List.length_cons] at hs
    exact Nat.succ.inj hs
  | @leaf s₀ log₀ t ts n log' hleaf =>
    obtain ⟨⟨n', log''⟩, hleaf'⟩ : ∃ r, leafNode? ctx t log = some r := by
      rw [leafNode?_eq] at hleaf ⊢
      split at hleaf
      next hc => exact ⟨_, if_pos hc⟩
      next hc =>
        obtain ⟨m, hm, _⟩ := Option.map_eq_some_iff.1 hleaf
        exact ⟨(.html m, log), by rw [if_neg hc, hm]; rfl⟩
    refine ⟨_, _, .leaf hleaf', ?_⟩
    rw [length_push_frames, length_push_frames]
    exact hs
  | @skip s₀ log₀ t ts hopens hcloses hleaf =>
    exact ⟨_, _, .skip hopens hcloses (leafNode?_none ctx log hleaf), hs⟩

/-- **Success depends on the stream only.** A run that succeeds from one state
succeeds with whatever has been built and collected before. -/
theorem run_any (s : Scaffold) (log : BuildLog) {r : List Node × BuildLog}
    (h : σ.run ctx = .ok r) (hs : s.frames.length = σ.scaffold.frames.length) :
    ∃ r', BuildState.run ctx ⟨s, log, σ.rest⟩ = .ok r' := by
  obtain ⟨nodes, log₁⟩ := r
  revert s log
  refine run_ok_induction ?_ ?_ h
  · intro nodes log₁ s log hs
    have hf : s.frames = [] := List.eq_nil_of_length_eq_zero hs
    refine ⟨(s.nodes, log), ?_⟩
    rw [BuildState.run, buildFrom.eq_def]
    simp only [hf]
  · intro σ τ nodes log₁ hstep ih inner s log hs
    obtain ⟨s', log', hstep', hs'⟩ := buildStep_any log hstep hs
      fun log ts r hlt hrun => inner (BuildState.start σ.log ts) r.1 r.2 hlt hrun {} log rfl
    rw [buildStep_run hstep']
    exact ih s' log' hs'

/-! ## What is collected -/

/-- One log goes on where the other ends: nothing that was collected is
dropped or moved. -/
def BuildLog.Extends (log' log : BuildLog) : Prop :=
  log.jobs <+: log'.jobs ∧ log.imports <+: log'.imports

theorem extends_refl (log : BuildLog) : log.Extends log := ⟨List.prefix_rfl, List.prefix_rfl⟩

theorem extends_trans {l₁ l₂ l₃ : BuildLog} (h : l₃.Extends l₂) (h' : l₂.Extends l₁) :
    l₃.Extends l₁ :=
  ⟨h'.1.trans h.1, h'.2.trans h.2⟩

theorem extends_addImport (log : BuildLog) (line : Text) : (log.addImport line).Extends log := by
  unfold BuildLog.addImport
  split
  next => exact extends_refl log
  next => exact ⟨List.prefix_rfl, List.prefix_append _ _⟩

theorem extends_close (f : Frame) (log : BuildLog) : (f.close ctx log).2.Extends log := by
  unfold Frame.close
  simp only
  split
  next => exact extends_addImport log _
  next => exact extends_refl log

theorem extends_leaf {t : Token} {log log' : BuildLog} {n : Node}
    (h : leafNode? ctx t log = some (n, log')) : log'.Extends log := by
  rw [leafNode?_eq] at h
  split at h
  next =>
    obtain rfl : _ = log' := congrArg Prod.snd (Option.some.inj h)
    exact ⟨List.prefix_append _ _, List.prefix_rfl⟩
  next =>
    obtain ⟨m, _, hm⟩ := Option.map_eq_some_iff.1 h
    obtain rfl : log = log' := congrArg Prod.snd hm
    exact extends_refl log

/-- A run adds to what has been collected. -/
theorem run_extends {nodes : List Node} {log : BuildLog} (h : σ.run ctx = .ok (nodes, log)) :
    log.Extends σ.log := by
  refine run_ok_induction ?_ ?_ h
  · intro nodes log
    exact extends_refl log
  · intro σ τ nodes log hstep ih inner
    refine extends_trans ih ?_
    cases hstep with
    | @container s log₀ t ts within q rest children log' hopen hsplit hinner =>
      exact inner (BuildState.start log₀ within) children log' (length_container hsplit) hinner
    | closing => exact extends_close _ _
    | leaf hleaf => exact extends_leaf hleaf
    | table | opening | skip => exact extends_refl _

end

/-! ## The law -/

/-- A part of a stream that can stand beside or inside a container. -/
structure Segment (ctx : BuildContext) (ts : List Token) : Prop where
  nested : WellNested ts
  balanced : ∃ src offset, validateContainers ts src offset = .ok ()
  builds : ∃ log r, buildFrom ctx {} log ts = .ok r

/-- A segment is built from whatever has been collected before. -/
theorem segment_builds {ctx : BuildContext} {ts : List Token} (h : Segment ctx ts)
    (log : BuildLog) :
    ∃ nodes log', (BuildState.start log ts).run ctx = .ok (nodes, log') := by
  obtain ⟨log₀, r, hr⟩ := h.builds
  have hrun : (BuildState.start log₀ ts).run ctx = .ok r := hr
  obtain ⟨⟨nodes, log'⟩, h'⟩ := run_any {} log hrun rfl
  exact ⟨nodes, log', h'⟩

theorem wellNested_append {xs ys : List Token} (hx : WellNested xs) (hy : WellNested ys) :
    WellNested (xs ++ ys) := by
  unfold WellNested at hx hy ⊢
  rw [nestScan_append, hx, Option.bind_some, hy]

/-- The stream of a document whose markers match is a segment. -/
theorem segment_ofDocument {ctx : BuildContext} {d : Markdown.Document} {src : Text} {offset : Int}
    (h : validateContainers (Token.ofDocument d) src offset = .ok ()) :
    Segment ctx (Token.ofDocument d) := by
  have hdoc := documentScan_ofDocument d
  obtain ⟨nodes, log, hrun⟩ : ∃ nodes log,
      (BuildState.start {} (Token.ofDocument d)).run ctx = .ok (nodes, log) :=
    validated_run (start_validated hdoc h)
  exact ⟨nestScan_of_documentScan hdoc, ⟨src, offset, h⟩, ⟨{}, (nodes, log), hrun⟩⟩

/-- A container between two markers, in front of a stream of any kind. -/
theorem run_container {ctx : BuildContext} {nodes children : List Node} {log log' : BuildLog}
    {o i e o' i' e' : Token} {b rest : List Token} {q : Option Text} {src : Text} {offset : Int}
    (hopen : opensContainer [o, i, e] = true) (hclose : closesContainer? [o', i', e'] = some q)
    (hb : validateContainers b src offset = .ok ())
    (hrun : (BuildState.start log b).run ctx = .ok (children, log')) :
    BuildState.run ctx ⟨⟨nodes, []⟩, log, [o, i, e] ++ (b ++ ([o', i', e'] ++ rest))⟩
      = BuildState.run ctx ⟨⟨nodes ++ [containerNode children q o.line], []⟩, log', rest⟩ := by
  have hsplit : splitContainer? 0 (b ++ o' :: i' :: e' :: rest) = some (b, q, rest) :=
    splitContainer?_of_balanced hb (closesContainer?_append rest hclose)
  exact buildStep_run (.container (opensContainer_append _ hopen) hsplit hrun)

/-- **Containers compose.** The nodes of the whole are those of the part in
front, one container around the nodes of the part inside, and those of the
part behind; each part goes on with what the parts in front of it have
collected. No state of the build has a container or a table in a frame. -/
theorem build_container (ctx : BuildContext) (log : BuildLog) {a b c : List Token}
    {o i e o' i' e' : Token} {q : Option Text}
    (ha : Segment ctx a) (hb : Segment ctx b) (hc : Segment ctx c)
    (hopener : WellNested [o, i, e]) (hopen : opensContainer [o, i, e] = true)
    (hcloser : WellNested [o', i', e']) (hclose : closesContainer? [o', i', e'] = some q) :
    ∃ nodesA logA nodesB logB nodesC logC, ∃ tag attrs : Text,
      buildFrom ctx {} log a = .ok (nodesA, logA) ∧
      buildFrom ctx {} logA b = .ok (nodesB, logB) ∧
      buildFrom ctx {} logB c = .ok (nodesC, logC) ∧
      buildFrom ctx {} log (a ++ ([o, i, e] ++ (b ++ ([o', i', e'] ++ c))))
        = .ok (nodesA ++ [.container tag attrs nodesB o.line []] ++ nodesC, logC) ∧
      (q = none → tag = "div" ∧ attrs = []) ∧
      (∀ body, q = some body →
        tag = (Qualifier.parse body).tag "div" ∧ attrs = (Qualifier.parse body).attrText) ∧
      logA.Extends log ∧ logB.Extends logA ∧ logC.Extends logB ∧
      ∀ υ, Visits ctx (BuildState.start log (a ++ ([o, i, e] ++ (b ++ ([o', i', e'] ++ c))))) υ →
        υ.scaffold.Flat := by
  obtain ⟨nodesA, logA, hrunA⟩ := segment_builds ha log
  obtain ⟨nodesB, logB, hrunB⟩ := segment_builds hb logA
  obtain ⟨nodesC, logC, hrunC⟩ := segment_builds hc logB
  obtain ⟨src, offset, hbalanced⟩ := hb.balanced
  obtain ⟨tag, attrs, hnode, hnone, hsome⟩ : ∃ tag attrs : Text,
      containerNode nodesB q o.line = .container tag attrs nodesB o.line [] ∧
      (q = none → tag = "div" ∧ attrs = []) ∧
      ∀ body, q = some body →
        tag = (Qualifier.parse body).tag "div" ∧ attrs = (Qualifier.parse body).attrText := by
    cases q with
    | none => exact ⟨_, _, rfl, fun _ => ⟨rfl, rfl⟩, fun _ h => absurd h (by simp)⟩
    | some body =>
      refine ⟨_, _, rfl, fun h => absurd h (by simp), ?_⟩
      rintro body' h
      obtain rfl : body = body' := Option.some.inj h
      exact ⟨rfl, rfl⟩
  refine ⟨nodesA, logA, nodesB, logB, nodesC, logC, tag, attrs, hrunA, hrunB, hrunC, ?_, hnone,
    hsome, run_extends hrunA, run_extends hrunB, run_extends hrunC, ?_⟩
  · have hmarker : StartsMarker ([o, i, e] ++ (b ++ ([o', i', e'] ++ c))) :=
      Or.inr (Or.inl (opensContainer_append _ hopen))
    calc buildFrom ctx {} log (a ++ ([o, i, e] ++ (b ++ ([o', i', e'] ++ c))))
        = BuildState.run ctx ⟨⟨nodesA, []⟩, logA, [o, i, e] ++ (b ++ ([o', i', e'] ++ c))⟩ :=
          run_append [] hrunA ha.nested hmarker
      _ = BuildState.run ctx ⟨⟨nodesA ++ [containerNode nodesB q o.line], []⟩, logB, c⟩ :=
          run_container hopen hclose hbalanced hrunB
      _ = .ok (nodesA ++ [.container tag attrs nodesB o.line []] ++ nodesC, logC) := by
          rw [hnode]
          have := run_onto (nodesA ++ [.container tag attrs nodesB o.line []]) hrunC
          rw [← this]
          simp [BuildState.onto, BuildState.start]
  · intro υ hv
    have hwhole := wellNested_append ha.nested (wellNested_append hopener
      (wellNested_append hb.nested (wellNested_append hcloser hc.nested)))
    exact visits_flat hwhole hv

/-- A table at the end of a part: the search for its data source looks at what
follows. -/
def plainTable : Markdown.Document := [.table [⟨[⟨1, "a"⟩], []⟩] [[⟨[⟨3, "1"⟩], []⟩]]]

/-- Code, and a table that takes the paragraph below it. -/
def sourcedTable : Markdown.Document :=
  [.fencedCode "sh" [⟨6, "ls\n"⟩], .table [⟨[⟨8, "b"⟩], []⟩] [],
   .paragraph [⟨10, "\x7b:data-source=\"rows\"\x7d\n"⟩] []]

/-- The markers around it. -/
def openingMarker : Markdown.Document := [.paragraph [⟨4, "[\n"⟩] []]

def closingMarker : Markdown.Document := [.paragraph [⟨12, "]\x7b.note\x7d\n"⟩] []]

theorem build_container_tables :
    ∃ nodesA logA nodesB logB nodesC logC, ∃ tag attrs : Text,
      buildFrom ⟨[], 0, [], []⟩ {} {} (Token.ofDocument plainTable) = .ok (nodesA, logA) ∧
      buildFrom ⟨[], 0, [], []⟩ {} logA (Token.ofDocument sourcedTable) = .ok (nodesB, logB) ∧
      buildFrom ⟨[], 0, [], []⟩ {} logB (Token.ofDocument plainTable) = .ok (nodesC, logC) ∧
      buildFrom ⟨[], 0, [], []⟩ {} {} (Token.ofDocument plainTable ++
          (Token.ofDocument openingMarker ++ (Token.ofDocument sourcedTable ++
          (Token.ofDocument closingMarker ++ Token.ofDocument plainTable))))
        = .ok (nodesA ++ [.container tag attrs nodesB 4 []] ++ nodesC, logC) ∧
      tag = "div" ∧ attrs = "class=\"note\"" := by
  have hplain : validateContainers (Token.ofDocument plainTable) [] 0 = .ok () := by decide +kernel
  have hsourced : validateContainers (Token.ofDocument sourcedTable) [] 0 = .ok () := by
    decide +kernel
  have hq : closesContainer? (Token.ofDocument closingMarker) = some (some (".note" : Text)) := by
    decide +kernel
  obtain ⟨nodesA, logA, nodesB, logB, nodesC, logC, tag, attrs, hA, hB, hC, hwhole, _, hnote, _⟩ :=
    build_container ⟨[], 0, [], []⟩ {} (segment_ofDocument hplain) (segment_ofDocument hsourced)
      (segment_ofDocument hplain) (by decide +kernel : WellNested (Token.ofDocument openingMarker))
      (by decide +kernel) (by decide +kernel : WellNested (Token.ofDocument closingMarker)) hq
  obtain ⟨rfl, rfl⟩ := hnote ".note" rfl
  exact ⟨nodesA, logA, nodesB, logB, nodesC, logC, _, _, hA, hB, hC, hwhole, by decide +kernel,
    by decide +kernel⟩

end Docweave
