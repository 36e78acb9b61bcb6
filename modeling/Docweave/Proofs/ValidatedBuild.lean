import Docweave.Compile
import Docweave.Proofs.BuildSteps

/-!
# Documents whose markers match are built

The check of the markers counts them in one pass; the build searches for the
closing marker of each container anew, builds the part inside on a stack of
its own, and jumps over dynamic tables. On the stream of a document the two
agree: what the check accepts is built without a fault.

`Validated opened σ` is what a run keeps on the way. There is a frame for
each element that is open, the rest of the stream is that of a document, and
the check of the rest passes with no container open: the containers that are
open belong to the runs around this one. In such a state a run that is not at
its end can take a step (`validated_step`), so it never faults
(`validated_run`).
-/

namespace Docweave

/-- A run on the stream of a document whose markers match. -/
structure Validated (src : Text) (offset : Int) (opened : List Element) (σ : BuildState) :
    Prop where
  depth : σ.scaffold.frames.length = opened.length
  nested : documentScan opened σ.rest = some []
  balanced : checkMarkers src offset [] σ.rest = .ok ()

section

variable {src : Text} {offset : Int} {ctx : BuildContext}

theorem start_validated {log : BuildLog} {ts : List Token} (hn : documentScan [] ts = some [])
    (hb : checkMarkers src offset [] ts = .ok ()) :
    Validated src offset [] (BuildState.start log ts) :=
  ⟨rfl, hn, hb⟩

/-- A run that is not at its end takes a step and stays on such a stream,
when the runs for the containers inside succeed. -/
theorem validated_step {σ : BuildState} {opened : List Element}
    (h : Validated src offset opened σ) (hne : σ.rest ≠ [])
    (inner : ∀ (log : BuildLog) (ts : List Token), ts.length < σ.rest.length →
      Validated src offset [] (BuildState.start log ts) →
      ∃ nodes log', (BuildState.start log ts).run ctx = .ok (nodes, log')) :
    ∃ τ opened', BuildStep ctx σ τ ∧ Validated src offset opened' τ := by
  obtain ⟨s, log, ts⟩ := σ
  cases ts with
  | nil => exact absurd rfl hne
  | cons t ts =>
    have hclose := closesContainer?_of_check h.balanced
    by_cases hopen : opensContainer (t :: ts) = true
    · -- a container: the check has seen its closing marker
      have hcheck : checkMarkers src offset ([] ++ t.line :: []) (ts.drop 2) = .ok () :=
        (checkMarkers_of_opens hopen).symm.trans h.balanced
      obtain ⟨within, q, rest, hsplit, hin, hrest⟩ := splitContainer?_of_check hcheck
      obtain ⟨rfl, hnin, hnrest⟩ := documentScan_container h.nested hopen hsplit
      obtain ⟨children, log', hrun⟩ :=
        inner log within (length_container hsplit) (start_validated hnin hin)
      exact ⟨_, [], .container hopen hsplit hrun,
        (length_push_frames _ _).trans h.depth, hnrest, hrest⟩
    · rw [Bool.not_eq_true] at hopen
      have hcheck := h.balanced
      simp only [checkMarkers_of_plain hopen hclose] at hcheck
      obtain ⟨mid, hdoc, hmid⟩ := documentScan_cons_some h.nested
      have hstep := nestStep_of_documentStep hdoc
      cases hleaf : leafNode? ctx t log with
      | some r =>
        obtain ⟨n, log'⟩ := r
        obtain ⟨hopens, hcloses⟩ := leafNode?_kind hleaf
        obtain rfl := nestStep_other hstep hopens hcloses
        exact ⟨_, mid, .leaf hleaf, (length_push_frames _ _).trans h.depth, hmid, hcheck⟩
      | none =>
        cases hk : t.kind with
        | opens e =>
          obtain ⟨hlev, rfl⟩ := nestStep_opens hstep hk
          have opening : (e = .table → s.frames = [] → dynamicTable? ts = none) →
              ∃ τ opened', BuildStep ctx ⟨s, log, t :: ts⟩ τ ∧ Validated src offset opened' τ := by
            intro htable
            exact ⟨_, e :: opened, .opening hopen hk htable,
              congrArg (· + 1) h.depth, hmid, hcheck⟩
          by_cases htop : e = .table ∧ s.frames = []
          · obtain ⟨rfl, hf⟩ := htop
            cases hd : dynamicTable? ts with
            | none => exact opening fun _ _ => hd
            | some r =>
              -- a dynamic table: it ends where its element closes, so nothing is open behind it
              obtain ⟨n, rest⟩ := r
              obtain rfl : opened = [] :=
                List.eq_nil_of_length_eq_zero (by rw [← h.depth, hf]; rfl)
              obtain ⟨hnrest, hmarkers, _⟩ := documentScan_dynamicTable? hmid hd
              rw [hmarkers] at hcheck
              exact ⟨_, [], .table hk hf hd, (length_push_frames _ _).trans h.depth, hnrest, hcheck⟩
          · exact opening fun he hf => absurd ⟨he, hf⟩ htop
        | closes e =>
          obtain rfl := nestStep_closes hstep hk
          obtain ⟨f, fs, hf⟩ : ∃ f fs, s.frames = f :: fs :=
            List.exists_cons_of_length_eq_add_one h.depth
          refine ⟨_, mid, .closing hk hf, ?_, hmid, hcheck⟩
          have hdepth := h.depth
          simp only [hf, List.length_cons] at hdepth
          rw [length_push_frames]
          exact Nat.succ.inj hdepth
        | _ =>
          obtain rfl := nestStep_other hstep (by simp [hk]) (by simp [hk])
          exact ⟨_, mid, .skip (by simp [hk]) (by simp [hk]) hleaf, h.depth, hmid, hcheck⟩

/-- A run on the stream of a document whose markers match succeeds. -/
theorem validated_run {σ : BuildState} {opened : List Element}
    (h : Validated src offset opened σ) : ∃ nodes log', σ.run ctx = .ok (nodes, log') := by
  induction hn : σ.rest.length using Nat.strongRecOn generalizing σ opened with
  | _ n ih =>
    subst hn
    by_cases hne : σ.rest = []
    · obtain ⟨s, log, ts⟩ := σ
      obtain rfl : ts = [] := hne
      obtain rfl : opened = [] := by simpa using h.nested
      have hf : s.frames = [] := List.eq_nil_of_length_eq_zero h.depth
      refine ⟨s.nodes, log, ?_⟩
      rw [BuildState.run, buildFrom.eq_def]
      simp only [hf]
    · obtain ⟨τ, opened', hstep, hτ⟩ :=
        validated_step h hne fun log ts hlt hts => ih _ hlt hts rfl
      rw [buildStep_run hstep]
      exact ih _ (buildStep_shorter hstep) hτ rfl

end

/-- **What the check accepts is built.** For every document, every check of
its stream that passes, and every build from whatever has been collected
before: the build succeeds. So a compile never fails in the build. -/
theorem build_of_validated :
    (∀ (d : Markdown.Document) (src : Text) (offset : Int) (ctx : BuildContext) (log : BuildLog),
      validateContainers (Token.ofDocument d) src offset = .ok () →
      ∃ nodes log', buildFrom ctx {} log (Token.ofDocument d) = .ok (nodes, log')) ∧
    ∀ (highlighter : Highlighter) (schedule : Schedule) (options : CompileOptions) (src : Text)
      (paths : ReferencePaths) (fault : Fault),
      compile highlighter schedule options src paths ≠ .error (.tree fault) := by
  have key : ∀ (d : Markdown.Document) (src : Text) (offset : Int) (ctx : BuildContext)
      (log : BuildLog), validateContainers (Token.ofDocument d) src offset = .ok () →
      ∃ nodes log', buildFrom ctx {} log (Token.ofDocument d) = .ok (nodes, log') := by
    intro d src offset ctx log h
    exact validated_run (start_validated (documentScan_ofDocument d) h)
  refine ⟨key, ?_⟩
  intro highlighter schedule options src paths fault h
  unfold compile at h
  split at h
  next => exact absurd h (by simp)
  next fm _ =>
    simp only at h
    split at h
    next => exact absurd h (by simp)
    next hvalid =>
      obtain ⟨nodes, log, hbuild⟩ := key _ _ _
        ⟨src, fm.bodyLine, options.components, paths.highlights⟩ {} hvalid
      unfold buildTree tokenize at h
      rw [hbuild] at h
      simp only at h
      split at h
      next => exact absurd h (by simp)
      next => exact absurd h (by simp)

/-- A container around a list, with a bracket of its own and code, and a
dynamic table. -/
def noteDocument : Markdown.Document :=
  [.paragraph [⟨1, "[\n"⟩] [],
   .list none [.item [.paragraph [⟨3, "[\n"⟩] [], .fencedCode "sh" [⟨5, "ls\n"⟩]]],
   .table [⟨[⟨8, "a"⟩], []⟩] [[⟨[⟨10, "\x7b:data-source=\"rows\"\x7d"⟩], []⟩]],
   .paragraph [⟨12, "]\x7b.note\x7d\n"⟩] []]

theorem build_of_validated_note :
    validateContainers (Token.ofDocument noteDocument) [] 0 = .ok () ∧
    ∃ nodes log', buildFrom ⟨[], 0, [], []⟩ {} {} (Token.ofDocument noteDocument)
      = .ok (nodes, log') := by
  have h : validateContainers (Token.ofDocument noteDocument) [] 0 = .ok () := by decide +kernel
  exact ⟨h, build_of_validated.1 noteDocument [] 0 ⟨[], 0, [], []⟩ {} h⟩

end Docweave
