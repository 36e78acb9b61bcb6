import Docweave.Proofs.TableScan

/-!
# The build, step by step

`buildFrom` goes through a stream and returns what it has built. The laws
about it speak of what happens on the way, so this file takes it apart into
steps. `BuildStep ctx σ τ` lists everything one round can do with the front of
the stream: build a container, take a dynamic table, open a block, close one,
place a fragment, or pass over a token.

> `buildStep_run`: a step does not change what the run returns.

> `run_ok_cases`: a run that succeeds is at its end or takes a step.

A container is built by a run of its own on the part of the stream inside it.
`Visits ctx σ τ` follows these runs too: `τ` is a state that the run from `σ`,
or one of the runs nested in it, passes through. Nothing of the stream is read
without being well nested, so containers and tables only ever meet an empty
stack of frames:

> `visits_flat`: in every state that the build of a well-nested stream
> visits, the frames hold fragments of markup only.
-/

namespace Docweave

/-- What a run has built, what it has collected, and the stream in front of
it. -/
structure BuildState where
  scaffold : Scaffold
  log : BuildLog
  rest : List Token

/-- The run from a state to the end of its stream. -/
def BuildState.run (ctx : BuildContext) (σ : BuildState) : Except Fault (List Node × BuildLog) :=
  buildFrom ctx σ.scaffold σ.log σ.rest

/-- The state in front of a stream of which nothing is built. -/
def BuildState.start (log : BuildLog) (ts : List Token) : BuildState := ⟨{}, log, ts⟩

/-- One round of the build. -/
inductive BuildStep (ctx : BuildContext) : BuildState → BuildState → Prop
  /-- A container is built from the part of the stream inside it. -/
  | container {s log t ts inner q rest children log'}
      (hopen : opensContainer (t :: ts) = true)
      (hsplit : splitContainer? 0 (ts.drop 2) = some (inner, q, rest))
      (hinner : (BuildState.start log inner).run ctx = .ok (children, log')) :
      BuildStep ctx ⟨s, log, t :: ts⟩ ⟨s.push (containerNode children q t.line), log', rest⟩
  /-- A top-level table with a data source becomes a node. -/
  | table {s log t ts n rest}
      (hkind : t.kind = .opens .table) (hframes : s.frames = [])
      (htable : dynamicTable? ts = some (n, rest)) :
      BuildStep ctx ⟨s, log, t :: ts⟩ ⟨s.push n, log, rest⟩
  /-- Any other block gets a frame. -/
  | opening {s log t ts e}
      (hopen : opensContainer (t :: ts) = false) (hkind : t.kind = .opens e)
      (htable : e = .table → s.frames = [] → dynamicTable? ts = none) :
      BuildStep ctx ⟨s, log, t :: ts⟩
        ⟨{ s with frames := ⟨t.tag, tokenAttrs t, []⟩ :: s.frames }, log, ts⟩
  /-- The innermost frame becomes a fragment of the block around it. -/
  | closing {s log t ts e f fs}
      (hkind : t.kind = .closes e) (hframes : s.frames = f :: fs) :
      BuildStep ctx ⟨s, log, t :: ts⟩
        ⟨Scaffold.push { s with frames := fs } (f.close ctx log).1, (f.close ctx log).2, ts⟩
  /-- A token that is no block of its own leaves a fragment. -/
  | leaf {s log t ts n log'}
      (hleaf : leafNode? ctx t log = some (n, log')) :
      BuildStep ctx ⟨s, log, t :: ts⟩ ⟨s.push n, log', ts⟩
  /-- A token without meaning is passed over. -/
  | skip {s log t ts}
      (hopens : ∀ e, t.kind ≠ .opens e) (hcloses : ∀ e, t.kind ≠ .closes e)
      (hleaf : leafNode? ctx t log = none) :
      BuildStep ctx ⟨s, log, t :: ts⟩ ⟨s, log, ts⟩

/-! ## Small facts about the scaffold -/

/-- The node is a fragment of markup. -/
def Node.IsHtml (n : Node) : Prop := ∃ m, n = .html m

@[simp] theorem push_of_nil {s : Scaffold} (h : s.frames = []) (n : Node) :
    s.push n = { nodes := s.nodes ++ [n], frames := [] } := by
  unfold Scaffold.push
  rw [h]

theorem push_of_cons {s : Scaffold} {f : Frame} {fs : List Frame} (h : s.frames = f :: fs)
    (n : Node) :
    s.push n = { nodes := s.nodes, frames := { f with children := f.children ++ [n] } :: fs } := by
  unfold Scaffold.push
  rw [h]

theorem length_push_frames (s : Scaffold) (n : Node) :
    (s.push n).frames.length = s.frames.length := by
  cases hf : s.frames with
  | nil => rw [push_of_nil hf]
  | cons f fs => rw [push_of_cons hf]; rfl

/-- The markup of a token that is a fragment of its own and no code. -/
def leafMarkup? (t : Token) : Option Text :=
  match t.kind with
  | .inline => some (renderInline t.children)
  | .htmlBlock => some (Text.trimRight (fun c => c = '\r' || c = '\n') t.content)
  | .hr => some "<hr>"
  | _ => none

/-- A fragment is a placeholder for code, or markup that depends on nothing
but the token. -/
theorem leafNode?_eq (ctx : BuildContext) (t : Token) (log : BuildLog) :
    leafNode? ctx t log
      = if t.isCode then some (codeBlock ctx t log)
        else (leafMarkup? t).map fun m => (.html m, log) := by
  unfold leafNode? leafMarkup? Token.isCode
  cases t.kind <;> simp

/-- Whether a token leaves a fragment depends on nothing but the token. -/
theorem leafNode?_none {ctx : BuildContext} {t : Token} {log : BuildLog} (ctx' : BuildContext)
    (log' : BuildLog) (h : leafNode? ctx t log = none) : leafNode? ctx' t log' = none := by
  rw [leafNode?_eq] at h ⊢
  split at h
  next => exact absurd h (by simp)
  next hcode =>
    rw [if_neg hcode, Option.map_eq_none_iff.1 h]
    rfl

/-- A fragment comes from a token that neither opens nor closes a block. -/
theorem leafNode?_kind {ctx : BuildContext} {t : Token} {log log' : BuildLog} {n : Node}
    (h : leafNode? ctx t log = some (n, log')) :
    (∀ e, t.kind ≠ .opens e) ∧ ∀ e, t.kind ≠ .closes e := by
  constructor <;>
  · intro e he
    unfold leafNode? at h
    rw [he] at h
    exact absurd h (by simp)

theorem leafNode?_isHtml {ctx : BuildContext} {t : Token} {log log' : BuildLog} {n : Node}
    (h : leafNode? ctx t log = some (n, log')) : n.IsHtml := by
  rw [leafNode?_eq] at h
  split at h
  next =>
    rw [Option.some.injEq] at h
    exact ⟨_, (congrArg Prod.fst h).symm⟩
  next =>
    obtain ⟨m, _, hm⟩ := Option.map_eq_some_iff.1 h
    exact ⟨m, (congrArg Prod.fst hm).symm⟩

theorem close_isHtml (ctx : BuildContext) (f : Frame) (log : BuildLog) :
    (f.close ctx log).1.IsHtml := by
  unfold Frame.close
  exact ⟨_, rfl⟩

/-! ## Steps and runs -/

section Run

variable {ctx : BuildContext} {s : Scaffold} {log : BuildLog} {t : Token} {ts : List Token}

/-- The front of a stream that opens a container. -/
theorem buildFrom_container {inner rest : List Token} {q : Option Text}
    (ho : opensContainer (t :: ts) = true)
    (hs : splitContainer? 0 (ts.drop 2) = some (inner, q, rest)) :
    buildFrom ctx s log (t :: ts) =
      match (BuildState.start log inner).run ctx with
      | .error e => .error e
      | .ok (children, log) =>
        buildFrom ctx (s.push (containerNode children q t.line)) log rest := by
  rw [buildFrom.eq_def]
  simp only
  rw [if_pos ho]
  split
  next h => rw [hs] at h; exact absurd h (by simp)
  next inner' q' rest' h =>
    rw [hs] at h
    simp only [Option.some.injEq, Prod.mk.injEq] at h
    obtain ⟨rfl, rfl, rfl⟩ := h
    rfl

theorem buildFrom_unclosed (ho : opensContainer (t :: ts) = true)
    (hs : splitContainer? 0 (ts.drop 2) = none) :
    buildFrom ctx s log (t :: ts)
      = .error (.at' .unclosedContainer (t.line + ctx.lineOffset) ctx.src) := by
  rw [buildFrom.eq_def]
  simp only
  rw [if_pos ho]
  split
  next => rfl
  next h => rw [hs] at h; exact absurd h (by simp)

theorem buildFrom_table {n : Node} {rest : List Token} (ho : opensContainer (t :: ts) = false)
    (hk : t.kind = .opens .table) (hf : s.frames = []) (hd : dynamicTable? ts = some (n, rest)) :
    buildFrom ctx s log (t :: ts) = buildFrom ctx (s.push n) log rest := by
  rw [buildFrom.eq_def]
  simp only
  rw [if_neg (Bool.eq_false_iff.1 ho)]
  split
  next n' rest' h =>
    rw [if_pos (by simp [hk, hf]), hd] at h
    simp only [Option.some.injEq, Prod.mk.injEq] at h
    obtain ⟨rfl, rfl⟩ := h
    rfl
  next h =>
    rw [if_pos (by simp [hk, hf]), hd] at h
    exact absurd h (by simp)

/-- The front of a stream that is neither a container nor a dynamic table. -/
theorem buildFrom_plain (ho : opensContainer (t :: ts) = false)
    (hd : t.kind = .opens .table → s.frames = [] → dynamicTable? ts = none) :
    buildFrom ctx s log (t :: ts) =
      match t.kind with
      | .opens _ => buildFrom ctx { s with frames := ⟨t.tag, tokenAttrs t, []⟩ :: s.frames } log ts
      | .closes _ =>
        match s.frames with
        | [] => .error (unbalanced (t.kind.name ++ " has no matching open"))
        | f :: fs =>
          buildFrom ctx (Scaffold.push { s with frames := fs } (f.close ctx log).1)
            (f.close ctx log).2 ts
      | _ =>
        match leafNode? ctx t log with
        | some (n, log) => buildFrom ctx (s.push n) log ts
        | none => buildFrom ctx s log ts := by
  rw [buildFrom.eq_def]
  simp only
  rw [if_neg (Bool.eq_false_iff.1 ho)]
  split
  next n' rest' h =>
    split at h
    next hc =>
      simp only [Bool.and_eq_true, decide_eq_true_eq, List.isEmpty_iff] at hc
      rw [hd hc.1 hc.2] at h
      exact absurd h (by simp)
    next => exact absurd h (by simp)
  next => rfl

/-- A token that does not open a paragraph opens no container. -/
theorem opensContainer_of_kind (ts : List Token) (h : t.kind ≠ .opens .paragraph) :
    opensContainer (t :: ts) = false := by
  rw [opensContainer, markerParagraph?_cons_eq_none ts fun hp => h hp.1]

/-- **A step keeps the answer of the run.** -/
theorem buildStep_run {σ τ : BuildState} (h : BuildStep ctx σ τ) : σ.run ctx = τ.run ctx := by
  unfold BuildState.run
  cases h with
  | container hopen hsplit hinner =>
    rw [buildFrom_container hopen hsplit, hinner]
  | table hkind hframes htable =>
    exact buildFrom_table (opensContainer_of_kind _ (by rw [hkind]; simp)) hkind hframes htable
  | @opening s log t ts e hopen hkind htable =>
    rw [buildFrom_plain hopen fun hk => htable (by simpa [hkind] using hk), hkind]
  | @closing s log t ts e f fs hkind hframes =>
    have hk : ∀ e', t.kind ≠ .opens e' := by rw [hkind]; simp
    rw [buildFrom_plain (opensContainer_of_kind ts (hk _)) fun h => absurd h (hk _), hkind, hframes]
  | @leaf s log t ts n log' hleaf =>
    obtain ⟨hopens, hcloses⟩ := leafNode?_kind hleaf
    rw [buildFrom_plain (opensContainer_of_kind ts (hopens _)) fun h => absurd h (hopens _), hleaf]
    split
    next e he => exact absurd he (hopens e)
    next e he => exact absurd he (hcloses e)
    next => rfl
  | @skip s log t ts hopens hcloses hleaf =>
    rw [buildFrom_plain (opensContainer_of_kind ts (hopens _)) fun h => absurd h (hopens _), hleaf]
    split
    next e he => exact absurd he (hopens e)
    next e he => exact absurd he (hcloses e)
    next => rfl

/-- Every step leaves a shorter stream. -/
theorem buildStep_shorter {σ τ : BuildState} (h : BuildStep ctx σ τ) :
    τ.rest.length < σ.rest.length := by
  cases h with
  | container hopen hsplit hinner =>
    have := length_splitContainer? hsplit
    simp only [List.length_drop, List.length_cons] at *
    omega
  | table hkind hframes htable =>
    have := length_dynamicTable? htable
    simp only [List.length_cons]
    omega
  | opening | closing | leaf | skip => simp

/-- **Success is stepwise.** A run that succeeds is at its end with no frame
open, or takes a step from which it succeeds alike. -/
theorem run_ok_cases {σ : BuildState} {nodes : List Node} {log : BuildLog}
    (h : σ.run ctx = .ok (nodes, log)) :
    (σ = ⟨⟨nodes, []⟩, log, []⟩) ∨ ∃ τ, BuildStep ctx σ τ ∧ τ.run ctx = .ok (nodes, log) := by
  have stepped : ∀ {τ}, BuildStep ctx σ τ →
      ∃ τ, BuildStep ctx σ τ ∧ τ.run ctx = .ok (nodes, log) := by
    intro τ hstep
    exact ⟨τ, hstep, (buildStep_run hstep).symm.trans h⟩
  obtain ⟨s, log₀, ts⟩ := σ
  cases ts with
  | nil =>
    rw [BuildState.run, buildFrom.eq_def] at h
    simp only at h
    split at h
    next hf =>
      simp only [Except.ok.injEq, Prod.mk.injEq] at h
      obtain ⟨rfl, rfl⟩ := h
      left
      rw [← hf]
    next => exact absurd h (by simp)
  | cons t ts =>
    right
    by_cases ho : opensContainer (t :: ts) = true
    · cases hs : splitContainer? 0 (ts.drop 2) with
      | none =>
        rw [BuildState.run, buildFrom_unclosed ho hs] at h
        exact absurd h (by simp)
      | some r =>
        obtain ⟨inner, q, rest⟩ := r
        cases hi : (BuildState.start log₀ inner).run ctx with
        | error e =>
          rw [BuildState.run, buildFrom_container ho hs, hi] at h
          exact absurd h (by simp)
        | ok r => exact stepped (.container ho hs hi)
    · rw [Bool.not_eq_true] at ho
      cases hl : leafNode? ctx t log₀ with
      | some r => exact stepped (.leaf hl)
      | none =>
        cases hk : t.kind with
        | opens e =>
          by_cases ht : e = .table ∧ s.frames = []
          · obtain ⟨rfl, hf⟩ := ht
            cases hd : dynamicTable? ts with
            | some r => exact stepped (.table hk hf hd)
            | none => exact stepped (.opening ho hk fun _ _ => hd)
          · exact stepped (.opening ho hk fun he hf => absurd ⟨he, hf⟩ ht)
        | closes e =>
          cases hf : s.frames with
          | nil =>
            rw [BuildState.run, buildFrom_plain ho (by simp [hk]), hk] at h
            simp only [hf] at h
            exact absurd h (by simp)
          | cons f fs => exact stepped (.closing hk hf)
        | _ => exact stepped (.skip (by simp [hk]) (by simp [hk]) hl)

/-- What holds at the end of a run and is handed back over every step holds of
every run that succeeds. The runs inside containers are runs on shorter
streams. -/
@[elab_as_elim]
theorem run_ok_induction {P : BuildState → List Node → BuildLog → Prop}
    (done : ∀ nodes log, P ⟨⟨nodes, []⟩, log, []⟩ nodes log)
    (step : ∀ σ τ nodes log, BuildStep ctx σ τ → P τ nodes log →
      (∀ υ nodes' log', υ.rest.length < σ.rest.length → υ.run ctx = .ok (nodes', log') →
        P υ nodes' log') → P σ nodes log)
    {σ : BuildState} {nodes : List Node} {log : BuildLog} (h : σ.run ctx = .ok (nodes, log)) :
    P σ nodes log := by
  -- on what is left of the stream: the run inside a container is no later state of this one
  induction hn : σ.rest.length using Nat.strongRecOn generalizing σ nodes log with
  | _ n ih =>
    subst hn
    rcases run_ok_cases h with rfl | ⟨τ, hstep, hτ⟩
    · exact done nodes log
    · exact step σ τ nodes log hstep (ih _ (buildStep_shorter hstep) hτ rfl)
        fun υ nodes' log' hlt hυ => ih _ hlt hυ rfl

end Run

/-! ## Visited states -/

/-- The run from one state, or a run for a container nested in it, passes
through the other. -/
inductive Visits (ctx : BuildContext) : BuildState → BuildState → Prop
  | here (σ : BuildState) : Visits ctx σ σ
  | step {σ τ υ : BuildState} : BuildStep ctx σ τ → Visits ctx τ υ → Visits ctx σ υ
  | inside {s log t ts inner q rest υ} : opensContainer (t :: ts) = true →
      splitContainer? 0 (ts.drop 2) = some (inner, q, rest) →
      Visits ctx (BuildState.start log inner) υ → Visits ctx ⟨s, log, t :: ts⟩ υ

/-- The frames hold fragments of markup only: no container and no table, whose
content a frame would lose when it closes. -/
def Scaffold.Flat (s : Scaffold) : Prop := ∀ f ∈ s.frames, ∀ n ∈ f.children, n.IsHtml

theorem flat_of_nil {s : Scaffold} (h : s.frames = []) : s.Flat := by
  intro f hf
  rw [h] at hf
  exact absurd hf (by simp)

theorem flat_push {s : Scaffold} {n : Node} (h : s.Flat) (hn : n.IsHtml) : (s.push n).Flat := by
  cases hf : s.frames with
  | nil => exact flat_of_nil (by rw [push_of_nil hf])
  | cons f fs =>
    rw [push_of_cons hf]
    intro g hg m hm
    rcases List.mem_cons.1 hg with rfl | hg'
    · rcases List.mem_append.1 hm with hm' | hm'
      · exact h f (by rw [hf]; exact List.mem_cons_self ..) m hm'
      · rw [List.mem_singleton.1 hm']
        exact hn
    · exact h g (by rw [hf]; exact List.mem_cons_of_mem _ hg') m hm

/-- What the build of a well-nested stream keeps: the rest of the stream
closes all that is open, no more frames are open than elements, and the frames
are flat. There may be fewer frames than elements, because a table inside a
dynamic table would end the search for its end too early. -/
structure FlatInv (opened : List Element) (σ : BuildState) : Prop where
  nested : nestScan opened σ.rest = some []
  depth : σ.scaffold.frames.length ≤ opened.length
  flat : σ.scaffold.Flat

theorem start_flatInv {log : BuildLog} {ts : List Token} (h : WellNested ts) :
    FlatInv [] (BuildState.start log ts) :=
  ⟨h, Nat.le_refl _, flat_of_nil rfl⟩

/-- One step keeps the invariant. A container or table is placed only where
no frame is open; all else that is placed is markup. -/
theorem buildStep_flatInv {ctx : BuildContext} {σ τ : BuildState} {opened : List Element}
    (h : BuildStep ctx σ τ) (hinv : FlatInv opened σ) : ∃ opened', FlatInv opened' τ := by
  cases h with
  | @container s log t ts inner q rest children log' hopen hsplit hinner =>
    obtain ⟨rfl, _, hrest⟩ := nestScan_container hinv.nested hopen hsplit
    have hnil : s.frames = [] := List.eq_nil_of_length_eq_zero (Nat.le_zero.1 hinv.depth)
    refine ⟨[], hrest, ?_, flat_of_nil ?_⟩
    · rw [push_of_nil hnil]; exact Nat.le_refl _
    · rw [push_of_nil hnil]
  | @table s log t ts n rest hkind hframes htable =>
    -- the step jumps over the whole table; what is open behind it need not be what was in front
    obtain ⟨front, hfront⟩ := dynamicTable?_suffix htable
    have hnested := hinv.nested
    simp only at hnested
    rw [← hfront, ← List.cons_append] at hnested
    obtain ⟨mid, _, hrest⟩ := nestScan_append_some hnested
    refine ⟨mid, hrest, ?_, flat_of_nil ?_⟩
    · rw [push_of_nil hframes]; exact Nat.zero_le _
    · rw [push_of_nil hframes]
  | @opening s log t ts e hopen hkind htable =>
    obtain ⟨mid, hstep, hrest⟩ := nestScan_cons_some hinv.nested
    obtain ⟨_, rfl⟩ := nestStep_opens hstep hkind
    refine ⟨e :: opened, hrest, Nat.succ_le_succ hinv.depth, ?_⟩
    intro f hf
    rcases List.mem_cons.1 hf with rfl | hf'
    · intro n hn
      exact absurd hn (by simp)
    · exact hinv.flat f hf'
  | @closing s log t ts e f fs hkind hframes =>
    obtain ⟨mid, hstep, hrest⟩ := nestScan_cons_some hinv.nested
    obtain rfl := nestStep_closes hstep hkind
    have hdepth := hinv.depth
    simp only [hframes, List.length_cons] at hdepth
    refine ⟨mid, hrest, ?_, flat_push ?_ (close_isHtml ctx f log)⟩
    · rw [length_push_frames]
      simp only
      omega
    · intro g hg
      exact hinv.flat g (by rw [hframes]; exact List.mem_cons_of_mem _ hg)
  | @leaf s log t ts n log' hleaf =>
    obtain ⟨mid, hstep, hrest⟩ := nestScan_cons_some hinv.nested
    obtain ⟨hopens, hcloses⟩ := leafNode?_kind hleaf
    obtain rfl := nestStep_other hstep hopens hcloses
    refine ⟨mid, hrest, ?_, flat_push hinv.flat (leafNode?_isHtml hleaf)⟩
    rw [length_push_frames]
    exact hinv.depth
  | @skip s log t ts hopens hcloses hleaf =>
    obtain ⟨mid, hstep, hrest⟩ := nestScan_cons_some hinv.nested
    obtain rfl := nestStep_other hstep hopens hcloses
    exact ⟨mid, hrest, hinv.depth, hinv.flat⟩

theorem visits_flatInv {ctx : BuildContext} {σ υ : BuildState} {opened : List Element}
    (h : Visits ctx σ υ) (hinv : FlatInv opened σ) : ∃ opened', FlatInv opened' υ := by
  induction h generalizing opened with
  | here => exact ⟨opened, hinv⟩
  | step hstep _ ih =>
    obtain ⟨opened', hinv'⟩ := buildStep_flatInv hstep hinv
    exact ih hinv'
  | inside hopen hsplit _ ih =>
    obtain ⟨rfl, hinner, _⟩ := nestScan_container hinv.nested hopen hsplit
    exact ih (start_flatInv hinner)

/-- **Nothing is lost in a frame.** No state that the build of a well-nested
stream visits has a container or a table inside an open frame. -/
theorem visits_flat {ctx : BuildContext} {log : BuildLog} {ts : List Token} {υ : BuildState}
    (h : WellNested ts) (hv : Visits ctx (BuildState.start log ts) υ) : υ.scaffold.Flat := by
  obtain ⟨_, hinv⟩ := visits_flatInv hv (start_flatInv h)
  exact hinv.flat

end Docweave
