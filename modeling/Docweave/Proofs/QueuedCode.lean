import Docweave.Proofs.BuildSteps

/-!
# The queue of code blocks

Each code block of a stream is queued for highlighting when the build comes to
it. Its key is its place in the queue, and the queue is handed through the
runs for nested containers, so the keys count the code of the whole stream:

> `run_jobs`: a run on the stream of a document queues the code tokens of the
> stream in their order, the key of each numbered by its place.

What carries the proof is that `BuildState.queue`, the blocks that are queued
and those that still stand in the stream, does not change from step to step.
The one step that could lose a block is the jump over a dynamic table, and the
tables of a document have no code in them.
-/

namespace Docweave

/-- The entry of a code token in the queue, when `k` blocks are in front of it. -/
def codeJob (k : Nat) (t : Token) : HighlightJob := ⟨"shiki_" ++ Text.ofNat k, t.content, t.info⟩

/-- The entries of the code tokens of a stream, when `k` blocks are in front of
them. -/
def codeJobs (k : Nat) (ts : List Token) : List HighlightJob :=
  (ts.filter Token.isCode).mapIdx fun i t => codeJob (k + i) t

theorem codeJobs_congr (k : Nat) {xs ys : List Token}
    (h : xs.filter Token.isCode = ys.filter Token.isCode) : codeJobs k xs = codeJobs k ys := by
  unfold codeJobs
  rw [h]

theorem codeJobs_of_code (k : Nat) {t : Token} (ts : List Token) (h : t.isCode = true) :
    codeJobs k (t :: ts) = codeJob k t :: codeJobs (k + 1) ts := by
  unfold codeJobs
  rw [List.filter_cons_of_pos h, List.mapIdx_cons]
  simp only [Nat.add_zero, Nat.add_assoc, Nat.add_comm 1]

theorem codeJobs_append (k : Nat) (xs ys : List Token) :
    codeJobs k (xs ++ ys) = codeJobs k xs ++ codeJobs (k + (codeJobs k xs).length) ys := by
  unfold codeJobs
  rw [List.filter_append, List.mapIdx_append, List.length_mapIdx]
  simp only [Nat.add_assoc, Nat.add_comm (List.length _)]

/-- The keys of two numbers are different. -/
theorem codeJob_key_inj {i j : Nat} {t u : Token} (h : (codeJob i t).key = (codeJob j u).key) :
    i = j :=
  Text.ofNat_inj (List.append_cancel_left h)

/-- No two code blocks of a stream share a key. -/
theorem nodup_codeJobs_keys (k : Nat) (ts : List Token) :
    ((codeJobs k ts).map HighlightJob.key).Nodup := by
  rw [List.Nodup, List.pairwise_iff_getElem]
  intro i j hi hj hlt heq
  simp only [codeJobs, List.getElem_map, List.getElem_mapIdx] at heq
  have hij := codeJob_key_inj heq
  omega

/-- A run on the stream of a document: there is a frame for each element that
is open. -/
structure OnDocument (opened : List Element) (σ : BuildState) : Prop where
  depth : σ.scaffold.frames.length = opened.length
  nested : documentScan opened σ.rest = some []

theorem start_onDocument {log : BuildLog} {ts : List Token} (h : documentScan [] ts = some []) :
    OnDocument [] (BuildState.start log ts) :=
  ⟨rfl, h⟩

section

variable {ctx : BuildContext} {σ τ : BuildState} {opened : List Element}

/-- With no frame open, no element is. -/
theorem onDocument_nil (h : OnDocument opened σ) (hf : σ.scaffold.frames = []) : opened = [] := by
  apply List.eq_nil_of_length_eq_zero
  rw [← h.depth, hf]
  rfl

/-- One step stays on the stream of a document. -/
theorem buildStep_onDocument (h : BuildStep ctx σ τ) (hdoc : OnDocument opened σ) :
    ∃ opened', OnDocument opened' τ := by
  cases h with
  | @container s log t ts inner q rest children log' hopen hsplit hinner =>
    obtain ⟨rfl, _, hrest⟩ := documentScan_container hdoc.nested hopen hsplit
    exact ⟨[], (length_push_frames _ _).trans hdoc.depth, hrest⟩
  | @table s log t ts n rest hkind hframes htable =>
    obtain rfl := onDocument_nil hdoc hframes
    obtain ⟨mid, hstep, hmid⟩ := documentScan_cons_some hdoc.nested
    obtain ⟨_, rfl⟩ := nestStep_opens (nestStep_of_documentStep hstep) hkind
    obtain ⟨hrest, _⟩ := documentScan_dynamicTable? hmid htable
    exact ⟨[], (length_push_frames _ _).trans hdoc.depth, hrest⟩
  | @opening s log t ts e hopen hkind htable =>
    obtain ⟨mid, hstep, hmid⟩ := documentScan_cons_some hdoc.nested
    obtain ⟨_, rfl⟩ := nestStep_opens (nestStep_of_documentStep hstep) hkind
    exact ⟨e :: opened, congrArg (· + 1) hdoc.depth, hmid⟩
  | @closing s log t ts e f fs hkind hframes =>
    obtain ⟨mid, hstep, hmid⟩ := documentScan_cons_some hdoc.nested
    obtain rfl := nestStep_closes (nestStep_of_documentStep hstep) hkind
    have hdepth := hdoc.depth
    simp only [hframes, List.length_cons] at hdepth
    exact ⟨mid, (length_push_frames _ _).trans (Nat.succ.inj hdepth), hmid⟩
  | @leaf s log t ts n log' hleaf =>
    obtain ⟨hopens, hcloses⟩ := leafNode?_kind hleaf
    obtain ⟨mid, hstep, hmid⟩ := documentScan_cons_some hdoc.nested
    obtain rfl := nestStep_other (nestStep_of_documentStep hstep) hopens hcloses
    exact ⟨mid, (length_push_frames _ _).trans hdoc.depth, hmid⟩
  | @skip s log t ts hopens hcloses hleaf =>
    obtain ⟨mid, hstep, hmid⟩ := documentScan_cons_some hdoc.nested
    obtain rfl := nestStep_other (nestStep_of_documentStep hstep) hopens hcloses
    exact ⟨mid, hdoc.depth, hmid⟩

/-- The blocks that are queued, and behind them those that still stand in the
stream. -/
def BuildState.queue (σ : BuildState) : List HighlightJob :=
  σ.log.jobs ++ codeJobs σ.log.jobs.length σ.rest

theorem addImport_jobs (log : BuildLog) (line : Text) : (log.addImport line).jobs = log.jobs := by
  unfold BuildLog.addImport
  split
  next => rfl
  next => rfl

/-- A frame that closes queues nothing. -/
theorem close_jobs (f : Frame) (log : BuildLog) : (f.close ctx log).2.jobs = log.jobs := by
  unfold Frame.close
  simp only
  split
  next => exact addImport_jobs log _
  next => rfl

/-- A token that is no code leaves the queue. -/
theorem queue_cons {s s' : Scaffold} {log log' : BuildLog} {t : Token} {ts : List Token}
    (hjobs : log'.jobs = log.jobs) (hcode : t.isCode = false) :
    BuildState.queue ⟨s', log', ts⟩ = BuildState.queue ⟨s, log, t :: ts⟩ := by
  unfold BuildState.queue
  simp only
  rw [hjobs, codeJobs_congr _ (List.filter_cons_of_neg (by simp [hcode]))]

theorem isCode_of_opens {t : Token} {e : Element} (h : t.kind = .opens e) : t.isCode = false := by
  simp [Token.isCode, h]

theorem isCode_of_closes {t : Token} {e : Element} (h : t.kind = .closes e) : t.isCode = false := by
  simp [Token.isCode, h]

/-- One step moves a block from the stream to the queue or leaves both alone,
when the runs inside containers queue what stands in their streams. -/
theorem buildStep_queue (h : BuildStep ctx σ τ) (hdoc : OnDocument opened σ)
    (inner : ∀ (log : BuildLog) (ts : List Token) (nodes : List Node) (log' : BuildLog),
      ts.length < σ.rest.length → documentScan [] ts = some [] →
      (BuildState.start log ts).run ctx = .ok (nodes, log') →
      log'.jobs = (BuildState.start log ts).queue) : τ.queue = σ.queue := by
  cases h with
  | @container s log t ts within q rest children log' hopen hsplit hinner =>
    obtain ⟨_, hwithin, _⟩ := documentScan_container hdoc.nested hopen hsplit
    have hjobs := inner log within children log' (length_container hsplit) hwithin hinner
    have hcode : codeJobs log.jobs.length (t :: ts) = codeJobs log.jobs.length (within ++ rest) :=
      codeJobs_congr _ (filter_isCode_container hopen hsplit)
    -- the blocks behind the container are numbered on from those inside it
    unfold BuildState.queue BuildState.start at *
    simp only at *
    rw [hjobs, hcode, codeJobs_append, List.length_append, List.append_assoc]
  | @table s log t ts n rest hkind hframes htable =>
    obtain rfl := onDocument_nil hdoc hframes
    obtain ⟨mid, hstep, hmid⟩ := documentScan_cons_some hdoc.nested
    obtain ⟨_, rfl⟩ := nestStep_opens (nestStep_of_documentStep hstep) hkind
    -- a table of a document holds no code, so nothing is lost when it is read as a whole
    obtain ⟨_, _, hcode⟩ := documentScan_dynamicTable? hmid htable
    have hopener : BuildState.queue ⟨s, log, ts⟩ = BuildState.queue ⟨s, log, t :: ts⟩ :=
      queue_cons rfl (isCode_of_opens hkind)
    rw [← hopener]
    unfold BuildState.queue
    simp only
    rw [codeJobs_congr _ hcode]
  | opening hopen hkind htable => exact queue_cons rfl (isCode_of_opens hkind)
  | closing hkind hframes => exact queue_cons (close_jobs _ _) (isCode_of_closes hkind)
  | @leaf s log t ts n log' hleaf =>
    rw [leafNode?_eq] at hleaf
    split at hleaf
    next hcode =>
      obtain rfl : _ = log' := congrArg Prod.snd (Option.some.inj hleaf)
      unfold BuildState.queue codeBlock
      simp only [List.length_append, List.length_singleton]
      rw [codeJobs_of_code _ _ hcode, List.append_assoc]
      rfl
    next hcode =>
      obtain ⟨m, _, hm⟩ := Option.map_eq_some_iff.1 hleaf
      obtain rfl : log = log' := congrArg Prod.snd hm
      exact queue_cons rfl (Bool.eq_false_iff.2 hcode)
  | @skip s log t ts hopens hcloses hleaf =>
    refine queue_cons rfl (Bool.eq_false_iff.2 ?_)
    intro hcode
    rw [leafNode?_eq, if_pos hcode] at hleaf
    exact absurd hleaf (by simp)

/-- **A run queues the code of its stream.** -/
theorem run_jobs (opened : List Element) {nodes : List Node} {log : BuildLog}
    (h : σ.run ctx = .ok (nodes, log)) (hdoc : OnDocument opened σ) : log.jobs = σ.queue := by
  revert opened
  refine run_ok_induction ?_ ?_ h
  · intro nodes log opened _
    exact (List.append_nil _).symm
  · intro σ τ nodes log hstep ih inner opened hdoc
    obtain ⟨opened', hdoc'⟩ := buildStep_onDocument hstep hdoc
    rw [ih opened' hdoc']
    exact buildStep_queue hstep hdoc fun log ts nodes log' hlt hts hrun =>
      inner _ nodes log' hlt hrun [] (start_onDocument hts)

end

/-- A build queues the code of the whole stream. -/
theorem buildTree_jobs {ctx : BuildContext} {d : Markdown.Document} {nodes : List Node}
    {log : BuildLog} (h : buildTree ctx (Token.ofDocument d) = .ok (nodes, log)) :
    log.jobs = codeJobs 0 (Token.ofDocument d) := by
  have hrun : (BuildState.start {} (Token.ofDocument d)).run ctx = .ok (nodes, log) := h
  exact run_jobs [] hrun (start_onDocument (documentScan_ofDocument d))

end Docweave
