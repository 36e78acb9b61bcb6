import Docweave.Proofs.IsolatedDocuments

/-!
# Workers in any order

A build processes its documents by workers, several at a time. `DocumentStep` lists
what can happen next: the work on the next document in turn starts, when there is a
worker for it, or a worker is through with a document. Nothing is said about which
of them is through first. Documents whose artifacts are apart do not notice: each
has the result that it has alone, and the disk and the record come out as if the
documents had been processed in turn.

> `documentRun_steps`, `exists_documentStep`: every run ends, and can go on until
> then.

> `documentRun_in_turn`: documents in turn are a run.

> `documentRun_merged`: what a run keeps.

> `tally_once`: every result is counted once, and the counts keep the order.

> `workers_in_any_order`: what all runs come to.
-/

namespace Docweave

open Docweave.Path (rooted Names IsName liesBelow)
open Workspace Project

/-! ## The pool -/

/-- How far the work on a document has come. -/
inductive WorkState
  | waiting
  | running
  | finished (r : ProcessResult)

namespace WorkState

/-- The work takes up a worker. -/
def isRunning : WorkState → Bool
  | running => true
  | _ => false

def isStarted : WorkState → Bool
  | waiting => false
  | _ => true

def isFinished : WorkState → Bool
  | finished _ => true
  | _ => false

def result? : WorkState → Option ProcessResult
  | finished r => some r
  | _ => none

end WorkState

/-- The work on documents, in their order, and the workspace that the workers
share. -/
structure DocumentPool where
  work : List WorkState
  workspace : Workspace

namespace DocumentPool

/-- The pool before the work on the first document. -/
def start (docs : List Text) (w : Workspace) : DocumentPool :=
  ⟨List.replicate docs.length .waiting, w⟩

/-- The results so far, in the order of the documents. -/
def results (p : DocumentPool) : List ProcessResult := p.work.filterMap WorkState.result?

/-- The work on all documents is through. -/
def Finished (p : DocumentPool) : Prop := ∀ c ∈ p.work, ∃ r, c = .finished r

end DocumentPool

/-- What can happen next, with a number of workers. What a worker does with a
document counts as done when it is through. -/
inductive DocumentStep (s : TransformSettings) (workers : Nat) (docs : List Text) :
    DocumentPool → DocumentPool → Prop
  /-- The work on the next document in turn starts. -/
  | start {p i} (hwaiting : p.work[i]? = some .waiting)
      (hturn : ∀ j < i, p.work[j]? ≠ some .waiting)
      (hroom : p.work.countP WorkState.isRunning < workers) :
      DocumentStep s workers docs p { p with work := p.work.set i .running }
  /-- A worker is through with a document. -/
  | finish {p i path} (hrunning : p.work[i]? = some .running) (hpath : docs[i]? = some path) :
      DocumentStep s workers docs p
        ⟨p.work.set i (.finished (processFile s false path p.workspace).1),
          (processFile s false path p.workspace).2⟩

/-- The pools that a number of steps can lead to. -/
inductive DocumentRun (s : TransformSettings) (workers : Nat) (docs : List Text) (w : Workspace) :
    Nat → DocumentPool → Prop
  | start : DocumentRun s workers docs w 0 (.start docs w)
  | step {n p q} : DocumentRun s workers docs w n p → DocumentStep s workers docs p q →
      DocumentRun s workers docs w (n + 1) q

/-! ## Every run ends -/

section

variable {s : TransformSettings} {workers n : Nat} {docs : List Text} {w : Workspace} {p q : DocumentPool}

/-- A run has taken a step for every start and for every end. -/
theorem documentRun_count (hrun : DocumentRun s workers docs w n p) :
    p.work.length = docs.length ∧
      n = p.work.countP WorkState.isStarted + p.work.countP WorkState.isFinished := by
  induction hrun with
  | start =>
    refine ⟨List.length_replicate .., ?_⟩
    rw [DocumentPool.start, List.countP_replicate, List.countP_replicate]
    rfl
  | @step n p q _ hstep ih =>
    obtain ⟨hlen, hcount⟩ := ih
    cases hstep with
    | @start i hwaiting hturn hroom =>
      obtain ⟨hi, hget⟩ := List.getElem?_eq_some_iff.1 hwaiting
      refine ⟨by rw [List.length_set, hlen], ?_⟩
      rw [List.countP_set hi, List.countP_set hi, hget]
      simp only [WorkState.isStarted, WorkState.isFinished, if_true, Bool.false_eq_true, if_false]
      omega
    | @finish i path hrunning hpath =>
      obtain ⟨hi, hget⟩ := List.getElem?_eq_some_iff.1 hrunning
      have hstarted : 0 < p.work.countP WorkState.isStarted :=
        List.countP_pos_iff.2 ⟨_, List.mem_of_getElem? hrunning, rfl⟩
      refine ⟨by rw [List.length_set, hlen], ?_⟩
      rw [List.countP_set hi, List.countP_set hi, hget]
      simp only [WorkState.isStarted, WorkState.isFinished, if_true, Bool.false_eq_true, if_false]
      omega

theorem documentRun_steps (hrun : DocumentRun s workers docs w n p) : n ≤ 2 * docs.length := by
  obtain ⟨hlen, hcount⟩ := documentRun_count hrun
  have hstarted := @List.countP_le_length _ WorkState.isStarted p.work
  have hfinished := @List.countP_le_length _ WorkState.isFinished p.work
  omega

/-- A pool that is not through can take a step: a worker that is busy gets through,
and where none is, the work on the next document can start. -/
theorem exists_documentStep (hlen : p.work.length = docs.length) (hworkers : 0 < workers)
    (hp : ¬ p.Finished) : ∃ q, DocumentStep s workers docs p q := by
  by_cases hbusy : .running ∈ p.work
  · obtain ⟨i, hi⟩ := List.mem_iff_getElem?.1 hbusy
    have hlt : i < docs.length := hlen ▸ (List.getElem?_eq_some_iff.1 hi).1
    exact ⟨_, .finish hi (List.getElem?_eq_getElem hlt)⟩
  · -- what is neither running nor finished is waiting
    have hwaiting : ∃ c ∈ p.work, c.isStarted = false := by
      unfold DocumentPool.Finished at hp
      rw [Classical.not_forall] at hp
      obtain ⟨c, hc⟩ := hp
      rw [Classical.not_imp] at hc
      obtain ⟨hmem, hc⟩ := hc
      cases c with
      | waiting => exact ⟨_, hmem, rfl⟩
      | running => exact absurd hmem hbusy
      | finished r => exact absurd ⟨r, rfl⟩ hc
    have hfirst : p.work.findIdx (fun c => !c.isStarted) < p.work.length := by
      refine List.findIdx_lt_length_of_exists ?_
      obtain ⟨c, hmem, hc⟩ := hwaiting
      exact ⟨c, hmem, by simp [hc]⟩
    have hnone : p.work.countP WorkState.isRunning = 0 := by
      rw [List.countP_eq_zero]
      intro c hc hrunning
      cases c with
      | waiting => exact absurd hrunning (by simp [WorkState.isRunning])
      | running => exact hbusy hc
      | finished r => exact absurd hrunning (by simp [WorkState.isRunning])
    refine ⟨_, .start (i := p.work.findIdx fun c => !c.isStarted) ?_ (fun j hj hj' => ?_) (by omega)⟩
    · have hget := List.findIdx_getElem (w := hfirst)
      rw [List.getElem?_eq_getElem hfirst]
      generalize p.work[p.work.findIdx fun c => !c.isStarted] = c at hget
      cases c with
      | waiting => rfl
      | running => exact absurd hget (by simp [WorkState.isStarted])
      | finished r => exact absurd hget (by simp [WorkState.isStarted])
    · obtain ⟨hlt, hget⟩ := List.getElem?_eq_some_iff.1 hj'
      have hnot := List.not_of_lt_findIdx hj
      rw [hget] at hnot
      exact absurd hnot (by simp [WorkState.isStarted])

/-! ## Documents in turn -/

/-- The work on the document behind those that are through. -/
theorem documentRun_next {front rest : List Text} {x : Text} {rs : List ProcessResult} {w' : Workspace}
    (hworkers : 0 < workers) (hlen : rs.length = front.length)
    (hrun : DocumentRun s workers (front ++ x :: rest) w n
      ⟨rs.map .finished ++ List.replicate (x :: rest).length .waiting, w'⟩) :
    DocumentRun s workers (front ++ x :: rest) w (n + 2)
      ⟨(rs ++ [(processFile s false x w').1]).map .finished ++ List.replicate rest.length .waiting,
        (processFile s false x w').2⟩ := by
  -- the document is at the first place behind the results
  have hset : ∀ c c' : WorkState,
      (rs.map WorkState.finished ++ c :: List.replicate rest.length .waiting).set rs.length c' =
        rs.map WorkState.finished ++ c' :: List.replicate rest.length .waiting := by
    intro c c'
    rw [List.set_append_right _ _ (by simp)]
    simp
  have hget : ∀ c : WorkState,
      (rs.map WorkState.finished ++ c :: List.replicate rest.length .waiting)[rs.length]? = some c := by
    intro c
    rw [List.getElem?_append_right (by simp)]
    simp
  have hpath : (front ++ x :: rest)[rs.length]? = some x := by
    rw [hlen, List.getElem?_append_right (Nat.le_refl _)]
    simp
  have hstart := hrun.step (.start (hget .waiting) (fun j hj hj' => ?_) ?_)
  · rw [List.length_cons, List.replicate_succ, hset] at hstart
    have hfinish := hstart.step (.finish (hget .running) hpath)
    rw [hset] at hfinish
    rw [List.map_append, List.append_assoc]
    exact hfinish
  · rw [List.getElem?_append_left (by simpa using hj), List.getElem?_map] at hj'
    obtain ⟨r, -, hr⟩ := Option.map_eq_some_iff.1 hj'
    exact absurd hr (by simp)
  · have hnone : (rs.map WorkState.finished ++ List.replicate (x :: rest).length WorkState.waiting).countP
        WorkState.isRunning = 0 := by
      rw [List.countP_eq_zero]
      intro c hc
      rcases List.mem_append.1 hc with hc | hc
      · obtain ⟨r, -, rfl⟩ := List.mem_map.1 hc
        simp [WorkState.isRunning]
      · rw [List.eq_of_mem_replicate hc]
        simp [WorkState.isRunning]
    exact Nat.lt_of_le_of_lt (Nat.le_of_eq hnone) hworkers

theorem documentRun_rest {front rest : List Text} {rs : List ProcessResult} {w' : Workspace}
    (hworkers : 0 < workers) (hlen : rs.length = front.length)
    (hrun : DocumentRun s workers (front ++ rest) w n
      ⟨rs.map .finished ++ List.replicate rest.length .waiting, w'⟩) :
    DocumentRun s workers (front ++ rest) w (n + 2 * rest.length)
      ⟨(rs ++ (processAll s rest w').1).map .finished, (processAll s rest w').2⟩ := by
  induction rest generalizing front rs w' n with
  | nil =>
    rw [processAll, List.append_nil]
    simpa using hrun
  | cons x rest ih =>
    have hnext := documentRun_next hworkers hlen hrun
    rw [List.append_cons] at hnext ⊢
    have hlast := ih (by simp [hlen]) hnext
    have hresults : rs ++ [(processFile s false x w').1] ++ (processAll s rest (processFile s false x w').2).1 =
        rs ++ (processAll s (x :: rest) w').1 := List.append_assoc ..
    rw [hresults] at hlast
    rw [List.length_cons, show n + 2 * (rest.length + 1) = n + 2 + 2 * rest.length by omega]
    exact hlast

/-- **Documents in turn are a run.** -/
theorem documentRun_in_turn (s : TransformSettings) (hworkers : 0 < workers) (docs : List Text) (w : Workspace) :
    DocumentRun s workers docs w (2 * docs.length)
      ⟨(processAll s docs w).1.map .finished, (processAll s docs w).2⟩ := by
  have hrun := @documentRun_rest s workers 0 w [] docs [] w hworkers rfl .start
  rw [List.nil_append, Nat.zero_add] at hrun
  exact hrun

/-! ## What a run keeps -/

/-- The documents that the workers are through with. -/
def DocumentPool.Done (docs : List Text) (p : DocumentPool) (x : Text) : Prop :=
  ∃ (i : Nat) (r : ProcessResult), docs[i]? = some x ∧ p.work[i]? = some (.finished r)

/-- What every run keeps: a result is that of its document alone, and so is what the
document has left. -/
structure PoolMerged (s : TransformSettings) (docs : List Text) (w : Workspace) (p : DocumentPool) : Prop where
  results : ∀ (i : Nat) x r, docs[i]? = some x → p.work[i]? = some (.finished r) → r = (processFile s false x w).1
  merged : Merged s w (p.Done docs) p.workspace

theorem done_mem {x : Text} (h : p.Done docs x) : x ∈ docs := by
  obtain ⟨i, r, hi, -⟩ := h
  exact List.mem_of_getElem? hi

theorem start_poolMerged (htree : w.disk.IsTree) : PoolMerged s docs w (.start docs w) := by
  have hnone : ∀ (i : Nat) r, (DocumentPool.start docs w).work[i]? ≠ some (.finished r) := by
    intro i r hi
    exact absurd (List.eq_of_mem_replicate (List.mem_of_getElem? hi)) (by simp)
  refine ⟨fun i x r _ hi => absurd hi (hnone i r), (merged_start htree).congr fun x => ?_⟩
  exact ⟨False.elim, fun ⟨i, r, _, hi⟩ => hnone i r hi⟩

/-- A start gives no result, and an end one for the document that it is about. -/
theorem getElem?_set_finished {work : List WorkState} {i j : Nat} {c : WorkState} {r : ProcessResult}
    (hi : i < work.length) :
    (work.set i c)[j]? = some (.finished r) ↔
      if j = i then c = .finished r else work[j]? = some (.finished r) := by
  by_cases hj : j = i
  · rw [if_pos hj, hj, List.getElem?_set_self hi, Option.some.injEq]
  · rw [if_neg hj, List.getElem?_set_ne fun heq => hj heq.symm]

theorem documentStep_poolMerged (hiso : Isolated s w.disk docs) (hnodup : docs.Nodup)
    (h : PoolMerged s docs w p) (hstep : DocumentStep s workers docs p q) : PoolMerged s docs w q := by
  cases hstep with
  | @start i hwaiting hturn hroom =>
    obtain ⟨hi, -⟩ := List.getElem?_eq_some_iff.1 hwaiting
    have hsame : ∀ (j : Nat) r,
        (p.work.set i .running)[j]? = some (.finished r) ↔ p.work[j]? = some (.finished r) := by
      intro j r
      rw [getElem?_set_finished hi]
      split
      next hj =>
        rw [hj, hwaiting]
        simp
      next => exact Iff.rfl
    refine ⟨fun j x r hj hr => h.results j x r hj ((hsame j r).1 hr), h.merged.congr fun x => ?_⟩
    unfold DocumentPool.Done
    simp only [hsame]
  | @finish i path hrunning hpath =>
    obtain ⟨hi, -⟩ := List.getElem?_eq_some_iff.1 hrunning
    have hnew : ¬ p.Done docs path := by
      rintro ⟨j, r, hj, hr⟩
      -- a document is there once, and its work is not through
      have hij : j = i :=
        (List.getElem?_inj (List.getElem?_eq_some_iff.1 hj).1 hnodup).1 (hj.trans hpath.symm)
      rw [hij, hrunning] at hr
      exact absurd hr (by simp)
    obtain ⟨hresult, hmerged⟩ :=
      merged_step h.merged hiso (List.mem_of_getElem? hpath) (fun x => done_mem) hnew
    refine ⟨fun j x r hj hr => ?_, hmerged.congr fun x => ?_⟩
    · rw [getElem?_set_finished hi] at hr
      split at hr
      next hij =>
        rw [hij, hpath] at hj
        rw [← WorkState.finished.inj hr, ← Option.some.inj hj, hresult]
      next => exact h.results j x r hj hr
    · unfold DocumentPool.Done
      simp only [getElem?_set_finished hi]
      constructor
      · rintro (rfl | ⟨j, r, hj, hr⟩)
        · exact ⟨i, _, hpath, by rw [if_pos rfl]⟩
        · refine ⟨j, r, hj, ?_⟩
          rw [if_neg]
          · exact hr
          · rintro rfl
            rw [hrunning] at hr
            exact absurd hr (by simp)
      · rintro ⟨j, r, hj, hr⟩
        split at hr
        next hij =>
          rw [hij, hpath] at hj
          exact Or.inl (Option.some.inj hj).symm
        next => exact Or.inr ⟨j, r, hj, hr⟩

/-- **What a run keeps.** -/
theorem documentRun_merged (hiso : Isolated s w.disk docs) (hnodup : docs.Nodup)
    (hrun : DocumentRun s workers docs w n p) : PoolMerged s docs w p := by
  induction hrun with
  | start => exact start_poolMerged hiso.tree
  | step _ hstep ih => exact documentStep_poolMerged hiso hnodup ih hstep

/-- A pool that is through has the results of all documents, in their order. -/
theorem results_of_finished (h : PoolMerged s docs w p) (hlen : p.work.length = docs.length)
    (hp : p.Finished) : p.results = docs.map fun x => (processFile s false x w).1 := by
  have hwork : p.work = docs.map fun x => WorkState.finished (processFile s false x w).1 := by
    apply List.ext_getElem?
    intro i
    rw [List.getElem?_map]
    by_cases hi : i < docs.length
    · have hi' : i < p.work.length := hlen ▸ hi
      obtain ⟨r, hr⟩ := hp _ (List.getElem_mem hi')
      have hget : p.work[i]? = some (.finished r) := by rw [List.getElem?_eq_getElem hi', hr]
      rw [hget, List.getElem?_eq_getElem hi, h.results i _ r (List.getElem?_eq_getElem hi) hget]
      rfl
    · rw [List.getElem?_eq_none (by omega), List.getElem?_eq_none (by omega)]
      rfl
  rw [DocumentPool.results, hwork, List.filterMap_map]
  exact congrFun (@List.filterMap_eq_map _ _ fun x => (processFile s false x w).1) docs

theorem done_of_finished (hlen : p.work.length = docs.length) (hp : p.Finished) (x : Text) :
    p.Done docs x ↔ x ∈ docs ∨ False := by
  rw [or_false]
  constructor
  · exact done_mem
  · intro hx
    obtain ⟨i, hi⟩ := List.mem_iff_getElem?.1 hx
    have hi' : i < p.work.length := hlen ▸ (List.getElem?_eq_some_iff.1 hi).1
    obtain ⟨r, hr⟩ := hp _ (List.getElem_mem hi')
    exact ⟨i, r, hi, by rw [List.getElem?_eq_getElem hi', hr]⟩

end

/-! ## Counting results -/

/-- Documents are counted: each once, as compiled, skipped or failed, and in order. -/
structure CountedOnce (docs : List Text) (res : BuildResult) : Prop where
  once : ∃ skipped : List Text, skipped.length = res.skipped ∧
    (res.compiled.map (·.source) ++ skipped ++ res.failed.map (·.path)).Perm docs
  compiled : (res.compiled.map (·.source)).Sublist docs
  failed : (res.failed.map (·.path)).Sublist docs

/-- **Every result is counted once.** -/
theorem tally_once {rs : List ProcessResult}
    (hsource : ∀ r ∈ rs, r.fault = none → r.output.source = r.path) :
    CountedOnce (rs.map (·.path)) (tally rs) := by
  have hcompiled : (tally rs).compiled.map (·.source) =
      (rs.filter fun r => r.fault.isNone && !r.output.skipped).map (·.path) := by
    rw [tally, List.map_map]
    refine List.map_congr_left fun r hr => ?_
    obtain ⟨hmem, hkept⟩ := List.mem_filter.1 hr
    rw [Bool.and_eq_true, Option.isNone_iff_eq_none] at hkept
    exact hsource r hmem hkept.1
  refine ⟨⟨(rs.filter fun r => r.fault.isNone && r.output.skipped).map (·.path), ?_, ?_⟩, ?_, ?_⟩
  · rw [List.length_map]
    rfl
  · rw [hcompiled, tally, ← List.map_append, ← List.map_append]
    refine List.Perm.map _ ?_
    have hgood := List.filter_append_perm (fun r : ProcessResult => !r.output.skipped)
      (rs.filter (·.fault.isNone))
    have hall := List.filter_append_perm (fun r : ProcessResult => r.fault.isNone) rs
    simp only [List.filter_filter, Bool.not_not] at hgood
    simp only [Option.not_isNone] at hall
    simp only [Bool.and_comm] at hgood ⊢
    exact (hgood.append_right _).trans hall
  · rw [hcompiled]
    exact List.filter_sublist.map _
  · exact List.filter_sublist.map _

/-- The result of a document is about the document. -/
theorem Located.result {s : TransformSettings} {d : Disk} {x : Text} {folder : Place} {stem : Text}
    (h : Located s d x folder stem) (w : Workspace) :
    (Project.processFile s false x w).1.path = x ∧
      ((Project.processFile s false x w).1.fault = none →
        (Project.processFile s false x w).1.output.source = x) := by
  generalize ht : w.transform s false x = result
  obtain ⟨out, f, w'⟩ := result
  rw [h.processFile ht]
  refine ⟨rfl, fun hnone => ?_⟩
  obtain rfl : f = none := hnone
  cases transformed_of_eq ht with
  | skipped => rfl
  | written => rfl

/-- **Workers in any order.** Documents of a project are processed by some workers,
and no artifact of one is an artifact of another or above one. Then every run ends,
and however it went: every document has the result that it has when it is processed
alone, and the artifacts that it leaves alone, whatever becomes of the others; it is
counted once, and the counts are in order; and the disk looks, and the record says,
what they do when the documents are processed in turn. -/
theorem workers_in_any_order {s : BuildSettings} (hsrc : Path.IsCleanRooted s.srcRoot)
    (hcache : Path.IsCleanRooted s.cacheDir) {w : Workspace} (htree : w.disk.IsTree) {found docs : List Text}
    (hfound : findDocuments s.srcRoot w.disk = .ok found) (hdocs : docs.Sublist found)
    (hapart : ∀ x ∈ docs, ∀ y ∈ docs, x ≠ y → ArtifactsApart s.toTransformSettings x y)
    {workers n : Nat} {p : DocumentPool} (hrun : DocumentRun s.toTransformSettings workers docs w n p) :
    (n ≤ 2 * docs.length ∧
      (0 < workers → p.Finished ∨ ∃ q, DocumentStep s.toTransformSettings workers docs p q)) ∧
    (p.Finished →
      p.results = docs.map (fun x => (processFile s.toTransformSettings false x w).1) ∧
      p.results = (processAll s.toTransformSettings docs w).1 ∧
      (∀ x ∈ docs, ∀ a, resolveArtifacts s.srcRoot s.cacheDir x = .ok a → ∀ f ∈ filesOf a,
        p.workspace.disk.text? f = (processFile s.toTransformSettings false x w).2.disk.text? f) ∧
      (∀ q, p.workspace.disk.look q = (processAll s.toTransformSettings docs w).2.disk.look q) ∧
      (∀ x, p.workspace.recorded? x = (processAll s.toTransformSettings docs w).2.recorded? x) ∧
      docs.Nodup ∧ docs.Pairwise (fun x y => Text.le x y = true) ∧ CountedOnce docs (tally p.results)) := by
  obtain ⟨S, hS, hSroot⟩ := hsrc.exists_names
  obtain ⟨C, hC, hCroot⟩ := hcache.exists_names
  have hiso := isolated_of_found (s := s.toTransformSettings) hS hC hSroot hCroot htree hfound hdocs hapart
  have hnodup : docs.Nodup := hdocs.nodup (nodup_findDocuments hS htree (hSroot ▸ hfound))
  have hmerged := documentRun_merged hiso hnodup hrun
  obtain ⟨hlen, -⟩ := documentRun_count hrun
  refine ⟨⟨documentRun_steps hrun, fun hworkers => ?_⟩, fun hfinished => ?_⟩
  · by_cases hp : p.Finished
    · exact Or.inl hp
    · exact Or.inr (exists_documentStep hlen hworkers hp)
  · have hresults := results_of_finished hmerged hlen hfinished
    have hall := hmerged.merged.congr (done_of_finished hlen hfinished)
    have hnew : ∀ x ∈ docs, x ∈ docs ∧ ¬ False := fun x hx => ⟨hx, id⟩
    obtain ⟨hresults', hturn⟩ := processAll_merged (merged_start hiso.tree) hiso hnew hnodup fun _ => False.elim
    obtain ⟨hlook, hrecord⟩ := merged_unique hall hturn
    refine ⟨hresults, hresults.trans hresults'.symm, fun x hx a ha f hf => ?_, hlook, hrecord, hnodup,
      (sorted_findDocuments hfound).sublist hdocs, ?_⟩
    · obtain ⟨folder, stem, hloc⟩ := hiso.located x hx
      obtain rfl := Except.ok.inj (hloc.artifacts.symm.trans ha)
      obtain ⟨ext, hext, rfl⟩ := mem_filesOf_rooted.1 hf
      have hnames := names_stem hloc.names hloc.slash (List.mem_cons_of_mem documentExt hext)
      rw [text?_rooted hnames, text?_rooted hnames]
      exact textAt?_of_look (hmerged.merged.own hiso hx hloc (fun y => done_mem)
        ((done_of_finished hlen hfinished x).2 (Or.inl hx)) ⟨ext, hext, rfl⟩)
    · rw [hresults]
      have hpaths : (docs.map fun x => (processFile s.toTransformSettings false x w).1).map (·.path) = docs := by
        rw [List.map_map]
        refine (List.map_congr_left fun x hx => ?_).trans (List.map_id docs)
        obtain ⟨folder, stem, hloc⟩ := hiso.located x hx
        exact (hloc.result w).1
      have hsource : ∀ r ∈ docs.map (fun x => (processFile s.toTransformSettings false x w).1),
          r.fault = none → r.output.source = r.path := by
        intro r hr hnone
        obtain ⟨x, hx, rfl⟩ := List.mem_map.1 hr
        obtain ⟨folder, stem, hloc⟩ := hiso.located x hx
        rw [(hloc.result w).1, (hloc.result w).2 hnone]
      have hcounted := tally_once hsource
      rw [hpaths] at hcounted
      exact hcounted

/-! ## Two documents -/

/-- Settings of a project with its sources in one folder and the cache in another. -/
def pairSettings : BuildSettings :=
  { highlighter := plainHighlighter .github, parser := fun _ _ => [], srcRoot := "/src", cacheDir := "/cache" }

def soundPath : Text := "/src/a.v.md"

def brokenPath : Text := "/src/b.v.md"

/-- A project with two documents, the second of which does not compile. -/
def pairWorkspace : Workspace :=
  { disk := { entries := [(["src"], .folder), (["src", "a.v.md"], .file "# A\n" 5),
      (["src", "b.v.md"], .file "[\n" 6)], clock := 9 } }

/-- The pool when two workers are through with them, with the second document
first. -/
def pairPool : DocumentPool :=
  let broken := processFile pairSettings.toTransformSettings false brokenPath pairWorkspace
  let sound := processFile pairSettings.toTransformSettings false soundPath broken.2
  ⟨[.finished sound.1, .finished broken.1], sound.2⟩

theorem pair_run :
    DocumentRun pairSettings.toTransformSettings 2 [soundPath, brokenPath] pairWorkspace 4 pairPool := by
  have hnone : DocumentRun pairSettings.toTransformSettings 2 [soundPath, brokenPath] pairWorkspace 0
      ⟨[.waiting, .waiting], pairWorkspace⟩ := .start
  have hfirst := hnone.step (.start (i := 0) rfl (fun j hj => absurd hj (by omega)) (by decide))
  have hsecond := hfirst.step (.start (i := 1) rfl (fun j hj => ?_) (by decide))
  · exact (hsecond.step (.finish (i := 1) rfl rfl)).step (.finish (i := 0) rfl rfl)
  · obtain rfl : j = 0 := by omega
    exact fun h => absurd h (by simp)

theorem pair_found :
    findDocuments pairSettings.srcRoot pairWorkspace.disk = .ok [soundPath, brokenPath] := by
  have hrules : rulesOf pairSettings.srcRoot pairWorkspace.disk = [IgnoreRule.ofText ".git/"] := rfl
  have hroot : pairWorkspace.disk.entryOf pairSettings.srcRoot = .ok .folder := rfl
  have hnames : pairWorkspace.disk.listing pairSettings.srcRoot =
      .ok [("a.v.md", false), ("b.v.md", false)] := by
    have hsorted : List.Pairwise (fun a b : Text × Bool => Text.le a.1 b.1 = true)
        [("a.v.md", false), ("b.v.md", false)] := by decide +kernel
    exact congrArg Except.ok (List.mergeSort_of_pairwise hsorted)
  have hvisit : ∀ found, findVisit pairSettings.srcRoot [IgnoreRule.ofText ".git/"] pairSettings.srcRoot true
      (pairWorkspace.disk, found) = (.ok .enter, (pairWorkspace.disk, found)) := fun _ => rfl
  have hsound : ∀ found, findVisit pairSettings.srcRoot [IgnoreRule.ofText ".git/"]
      (Path.join pairSettings.srcRoot "a.v.md") false (pairWorkspace.disk, found) =
        (.ok .enter, (pairWorkspace.disk, soundPath :: found)) := fun _ => rfl
  have hbroken : ∀ found, findVisit pairSettings.srcRoot [IgnoreRule.ofText ".git/"]
      (Path.join pairSettings.srcRoot "b.v.md") false (pairWorkspace.disk, found) =
        (.ok .enter, (pairWorkspace.disk, brokenPath :: found)) := fun _ => rfl
  have hsort : Text.sort [brokenPath, soundPath] = [soundPath, brokenPath] := by
    refine List.Perm.eq_of_pairwise (fun x y _ _ hxy hyx => ?_) (Text.sort_sorted _) (by decide +kernel)
      ((List.mergeSort_perm ..).trans (.swap ..))
    exact List.le_antisymm (Text.le_iff.1 hxy) (Text.le_iff.1 hyx)
  unfold findDocuments Disk.walk Disk.maxDepth
  simp only [hrules, hroot, Entry.isFolder, Disk.walkFrom, Disk.walkEach, hnames, hvisit, hsound, hbroken,
    reduceCtorEq, decide_false, Bool.or_false, Bool.not_true, Bool.not_false, Bool.false_eq_true,
    if_false, if_true, hsort]

/-- The document that compiles has its component, although the other one failed
before it. -/
theorem workers_in_any_order_pair :
    pairPool.results.map (·.fault.isNone) = [true, false] ∧
      pairPool.workspace.disk.text? "/cache/a.vue" = some "<template>\n<h1>A</h1>\n</template>\n" ∧
      CountedOnce [soundPath, brokenPath] (tally pairPool.results) := by
  have hfinished : pairPool.Finished := by
    intro c hc
    simp only [pairPool, List.mem_cons, List.not_mem_nil, or_false] at hc
    rcases hc with rfl | rfl
    · exact ⟨_, rfl⟩
    · exact ⟨_, rfl⟩
  obtain ⟨-, hall⟩ := workers_in_any_order (s := pairSettings) (by decide) (by decide) (by decide) pair_found
    (List.Sublist.refl _) (by decide +kernel) pair_run
  obtain ⟨hresults, -, hartifacts, -, -, -, -, hcounted⟩ := hall hfinished
  refine ⟨?_, ?_, hcounted⟩
  · rw [hresults]
    decide +kernel
  · rw [hartifacts soundPath (by simp) (.ofBase "/cache/a") rfl _ (by decide)]
    decide +kernel

/-! ## Artifacts above artifacts -/

/-- A project with a document in a folder that is called like a component. -/
def nestedWorkspace : Workspace :=
  { disk := { entries := [(["src"], .folder), (["src", "a.v.md"], .file "# A\n" 5),
      (["src", "a.vue"], .folder), (["src", "a.vue", "b.v.md"], .file "# B\n" 6)], clock := 9 } }

def nestedPath : Text := "/src/a.vue/b.v.md"

/-- Artifacts that are not the same can still be in each other's way. Both documents
compile alone, but behind the first one the second one fails: its artifacts are to be
in a folder, and in the place of that folder there is a component. -/
theorem component_in_place_of_folder :
    (∀ a ∈ (resolveArtifacts pairSettings.srcRoot pairSettings.cacheDir soundPath).toOption,
      ∀ b ∈ (resolveArtifacts pairSettings.srcRoot pairSettings.cacheDir nestedPath).toOption,
        ∀ f ∈ filesOf a, f ∉ filesOf b) ∧
      (∀ x ∈ [soundPath, nestedPath],
        (processFile pairSettings.toTransformSettings false x nestedWorkspace).1.fault.isNone = true) ∧
      ∃ p, DocumentRun pairSettings.toTransformSettings 1 [soundPath, nestedPath] nestedWorkspace 4 p ∧
        p.Finished ∧ p.results.map (·.fault.isNone) = [true, false] := by
  refine ⟨by decide +kernel, by decide +kernel, _,
    documentRun_in_turn pairSettings.toTransformSettings Nat.one_pos [soundPath, nestedPath] nestedWorkspace, ?_, ?_⟩
  · intro c hc
    obtain ⟨r, -, rfl⟩ := List.mem_map.1 hc
    exact ⟨r, rfl⟩
  · decide +kernel

end Docweave
