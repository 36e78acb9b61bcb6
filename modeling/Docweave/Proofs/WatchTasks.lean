import Docweave.Project.Watch
import Docweave.Proofs.AlikeDisks
import Docweave.Proofs.CleanupVisits

/-!
# What a watcher does about a document

Events about a document come in many orders: an editor may remove a file, create
it anew, rename another one to it, and write it twice. The work is put off, and
what is put off last counts. The work then looks at the disk again: it compiles
what is there, or removes the artifacts when there is nothing.

> `noticeAll_last`: events about a document leave one task, that of the last one.

> `settle_once`: that task is done once, and reported.

> `perform_present`: a document that is there is compiled, whatever the record says.

> `perform_absent`: of a document that is gone nothing is left.
-/

namespace Docweave

open Docweave.Path (IsCleanRooted)
open Workspace

/-! ## Events -/

namespace Watcher

/-- Takes notice of events one after the other, each with the disk at that time. -/
def noticeAll (w : Watcher) : List (WatchEvent × Disk) → Watcher
  | [] => w
  | (e, d) :: rest => (w.notice e d).noticeAll rest

/-- Something was done to a document, and it is not that a folder came into its
place. -/
structure Concerns (path : Text) (e : WatchEvent) (d : Disk) : Prop where
  at_path : e.path = path
  ops : ∃ op ∈ e.ops, op ≠ .chmod
  no_folder : isFolderAt d path = false

section

variable {path : Text} {e : WatchEvent} {d : Disk} {task task' : WatchTask} {w : Watcher}

/-- Everything but a change of rights asks for work. -/
theorem exists_task {ops : List WatchOp} (h : ∃ op ∈ ops, op ≠ .chmod) : ∃ task, taskOf? ops = some task := by
  obtain ⟨op, hop, hne⟩ := h
  have hthere : ops.contains op = true := List.contains_iff_mem.2 hop
  unfold taskOf?
  cases op with
  | chmod => exact absurd rfl hne
  | remove => simp only [hthere, Bool.true_or, if_true, Option.some.injEq, exists_eq']
  | rename => simp only [hthere, Bool.or_true, if_true, Option.some.injEq, exists_eq']
  | create =>
    split
    next => exact ⟨_, rfl⟩
    next => simp only [hthere, Bool.true_or, if_true, Option.some.injEq, exists_eq']
  | write =>
    split
    next => exact ⟨_, rfl⟩
    next => simp only [hthere, Bool.or_true, if_true, Option.some.injEq, exists_eq']

theorem notice_schedules (hext : Text.endsWith path documentExt = true) (h : Concerns path e d)
    (htask : taskOf? e.ops = some task) : w.notice e d = w.schedule path task := by
  unfold notice
  rw [h.at_path, h.no_folder, Bool.and_false, if_neg (by simp), if_neg (by simp [hext])]
  simp only [htask]

/-- What is put off replaces what was put off before. -/
theorem schedule_schedule (w : Watcher) (path : Text) (task task' : WatchTask) :
    (w.schedule path task).schedule path task' = w.schedule path task' := by
  unfold schedule
  simp only [List.filter_append, List.filter_filter, Bool.and_self]
  simp

/-- **The last event counts.** -/
theorem noticeAll_last (hext : Text.endsWith path documentExt = true) {events : List (WatchEvent × Disk)}
    (hne : events ≠ []) (hevents : ∀ x ∈ events, Concerns path x.1 x.2) (w : Watcher) :
    ∃ task, taskOf? (events.getLast hne).1.ops = some task ∧ w.noticeAll events = w.schedule path task := by
  induction events generalizing w with
  | nil => exact absurd rfl hne
  | cons x rest ih =>
    have hx := hevents x (List.mem_cons_self ..)
    obtain ⟨task, htask⟩ := exists_task hx.ops
    have hfirst : w.noticeAll (x :: rest) = (w.schedule path task).noticeAll rest := by
      rw [noticeAll, notice_schedules hext hx htask]
    cases rest with
    | nil => exact ⟨task, htask, hfirst⟩
    | cons y rest =>
      obtain ⟨last, hlast, hrest⟩ :=
        ih (by simp) (fun z hz => hevents z (List.mem_cons_of_mem _ hz)) (w.schedule path task)
      refine ⟨last, hlast, ?_⟩
      rw [hfirst, hrest, schedule_schedule]

end

end Watcher

/-! ## Compiling what is there -/

section

variable {s : TransformSettings} {path text : Text} {w w' : Workspace} {out : Output} {f : ProcessFault}

theorem compile_not_cancelled {h : Highlighter} {schedule : Schedule} {options : CompileOptions}
    {paths : ReferencePaths} {f : CompileFault} (hf : compile h schedule options text paths = .error f) : f ≠ .cancelled := by
  unfold compile at hf
  split at hf
  next => exact Except.error.inj hf ▸ by simp
  next =>
    simp only at hf
    split at hf
    next => exact Except.error.inj hf ▸ by simp
    next =>
      split at hf
      next => exact Except.error.inj hf ▸ by simp
      next =>
        split at hf
        next => exact Except.error.inj hf ▸ by simp
        next => exact absurd hf (by simp)

theorem compileSource_not_cancelled {a : Artifacts} (hf : compileSource s false a text = .error f) :
    f.isCancelled = false := by
  unfold compileSource at hf
  split at hf
  next => exact Except.error.inj hf ▸ rfl
  next =>
    split at hf
    next => exact Except.error.inj hf ▸ rfl
    next paths _ =>
      cases hcompiled : compileUnless false s.highlighter s.schedule s.options text paths with
      | ok c =>
        rw [hcompiled] at hf
        exact absurd (show Except.ok c = Except.error f from hf) (by simp)
      | error g =>
        rw [hcompiled] at hf
        obtain rfl := Except.error.inj hf
        have hg : g ≠ .cancelled := compile_not_cancelled hcompiled
        cases g with
        | cancelled => exact absurd rfl hg
        | _ => rfl

/-- A transform that fails was not skipped, and was not called off. -/
theorem transform_failed (h : w.transform s false path = (out, some f, w')) :
    out.skipped = false ∧ f.isCancelled = false := by
  unfold transform at h
  split at h
  next => cases h; exact ⟨rfl, rfl⟩
  next =>
    split at h
    next => cases h; exact ⟨rfl, rfl⟩
    next a _ =>
      simp only at h
      split at h
      next => cases h
      next =>
        split at h
        next => cases h; exact ⟨rfl, rfl⟩
        next =>
          split at h
          next hrefused => cases h; exact ⟨rfl, compileSource_not_cancelled hrefused⟩
          next c _ =>
            split at h
            next hrun =>
              cases h
              rcases run_stopped hrun with ⟨stage, g, rfl⟩ | ⟨e, -, rfl, -⟩
              · exact ⟨rfl, rfl⟩
              · exact ⟨rfl, rfl⟩
            next => cases h

/-- A document that is compiled now is transformed with nothing on record. -/
theorem compileNow_eq (hpath : Path.clean path = path) (hext : Text.endsWith path documentExt = true)
    {fault : Option ProcessFault} (h : (w.forget path).transform s false path = (out, fault, w')) :
    Watcher.compileNow s false path w = (some ⟨path, ⟨path, out, fault⟩, []⟩, w') := by
  have hreported : (fault.map ProcessFault.isCancelled).getD false = false := by
    cases fault with
    | none => rfl
    | some f => exact (transform_failed h).2
  unfold Watcher.compileNow Project.processFile
  simp only [hpath, hext, if_true, h, hreported]
  rfl

theorem not_skipped_forgotten {fault : Option ProcessFault}
    (h : (w.forget path).transform s false path = (out, fault, w')) : out.skipped = false := by
  cases fault with
  | some f => exact (transform_failed h).1
  | none =>
    cases transformed_of_eq h with
    | skipped hfile hfiles hrecord =>
      rw [recorded?_forget, if_pos rfl] at hrecord
      exact absurd hrecord (by simp)
    | written => rfl

/-- A document was compiled, whatever was on record: it was not skipped, and if no
fault is reported, then its artifacts are those of the text that it had. -/
structure Recompiled (s : TransformSettings) (path : Text) (w : Workspace) (r : WatchReport) (w' : Workspace) :
    Prop where
  transformed : (w.forget path).transform s false path = (r.result.output, r.result.fault, w')
  not_skipped : r.result.output.skipped = false
  fresh : r.result.fault = none → ∃ text time a c, w.disk.stat path = .ok (.file text time) ∧
    resolveArtifacts s.srcRoot s.cacheDir path = .ok a ∧ compileSource s false a text = .ok c ∧
    w'.disk.Holds a c ∧ w'.recorded? path = some time

/-- **A document that is there is compiled,** whatever the task is. -/
theorem perform_present (hpath : Path.clean path = path) (hext : Text.endsWith path documentExt = true)
    (htree : w.disk.IsTree) (hthere : w.disk.has path = true) {task : WatchTask} {r : WatchReport}
    (h : Watcher.perform s false path task w = (some r, w')) : Recompiled s path w r w' := by
  generalize ht : (w.forget path).transform s false path = result
  obtain ⟨out, fault, w₁⟩ := result
  have hperform : Watcher.perform s false path task w = (some ⟨path, ⟨path, out, fault⟩, []⟩, w₁) := by
    unfold Watcher.perform
    rw [hthere, Bool.not_true, Bool.and_false, if_neg (by simp)]
    exact compileNow_eq hpath hext ht
  obtain ⟨hr, rfl⟩ := Prod.mk.inj (hperform.symm.trans h)
  obtain rfl := Option.some.inj hr
  refine ⟨ht, not_skipped_forgotten ht, fun hnone => ?_⟩
  obtain rfl : fault = none := hnone
  cases transformed_of_eq ht with
  | skipped hfile hfiles hrecord =>
    rw [recorded?_forget, if_pos rfl] at hrecord
    exact absurd hrecord (by simp)
  | written hfile hfiles hstale hcompiled hrun =>
    obtain ⟨folder, stem, hstand⟩ := exists_standAt w.disk.workFolder hfiles
    exact ⟨_, _, _, _, hfile, hfiles, hcompiled, holds_of_run htree hstand hrun,
      by rw [recorded?_remember, if_pos rfl]⟩

end

/-! ## Removing what is left -/

section

variable {d d' : Disk}

/-- A walk on a disk that has lost entries goes the same way on the disk before. -/
theorem walkSteps_of_shrinks (h : d.Shrinks d') {names : List Text} {p q : Place}
    (hwalk : d'.walkSteps p names = .ok q) : d.walkSteps p names = .ok q := by
  induction names generalizing p with
  | nil => exact hwalk
  | cons n names ih =>
    rw [Disk.walkSteps] at hwalk ⊢
    cases hfind : d'.find? p with
    | none =>
      rw [Disk.step, hfind] at hwalk
      exact absurd hwalk (by simp)
    | some e =>
      have hstep : d.step p n = d'.step p n := by rw [Disk.step, Disk.step, h.find hfind, hfind]
      rw [hstep]
      cases hnext : d'.step p n with
      | error c =>
        rw [hnext] at hwalk
        exact absurd hwalk (by simp)
      | ok r =>
        rw [hnext] at hwalk
        exact ih hwalk

theorem entryOf_eq_ok {path : Text} {e : Entry} :
    d.entryOf path = .ok e ↔ ∃ p, d.locate path = .ok p ∧ d.find? p = some e := by
  unfold Disk.entryOf
  cases d.locate path with
  | error c => simp
  | ok p =>
    cases hfind : d.find? p with
    | none => simp [hfind]
    | some e' => simp [hfind]

theorem has_iff {path : Text} : d.has path = true ↔ ∃ p e, d.locate path = .ok p ∧ d.find? p = some e := by
  have hentry : d.has path = true ↔ ∃ e, d.entryOf path = .ok e := by
    unfold Disk.has
    cases d.entryOf path with
    | error c => simp [Except.toBool]
    | ok e => simp [Except.toBool]
  simp only [hentry, entryOf_eq_ok]
  exact exists_comm

/-- What is missing stays missing while entries are taken away. -/
theorem missing_of_shrinks (h : d.Shrinks d') (hwork : d'.workFolder = d.workFolder) {path : Text}
    (hmissing : d.has path = false) : d'.has path = false := by
  rw [← Bool.not_eq_true, has_iff] at hmissing ⊢
  rintro ⟨p, e, hloc, hfind⟩
  refine hmissing ⟨p, e, ?_, h.find hfind⟩
  unfold Disk.locate at hloc ⊢
  split at hloc
  next => exact absurd hloc (by simp)
  next hne =>
    rw [hwork] at hloc
    rw [if_neg hne]
    exact walkSteps_of_shrinks h hloc

theorem missing_of_remove {path : Text} {f : DiskFault} (h : d.remove path = .error f)
    (hcause : f.cause = .missing) : d.has path = false := by
  rw [← Bool.not_eq_true, has_iff]
  rintro ⟨p, e, hloc, hfind⟩
  unfold Disk.remove at h
  simp only [hloc, hfind] at h
  cases e with
  | file text time => exact absurd h (by simp)
  | folder =>
    simp only at h
    split at h
    next => exact absurd h (by simp)
    next =>
      rw [← Except.error.inj h] at hcause
      exact absurd hcause (by simp)

theorem missing_of_removed {path : Text} (htree : d.IsTree) (hne : d.placeOf path ≠ [])
    (h : d.remove path = .ok d') : d'.has path = false := by
  rw [← Bool.not_eq_true, has_iff]
  rintro ⟨p, e, hloc, hfind⟩
  have htouch := Disk.remove_touches htree rfl h []
  rw [Disk.locate_eq_ok htouch.tree hloc, htouch.placeOf, (Disk.remove_eq_ok htree rfl h).1, Disk.find?_clear,
    if_pos ⟨hne, List.prefix_refl _⟩] at hfind
  exact absurd hfind (by simp)

/-- **When files are removed without a fault, none of them is left.** -/
theorem missing_of_removeFiles {files removed : List Text} (htree : d.IsTree)
    (hfiles : ∀ f ∈ files, d.placeOf f ≠ []) (h : removeFiles d files = (removed, none, d')) :
    ∀ f ∈ files, d'.has f = false := by
  induction files generalizing d removed with
  | nil => exact fun f hf => absurd hf (by simp)
  | cons x files ih =>
    -- what is missing before the others are removed stays missing
    have hlater : ∀ {d₁ : Disk} {removed : List Text}, d₁.IsTree → d₁.workFolder = d.workFolder →
        d₁.has x = false → removeFiles d₁ files = (removed, none, d') →
        ∀ f ∈ x :: files, d'.has f = false := by
      intro d₁ removed htree₁ hwork hgone hrest f hf
      have hshrinks : d₁.Shrinks (removeFiles d₁ files).2.2 := removeFiles_shrinks htree₁
      have htouch : Disk.Touches (fun _ => True) [] d₁ d' := removeFiles_touches htree₁ (fun _ _ => trivial) hrest
      rw [hrest] at hshrinks
      rcases List.mem_cons.1 hf with rfl | hf
      · exact missing_of_shrinks hshrinks htouch.workFolder hgone
      · refine ih htree₁ (fun g hg => ?_) hrest f hf
        rw [Disk.placeOf, hwork]
        exact hfiles g (List.mem_cons_of_mem _ hg)
    unfold removeFiles at h
    split at h
    next d₁ hremoved =>
      have htouch := Disk.remove_touches htree rfl hremoved []
      generalize hrest : removeFiles d₁ files = result at h
      obtain ⟨removed', fault, d₂⟩ := result
      obtain ⟨-, rfl, rfl⟩ := h
      exact hlater htouch.tree htouch.workFolder
        (missing_of_removed htree (hfiles x (List.mem_cons_self ..)) hremoved) hrest
    next g hrefused =>
      split at h
      next hcause => exact hlater htree rfl (missing_of_remove hrefused hcause) h
      next => exact absurd (Prod.mk.inj (Prod.mk.inj h).2).1 (by simp)

variable {s : TransformSettings} {path : Text} {w : Workspace}

/-- Nothing is left of a document: it is not on record, and if no fault is reported,
then it has no artifacts. -/
structure Discarded (s : TransformSettings) (path : Text) (r : WatchReport) (w' : Workspace) : Prop where
  forgotten : w'.recorded? path = none
  gone : r.result.fault = none → ∃ a, resolveArtifacts s.srcRoot s.cacheDir path = .ok a ∧
    ∀ f ∈ filesOf a, w'.disk.has f = false

/-- **Of a document that is gone nothing is left.** -/
theorem perform_absent (htree : w.disk.IsTree) (hgone : w.disk.has path = false) {r : WatchReport} {w' : Workspace}
    (h : Watcher.perform s false path .compileOrDiscard w = (some r, w')) : Discarded s path r w' := by
  have hperform : Watcher.perform s false path .compileOrDiscard w =
      (some ⟨path, ⟨path, {}, (w.discard s path).2.1⟩, (w.discard s path).1⟩, (w.discard s path).2.2) := by
    unfold Watcher.perform
    rw [hgone]
    rfl
  obtain ⟨hr, rfl⟩ := Prod.mk.inj (hperform.symm.trans h)
  obtain rfl := Option.some.inj hr
  have hforgotten : (w.forget path).recorded? path = none := by rw [recorded?_forget, if_pos rfl]
  unfold Workspace.discard
  cases ha : resolveArtifacts s.srcRoot s.cacheDir path with
  | error f => exact ⟨hforgotten, fun hnone => absurd hnone (by simp)⟩
  | ok a =>
    refine ⟨hforgotten, fun hnone => ⟨a, ha, ?_⟩⟩
    obtain ⟨folder, stem, hstand⟩ := exists_standAt w.disk.workFolder ha
    have hplaces : ∀ f ∈ filesOf a, w.disk.placeOf f ≠ [] := by
      intro f hf
      obtain ⟨ext, -, hplace⟩ := hstand.isArtifactPlace hf
      rw [Disk.placeOf, hplace]
      simp
    simp only at hnone ⊢
    generalize hremoved : removeFiles (w.forget path).disk (filesOf a) = result at hnone ⊢
    obtain ⟨removed, fault, d'⟩ := result
    obtain rfl : fault = none := hnone
    exact missing_of_removeFiles htree hplaces hremoved

end

/-! ## Doing what was put off -/

namespace Watcher

section

variable {s : TransformSettings} {path : Text} {task : WatchTask} {w w' : Workspace}

theorem path_of_report {cancelled : Bool} {r : WatchReport}
    (h : perform s cancelled path task w = (some r, w')) : r.path = path := by
  unfold perform at h
  split at h
  next =>
    generalize w.discard s path = result at h
    obtain ⟨removed, fault, w₁⟩ := result
    cases h
    rfl
  next =>
    unfold compileNow at h
    simp only at h
    split at h
    next => cases h
    next => cases h; rfl

/-- What is done about a document is reported, unless the work is called off. -/
theorem perform_reported (hpath : Path.clean path = path) (hext : Text.endsWith path documentExt = true)
    (task : WatchTask) (w : Workspace) : ∃ r w', perform s false path task w = (some r, w') := by
  unfold perform
  split
  next =>
    generalize w.discard s path = result
    obtain ⟨removed, fault, w₁⟩ := result
    exact ⟨_, _, rfl⟩
  next =>
    generalize ht : (w.forget path).transform s false path = result
    obtain ⟨out, fault, w₁⟩ := result
    exact ⟨_, _, compileNow_eq hpath hext ht⟩

theorem settle_cons (s : TransformSettings) (cancelled : Bool) (x : Text × WatchTask)
    (tasks : List (Text × WatchTask)) (w : Workspace) :
    settle s cancelled (x :: tasks) w =
      ((perform s cancelled x.1 x.2 w).1.toList ++ (settle s cancelled tasks (perform s cancelled x.1 x.2 w).2).1,
        (settle s cancelled tasks (perform s cancelled x.1 x.2 w).2).2) := rfl

theorem settle_append (s : TransformSettings) (cancelled : Bool) (tasks tasks' : List (Text × WatchTask))
    (w : Workspace) :
    settle s cancelled (tasks ++ tasks') w =
      ((settle s cancelled tasks w).1 ++ (settle s cancelled tasks' (settle s cancelled tasks w).2).1,
        (settle s cancelled tasks' (settle s cancelled tasks w).2).2) := by
  induction tasks generalizing w with
  | nil => rfl
  | cons x tasks ih => rw [List.cons_append, settle_cons, settle_cons, ih, List.append_assoc]

theorem path_of_settled {cancelled : Bool} {tasks : List (Text × WatchTask)} {w : Workspace} {r : WatchReport}
    (h : r ∈ (settle s cancelled tasks w).1) : ∃ x ∈ tasks, r.path = x.1 := by
  induction tasks generalizing w with
  | nil => exact absurd h (by simp [settle])
  | cons x tasks ih =>
    rw [settle_cons, List.mem_append] at h
    rcases h with hfirst | hrest
    · generalize hperform : perform s cancelled x.1 x.2 w = result at hfirst
      obtain ⟨report, w'⟩ := result
      obtain rfl : report = some r := Option.mem_toList.1 hfirst
      exact ⟨x, List.mem_cons_self .., path_of_report hperform⟩
    · obtain ⟨y, hy, heq⟩ := ih hrest
      exact ⟨y, List.mem_cons_of_mem _ hy, heq⟩

/-- **A task is done once:** with others put off for other documents, there is one
report about the document, of its one task. -/
theorem settle_once (hpath : Path.clean path = path) (hext : Text.endsWith path documentExt = true)
    {others : List (Text × WatchTask)} (hothers : ∀ x ∈ others, x.1 ≠ path) (task : WatchTask) (w : Workspace) :
    ∃ r w', perform s false path task (settle s false others w).2 = (some r, w') ∧
      settle s false (others ++ [(path, task)]) w = ((settle s false others w).1 ++ [r], w') ∧
      ((settle s false (others ++ [(path, task)]) w).1.filter fun r => r.path = path) = [r] := by
  obtain ⟨r, w', hperform⟩ := perform_reported hpath hext task (settle s false others w).2
  have hsettle : settle s false (others ++ [(path, task)]) w = ((settle s false others w).1 ++ [r], w') := by
    rw [settle_append, settle_cons, hperform]
    rfl
  refine ⟨r, w', hperform, hsettle, ?_⟩
  have hforeign : (settle s false others w).1.filter (fun r => r.path = path) = [] := by
    rw [List.filter_eq_nil_iff]
    intro r' hr'
    obtain ⟨x, hx, heq⟩ := path_of_settled hr'
    simpa [heq] using hothers x hx
  rw [hsettle, List.filter_append, hforeign]
  simp [path_of_report hperform]

end

end Watcher

end Docweave
