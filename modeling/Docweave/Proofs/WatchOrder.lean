import Docweave.Proofs.DocumentPool
import Docweave.Proofs.WatchTasks

/-!
# Tasks in any order

The tasks that a watcher has put off for different documents are done when each
document has been quiet for a while, so their order is not known. It does not
matter when the tasks are apart: no artifact of one document is an artifact of the
other or above one, and the path of a document that may be gone is not a folder on
the way to artifacts of the other.

> `removeFiles_alike`: artifacts removed on two disks that are alike for them.

> `done_alike`: a task in two workspaces that are alike for its document.

> `done_swap`: two tasks that are apart, in either order.

> `settle_perm`: any number of them, in any order.
-/

namespace Docweave

open Docweave.Path (rooted Names liesBelow IsCleanRooted)
open Workspace

/-! ## Removing on alike disks -/

section

variable {folder p : Place} {stem : Text} {d e : Disk}

/-- Removing finds nothing where there is nothing. -/
theorem remove_of_error {path : Text} {c : DiskCause} (h : d.entryOf path = .error c) :
    d.remove path = .error ⟨"remove", path, c⟩ := by
  unfold Disk.entryOf at h
  unfold Disk.remove
  cases hloc : d.locate path with
  | error c' =>
    rw [hloc] at h
    rw [Except.error.inj h]
  | ok p =>
    rw [hloc] at h
    cases hfind : d.find? p with
    | none =>
      simp only [hfind] at h ⊢
      rw [Except.error.inj h]
    | some entry =>
      simp only [hfind] at h
      exact absurd h (by simp)

/-- Nothing to remove is a fault only when a file is in the way. -/
theorem erase_nothing (htree : d.IsTree) (hp : Names p) (hnone : d.find? p = none) :
    d.Blocked p ∧ d.apply (.erase (rooted p)) = .error ⟨"remove", rooted p, .notFolder⟩ ∨
      ¬ d.Blocked p ∧ d.apply (.erase (rooted p)) = .ok d := by
  cases hentry : d.entryOf (rooted p) with
  | ok entry =>
    rw [(Disk.entryOf_rooted htree hp).1 hentry] at hnone
    exact absurd hnone (by simp)
  | error c =>
    rcases (Disk.entryOf_rooted_error htree hp hentry).2 with ⟨rfl, hblocked⟩ | ⟨rfl, hfree⟩
    · refine Or.inl ⟨hblocked, ?_⟩
      rw [Disk.apply, remove_of_error hentry]
      rfl
    · refine Or.inr ⟨hfree, ?_⟩
      rw [Disk.apply, remove_of_error hentry]
      rfl

/-- A file is in the way to an artifact on both disks, or on none. -/
theorem Disk.Alike.blocked_iff (h : Disk.Alike folder stem d e) (hp : IsArtifactPlace folder stem p) :
    d.Blocked p ↔ e.Blocked p := by
  obtain ⟨ext, -, rfl⟩ := hp
  have hway : ∀ {q : Place}, q <+: folder ++ [stem ++ ext] → q ≠ folder ++ [stem ++ ext] → q <+: folder :=
    fun hq hne => (List.prefix_concat_iff.1 hq).resolve_left hne
  constructor
  · rintro ⟨q, text, time, hq, hne, hfile⟩
    rcases h.way q (hway hq hne) with hsame | ⟨hnone, -⟩
    · obtain ⟨time', hfile'⟩ := file_of_look hsame.symm hfile
      exact ⟨q, text, time', hq, hne, hfile'⟩
    · rw [look_eq_none.1 hnone] at hfile
      exact absurd hfile (by simp)
  · rintro ⟨q, text, time, hq, hne, hfile⟩
    rcases h.way q (hway hq hne) with hsame | ⟨-, hfolder⟩
    · obtain ⟨time', hfile'⟩ := file_of_look hsame hfile
      exact ⟨q, text, time', hq, hne, hfile'⟩
    · rw [look_eq_folder.1 hfolder] at hfile
      exact absurd hfile (by simp)

/-- Files removed one after the other, as changes of the disk. -/
theorem removeFiles_eq_applyAll (stage : Stage) (d : Disk) (files : List Text) :
    (removeFiles d files).2.2 = (d.applyAll (files.map fun f => (stage, Change.erase f))).1 := by
  induction files generalizing d with
  | nil => rfl
  | cons f files ih =>
    rw [List.map_cons, Disk.applyAll, Disk.apply, removeFiles]
    cases d.remove f with
    | ok d' => exact ih d'
    | error g =>
      by_cases hcause : g.cause = .missing
      · simp only [hcause, if_true]
        exact ih d
      · simp only [hcause, if_false]

/-- Where the folder of artifacts is missing there is nothing to remove, on neither
disk. -/
theorem erases_without_folder (h : Disk.Alike folder stem d e) (hfolder : Names folder) (hstem : '/' ∉ stem)
    (hmissing : d.find? folder ≠ some .folder) {changes : List (Stage × Change)}
    (hchanges : ∀ x ∈ changes, ∃ ext ∈ artifactExts, x.2 = .erase (rooted (folder ++ [stem ++ ext]))) :
    (d.applyAll changes).1 = d ∧ (e.applyAll changes).1 = e := by
  induction changes with
  | nil => exact ⟨rfl, rfl⟩
  | cons x changes ih =>
    obtain ⟨ext, hext, hx⟩ := hchanges x (List.mem_cons_self ..)
    have hnames := names_stem hfolder hstem (List.mem_cons_of_mem documentExt hext)
    have hplace : IsArtifactPlace folder stem (folder ++ [stem ++ ext]) := ⟨ext, hext, rfl⟩
    have hnone : d.find? (folder ++ [stem ++ ext]) = none := by
      cases hfind : d.find? (folder ++ [stem ++ ext]) with
      | none => rfl
      | some entry =>
        have hin := h.tree.inFolder hfind
        rw [List.dropLast_concat] at hin
        exact absurd hin hmissing
    have hnone' := (h.own_iff hplace (List.prefix_refl _)).2.1 hnone
    obtain ⟨hd, he⟩ := ih fun y hy => hchanges y (List.mem_cons_of_mem _ hy)
    rw [Disk.applyAll, Disk.applyAll, hx]
    rcases erase_nothing h.tree hnames hnone with ⟨hblocked, hrefused⟩ | ⟨hfree, hkept⟩
    · rcases erase_nothing h.tree' hnames hnone' with ⟨-, hrefused'⟩ | ⟨hfree', -⟩
      · rw [hrefused, hrefused']
        exact ⟨rfl, rfl⟩
      · exact absurd ((h.blocked_iff hplace).1 hblocked) hfree'
    · rcases erase_nothing h.tree' hnames hnone' with ⟨hblocked', -⟩ | ⟨-, hkept'⟩
      · exact absurd ((h.blocked_iff hplace).2 hblocked') hfree
      · rw [hkept, hkept']
        exact ⟨hd, he⟩

theorem removeFiles_artifacts (hfolder : Names folder) (hstem : '/' ∉ stem) (htree : d.IsTree) :
    Disk.Touches (IsArtifactPlace folder stem) folder d
      (removeFiles d (filesOf (.ofBase (rooted (folder ++ [stem]))))).2.2 := by
  refine removeFiles_touches htree (fun f hf => ?_) rfl
  obtain ⟨ext, hext, rfl⟩ := mem_filesOf_rooted.1 hf
  rw [Disk.placeOf_rooted (names_stem hfolder hstem (List.mem_cons_of_mem documentExt hext))]
  exact ⟨ext, hext, rfl⟩

/-- **Artifacts removed on both disks:** what goes on one goes on the other. -/
theorem removeFiles_alike (hfolder : Names folder) (hstem : '/' ∉ stem) (h : Disk.Alike folder stem d e) :
    Disk.ChangedAlike d e (removeFiles d (filesOf (.ofBase (rooted (folder ++ [stem]))))).2.2
      (removeFiles e (filesOf (.ofBase (rooted (folder ++ [stem]))))).2.2 := by
  have hd := removeFiles_artifacts hfolder hstem h.tree
  have he := removeFiles_artifacts hfolder hstem h.tree'
  generalize hfiles : filesOf (.ofBase (rooted (folder ++ [stem]))) = files at *
  have herase : ∀ x ∈ files.map (fun f => (Stage.staleHighlights, Change.erase f)),
      ∃ ext ∈ artifactExts, x.2 = .erase (rooted (folder ++ [stem ++ ext])) := by
    intro x hx
    obtain ⟨f, hf, rfl⟩ := List.mem_map.1 hx
    obtain ⟨ext, hext, rfl⟩ := mem_filesOf_rooted.1 (hfiles ▸ hf)
    exact ⟨ext, hext, rfl⟩
  rw [removeFiles_eq_applyAll .staleHighlights] at hd he ⊢
  rw [removeFiles_eq_applyAll .staleHighlights]
  by_cases hthere : d.find? folder = some .folder
  · have hartifacts : ∀ x ∈ files.map (fun f => (Stage.staleHighlights, Change.erase f)),
        x.2.IsOfArtifact folder stem := by
      intro x hx
      obtain ⟨ext, hext, heq⟩ := herase x hx
      rw [heq]
      exact ⟨ext, hext, rfl⟩
    obtain ⟨d', e', f, hd', he', h', hthere'⟩ := applyAll_alike hfolder hstem h hthere hartifacts
    rw [hd'] at hd ⊢
    rw [he'] at he ⊢
    exact changedAlike_of_touches h h' hd he (Or.inr hthere')
  · obtain ⟨hd', he'⟩ := erases_without_folder h hfolder hstem hthere herase
    rw [hd', he']
    exact ⟨fun q hne => absurd rfl hne, fun q _ => rfl⟩

end

/-! ## Tasks of documents -/

/-- A document, there or not, has its place and its artifacts in a folder, under a
stem. -/
structure Placed (s : TransformSettings) (path : Text) (place folder : Place) (stem : Text) : Prop where
  path_eq : path = rooted place
  document : ∃ front name, Names front ∧ '/' ∉ name ∧ place = front ++ [name ++ documentExt]
  names : Names folder
  slash : '/' ∉ stem
  artifacts : resolveArtifacts s.srcRoot s.cacheDir path = .ok (.ofBase (rooted (folder ++ [stem])))

section

variable {s : TransformSettings} {path : Text} {place folder : Place} {stem : Text}

/-- Below a cache from the root, artifacts share a folder and a stem. -/
theorem artifacts_rooted {srcRoot cacheDir : Text} {a : Artifacts} (hcache : Path.isRooted cacheDir = true)
    (ha : resolveArtifacts srcRoot cacheDir path = .ok a) :
    ∃ folder stem, Names folder ∧ '/' ∉ stem ∧ a = .ofBase (rooted (folder ++ [stem])) := by
  have hbase : ∀ rel, ∃ folder stem, Names folder ∧ '/' ∉ stem ∧
      Path.join cacheDir rel = rooted (folder ++ [stem]) := by
    intro rel
    rw [Path.join_of_isRooted hcache]
    have hnames : Names (Path.squash true [] (Path.elements cacheDir ++ Path.elements rel)) := by
      refine Path.names_squash (List.forall_mem_nil _) fun n hn => ?_
      rcases List.mem_append.1 hn with hn | hn
      · exact Path.mem_elements hn
      · exact Path.mem_elements hn
    obtain ⟨stem, hstem, heq⟩ := exists_stem_of_base hnames
    exact ⟨_, stem, fun n hn => hnames n (List.dropLast_subset _ hn), hstem, heq⟩
  unfold resolveArtifacts at ha
  split at ha
  next => exact absurd ha (by simp)
  next rel _ =>
    split at ha
    next => exact absurd ha (by simp)
    next =>
      obtain ⟨folder, stem, hfolder, hstem, heq⟩ := hbase (Text.trimSuffix documentExt rel)
      rw [heq] at ha
      exact ⟨folder, stem, hfolder, hstem, (Except.ok.inj ha).symm⟩

theorem exists_placed (hcache : Path.isRooted s.cacheDir = true) (hpath : IsCleanRooted path)
    (hext : Text.endsWith path documentExt = true)
    (hok : (resolveArtifacts s.srcRoot s.cacheDir path).isOk = true) :
    ∃ place folder stem, Placed s path place folder stem := by
  obtain ⟨es, hes, rfl⟩ := hpath.exists_names
  obtain ⟨front, name, rfl⟩ := exists_stem_of_endsWith hes (List.mem_cons_self ..) hext
  obtain ⟨hfront, hlast⟩ := Path.names_append.1 hes
  have hname : '/' ∉ name := fun hin =>
    (Path.names_singleton.1 hlast).no_slash (List.mem_append_left _ hin)
  cases ha : resolveArtifacts s.srcRoot s.cacheDir (rooted (front ++ [name ++ documentExt])) with
  | error f =>
    rw [ha] at hok
    exact absurd hok (by simp [Except.isOk, Except.toBool])
  | ok a =>
    obtain ⟨folder, stem, hfolder, hstem, rfl⟩ := artifacts_rooted hcache ha
    exact ⟨_, folder, stem, rfl, ⟨front, name, hfront, hname, rfl⟩, hfolder, hstem, ha⟩

namespace Placed

theorem names_place (h : Placed s path place folder stem) : Names place := by
  obtain ⟨front, name, hfront, hname, rfl⟩ := h.document
  exact names_stem hfront hname (List.mem_cons_self ..)

theorem clean (h : Placed s path place folder stem) : Path.clean path = path := by
  rw [h.path_eq, Path.clean_rooted h.names_place]

theorem ext (h : Placed s path place folder stem) : Text.endsWith path documentExt = true := by
  obtain ⟨front, name, -, -, rfl⟩ := h.document
  rw [h.path_eq]
  exact Text.endsWith_iff.2 ⟨_, Path.rooted_append_singleton front name documentExt⟩

theorem has_iff_find? (h : Placed s path place folder stem) {d : Disk} (htree : d.IsTree) :
    d.has path = false ↔ d.find? place = none := by
  have hentry : d.has path = true ↔ ∃ e, d.find? place = some e := by
    rw [has_iff]
    simp only [← Disk.entryOf_rooted htree h.names_place, ← h.path_eq, entryOf_eq_ok]
    exact exists_comm
  rw [← Bool.not_eq_true, hentry]
  cases d.find? place with
  | none => simp
  | some e => simp

theorem stat_iff (h : Placed s path place folder stem) {d : Disk} (htree : d.IsTree) {e : Entry} :
    d.stat path = .ok e ↔ d.find? place = some e := by
  rw [h.path_eq, Disk.stat_rooted htree h.names_place]

end Placed

end

namespace Watcher

/-- The workspace when a task is done. -/
def done (s : TransformSettings) (x : Text × WatchTask) (w : Workspace) : Workspace :=
  (perform s false x.1 x.2 w).2

end Watcher

open Watcher (done)

section

variable {s : TransformSettings} {x : Text × WatchTask} {place folder : Place} {stem : Text} {w w₀ : Workspace}

theorem discard_eq (h : Placed s x.1 place folder stem) (w : Workspace) :
    (w.discard s x.1).2.2 = { w.forget x.1 with
      disk := (removeFiles w.disk (filesOf (.ofBase (rooted (folder ++ [stem]))))).2.2 } := by
  unfold Workspace.discard
  rw [h.artifacts]
  rfl

theorem compileNow_snd (h : Placed s x.1 place folder stem) (w : Workspace) :
    (Watcher.compileNow s false x.1 w).2 = ((w.forget x.1).transform s false x.1).2.2 := by
  generalize ht : (w.forget x.1).transform s false x.1 = result
  obtain ⟨out, fault, w'⟩ := result
  rw [compileNow_eq h.clean h.ext ht]

/-- The document is gone and its artifacts are removed, or it is transformed with
nothing on record. -/
theorem done_eq (h : Placed s x.1 place folder stem) (htree : w.disk.IsTree) :
    done s x w =
      if x.2 = .compileOrDiscard ∧ w.disk.find? place = none then
        { w.forget x.1 with disk := (removeFiles w.disk (filesOf (.ofBase (rooted (folder ++ [stem]))))).2.2 }
      else ((w.forget x.1).transform s false x.1).2.2 := by
  have hgone : (decide (x.2 = .compileOrDiscard) && !w.disk.has x.1) = true ↔
      x.2 = .compileOrDiscard ∧ w.disk.find? place = none := by
    rw [Bool.and_eq_true, decide_eq_true_eq, Bool.not_eq_true', h.has_iff_find? htree]
  unfold Watcher.done Watcher.perform
  split
  next hyes =>
    rw [if_pos (hgone.1 hyes)]
    exact discard_eq h w
  next hno =>
    rw [if_neg (fun hyes => hno (hgone.2 hyes))]
    exact compileNow_snd h w

/-- A task touches the artifacts of its document. -/
theorem done_touches (h : Placed s x.1 place folder stem) (htree : w.disk.IsTree) :
    Disk.Touches (IsArtifactPlace folder stem) folder w.disk (done s x w).disk := by
  rw [done_eq h htree]
  split
  next => exact removeFiles_artifacts h.names h.slash htree
  next =>
    generalize ht : (w.forget x.1).transform s false x.1 = result
    obtain ⟨out, fault, w'⟩ := result
    have htouch : Disk.Touches (IsArtifactPlace folder stem) folder (w.forget x.1).disk w'.disk :=
      transform_touches htree h.artifacts (standAt_ofBase_rooted _ h.names h.slash) ht
    exact htouch

/-- A task leaves the record of other documents alone. -/
theorem done_recorded (h : Placed s x.1 place folder stem) (htree : w.disk.IsTree) {q : Text} (hq : q ≠ x.1) :
    (done s x w).recorded? q = w.recorded? q := by
  have hforget : (w.forget x.1).recorded? q = w.recorded? q := by rw [recorded?_forget, if_neg hq]
  rw [done_eq h htree, ← hforget]
  split
  next => rfl
  next =>
    generalize ht : (w.forget x.1).transform s false x.1 = result
    obtain ⟨out, fault, w'⟩ := result
    cases transformed_of_eq ht with
    | refused => rfl
    | skipped => rfl
    | stopped => rfl
    | written =>
      simp only
      rw [recorded?_remember, if_neg hq]
      rfl

/-- Without a file there is nothing to transform. -/
theorem transform_without_file {path : Text} (h : ∀ text time, w.disk.stat path ≠ .ok (.file text time)) :
    (w.transform s false path).2.2 = w := by
  generalize ht : w.transform s false path = result
  obtain ⟨out, fault, w'⟩ := result
  cases transformed_of_eq ht with
  | refused => rfl
  | skipped => rfl
  | stopped hfile => exact absurd hfile (h _ _)
  | written hfile => exact absurd hfile (h _ _)

/-- **A task in two workspaces** that are alike for its document. It removes or
compiles in both, and changes the same. -/
theorem done_alike (h : Placed s x.1 place folder stem) (halike : Disk.Alike folder stem w₀.disk w.disk)
    (hfile : ∀ text time, w₀.disk.find? place = some (.file text time) ↔
      w.disk.find? place = some (.file text time))
    (hthere : x.2 = .compileOrDiscard → (w₀.disk.find? place = none ↔ w.disk.find? place = none)) :
    Disk.ChangedAlike w₀.disk w.disk (done s x w₀).disk (done s x w).disk ∧
      (done s x w).recorded? x.1 = (done s x w₀).recorded? x.1 := by
  have hforget : ∀ w : Workspace, (w.forget x.1).recorded? x.1 = none := by
    intro w
    rw [recorded?_forget, if_pos rfl]
  have hsame : (x.2 = .compileOrDiscard ∧ w₀.disk.find? place = none) ↔
      (x.2 = .compileOrDiscard ∧ w.disk.find? place = none) :=
    and_congr_right hthere
  rw [done_eq h halike.tree, done_eq h halike.tree']
  by_cases hgone : x.2 = .compileOrDiscard ∧ w₀.disk.find? place = none
  · rw [if_pos hgone, if_pos (hsame.1 hgone)]
    exact ⟨removeFiles_alike h.names h.slash halike, (hforget w).trans (hforget w₀).symm⟩
  · rw [if_neg hgone, if_neg (fun hgone' => hgone (hsame.2 hgone'))]
    by_cases hsome : ∃ text time, w₀.disk.find? place = some (.file text time)
    · obtain ⟨text, time, hfind⟩ := hsome
      have hstat₀ : (w₀.forget x.1).disk.stat x.1 = .ok (.file text time) := (h.stat_iff halike.tree).2 hfind
      have hstat : (w.forget x.1).disk.stat x.1 = .ok (.file text time) :=
        (h.stat_iff halike.tree').2 ((hfile text time).1 hfind)
      have hboth : Disk.Alike folder stem (w₀.forget x.1).disk (w.forget x.1).disk := halike
      obtain ⟨out, f, w₁, w', ht₀, ht, hchanged, hrecord, -⟩ :=
        transform_alike h.names h.slash hboth h.artifacts hstat₀ hstat ((hforget w).trans (hforget w₀).symm) false
      rw [ht₀, ht]
      exact ⟨hchanged, hrecord⟩
    · have hno₀ : ∀ text time, (w₀.forget x.1).disk.stat x.1 ≠ .ok (.file text time) :=
        fun text time hstat => hsome ⟨text, time, (h.stat_iff halike.tree).1 hstat⟩
      have hno : ∀ text time, (w.forget x.1).disk.stat x.1 ≠ .ok (.file text time) :=
        fun text time hstat => hsome ⟨text, time, (hfile text time).2 ((h.stat_iff halike.tree').1 hstat)⟩
      rw [transform_without_file hno₀, transform_without_file hno, hforget, hforget]
      exact ⟨⟨fun q hne => absurd rfl hne, fun q _ => rfl⟩, rfl⟩

end

/-! ## Tasks that are apart -/

/-- When the document may be gone, its path is not above an artifact of the other
one. -/
def OffTheWay (s : TransformSettings) (x y : Text × WatchTask) : Prop :=
  x.2 = .compileOrDiscard →
    ∀ b ∈ (resolveArtifacts s.srcRoot s.cacheDir y.1).toOption, ∀ f ∈ filesOf b, liesBelow x.1 f = false

instance (s : TransformSettings) (x y : Text × WatchTask) : Decidable (OffTheWay s x y) :=
  inferInstanceAs (Decidable (_ → ∀ _ ∈ Except.toOption _, _))

/-- Tasks for different documents that do not get in each other's way. -/
def TasksApart (s : TransformSettings) (x y : Text × WatchTask) : Prop :=
  x.1 ≠ y.1 ∧ ArtifactsApart s x.1 y.1 ∧ OffTheWay s x y ∧ OffTheWay s y x

instance (s : TransformSettings) (x y : Text × WatchTask) : Decidable (TasksApart s x y) :=
  inferInstanceAs (Decidable (_ ∧ _ ∧ _ ∧ _))

theorem TasksApart.symm {s : TransformSettings} {x y : Text × WatchTask} (h : TasksApart s x y) :
    TasksApart s y x := by
  obtain ⟨hne, hartifacts, hxy, hyx⟩ := h
  refine ⟨hne.symm, fun b hb a ha g hg f hf => ?_, hyx, hxy⟩
  obtain ⟨hother, hbelow, habove⟩ := hartifacts a ha b hb f hf g hg
  exact ⟨hother.symm, habove, hbelow⟩

section

variable {s : TransformSettings} {x y : Text × WatchTask} {place place' folder folder' : Place}
  {stem stem' : Text} {d d' e e' : Disk} {w w' : Workspace}

theorem TasksApart.places (hapart : TasksApart s x y) (hx : Placed s x.1 place folder stem)
    (hy : Placed s y.1 place' folder' stem') : PlacesApart folder stem folder' stem' :=
  placesApart_of_apart hx.names hx.slash hy.names hy.slash
    (hapart.2.1 _ (by rw [hx.artifacts]; rfl) _ (by rw [hy.artifacts]; rfl))

/-- The place of a document that may be gone is not on the way to the artifacts of
the other. -/
theorem OffTheWay.not_above (hway : OffTheWay s x y) (hx : Placed s x.1 place folder stem)
    (hy : Placed s y.1 place' folder' stem') (hgone : x.2 = .compileOrDiscard) : ¬ place <+: folder' := by
  intro hpre
  have hfile : rooted (folder' ++ [stem' ++ componentExt]) ∈ filesOf (.ofBase (rooted (folder' ++ [stem']))) :=
    mem_filesOf_rooted.2 ⟨_, by decide, rfl⟩
  have hout := hway hgone _ (by rw [hy.artifacts]; rfl) _ hfile
  have hnames := names_stem hy.names hy.slash (show componentExt ∈ documentExt :: artifactExts by decide)
  have hne : place ≠ [] := by
    obtain ⟨front, name, -, -, rfl⟩ := hx.document
    simp
  obtain ⟨rest, rfl⟩ := hpre
  rw [hx.path_eq, (Path.liesBelow_rooted hne hx.names_place hnames).2
    ⟨rest ++ [stem' ++ componentExt], by simp, by rw [List.append_assoc]⟩] at hout
  exact absurd hout (by simp)

/-- What is done about one document leaves the disk alike for another one. -/
theorem alike_of_touches (hapart : PlacesApart folder stem folder' stem') (htree : d.IsTree)
    (h : Disk.Touches (IsArtifactPlace folder stem) folder d d') : Disk.Alike folder' stem' d d' where
  tree := htree
  tree' := h.tree
  way r hr := by
    have hother : ¬ IsArtifactPlace folder stem r := by
      intro hown
      have hbelow : r <+: folder' ++ [stem' ++ componentExt] := hr.trans (List.prefix_append ..)
      exact (hapart r _ hown ⟨_, by decide, rfl⟩).1 hbelow
    rcases h.find r hother with hsame | ⟨-, hnone, hnew⟩
    · exact Or.inl (look_of_find? hsame)
    · exact Or.inr ⟨look_eq_none.2 hnone, look_eq_folder.2 hnew⟩
  own p hp q hq := by
    have hother : ¬ IsArtifactPlace folder stem q := fun hown => (hapart q p hown hp).2 hq
    rcases h.find q hother with hsame | ⟨hpre, -, -⟩
    · exact look_of_find? hsame
    · have hbelow : p <+: folder ++ [stem ++ componentExt] :=
        (hq.trans hpre).trans (List.prefix_append ..)
      exact absurd hbelow (hapart _ p ⟨_, by decide, rfl⟩ hp).2

/-! ## Documents on the disk -/

theorem not_artifactPlace_document (front : Place) (name : Text) :
    ¬ IsArtifactPlace folder stem (front ++ [name ++ documentExt]) := by
  rintro ⟨ext, hext, hsame⟩
  obtain ⟨-, -, rfl⟩ := standAt_inj (List.mem_cons_self ..) (List.mem_cons_of_mem _ hext) hsame
  exact absurd hext (by decide)

/-- Where documents can be, all that may have happened is that folders were made. -/
def Disk.KeepsDocuments (d d' : Disk) : Prop :=
  ∀ front name, d'.find? (front ++ [name ++ documentExt]) = d.find? (front ++ [name ++ documentExt]) ∨
    d.find? (front ++ [name ++ documentExt]) = none ∧ d'.find? (front ++ [name ++ documentExt]) = some .folder

theorem keepsDocuments_of_touches (h : Disk.Touches (IsArtifactPlace folder stem) folder d d') :
    d.KeepsDocuments d' := by
  intro front name
  rcases h.find _ (not_artifactPlace_document front name) with hsame | ⟨-, hnone, hnew⟩
  · exact Or.inl hsame
  · exact Or.inr ⟨hnone, hnew⟩

theorem Disk.KeepsDocuments.trans (h : d.KeepsDocuments d') (h' : d'.KeepsDocuments e) : d.KeepsDocuments e := by
  intro front name
  rcases h' front name with hsame' | ⟨hnone', hnew'⟩
  · rw [hsame']
    exact h front name
  · rcases h front name with hsame | ⟨-, hnew⟩
    · exact Or.inr ⟨hsame ▸ hnone', hnew'⟩
    · rw [hnew] at hnone'
      exact absurd hnone' (by simp)

/-- Documents that were the same are the same when the disks look the same. -/
theorem documents_congr (hd : d.KeepsDocuments d') (he : e.KeepsDocuments e')
    (hlook : ∀ q, d'.look q = e'.look q) (front : Place) (name : Text)
    (hsame : d.find? (front ++ [name ++ documentExt]) = e.find? (front ++ [name ++ documentExt])) :
    d'.find? (front ++ [name ++ documentExt]) = e'.find? (front ++ [name ++ documentExt]) := by
  have hseen := hlook (front ++ [name ++ documentExt])
  rcases hd front name with hkept | ⟨-, hnew⟩
  · rcases he front name with hkept' | ⟨hnone', hnew'⟩
    · rw [hkept, hkept', hsame]
    · rw [look_eq_folder.2 hnew', look_eq_folder] at hseen
      rw [hkept, hsame, hnone'] at hseen
      exact absurd hseen (by simp)
  · rw [look_eq_folder.2 hnew] at hseen
    rw [hnew, look_eq_folder.1 hseen.symm]

/-! ## The order -/

/-- Two workspaces look the same and have the same documents and the same record. -/
structure Workspace.Same (w w' : Workspace) : Prop where
  tree : w.disk.IsTree
  tree' : w'.disk.IsTree
  look : ∀ q, w.disk.look q = w'.disk.look q
  documents : ∀ front name, w.disk.find? (front ++ [name ++ documentExt]) =
    w'.disk.find? (front ++ [name ++ documentExt])
  recorded : ∀ p, w.recorded? p = w'.recorded? p

theorem Workspace.Same.refl (htree : w.disk.IsTree) : w.Same w :=
  ⟨htree, htree, fun _ => rfl, fun _ _ => rfl, fun _ => rfl⟩

theorem Workspace.Same.trans {w'' : Workspace} (h : w.Same w') (h' : w'.Same w'') : w.Same w'' :=
  ⟨h.tree, h'.tree', fun q => (h.look q).trans (h'.look q),
    fun front name => (h.documents front name).trans (h'.documents front name),
    fun p => (h.recorded p).trans (h'.recorded p)⟩

/-- A task leaves the same in workspaces that are the same. -/
theorem done_congr (hx : Placed s x.1 place folder stem) (h : w.Same w') : (done s x w).Same (done s x w') := by
  have halike : Disk.Alike folder stem w.disk w'.disk :=
    ⟨h.tree, h.tree', fun r _ => Or.inl (h.look r).symm, fun _ _ q _ => (h.look q).symm⟩
  have hplace : w.disk.find? place = w'.disk.find? place := by
    obtain ⟨front, name, -, -, rfl⟩ := hx.document
    exact h.documents front name
  obtain ⟨hchanged, hrecord⟩ := done_alike hx halike (by simp [hplace]) (by simp [hplace])
  have htouch := done_touches hx h.tree
  have htouch' := done_touches hx h.tree'
  have hlook : ∀ q, (done s x w).disk.look q = (done s x w').disk.look q := by
    intro q
    by_cases hq : (done s x w).disk.look q = w.disk.look q
    · rw [hchanged.kept q hq, hq, h.look q]
    · exact (hchanged.changed q hq).symm
  refine ⟨htouch.tree, htouch'.tree, hlook, fun front name => ?_, fun q => ?_⟩
  · exact documents_congr (keepsDocuments_of_touches htouch) (keepsDocuments_of_touches htouch') hlook front name
      (h.documents front name)
  · by_cases hq : q = x.1
    · rw [hq]
      exact hrecord.symm
    · rw [done_recorded hx h.tree hq, done_recorded hx h.tree' hq, h.recorded q]

/-- A task is done behind one that is apart as it is done before it. -/
theorem done_behind (hx : Placed s x.1 place folder stem) (hy : Placed s y.1 place' folder' stem')
    (hapart : TasksApart s x y) (htree : w.disk.IsTree) :
    Disk.ChangedAlike w.disk (done s x w).disk (done s y w).disk (done s y (done s x w)).disk ∧
      (done s y (done s x w)).recorded? y.1 = (done s y w).recorded? y.1 := by
  have htouch := done_touches hx htree
  obtain ⟨front, name, -, -, hplace⟩ := hy.document
  have hkept := keepsDocuments_of_touches htouch front name
  rw [← hplace] at hkept
  refine done_alike hy (alike_of_touches (hapart.places hx hy) htree htouch) (fun text time => ?_) fun hgone => ?_
  · rcases hkept with hsame | ⟨hnone, hnew⟩
    · rw [hsame]
    · simp [hnone, hnew]
  · -- no folder is made in the place of the document
    have hfind := htouch.find place' (hplace ▸ not_artifactPlace_document front name)
    rcases hfind with hsame | ⟨hpre, -, -⟩
    · rw [hsame]
    · exact absurd hpre (hapart.2.2.2.not_above hy hx hgone)

/-- A task changes artifacts, and makes folders on the way to them. -/
theorem done_changes (hx : Placed s x.1 place folder stem) (htree : w.disk.IsTree) {q : Place}
    (hq : (done s x w).disk.look q ≠ w.disk.look q) :
    IsArtifactPlace folder stem q ∨ q <+: folder ∧ (done s x w).disk.look q = some none := by
  by_cases hown : IsArtifactPlace folder stem q
  · exact Or.inl hown
  · rcases (done_touches hx htree).find q hown with hsame | ⟨hway, -, hnew⟩
    · exact absurd (look_of_find? hsame) hq
    · exact Or.inr ⟨hway, look_eq_folder.2 hnew⟩

/-- What both of two tasks change are folders on the way to both. -/
theorem both_change (hx : Placed s x.1 place folder stem) (hy : Placed s y.1 place' folder' stem')
    (hapart : PlacesApart folder stem folder' stem') (htree : w.disk.IsTree) {q : Place}
    (hqx : (done s x w).disk.look q ≠ w.disk.look q) (hqy : (done s y w).disk.look q ≠ w.disk.look q) :
    (done s x w).disk.look q = (done s y w).disk.look q := by
  have hsome : ∀ folder stem, IsArtifactPlace folder stem (folder ++ [stem ++ componentExt]) :=
    fun folder stem => ⟨_, by decide, rfl⟩
  rcases done_changes hx htree hqx with hown | ⟨hway, hnew⟩
  · rcases done_changes hy htree hqy with hown' | ⟨hway', -⟩
    · exact absurd (List.prefix_refl q) (hapart q q hown hown').1
    · exact absurd (hway'.trans (List.prefix_append ..)) (hapart q _ hown (hsome folder' stem')).1
  · rcases done_changes hy htree hqy with hown' | ⟨-, hnew'⟩
    · exact absurd (hway.trans (List.prefix_append ..)) (hapart _ q (hsome folder stem) hown').2
    · rw [hnew, hnew']

/-- **Two tasks that are apart, in either order.** What only one of them changes is
as that one leaves it, and what both change are folders that both make. -/
theorem done_swap (hx : Placed s x.1 place folder stem) (hy : Placed s y.1 place' folder' stem')
    (hapart : TasksApart s x y) (htree : w.disk.IsTree) :
    (done s y (done s x w)).Same (done s x (done s y w)) := by
  have htouchx := done_touches hx htree
  have htouchy := done_touches hy htree
  have htouchxy := done_touches hy htouchx.tree
  have htouchyx := done_touches hx htouchy.tree
  obtain ⟨hbehindx, hrecordy⟩ := done_behind hx hy hapart htree
  obtain ⟨hbehindy, hrecordx⟩ := done_behind hy hx hapart.symm htree
  have hlook : ∀ q, (done s y (done s x w)).disk.look q = (done s x (done s y w)).disk.look q := by
    intro q
    by_cases hqx : (done s x w).disk.look q = w.disk.look q
    · by_cases hqy : (done s y w).disk.look q = w.disk.look q
      · rw [hbehindx.kept q hqy, hbehindy.kept q hqx, hqx, hqy]
      · rw [hbehindx.changed q hqy, hbehindy.kept q hqx]
    · by_cases hqy : (done s y w).disk.look q = w.disk.look q
      · rw [hbehindx.kept q hqy, hbehindy.changed q hqx]
      · rw [hbehindx.changed q hqy, hbehindy.changed q hqx]
        exact (both_change hx hy (hapart.places hx hy) htree hqx hqy).symm
  refine ⟨htouchxy.tree, htouchyx.tree, hlook, fun front name => ?_, fun q => ?_⟩
  · exact documents_congr
      ((keepsDocuments_of_touches htouchx).trans (keepsDocuments_of_touches htouchxy))
      ((keepsDocuments_of_touches htouchy).trans (keepsDocuments_of_touches htouchyx)) hlook front name rfl
  · by_cases hqx : q = x.1
    · rw [hqx, done_recorded hy htouchx.tree hapart.1, hrecordx]
    · by_cases hqy : q = y.1
      · rw [hqy, done_recorded hx htouchy.tree hapart.1.symm, hrecordy]
      · rw [done_recorded hy htouchx.tree hqy, done_recorded hx htree hqx,
          done_recorded hx htouchy.tree hqx, done_recorded hy htree hqy]

end

section

variable {s : TransformSettings} {tasks tasks' : List (Text × WatchTask)} {w w' : Workspace}

theorem settle_congr (hplaced : ∀ x ∈ tasks, ∃ place folder stem, Placed s x.1 place folder stem) (h : w.Same w') :
    (Watcher.settle s false tasks w).2.Same (Watcher.settle s false tasks w').2 := by
  induction tasks generalizing w w' with
  | nil => exact h
  | cons x tasks ih =>
    obtain ⟨place, folder, stem, hx⟩ := hplaced x (List.mem_cons_self ..)
    rw [Watcher.settle_cons, Watcher.settle_cons]
    exact ih (fun y hy => hplaced y (List.mem_cons_of_mem _ hy)) (done_congr hx h)

/-- **Tasks that are apart, in any order.** -/
theorem settle_perm (hperm : tasks.Perm tasks')
    (hplaced : ∀ x ∈ tasks, ∃ place folder stem, Placed s x.1 place folder stem)
    (hapart : tasks.Pairwise (TasksApart s)) (htree : w.disk.IsTree) :
    (Watcher.settle s false tasks w).2.Same (Watcher.settle s false tasks' w).2 := by
  induction hperm generalizing w with
  | nil => exact .refl htree
  | cons x _ ih =>
    obtain ⟨place, folder, stem, hx⟩ := hplaced x (List.mem_cons_self ..)
    rw [Watcher.settle_cons, Watcher.settle_cons]
    exact ih (fun y hy => hplaced y (List.mem_cons_of_mem _ hy)) hapart.of_cons (done_touches hx htree).tree
  | swap x y tasks =>
    obtain ⟨place, folder, stem, hx⟩ := hplaced x (by simp)
    obtain ⟨place', folder', stem', hy⟩ := hplaced y (by simp)
    have hyx : TasksApart s y x := List.rel_of_pairwise_cons hapart (List.mem_cons_self ..)
    simp only [Watcher.settle_cons]
    exact settle_congr (fun z hz => hplaced z (List.mem_cons_of_mem _ (List.mem_cons_of_mem _ hz)))
      (done_swap hy hx hyx htree)
  | trans hfirst _ ih ih' =>
    have hplaced' := fun x hx => hplaced x (hfirst.mem_iff.2 hx)
    have hapart' := (hfirst.pairwise_iff fun h => h.symm).1 hapart
    exact (ih hplaced hapart htree).trans (ih' hplaced' hapart' htree)

end

/-! ## Updates -/

/-- What was removed or renamed may be discarded. -/
theorem taskOf?_discards {ops : List WatchOp} {task : WatchTask} (h : Watcher.taskOf? ops = some task)
    (hgone : .remove ∈ ops ∨ .rename ∈ ops) : task = .compileOrDiscard := by
  have hcontains : (ops.contains .remove || ops.contains .rename) = true := by
    rw [Bool.or_eq_true, List.contains_iff_mem, List.contains_iff_mem]
    exact hgone
  unfold Watcher.taskOf? at h
  rw [if_pos hcontains] at h
  exact (Option.some.inj h).symm

/-- **No update is lost.** However many events there are about a document before the
work for it is done, the work is done once, and it is that of the last event. If the
document is there then, it is compiled from the text that it has, whatever the record
says. If it was removed or renamed and is not there, nothing is left of it. And the
order in which the work for different documents is done does not matter, as long as
no artifact of one is an artifact of another or above one, and no artifact is below
the path of a document that was removed. -/
theorem watch_loses_no_update {s : TransformSettings} {path : Text} (hpath : IsCleanRooted path)
    (hext : Text.endsWith path documentExt = true) {events : List (WatchEvent × Disk)} (hne : events ≠ [])
    (hevents : ∀ x ∈ events, Watcher.Concerns path x.1 x.2) (watcher : Watcher) :
    (∃ task others, Watcher.taskOf? (events.getLast hne).1.ops = some task ∧
      others = watcher.pending.filter (fun x => x.1 ≠ path) ∧
      (watcher.noticeAll events).pending = others ++ [(path, task)] ∧
      (∀ w, ∃ r w', Watcher.perform s false path task (Watcher.settle s false others w).2 = (some r, w') ∧
        Watcher.settle s false (others ++ [(path, task)]) w = ((Watcher.settle s false others w).1 ++ [r], w') ∧
        ((Watcher.settle s false (others ++ [(path, task)]) w).1.filter fun r => r.path = path) = [r]) ∧
      ∀ w r w', w.disk.IsTree → Watcher.perform s false path task w = (some r, w') →
        (w.disk.has path = true → Recompiled s path w r w') ∧
        (w.disk.has path = false → .remove ∈ (events.getLast hne).1.ops ∨ .rename ∈ (events.getLast hne).1.ops →
          Discarded s path r w')) ∧
    ∀ tasks tasks' w, Path.isRooted s.cacheDir = true → w.disk.IsTree → tasks.Perm tasks' →
      (∀ x ∈ tasks, IsCleanRooted x.1 ∧ Text.endsWith x.1 documentExt = true ∧
        (resolveArtifacts s.srcRoot s.cacheDir x.1).isOk = true) →
      tasks.Pairwise (TasksApart s) →
      (∀ q, (Watcher.settle s false tasks w).2.disk.look q = (Watcher.settle s false tasks' w).2.disk.look q) ∧
        ∀ p, (Watcher.settle s false tasks w).2.recorded? p = (Watcher.settle s false tasks' w).2.recorded? p := by
  constructor
  · obtain ⟨task, htask, hnoticed⟩ := Watcher.noticeAll_last hext hne hevents watcher
    have hothers : ∀ x ∈ watcher.pending.filter (fun x => x.1 ≠ path), x.1 ≠ path := by
      intro x hx
      simpa using (List.mem_filter.1 hx).2
    refine ⟨task, _, htask, rfl, by rw [hnoticed]; rfl,
      fun w => Watcher.settle_once hpath.clean hext hothers task w,
      fun w r w' htree h => ⟨fun hthere => ?_, fun hgone hlast => ?_⟩⟩
    · exact perform_present hpath.clean hext htree hthere h
    · obtain rfl := taskOf?_discards htask hlast
      exact perform_absent htree hgone h
  · intro tasks tasks' w hcache htree hperm hdocs hapart
    have hplaced : ∀ x ∈ tasks, ∃ place folder stem, Placed s x.1 place folder stem := by
      intro x hx
      obtain ⟨hclean, hends, hok⟩ := hdocs x hx
      exact exists_placed hcache hclean hends hok
    have hsame := settle_perm hperm hplaced hapart htree
    exact ⟨hsame.look, hsame.recorded⟩

/-- Work for both documents of the project, where the second one may be gone. -/
def pairTasks : List (Text × WatchTask) := [(soundPath, .compile), (brokenPath, .compileOrDiscard)]

/-- The first document is replaced: it is removed, created and written. -/
def replacedEvents : List (WatchEvent × Disk) :=
  [(⟨soundPath, [.remove]⟩, pairWorkspace.disk), (⟨soundPath, [.create, .write]⟩, pairWorkspace.disk)]

theorem watch_loses_no_update_replaced :
    ((⟨[], [(soundPath, .compileOrDiscard), (brokenPath, .compile)]⟩ : Watcher).noticeAll replacedEvents).pending =
        [(brokenPath, .compile), (soundPath, .compile)] ∧
      (Watcher.settle pairSettings.toTransformSettings false pairTasks pairWorkspace).2.disk.text? "/cache/a.vue" =
        (Watcher.settle pairSettings.toTransformSettings false pairTasks.reverse pairWorkspace).2.disk.text?
          "/cache/a.vue" := by
  have hevents : ∀ x ∈ replacedEvents, Watcher.Concerns soundPath x.1 x.2 := by
    intro x hx
    simp only [replacedEvents, List.mem_cons, List.not_mem_nil, or_false] at hx
    rcases hx with rfl | rfl
    · exact ⟨rfl, ⟨.remove, by decide, by decide⟩, by decide +kernel⟩
    · exact ⟨rfl, ⟨.write, by decide, by decide⟩, by decide +kernel⟩
  obtain ⟨⟨task, others, htask, rfl, hpending, -, -⟩, horder⟩ :=
    watch_loses_no_update (s := pairSettings.toTransformSettings) (by decide) (by decide)
      (show replacedEvents ≠ [] by decide) hevents ⟨[], [(soundPath, .compileOrDiscard), (brokenPath, .compile)]⟩
  obtain rfl : WatchTask.compile = task := Option.some.inj htask
  refine ⟨hpending, ?_⟩
  have hlook := (horder pairTasks pairTasks.reverse pairWorkspace (by decide) (by decide) (.swap ..)
    (by decide +kernel) (by decide +kernel)).1
  have hnames : Path.Names ["cache", "a.vue"] := by decide
  have hfile : ("/cache/a.vue" : Text) = rooted ["cache", "a.vue"] := by decide
  rw [hfile, text?_rooted hnames, text?_rooted hnames]
  exact textAt?_of_look (hlook _)

/-! ## Where the order matters, and where an update is lost -/

/-- A project with its cache among the sources. A document of a folder in the cache
is gone, and its component is still there; another document has its artifacts below
the path of that one. -/
def innerWorkspace : Workspace :=
  { disk :=
      { entries := [(["p"], .folder), (["p", "x.v.md"], .folder), (["p", "x.v.md", "y.v.md"], .file "# Y\n" 1),
          (["p", "cache"], .folder), (["p", "cache", "cache"], .folder),
          (["p", "cache", "cache", "x.vue"], .file "old" 2)], clock := 9 } }

def innerSettings : TransformSettings :=
  { highlighter := plainHighlighter .github, parser := fun _ _ => [], srcRoot := "/p", cacheDir := "/p/cache" }

/-- The tasks for the document that is gone and for the one that is there. -/
def innerTasks : List (Text × WatchTask) :=
  [("/p/cache/x.v.md", .compileOrDiscard), ("/p/x.v.md/y.v.md", .compile)]

/-- Artifacts that are different are not enough for the order not to matter. A component
can be in the place of a folder with artifacts, and then the first document has its
artifacts and the other one none; a folder of artifacts can be in the place of a document
that is gone, which is then not discarded. And a document that is named by a path that is
not clean is not forgotten under the name that it has on record, so it is skipped. -/
theorem watch_order_matters :
    ((∀ a ∈ (resolveArtifacts pairSettings.srcRoot pairSettings.cacheDir soundPath).toOption,
      ∀ b ∈ (resolveArtifacts pairSettings.srcRoot pairSettings.cacheDir nestedPath).toOption,
        ∀ f ∈ filesOf a, f ∉ filesOf b) ∧
      (Watcher.settle pairSettings.toTransformSettings false [(soundPath, .compile), (nestedPath, .compile)]
          nestedWorkspace).2.disk.text? "/cache/a.vue" = some "<template>\n<h1>A</h1>\n</template>\n" ∧
      (Watcher.settle pairSettings.toTransformSettings false [(nestedPath, .compile), (soundPath, .compile)]
          nestedWorkspace).2.disk.text? "/cache/a.vue" = none) ∧
    (ArtifactsApart innerSettings "/p/cache/x.v.md" "/p/x.v.md/y.v.md" ∧
      (Watcher.settle innerSettings false innerTasks innerWorkspace).2.disk.has "/p/cache/cache/x.vue" = false ∧
      (Watcher.settle innerSettings false innerTasks.reverse innerWorkspace).2.disk.has "/p/cache/cache/x.vue" =
        true) ∧
    (Watcher.perform pairSettings.toTransformSettings false "/src/./a.v.md" .compile
      (pairWorkspace.remember soundPath 5)).1.map (·.result.output.skipped) = some true := by
  refine ⟨⟨by decide +kernel, by decide +kernel, by decide +kernel⟩,
    ⟨by decide +kernel, by decide +kernel, by decide +kernel⟩, by decide +kernel⟩

end Docweave
