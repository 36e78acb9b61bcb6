import Docweave.Proofs.ProjectDocuments

/-!
# What the cleanup visits

The cleanup walks the cache and discards the documents that are gone. Folders
are entered, but for the one of the components; a file that is named like a
component stands for a document, and that document is looked for. Nothing is
ever added, so all that is visited was there when the cleanup began.

> `cleanVisit_cases`: all that a visit can do.

> `clean_keeps`: what discarding a missing document keeps is kept by the cleanup.
-/

namespace Docweave

open Docweave.Path (rooted Names IsName)
open Workspace Project

/-! ## Disks that lose entries -/

/-- Entries are taken away, and none is changed or added. -/
def Disk.Shrinks (d d' : Disk) : Prop := ∀ q, d'.find? q = d.find? q ∨ d'.find? q = none

theorem Disk.Shrinks.trans {d d' d'' : Disk} (h : d.Shrinks d') (h' : d'.Shrinks d'') : d.Shrinks d'' := by
  intro q
  rcases h' q with hsame | hnone
  · rw [hsame]
    exact h q
  · exact Or.inr hnone

theorem Disk.Shrinks.find {d d' : Disk} (h : d.Shrinks d') {q : Place} {e : Entry}
    (hfind : d'.find? q = some e) : d.find? q = some e := by
  rcases h q with hsame | hnone
  · rw [← hsame]
    exact hfind
  · rw [hnone] at hfind
    exact absurd hfind (by simp)

theorem Disk.shrinks_clear (d : Disk) (p : Place) : d.Shrinks (d.clear p) := by
  intro q
  rw [Disk.find?_clear]
  split
  next => exact Or.inr rfl
  next => exact Or.inl rfl

theorem removeFiles_shrinks {files : List Text} {d : Disk} (htree : d.IsTree) :
    d.Shrinks (removeFiles d files).2.2 := by
  induction files generalizing d with
  | nil => exact fun q => Or.inl rfl
  | cons f files ih =>
    unfold removeFiles
    split
    next d₁ hremoved =>
      rw [(Disk.remove_eq_ok htree rfl hremoved).1]
      exact (Disk.shrinks_clear d _).trans (ih (Disk.isTree_clear htree _))
    next =>
      split
      next => exact ih htree
      next => exact fun q => Or.inl rfl

section

variable {s : BuildSettings} {S C : Place} {d₀ : Disk} {w w' : Workspace}

/-- The path of the document that a component in the cache stands for. -/
def documentPath (S fs : Place) (stem : Text) : Text := rooted (S ++ fs ++ [stem ++ documentExt])

/-- Discarding a document is taking files away near the cache. -/
theorem discard_shrinks (hroots : s.RootsAt S C) {fs : Place} {stem : Text} (hfs : Names fs)
    (hstem : '/' ∉ stem) {files : List Text} {fault : Option ProcessFault} (htree : w.disk.IsTree)
    (h : w.discard s.toTransformSettings (documentPath S fs stem) = (files, fault, w')) :
    w'.disk.IsTree ∧ w.disk.Shrinks w'.disk := by
  have ha := resolveArtifacts_stem hroots.names_src hroots.names_cache hfs hstem
  rw [← hroots.srcRoot_eq, ← hroots.cacheDir_eq] at ha
  obtain ⟨folder, t, hstand, -⟩ := standAt_stem w.disk.workFolder hroots.names_cache hfs hstem
  refine ⟨(discard_touches htree ha hstand h).1.tree, ?_⟩
  unfold Workspace.discard documentPath at h
  simp only [ha] at h
  obtain rfl := (Prod.mk.inj (Prod.mk.inj h).2).2
  exact removeFiles_shrinks (d := w.disk) htree

/-! ## Visits -/

/-- What a visit of the cleanup comes to. A folder is entered or passed over, and
so are files of other names. A component is kept while its document stands; the
cleanup stops when that cannot be told; else the document is discarded, which may
stop the cleanup too. -/
inductive CleanedAt (s : BuildSettings) (S C q : Place) (b : Bool) (c : Cleanup) :
    Except BuildFault WalkNext × Cleanup → Prop
  | passed {next : WalkNext} (hnext : next = .skip ↔ b = true ∧ q = C ++ [componentsFolder])
      (hother : b = false → ∀ fs stem, q ≠ C ++ fs ++ [stem ++ componentExt]) :
      CleanedAt s S C q b c (.ok next, c)
  | kept {fs : Place} {stem : Text} {e : Entry} (hq : q = C ++ fs ++ [stem ++ componentExt])
      (hb : b = false) (hstat : c.1.disk.stat (documentPath S fs stem) = .ok e) :
      CleanedAt s S C q b c (.ok .enter, c)
  | unclear {fs : Place} {stem : Text} {f : DiskFault} (hq : q = C ++ fs ++ [stem ++ componentExt])
      (hb : b = false) (hstat : c.1.disk.stat (documentPath S fs stem) = .error f)
      (hcause : f.cause ≠ .missing) : CleanedAt s S C q b c (.error (.cleaningDisk f), c)
  | discarded {fs : Place} {stem : Text} {f : DiskFault} {files : List Text} {w' : Workspace}
      (hq : q = C ++ fs ++ [stem ++ componentExt]) (hb : b = false) (hfs : Names fs) (hstem : '/' ∉ stem)
      (hstat : c.1.disk.stat (documentPath S fs stem) = .error f) (hcause : f.cause = .missing)
      (hdiscard : c.1.discard s.toTransformSettings (documentPath S fs stem) = (files, none, w')) :
      CleanedAt s S C q b c (.ok .enter, (w', c.2 ++ files))
  | stuck {fs : Place} {stem : Text} {f : DiskFault} {files : List Text} {g : ProcessFault}
      {w' : Workspace} (hq : q = C ++ fs ++ [stem ++ componentExt]) (hb : b = false) (hfs : Names fs)
      (hstem : '/' ∉ stem) (hstat : c.1.disk.stat (documentPath S fs stem) = .error f)
      (hcause : f.cause = .missing)
      (hdiscard : c.1.discard s.toTransformSettings (documentPath S fs stem) = (files, some g, w')) :
      CleanedAt s S C q b c (.error (.cleaningRemoval g), (w', c.2 ++ files))

theorem join_components (hroots : s.RootsAt S C) :
    Path.join s.cacheDir componentsFolder = rooted (C ++ [componentsFolder]) := by
  rw [hroots.cacheDir_eq]
  exact Path.join_rooted_name hroots.names_cache (by decide)

/-- **All that a visit of the cleanup can do.** -/
theorem cleanVisit_cases (hroots : s.RootsAt S C) {rest : Place} (hrest : Names rest) {b : Bool}
    (hroot : rest = [] → b = true) (c : Cleanup) :
    CleanedAt s S C (C ++ rest) b c (cleanVisit s (rooted (C ++ rest)) b c) := by
  have hnames : Names (C ++ rest) := Path.names_append.2 ⟨hroots.names_cache, hrest⟩
  obtain ⟨w, removed⟩ := c
  unfold cleanVisit
  rw [join_components hroots]
  cases b with
  | true =>
    refine .passed ?_ fun hfile => absurd hfile (by simp)
    have hsame : rooted (C ++ rest) = rooted (C ++ [componentsFolder]) ↔
        C ++ rest = C ++ [componentsFolder] :=
      ⟨Path.rooted_inj hnames (Path.names_append.2 ⟨hroots.names_cache, by decide⟩), fun h => by rw [h]⟩
    simp [hsame]
  | false =>
    have hne : rest ≠ [] := fun hnil => absurd (hroot hnil) (by simp)
    simp only [Bool.false_eq_true, if_false]
    split
    next hend =>
      obtain ⟨fs, stem, hfs, hstem, rfl⟩ := exists_stem_below hnames hne (by decide) hend
      have hdocument : documentOf s.srcRoot s.cacheDir (rooted (C ++ (fs ++ [stem ++ componentExt]))) =
          .ok (documentPath S fs stem) := by
        rw [hroots.srcRoot_eq, hroots.cacheDir_eq, ← List.append_assoc]
        exact documentOf_component hroots.names_src hroots.names_cache hfs hstem
      rw [← List.append_assoc] at hdocument ⊢
      unfold cleanComponent
      simp only [hdocument]
      split
      next hstat => exact .kept rfl rfl hstat
      next f hstat =>
        split
        next hcause =>
          split
          next hdiscard => exact .discarded rfl rfl hfs hstem hstat hcause hdiscard
          next hdiscard => exact .stuck rfl rfl hfs hstem hstat hcause hdiscard
        next hcause => exact .unclear rfl rfl hstat hcause
    next hend =>
      refine .passed (by simp) fun _ fs stem hq => hend ?_
      rw [hq]
      exact Text.endsWith_iff.2 ⟨_, Path.rooted_append_singleton ..⟩

/-! ## The walk -/

/-- What is visited in the cache, from the disk that the cleanup found: not what
is in the folder of the components. -/
def SeenInCache (C : Place) (d₀ : Disk) (q : Place) (b : Bool) : Prop :=
  ∃ fs, q = C ++ fs ∧ Names fs ∧ (fs.head? = some componentsFolder → fs = [componentsFolder]) ∧
    ∃ e, d₀.find? q = some e ∧ e.isFolder = b

/-- The disk on the way of a cleanup. -/
structure Cleaning (d₀ d : Disk) : Prop where
  tree : d.IsTree
  shrinks : d₀.Shrinks d

theorem SeenInCache.isFolder {fs : Place} {b : Bool} (hroot : d₀.find? C = some .folder)
    (h : SeenInCache C d₀ (C ++ fs) b) : fs = [] → b = true := by
  obtain ⟨gs, hsame, -, -, e, hfind, rfl⟩ := h
  rintro rfl
  rw [List.append_nil, hroot] at hfind
  rw [← Option.some.inj hfind]
  rfl

/-- A component that is visited is not among the mirrored ones. -/
theorem SeenInCache.outside {fs : Place} {stem : Text}
    (h : SeenInCache C d₀ (C ++ fs ++ [stem ++ componentExt]) false) :
    Names fs ∧ fs.head? ≠ some componentsFolder ∧
      ∃ text time, d₀.find? (C ++ fs ++ [stem ++ componentExt]) = some (.file text time) := by
  obtain ⟨gs, hsame, hgs, hcomponents, e, hfind, hb⟩ := h
  rw [List.append_assoc] at hsame
  obtain rfl := List.append_cancel_left hsame
  refine ⟨(Path.names_append.1 hgs).1, fun hhead => ?_, ?_⟩
  · cases fs with
    | nil => exact absurd hhead (by simp)
    | cons f fs =>
      have hlen := congrArg List.length (hcomponents hhead)
      simp only [List.cons_append, List.length_cons, List.length_append, List.length_nil] at hlen
      omega
  · cases e with
    | folder => exact absurd hb (by simp [Entry.isFolder])
    | file text time => exact ⟨text, time, hfind⟩

theorem cleanVisit_shrinks (hroots : s.RootsAt S C) (hroot : d₀.find? C = some .folder) {q : Place}
    {b : Bool} {c : Cleanup} (hseen : SeenInCache C d₀ q b) (htree : c.1.disk.IsTree) :
    (cleanVisit s (rooted q) b c).2.1.disk.IsTree ∧
      c.1.disk.Shrinks (cleanVisit s (rooted q) b c).2.1.disk := by
  obtain ⟨rest, rfl, hrest, -⟩ := id hseen
  generalize hr : cleanVisit s (rooted (C ++ rest)) b c = r
  cases hr ▸ cleanVisit_cases hroots hrest (hseen.isFolder hroot) c with
  | passed => exact ⟨htree, fun q => Or.inl rfl⟩
  | kept => exact ⟨htree, fun q => Or.inl rfl⟩
  | unclear => exact ⟨htree, fun q => Or.inl rfl⟩
  | discarded _ _ hfs hstem _ _ hdiscard => exact discard_shrinks hroots hfs hstem htree hdiscard
  | stuck _ _ hfs hstem _ _ hdiscard => exact discard_shrinks hroots hfs hstem htree hdiscard

/-- Something that discarding a document keeps, when the document is missing and
has its component in the cache. -/
def KeptByDiscards (s : BuildSettings) (S C : Place) (d₀ : Disk) (P : Workspace → Prop) : Prop :=
  ∀ {w w' fs stem text time f files fault}, Cleaning d₀ w.disk → P w → Names fs → '/' ∉ stem →
    fs.head? ≠ some componentsFolder →
    d₀.find? (C ++ fs ++ [stem ++ componentExt]) = some (.file text time) →
    w.disk.stat (documentPath S fs stem) = .error f → f.cause = .missing →
    w.discard s.toTransformSettings (documentPath S fs stem) = (files, fault, w') → P w'

theorem cleaning_visit (hroots : s.RootsAt S C) (hroot : d₀.find? C = some .folder) {P : Workspace → Prop}
    (hP : KeptByDiscards s S C d₀ P) {q : Place} {b : Bool} {c : Cleanup} (hseen : SeenInCache C d₀ q b)
    (hc : Cleaning d₀ c.1.disk ∧ P c.1) :
    Cleaning d₀ (cleanVisit s (rooted q) b c).2.1.disk ∧ P (cleanVisit s (rooted q) b c).2.1 := by
  obtain ⟨htree, hless⟩ := cleanVisit_shrinks hroots hroot hseen hc.1.tree
  refine ⟨⟨htree, hc.1.shrinks.trans hless⟩, ?_⟩
  obtain ⟨rest, rfl, hrest, -⟩ := id hseen
  generalize hr : cleanVisit s (rooted (C ++ rest)) b c = r
  cases hr ▸ cleanVisit_cases hroots hrest (hseen.isFolder hroot) c with
  | passed => exact hc.2
  | kept => exact hc.2
  | unclear => exact hc.2
  | discarded hq hb hfs hstem hstat hcause hdiscard =>
    rw [hq, hb] at hseen
    obtain ⟨-, hout, text, time, hfile⟩ := hseen.outside
    exact hP hc.1 hc.2 hfs hstem hout hfile hstat hcause hdiscard
  | stuck hq hb hfs hstem hstat hcause hdiscard =>
    rw [hq, hb] at hseen
    obtain ⟨-, hout, text, time, hfile⟩ := hseen.outside
    exact hP hc.1 hc.2 hfs hstem hout hfile hstat hcause hdiscard

theorem keptByVisits_clean (hroots : s.RootsAt S C) (hroot : d₀.find? C = some .folder)
    {P : Workspace → Prop} (hP : KeptByDiscards s S C d₀ P) :
    Disk.KeptByVisits (fun c : Cleanup => c.1.disk) (cleanVisit s)
      (fun c => Cleaning d₀ c.1.disk ∧ P c.1) (SeenInCache C d₀) where
  tree hc := hc.1.tree
  names := by
    rintro q b ⟨fs, rfl, hfs, -⟩
    exact Path.names_append.2 ⟨hroots.names_cache, hfs⟩
  kept hseen hc := cleaning_visit hroots hroot hP hseen hc
  entered := by
    rintro q c hseen hc henter ⟨name, b⟩ hx
    have hclean := (cleaning_visit hroots hroot hP hseen hc).1
    obtain ⟨fs, rfl, hfs, hcomponents, -⟩ := id hseen
    -- the folder of the components is not entered
    have hother : fs.head? ≠ some componentsFolder := by
      intro hhead
      rw [hcomponents hhead] at henter
      exact absurd henter (by simp [cleanVisit, join_components hroots, Except.toOption])
    have hn := Disk.isName_of_mem_namesAt hclean.tree hx
    obtain ⟨e, hfind, rfl⟩ := (Disk.mem_namesAt hclean.tree).1 hx
    refine ⟨fs ++ [name], List.append_assoc .., Path.names_append.2 ⟨hfs, Path.names_singleton.2 hn⟩,
      fun hfirst => ?_, e, hclean.shrinks.find hfind, rfl⟩
    cases fs with
    | nil =>
      rw [Option.some.inj hfirst]
      rfl
    | cons f fs => exact absurd hfirst hother

theorem seenInCache_root (hroots : s.RootsAt S C) (htree : d₀.IsTree) :
    ∀ e, d₀.entryOf (rooted C) = .ok e → SeenInCache C d₀ C e.isFolder := fun e hentry =>
  ⟨[], (List.append_nil _).symm, List.forall_mem_nil _, fun hhead => absurd hhead (by simp), e,
    (Disk.entryOf_rooted htree hroots.names_cache).1 hentry, rfl⟩

/-- **What discarding missing documents keeps is kept by the cleanup.** -/
theorem clean_keeps (hroots : s.RootsAt S C) (htree : w.disk.IsTree)
    (hroot : w.disk.find? C = some .folder) {P : Workspace → Prop}
    (hP : KeptByDiscards s S C w.disk P) (hw : P w) {r : Except BuildFault (List Text)}
    (h : cleanOrphans s w = (r, w')) : Cleaning w.disk w'.disk ∧ P w' := by
  have hwalk := Disk.walk_keeps .cleaningDisk (keptByVisits_clean hroots hroot hP) C (s := (w, []))
    (seenInCache_root hroots htree) ⟨⟨htree, fun q => Or.inl rfl⟩, hw⟩
  unfold cleanOrphans at h
  rw [hroots.cacheDir_eq] at h
  split at h
  next heq =>
    rw [heq] at hwalk
    exact (Prod.mk.inj h).2 ▸ hwalk
  next heq =>
    rw [heq] at hwalk
    exact (Prod.mk.inj h).2 ▸ hwalk

end

end Docweave
