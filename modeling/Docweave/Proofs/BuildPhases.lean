import Docweave.Proofs.CleanupVisits

/-!
# What a build keeps

A build takes away the artifacts of documents that are gone, mirrors the
handwritten components, brings every document up to date and declares them all.
The steps share one cache, and a document that has not changed is passed over
because the record says so, so no step may take away what the record stands for.
Outside the folder of the components none does: `Sound` says what the record
means there, and every step keeps it. The folder of the components is wiped by
the mirroring, with all artifacts in it.

> `sound_clean`, `sound_mirror`, `processAll_sound`, `sound_declare`: the steps.

> `build_sound`: a build keeps what the record means, and what it reports of a
> document is so when it ends.
-/

namespace Docweave

open Docweave.Path (rooted Names IsName)
open Workspace Project

namespace ProjectLayout

variable {s : BuildSettings} (L : ProjectLayout s)

/-! ## What the record means -/

/-- The document is on record as it is, and the cache holds what it compiles to. -/
def Settled (w : Workspace) (n : DocumentName) : Prop :=
  ∃ text time c, w.disk.find? (L.place n) = some (.file text time) ∧
    w.recorded? (L.path n) = some time ∧
    compileSource s.toTransformSettings false (L.artifacts n) text = .ok c ∧
    w.disk.Holds (L.artifacts n) c

/-- No component in the cache is called by its extension alone, or by dots in
front of it. The mirrored components may be. -/
def ComponentsNamed (d : Disk) : Prop :=
  ∀ fs stem text time, fs.head? ≠ some componentsFolder →
    d.find? (L.cache ++ fs ++ [stem ++ componentExt]) = some (.file text time) → IsName stem

/-- A workspace on the way of a build that found the disk `d₀`, behind the disks
of the past. A document that is on record as it is has its artifacts, and every
time on record is one that the document had. -/
structure Sound (past : List Disk) (d₀ : Disk) (w : Workspace) : Prop where
  base : d₀ ∈ past
  touches : Disk.Touches (L.cache <+: ·) L.cache d₀ w.disk
  components : L.ComponentsNamed w.disk
  held : ∀ n text time, ¬ n.InComponents → w.recorded? (L.path n) = some time →
    w.disk.find? (L.place n) = some (.file text time) → L.Settled w n
  seen : ∀ n time, w.recorded? (L.path n) = some time →
    ∃ d ∈ past, ∃ text, d.find? (L.place n) = some (.file text time)

section

variable {L} {past : List Disk} {d₀ d : Disk} {w w' : Workspace} {n : DocumentName}
  {touched : Place → Prop} {folder : Place}

/-- What is touched is in the cache, or on the way to it. -/
structure InCache (L : ProjectLayout s) (touched : Place → Prop) (folder : Place) : Prop where
  touched : ∀ q, touched q → L.cache <+: q
  folder : ∀ q, q <+: folder → L.cache <+: q ∨ q <+: L.cache

theorem touches_cache (hin : L.InCache touched folder) (h : Disk.Touches touched folder d₀ d) :
    Disk.Touches (L.cache <+: ·) L.cache d₀ d :=
  h.mono hin.touched hin.folder

theorem settled_of_touches (hin : L.InCache touched folder)
    (htouch : Disk.Touches touched folder w.disk d) (hfree : ∀ q, L.IsArtifactOf n q → ¬ touched q)
    (hrecord : w'.recorded? (L.path n) = w.recorded? (L.path n)) (hdisk : w'.disk = d)
    (h : L.Settled w n) : L.Settled w' n := by
  obtain ⟨text, time, c, hfind, hrec, hc, hholds⟩ := h
  have hsame : ∀ f ∈ filesOf (L.artifacts n), w'.disk.text? f = w.disk.text? f := by
    intro f hf
    rw [hdisk]
    exact text?_of_touches htouch (hfree _ ((L.standAt w.disk.workFolder n).isArtifactPlace hf))
  refine ⟨text, time, c, ?_, hrecord.trans hrec, hc, holds_congr hsame hholds⟩
  rw [hdisk, find?_src_of_touches (touches_cache hin htouch) (L.src_above n)]
  exact hfind

/-- The disk is changed in the cache, where nothing stands that the record
stands for. -/
theorem sound_of_touches (h : L.Sound past d₀ w) (hin : L.InCache touched folder)
    (htouch : Disk.Touches touched folder w.disk d)
    (hnamed : ∀ fs stem, fs.head? ≠ some componentsFolder →
      touched (L.cache ++ fs ++ [stem ++ componentExt]) → IsName stem)
    (hfree : ∀ n text time, ¬ n.InComponents → w.recorded? (L.path n) = some time →
      w.disk.find? (L.place n) = some (.file text time) → ∀ q, L.IsArtifactOf n q → ¬ touched q) :
    L.Sound past d₀ { w with disk := d } where
  base := h.base
  touches := h.touches.trans (touches_cache hin htouch)
  components := by
    intro fs stem text time hfs hfind
    by_cases htouched : touched (L.cache ++ fs ++ [stem ++ componentExt])
    · exact hnamed fs stem hfs htouched
    · rcases htouch.find _ htouched with heq | ⟨-, -, hfolder⟩
      · exact h.components fs stem text time hfs (heq ▸ hfind)
      · exact absurd (hfolder.symm.trans hfind) (by simp)
  held := by
    intro n text time hout hrec hfind
    have hsrc := find?_src_of_touches (touches_cache hin htouch) (L.src_above n)
    have hfind' : w.disk.find? (L.place n) = some (.file text time) := hsrc ▸ hfind
    exact settled_of_touches hin htouch (hfree n text time hout hrec hfind') rfl rfl
      (h.held n text time hout hrec hfind')
  seen := h.seen

theorem sound_forget (h : L.Sound past d₀ w) (p : Text) : L.Sound past d₀ (w.forget p) where
  base := h.base
  touches := h.touches
  components := h.components
  held := by
    intro n text time hout hrec hfind
    rw [recorded?_forget] at hrec
    split at hrec
    next => exact absurd hrec (by simp)
    next hne =>
      obtain ⟨text', time', c, hfind', hrec', hc, hholds⟩ := h.held n text time hout hrec hfind
      refine ⟨text', time', c, hfind', ?_, hc, hholds⟩
      rw [recorded?_forget, if_neg hne]
      exact hrec'
  seen := by
    intro n time hrec
    rw [recorded?_forget] at hrec
    split at hrec
    next => exact absurd hrec (by simp)
    next => exact h.seen n time hrec

/-! ## Cleaning -/

theorem inCache_artifacts (L : ProjectLayout s) (n : DocumentName) :
    L.InCache (L.IsArtifactOf n) (L.artifactFolder n) where
  touched _ := cache_above
  folder _ hq := List.prefix_or_prefix_of_prefix (List.prefix_append L.cache n.folders) hq

theorem isName_of_isArtifactOf {fs : List Text} {stem : Text}
    (h : L.IsArtifactOf n (L.cache ++ fs ++ [stem ++ componentExt])) : IsName stem := by
  obtain ⟨ext, hext, hsame⟩ := h
  obtain ⟨-, rfl, -⟩ := standAt_inj (by decide) (List.mem_cons_of_mem _ hext) hsame
  exact n.isName_stem

theorem sound_discard {removed : List Text} {f : Option ProcessFault} (h : L.Sound past d₀ w)
    (hgone : w.disk.find? (L.place n) = none)
    (hdiscard : w.discard s.toTransformSettings (L.path n) = (removed, f, w')) :
    L.Sound past d₀ w' := by
  obtain ⟨htouch, hrecord⟩ := discard_touches h.touches.tree (L.resolve_path n) (L.standAt _ n) hdiscard
  have hsound := sound_of_touches (sound_forget h (L.path n)) (inCache_artifacts L n) htouch
    (fun fs stem _ hplace => isName_of_isArtifactOf hplace) fun m text time _ _ hfind q hm hn => by
      -- the artifacts of a document that is there are not those of one that is gone
      obtain rfl := artifactPlace_inj hm hn
      rw [show (w.forget (L.path m)).disk = w.disk from rfl, hgone] at hfind
      exact absurd hfind (by simp)
  rw [← hrecord] at hsound
  exact hsound

theorem keptByDiscards_sound (hnamed : L.ComponentsNamed d) :
    KeptByDiscards s L.src L.cache d (L.Sound past d₀) := by
  intro w w' fs stem text time f files fault _ h hfs _ hout hfile hstat _ hdiscard
  have hname : IsName stem := hnamed fs stem text time hout hfile
  have hgone : w.disk.find? (L.place ⟨fs, stem, hfs, hname⟩) = none := by
    cases hfind : w.disk.find? (L.place ⟨fs, stem, hfs, hname⟩) with
    | none => rfl
    | some e =>
      rw [show documentPath L.src fs stem = rooted (L.place ⟨fs, stem, hfs, hname⟩) from rfl,
        (Disk.stat_rooted h.touches.tree (L.names_place _)).2 hfind] at hstat
      exact absurd hstat (by simp)
  exact sound_discard h hgone hdiscard

/-- **Cleaning takes nothing that the record stands for.** -/
theorem sound_clean {r : Except BuildFault (List Text)} (h : L.Sound past d₀ w)
    (hroot : w.disk.find? L.cache = some .folder) (hclean : cleanUnlessSkipped s w = (r, w')) :
    L.Sound past d₀ w' := by
  unfold cleanUnlessSkipped at hclean
  split at hclean
  next => exact (Prod.mk.inj hclean).2 ▸ h
  next =>
    exact (clean_keeps L.rootsAt h.touches.tree hroot (keptByDiscards_sound h.components) h hclean).2

/-! ## Mirroring the components -/

/-- Copying one entry of a folder to the same place below another. -/
theorem copyVisit_touches {S C fs : List Text} (hS : Names S) (hC : Names C) (hfs : Names fs)
    (htree : d.IsTree) (b : Bool) :
    Disk.Touches (C <+: ·) C d (copyVisit (rooted S) (rooted C) (rooted (S ++ fs)) b d).2 := by
  have hnames : Names (C ++ fs) := Path.names_append.2 ⟨hC, hfs⟩
  have htarget : Path.join (rooted C)
      ((Path.relative? (rooted S) (rooted (S ++ fs))).getD (rooted (S ++ fs))) = rooted (C ++ fs) := by
    rw [Path.relative?_rooted hS hfs, Option.getD_some]
    split
    next hnil =>
      rw [hnil, List.append_nil, Path.join_rooted hC]
      simp [Path.elements, Path.squash, Text.splitOn]
    next => exact Path.join_rooted_names hC hfs
  have hbelow : ∀ q, q <+: C ++ fs → C <+: q ∨ q <+: C := fun q hq =>
    List.prefix_or_prefix_of_prefix (List.prefix_append C fs) hq
  unfold copyVisit
  simp only [htarget]
  split
  next => exact Disk.Touches.refl htree
  next d' hcopied =>
    split at hcopied
    next =>
      have hmade : d.makeFolders (rooted (C ++ fs)) = .ok d' := mapError_eq_ok.1 hcopied
      exact (Disk.makeFolders_touches htree (Disk.placeOf_rooted hnames)
        (Path.upFirst_rooted hnames) hmade).mono (fun _ hq => hq.elim) hbelow
    next =>
      unfold copyFile at hcopied
      split at hcopied
      next => exact absurd hcopied (by simp)
      next => exact absurd hcopied (by simp)
      next text _ _ =>
        have hstored : d.store (rooted (C ++ fs)) text = .ok d' := mapError_eq_ok.1 hcopied
        exact (Disk.store_touches htree (Disk.placeOf_rooted hnames) hstored C).mono
          (fun q hq => hq ▸ List.prefix_append C fs) fun _ => Or.inr

/-- Mirroring writes below the folder of the components in the cache. -/
theorem copyComponents_touches {S C : Place} (hroots : s.RootsAt S C) {r : Except BuildFault Unit}
    (htree : d.IsTree) {d' : Disk} (h : copyComponents s d = (r, d')) :
    Disk.Touches (C ++ [componentsFolder] <+: ·) (C ++ [componentsFolder]) d d' := by
  have hS : Names (S ++ [componentsFolder]) := Path.names_append.2 ⟨hroots.names_src, by decide⟩
  have hC : Names (C ++ [componentsFolder]) := Path.names_append.2 ⟨hroots.names_cache, by decide⟩
  have hsrc : Path.join s.srcRoot componentsFolder = rooted (S ++ [componentsFolder]) := by
    rw [hroots.srcRoot_eq]
    exact Path.join_rooted_name hroots.names_src (by decide)
  have hdst : Path.join s.cacheDir componentsFolder = rooted (C ++ [componentsFolder]) := by
    rw [hroots.cacheDir_eq]
    exact Path.join_rooted_name hroots.names_cache (by decide)
  unfold copyComponents at h
  simp only [hsrc, hdst] at h
  split at h
  next =>
    split at h
    next => exact (Prod.mk.inj h).2 ▸ Disk.Touches.refl htree
    next => exact (Prod.mk.inj h).2 ▸ Disk.Touches.refl htree
  next => exact (Prod.mk.inj h).2 ▸ Disk.Touches.refl htree
  next =>
    -- the mirror is cleared, and all that visits write is in it
    have hkept : Disk.KeptByVisits id
        (copyVisit (rooted (S ++ [componentsFolder])) (rooted (C ++ [componentsFolder])))
        (Disk.Touches (C ++ [componentsFolder] <+: ·) (C ++ [componentsFolder]) d)
        (fun q _ => ∃ fs, q = S ++ [componentsFolder] ++ fs ∧ Names fs) := by
      refine ⟨fun hd => hd.tree, ?_, ?_, ?_⟩
      · rintro q b ⟨fs, rfl, hfs⟩
        exact Path.names_append.2 ⟨hS, hfs⟩
      · rintro q b d₁ ⟨fs, rfl, hfs⟩ hd
        exact hd.trans (copyVisit_touches hS hC hfs hd.tree b)
      · rintro q d₁ ⟨fs, rfl, hfs⟩ hd - ⟨name, b⟩ hx
        have htree' := (hd.trans (copyVisit_touches hS hC hfs hd.tree true)).tree
        have hn := Disk.isName_of_mem_namesAt htree' hx
        exact ⟨fs ++ [name], List.append_assoc .., Path.names_append.2 ⟨hfs, Path.names_singleton.2 hn⟩⟩
    have hwalk := Disk.walk_keeps .componentsWalk hkept (S ++ [componentsFolder])
      (s := d.removeAll (rooted (C ++ [componentsFolder])))
      (fun _ _ => ⟨[], (List.append_nil _).symm, List.forall_mem_nil _⟩)
      (Disk.removeAll_touches htree (Disk.placeOf_rooted hC) _)
    rw [h] at hwalk
    exact hwalk

/-- The folder of the mirrored components. -/
def mirrorPlace (L : ProjectLayout s) : Place := L.cache ++ [componentsFolder]

/-- No artifact of a document outside the components is in the mirror. -/
theorem not_mirrored {fs : List Text} {stem ext : Text} (hfs : fs.head? ≠ some componentsFolder)
    (hext : ext ∈ artifactExts) : ¬ L.mirrorPlace <+: L.cache ++ fs ++ [stem ++ ext] := by
  rw [mirrorPlace, List.append_assoc, List.prefix_append_right_inj]
  rintro ⟨rest, hrest⟩
  cases fs with
  | nil =>
    have hname : componentsFolder = stem ++ ext := (List.cons.inj hrest).1
    have hend : ∀ e ∈ artifactExts, Text.endsWith componentsFolder e = false := by decide
    exact absurd (Text.endsWith_iff.2 ⟨stem, hname⟩) (by rw [hend ext hext]; simp)
  | cons f fs => exact hfs (congrArg some (List.cons.inj hrest).1.symm)

/-- **Mirroring takes only what is in the mirror.** -/
theorem sound_mirror {r : Except BuildFault Unit} (h : L.Sound past d₀ w)
    (hcopy : copyComponents s w.disk = (r, d)) : L.Sound past d₀ { w with disk := d } := by
  have hin : L.InCache (L.mirrorPlace <+: ·) L.mirrorPlace :=
    ⟨fun q hq => (List.prefix_append ..).trans hq,
      fun q hq => List.prefix_or_prefix_of_prefix (List.prefix_append ..) hq⟩
  refine sound_of_touches h hin (copyComponents_touches L.rootsAt h.touches.tree hcopy) ?_ ?_
  · intro fs stem hfs hmirror
    exact absurd hmirror (not_mirrored hfs (by decide))
  · rintro n text time hout - - q ⟨ext, hext, rfl⟩
    exact not_mirrored hout hext

/-! ## Bringing documents up to date -/

/-- While the plan of a document that is not up to date is run, the others keep
their artifacts. -/
theorem sound_run {text : Text} {time : Int} {c : Compiled} {f : Option ProcessFault}
    (h : L.Sound past d₀ w) (hfind : w.disk.find? (L.place n) = some (.file text time))
    (hstale : w.recorded? (L.path n) ≠ some time)
    (hrun : (c.plan (L.artifacts n)).run w.disk = (d, f)) :
    L.Sound past d₀ { w with disk := d } ∧
      ∀ m, L.Settled w m → m ≠ n ∧ L.Settled { w with disk := d } m := by
  have htouch : Disk.Touches (L.IsArtifactOf n) (L.artifactFolder n) w.disk d :=
    run_touches h.touches.tree (L.standAt _ n) hrun
  have hother : ∀ m text' time', w.recorded? (L.path m) = some time' →
      w.disk.find? (L.place m) = some (.file text' time') → m ≠ n := by
    rintro m text' time' hrec hfind' rfl
    obtain ⟨-, rfl⟩ := Entry.file.inj (Option.some.inj (hfind'.symm.trans hfind))
    exact hstale hrec
  constructor
  · refine sound_of_touches h (inCache_artifacts L n) htouch
      (fun fs stem _ hplace => isName_of_isArtifactOf hplace) ?_
    intro m text' time' _ hrec hfind' q hm hn
    exact hother m text' time' hrec hfind' (artifactPlace_inj hm hn)
  · intro m hm
    obtain ⟨text', time', c', hfind', hrec, -⟩ := id hm
    have hne := hother m text' time' hrec hfind'
    exact ⟨hne, settled_of_touches (inCache_artifacts L n) htouch
      (fun q hq hq' => hne (artifactPlace_inj hq hq')) rfl rfl hm⟩

theorem settled_remember {m : DocumentName} (hne : m ≠ n) (time : Int) (h : L.Settled w m) :
    L.Settled (w.remember (L.path n) time) m := by
  obtain ⟨text, time', c, hfind, hrec, hc, hholds⟩ := h
  refine ⟨text, time', c, hfind, ?_, hc, hholds⟩
  rw [recorded?_remember, if_neg fun heq => hne (path_inj heq)]
  exact hrec

theorem sound_remember {text : Text} {time : Int} (h : L.Sound past d₀ w)
    (hfind : w.disk.find? (L.place n) = some (.file text time))
    (hsettled : L.Settled (w.remember (L.path n) time) n) :
    L.Sound past d₀ (w.remember (L.path n) time) where
  base := h.base
  touches := h.touches
  components := h.components
  held := by
    intro m text' time' hout hrec hfind'
    by_cases hm : m = n
    · rw [hm]
      exact hsettled
    · rw [recorded?_remember, if_neg fun heq => hm (path_inj heq)] at hrec
      exact settled_remember hm time (h.held m text' time' hout hrec hfind')
  seen := by
    intro m time' hrec
    by_cases hm : m = n
    · -- the file is among the sources, and these are as the build found them
      rw [hm, recorded?_remember, if_pos rfl] at hrec
      obtain rfl := Option.some.inj hrec
      refine ⟨d₀, h.base, text, ?_⟩
      rw [hm, ← find?_src_of_touches h.touches (L.src_above n)]
      exact hfind
    · rw [recorded?_remember, if_neg fun heq => hm (path_inj heq)] at hrec
      exact h.seen m time' hrec

/-- One document is transformed. -/
theorem transform_sound {cancelled : Bool} {out : Output} {fault : Option ProcessFault}
    (h : L.Sound past d₀ w)
    (htransform : w.transform s.toTransformSettings cancelled (L.path n) = (out, fault, w')) :
    L.Sound past d₀ w' ∧ (∀ m, L.Settled w m → L.Settled w' m) ∧
      (fault = none → out.source = L.path n ∧
        (¬ n.InComponents ∨ out.skipped = false → L.Settled w' n)) := by
  have hplace : ∀ {text time}, w.disk.stat (L.path n) = .ok (.file text time) →
      w.disk.find? (L.place n) = some (.file text time) := fun hfile =>
    (Disk.stat_rooted h.touches.tree (L.names_place n)).1 hfile
  cases transformed_of_eq htransform with
  | refused => exact ⟨h, fun _ => id, fun hnone => absurd hnone (by simp)⟩
  | @skipped a text time hfile ha hrecord =>
    -- what the record stands for is there, but not among the components
    refine ⟨h, fun _ => id, fun _ => ⟨rfl, fun hcase => ?_⟩⟩
    have hout := hcase.resolve_right (by simp)
    exact h.held n text time hout hrecord (hplace hfile)
  | @stopped a text time c d f hfile ha hstale hc hrun =>
    obtain rfl : L.artifacts n = a := Except.ok.inj ((L.resolve_path n).symm.trans ha)
    obtain ⟨hsound, hkept⟩ := sound_run h (hplace hfile) hstale hrun
    exact ⟨hsound, fun m hm => (hkept m hm).2, fun hnone => absurd hnone (by simp)⟩
  | @written a text time c d hfile ha hstale hc hrun =>
    obtain rfl : L.artifacts n = a := Except.ok.inj ((L.resolve_path n).symm.trans ha)
    obtain ⟨hsound, hkept⟩ := sound_run h (hplace hfile) hstale hrun
    have hfind : d.find? (L.place n) = some (.file text time) := by
      rw [find?_src_of_touches (touches_cache (inCache_artifacts L n)
        (run_touches h.touches.tree (L.standAt _ n) hrun)) (L.src_above n)]
      exact hplace hfile
    have hsettled : L.Settled ({ w with disk := d }.remember (L.path n) time) n := by
      obtain rfl := (compileSource_eq_ok hc).1
      refine ⟨text, time, c, hfind, ?_, hc, holds_of_run h.touches.tree (L.standAt _ n) hrun⟩
      rw [recorded?_remember, if_pos rfl]
    exact ⟨sound_remember hsound hfind hsettled,
      fun m hm => settled_remember (hkept m hm).1 time (hkept m hm).2, fun _ => ⟨rfl, fun _ => hsettled⟩⟩

/-- A result that is no fault leaves its document settled, unless it was passed
over among the components. -/
def Leaves (L : ProjectLayout s) (w : Workspace) (r : ProcessResult) : Prop :=
  r.fault = none → r.output.source = r.path ∧
    ∀ n, r.path = L.path n → ¬ n.InComponents ∨ r.output.skipped = false → L.Settled w n

/-- A path from the root that ends like a document is transformed. -/
theorem processFile_document {front : Place} {stem : Text} (hfront : Names front) (hstem : '/' ∉ stem)
    (ts : TransformSettings) (cancelled : Bool) (w : Workspace) :
    processFile ts cancelled (rooted (front ++ [stem ++ documentExt])) w =
      match w.transform ts cancelled (rooted (front ++ [stem ++ documentExt])) with
      | (out, fault, w') => (⟨rooted (front ++ [stem ++ documentExt]), out, fault⟩, w') := by
  have hclean := Path.clean_rooted
    (names_stem hfront hstem (show documentExt ∈ documentExt :: artifactExts from List.mem_cons_self ..))
  have hext : Text.endsWith (rooted (front ++ [stem ++ documentExt])) documentExt = true :=
    Text.endsWith_iff.2 ⟨_, Path.rooted_append_singleton front stem documentExt⟩
  unfold processFile
  simp only [hclean, hext, if_true]

theorem processFile_sound {r : ProcessResult} (h : L.Sound past d₀ w)
    (hprocess : processFile s.toTransformSettings false (L.path n) w = (r, w')) :
    L.Sound past d₀ w' ∧ (∀ m, L.Settled w m → L.Settled w' m) ∧ r.path = L.path n ∧ L.Leaves w' r := by
  rw [path, place, processFile_document (Path.names_append.2 ⟨L.names_src, n.names_folders⟩)
    n.isName_stem.no_slash] at hprocess
  generalize htransform : w.transform s.toTransformSettings false
    (rooted (L.src ++ n.folders ++ [n.stem ++ documentExt])) = result at hprocess
  obtain ⟨out, fault, w₁⟩ := result
  obtain ⟨rfl, rfl⟩ := Prod.mk.inj hprocess
  obtain ⟨hsound, hkept, hleaves⟩ := transform_sound h htransform
  refine ⟨hsound, hkept, rfl, fun hnone => ⟨(hleaves hnone).1, fun m hm hcase => ?_⟩⟩
  obtain rfl := path_inj hm
  exact (hleaves hnone).2 hcase

/-- **Documents are brought up to date one after the other.** Each result is
left as it is by the work on later documents. -/
theorem processAll_sound {ps : List Text} {rs : List ProcessResult} (h : L.Sound past d₀ w)
    (hdocs : ∀ p ∈ ps, ∃ n, p = L.path n)
    (hprocess : processAll s.toTransformSettings ps w = (rs, w')) :
    L.Sound past d₀ w' ∧ (∀ m, L.Settled w m → L.Settled w' m) ∧ rs.map (·.path) = ps ∧
      ∀ r ∈ rs, L.Leaves w' r := by
  induction ps generalizing w rs with
  | nil =>
    obtain ⟨rfl, rfl⟩ := Prod.mk.inj hprocess
    exact ⟨h, fun _ => id, rfl, by simp⟩
  | cons p ps ih =>
    obtain ⟨n, rfl⟩ := hdocs p (List.mem_cons_self ..)
    unfold processAll at hprocess
    generalize hfirst : processFile s.toTransformSettings false (L.path n) w = first at hprocess
    obtain ⟨r, w₁⟩ := first
    simp only at hprocess
    generalize hrest : processAll s.toTransformSettings ps w₁ = rest at hprocess
    obtain ⟨rs', w₂⟩ := rest
    obtain ⟨rfl, rfl⟩ := Prod.mk.inj hprocess
    obtain ⟨hsound, hkept, hpath, hleaves⟩ := processFile_sound h hfirst
    obtain ⟨hsound', hkept', hpaths, hleaves'⟩ :=
      ih hsound (fun p hp => hdocs p (List.mem_cons_of_mem _ hp)) hrest
    refine ⟨hsound', fun m hm => hkept' m (hkept m hm), by rw [List.map_cons, hpath, hpaths], ?_⟩
    rintro r' hr' hnone
    rcases List.mem_cons.1 hr' with rfl | hmem
    · -- what the first left is kept by the others
      obtain ⟨hsource, hsettled⟩ := hleaves hnone
      exact ⟨hsource, fun m hm hcase => hkept' m (hsettled m hm hcase)⟩
    · exact hleaves' r' hmem hnone

/-! ## Declaring them -/

/-- The declarations are not named like a document or an artifact. -/
theorem ne_declarations {front C : Place} {stem ext : Text} (hext : ext ∈ documentExt :: artifactExts) :
    front ++ [stem ++ ext] ≠ C ++ [declarationsFile] := by
  intro hsame
  have hname : stem ++ ext = declarationsFile := (List.cons.inj (List.append_inj' hsame rfl).2).1
  have hend : ∀ e ∈ documentExt :: artifactExts, Text.endsWith declarationsFile e = false := by decide
  exact absurd (Text.endsWith_iff.2 ⟨stem, hname.symm⟩) (by rw [hend ext hext]; simp)

theorem declareComponents_eq_ok {S C : Place} (hroots : s.RootsAt S C) {ps : List Text} {out : Text}
    {d' : Disk} (h : declareComponents s ps d = .ok (out, d')) :
    Names (C ++ [declarationsFile]) ∧ ∃ text, d.store (rooted (C ++ [declarationsFile])) text = .ok d' := by
  have hout : Path.join s.cacheDir declarationsFile = rooted (C ++ [declarationsFile]) := by
    rw [hroots.cacheDir_eq]
    exact Path.join_rooted_name hroots.names_cache (by decide)
  refine ⟨Path.names_append.2 ⟨hroots.names_cache, by decide⟩, ?_⟩
  unfold declareComponents at h
  simp only [hout] at h
  split at h
  next => exact absurd h (by simp)
  next hstored =>
    obtain ⟨-, rfl⟩ := Prod.mk.inj (Except.ok.inj h)
    exact ⟨_, hstored⟩

theorem inCache_declarations (L : ProjectLayout s) :
    L.InCache (· = L.cache ++ [declarationsFile]) L.cache where
  touched _ hq := hq ▸ List.prefix_append ..
  folder _ := Or.inr

/-- **Declaring documents touches no artifact.** -/
theorem sound_declare {ps : List Text} {out : Text} (h : L.Sound past d₀ w)
    (hdeclare : declareComponents s ps w.disk = .ok (out, d)) :
    L.Sound past d₀ { w with disk := d } ∧
      ∀ m, L.Settled w m → L.Settled { w with disk := d } m := by
  obtain ⟨hnames, text, hstored⟩ := declareComponents_eq_ok L.rootsAt hdeclare
  have htouch := Disk.store_touches h.touches.tree (Disk.placeOf_rooted hnames) hstored L.cache
  have hfree : ∀ m q, L.IsArtifactOf m q → q ≠ L.cache ++ [declarationsFile] := by
    rintro m q ⟨ext, hext, rfl⟩
    exact ne_declarations (List.mem_cons_of_mem _ hext)
  refine ⟨sound_of_touches h (inCache_declarations L) htouch ?_ fun m _ _ _ _ _ => hfree m, fun m hm => ?_⟩
  · intro fs stem _ hplace
    exact absurd hplace (ne_declarations (by decide))
  · exact settled_of_touches (inCache_declarations L) htouch (hfree m) rfl rfl hm

/-! ## A build -/

/-- What a build tells of the documents that it found. -/
structure Reports (L : ProjectLayout s) (w : Workspace) (documents : List Text) (res : BuildResult) :
    Prop where
  exists_results : ∃ rs, rs.map (·.path) = documents ∧ (∀ r ∈ rs, L.Leaves w r) ∧
    res.failed = (tally rs).failed ∧ res.compiled = (tally rs).compiled

theorem buildDocuments_sound {cancelled : Bool} {removed documents : List Text}
    {res : Option BuildResult} {fault : Option BuildFault} (h : L.Sound past d₀ w)
    (hdocs : ∀ p ∈ documents, ∃ n, p = L.path n)
    (hbuild : buildDocuments s cancelled removed documents w = (res, fault, w')) :
    L.Sound past d₀ w' ∧ ∀ r, res = some r → L.Reports w' documents r := by
  unfold buildDocuments at hbuild
  split at hbuild
  next =>
    obtain ⟨rfl, hrest⟩ := Prod.mk.inj hbuild
    exact ⟨(Prod.mk.inj hrest).2 ▸ h, fun r hr => absurd hr (by simp)⟩
  next =>
    generalize hprocess : processAll s.toTransformSettings documents w = result at hbuild
    obtain ⟨rs, w₁⟩ := result
    obtain ⟨hsound, -, hpaths, hleaves⟩ := processAll_sound h hdocs hprocess
    simp only at hbuild
    split at hbuild
    next =>
      obtain ⟨rfl, hrest⟩ := Prod.mk.inj hbuild
      exact ⟨(Prod.mk.inj hrest).2 ▸ hsound, fun r hr => absurd hr (by simp)⟩
    next out d hdeclare =>
      obtain ⟨rfl, hrest⟩ := Prod.mk.inj hbuild
      obtain ⟨-, rfl⟩ := Prod.mk.inj hrest
      obtain ⟨hsound', hkept⟩ := sound_declare hsound hdeclare
      refine ⟨hsound', fun r hr => ?_⟩
      obtain rfl := Option.some.inj hr
      refine ⟨rs, hpaths, fun x hx hnone => ?_, rfl, rfl⟩
      obtain ⟨hsource, hsettled⟩ := hleaves x hx hnone
      exact ⟨hsource, fun n hn hcase => hkept n (hsettled n hn hcase)⟩

/-- The workspace behind the steps of a build that come before the documents, or
behind the first of them that failed. -/
inductive Prepared (s : BuildSettings) (w : Workspace) : Workspace → Prop
  | refused : Prepared s w w
  | cleaned {d : Disk} {r : Except BuildFault (List Text)} {w₁ : Workspace}
      (hmake : w.disk.makeFolders s.cacheDir = .ok d)
      (hclean : cleanUnlessSkipped s { w with disk := d } = (r, w₁)) : Prepared s w w₁
  | mirrored {d d' : Disk} {r : Except BuildFault (List Text)} {r' : Except BuildFault Unit}
      {w₁ : Workspace} (hmake : w.disk.makeFolders s.cacheDir = .ok d)
      (hclean : cleanUnlessSkipped s { w with disk := d } = (r, w₁))
      (hcopy : copyComponents s w₁.disk = (r', d')) : Prepared s w { w₁ with disk := d' }

/-- All that a build can do. -/
theorem build_cases {cancelled : Bool} {res : Option BuildResult} {fault : Option BuildFault}
    (h : build s cancelled w = (res, fault, w')) :
    res = none ∧ Prepared s w w' ∨
      ∃ w₁ removed found, Prepared s w w₁ ∧ findDocuments s.srcRoot w₁.disk = .ok found ∧
        buildDocuments s cancelled removed found w₁ = (res, fault, w') := by
  unfold build at h
  split at h
  next => cases h; exact Or.inl ⟨rfl, .refused⟩
  next hmake =>
    split at h
    next hclean => cases h; exact Or.inl ⟨rfl, .cleaned hmake hclean⟩
    next hclean =>
      split at h
      next hcopy => cases h; exact Or.inl ⟨rfl, .mirrored hmake hclean hcopy⟩
      next hcopy =>
        simp only at h
        split at h
        next => cases h; exact Or.inl ⟨rfl, .mirrored hmake hclean hcopy⟩
        next hfound => exact Or.inr ⟨_, _, _, .mirrored hmake hclean hcopy, hfound, h⟩

theorem prepared_sound (h : L.Sound past d₀ w) (hprepared : Prepared s w w') : L.Sound past d₀ w' := by
  have hcleaned : ∀ {d : Disk} {r : Except BuildFault (List Text)} {w₁ : Workspace},
      w.disk.makeFolders s.cacheDir = .ok d → cleanUnlessSkipped s { w with disk := d } = (r, w₁) →
      L.Sound past d₀ w₁ := by
    intro d r w₁ hmake hclean
    rw [L.cacheDir_eq] at hmake
    have hmade : L.Sound past d₀ { w with disk := d } :=
      sound_of_touches h ⟨fun _ hq => hq.elim, fun _ => Or.inr⟩
        (Disk.makeFolders_touches h.touches.tree (Disk.placeOf_rooted L.names_cache)
          (Path.upFirst_rooted L.names_cache) hmake) (fun _ _ _ hq => hq.elim)
        fun _ _ _ _ _ _ _ _ => id
    exact sound_clean hmade (Disk.makeFolders_made h.touches.tree L.names_cache hmake) hclean
  cases hprepared with
  | refused => exact h
  | cleaned hmake hclean => exact hcleaned hmake hclean
  | mirrored hmake hclean hcopy => exact sound_mirror (hcleaned hmake hclean) hcopy

/-- **A build keeps what the record means,** whether or not it reaches its end,
and reports on the documents that are found behind it. -/
theorem build_sound {cancelled : Bool} {res : Option BuildResult} {fault : Option BuildFault}
    (h : L.Sound past d₀ w) (hnamed : L.DocumentsNamed d₀)
    (hbuild : build s cancelled w = (res, fault, w')) :
    L.Sound past d₀ w' ∧
      ∀ r, res = some r → ∃ found, findDocuments s.srcRoot w'.disk = .ok found ∧
        (∀ p ∈ found, ∃ n, p = L.path n) ∧ L.Reports w' found r := by
  rcases build_cases hbuild with ⟨rfl, hprepared⟩ | ⟨w₁, removed, found, hprepared, hfound, hdocuments⟩
  · exact ⟨prepared_sound h hprepared, fun r hr => absurd hr (by simp)⟩
  · have hsound := prepared_sound h hprepared
    have hnamed₁ := documentsNamed_of_touches hsound.touches hnamed
    have hpaths : ∀ p ∈ found, ∃ n, p = L.path n := by
      intro p hp
      obtain ⟨n, -, -, rfl, -⟩ := mem_findDocuments hsound.touches.tree hnamed₁ hfound p hp
      exact ⟨n, rfl⟩
    obtain ⟨hsound', hreports⟩ := buildDocuments_sound hsound hpaths hdocuments
    -- the sources are as they were when the documents were found
    have hsame : ∀ q, L.src <+: q → w'.disk.find? q = w₁.disk.find? q := fun q hq => by
      rw [find?_src_of_touches hsound'.touches hq, find?_src_of_touches hsound.touches hq]
    refine ⟨hsound', fun r hr => ⟨found, ?_, hpaths, hreports r hr⟩⟩
    exact findDocuments_congr hsound.touches.tree hsound'.touches.tree hsame hfound

end

end ProjectLayout

end Docweave
