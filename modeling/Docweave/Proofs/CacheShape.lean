import Docweave.Proofs.BuildPhases

/-!
# The shape of the cache

A cache that only builds have written to has a shape that the cleanup can rely
on. Where there is an artifact of a document there is its component, because the
component is written first and taken away first; and a folder in the cache is
there for a folder among the sources, so it is not too deep and does not stand
where metadata or highlights are expected. The mirrored components are left out:
nothing is known about them.

> `shape_of_touches`: changes of the disk that keep the shape.

> `shape_transform`, `build_shape`: what one document, and a build, keep.

> `history_shape`: the shape, over any sequence of edits and builds.
-/

namespace Docweave

open Docweave.Path (rooted Names IsName)
open Workspace Project

namespace ProjectLayout

variable {s : BuildSettings} (L : ProjectLayout s)

/-- The place of the component of a document. -/
def componentPlace (n : DocumentName) : Place := L.artifactFolder n ++ [n.stem ++ componentExt]

/-- The document has its component in the cache. -/
def HasComponent (d : Disk) (n : DocumentName) : Prop :=
  ∃ text time, d.find? (L.componentPlace n) = some (.file text time)

/-- The document has its component if it has any artifact. -/
def Whole (d : Disk) (n : DocumentName) : Prop :=
  ∀ q text time, L.IsArtifactOf n q → d.find? q = some (.file text time) → L.HasComponent d n

/-- Folders that a walk can enter, the last of which is not called like metadata
or highlights. -/
structure PlainFolders (fs : List Text) : Prop where
  depth : fs.length < Disk.maxDepth
  name : ∀ front stem, ∀ ext ∈ [metaExt, highlightExt], fs ≠ front ++ [stem ++ ext]

/-- The sources are named so that artifacts get places of their own: no document
is called by its extension alone or by dots in front of it, and no folder is
called like metadata or highlights. Handwritten components may be. -/
structure SourcesPlain (d : Disk) : Prop where
  documents : L.DocumentsNamed d
  folders : ∀ front stem, ∀ ext ∈ [metaExt, highlightExt], front.head? ≠ some componentsFolder →
    d.find? (L.src ++ (front ++ [stem ++ ext])) ≠ some .folder

/-- The shape of the cache, outside the mirrored components. -/
structure CacheShape (d : Disk) : Prop where
  tree : d.IsTree
  sources : L.SourcesPlain d
  components : L.ComponentsNamed d
  whole : ∀ n, ¬ n.InComponents → L.Whole d n
  folders : ∀ fs, fs.head? ≠ some componentsFolder → d.find? (L.cache ++ fs) = some .folder →
    PlainFolders fs

section

variable {L} {d d' : Disk} {w w' : Workspace} {n : DocumentName} {touched : Place → Prop} {folder : Place}

theorem plainFolders_nil : PlainFolders [] where
  depth := by decide
  name front stem ext _ h := absurd h.symm (by simp)

/-- Folders of a document that is found can be made in the cache. -/
theorem plainFolders_of_document (hsources : L.SourcesPlain d) (htree : d.IsTree) {text : Text}
    {time : Int} (hfile : d.find? (L.place n) = some (.file text time))
    (hdepth : n.folders.length < Disk.maxDepth) {fs : List Text} (hfs : fs <+: n.folders)
    (hout : fs.head? ≠ some componentsFolder) : PlainFolders fs where
  depth := Nat.lt_of_le_of_lt hfs.length_le hdepth
  name := by
    rintro front stem ext hext rfl
    -- there is a folder of that name among the sources
    have habove : L.src ++ (front ++ [stem ++ ext]) <+: L.place n := by
      rw [place, List.append_assoc, List.prefix_append_right_inj]
      exact hfs.trans (List.prefix_append ..)
    have hne : L.src ++ (front ++ [stem ++ ext]) ≠ L.place n := by
      intro heq
      have hlen := congrArg List.length heq
      have hshort := hfs.length_le
      simp only [place, List.length_append, List.length_singleton] at hlen hshort
      omega
    refine hsources.folders front stem ext hext (fun hhead => hout ?_)
      (htree.folder_above hfile habove hne)
    rw [List.head?_append, hhead]
    rfl

theorem sourcesPlain_of_touches (h : Disk.Touches (L.cache <+: ·) L.cache d d')
    (hsources : L.SourcesPlain d) : L.SourcesPlain d' where
  documents := documentsNamed_of_touches h hsources.documents
  folders front stem ext hext hout := by
    rw [find?_src_of_touches h (List.prefix_append ..)]
    exact hsources.folders front stem ext hext hout

/-- It is enough to look at the entries. -/
theorem sourcesPlain_of_entries (htree : d.IsTree)
    (hfiles : ∀ x ∈ d.entries, x.1.getLast? ∉ (bareNames documentExt).map some)
    (hfolders : ∀ x ∈ d.entries, x.2 = .folder → ∀ ext ∈ [metaExt, highlightExt],
      (x.1.getLast?.all fun name => !Text.endsWith name ext) = true) : L.SourcesPlain d where
  documents _ _ _ _ hfind := isName_of_entries htree hfiles hfind
  folders front stem ext hext _ hfolder := by
    have hmem := Disk.mem_of_find? (by simp) hfolder
    have hname := hfolders _ hmem rfl ext hext
    rw [← List.append_assoc, List.getLast?_concat] at hname
    simp [Text.endsWith_iff.2 ⟨stem, rfl⟩] at hname

/-- **Changes that keep the shape.** They touch no artifact of a document, or
leave it with its component, and what folders they make are plain. -/
theorem shape_of_touches (h : L.CacheShape d) (hin : L.InCache touched folder)
    (htouch : Disk.Touches touched folder d d')
    (hnamed : ∀ fs stem, fs.head? ≠ some componentsFolder →
      touched (L.cache ++ fs ++ [stem ++ componentExt]) → IsName stem)
    (hwhole : ∀ n, ¬ n.InComponents → (∀ q, L.IsArtifactOf n q → ¬ touched q) ∨ L.Whole d' n)
    (hfolders : ∀ fs, fs.head? ≠ some componentsFolder → d'.find? (L.cache ++ fs) = some .folder →
      d.find? (L.cache ++ fs) = some .folder ∨ PlainFolders fs) : L.CacheShape d' where
  tree := htouch.tree
  sources := sourcesPlain_of_touches (touches_cache hin htouch) h.sources
  components := by
    intro fs stem text time hfs hfind
    by_cases htouched : touched (L.cache ++ fs ++ [stem ++ componentExt])
    · exact hnamed fs stem hfs htouched
    · rcases htouch.find _ htouched with heq | ⟨-, -, hfolder⟩
      · exact h.components fs stem text time hfs (heq ▸ hfind)
      · exact absurd (hfolder.symm.trans hfind) (by simp)
  whole := by
    intro n hout
    rcases hwhole n hout with hfree | hdone
    · intro q text time hq hfind
      have hsame : ∀ {q e}, L.IsArtifactOf n q → (d.find? q = some e ∨ d'.find? q = some (.file text time)) →
          d'.find? q = d.find? q := by
        intro q e hq hsome
        rcases htouch.find q (hfree q hq) with heq | ⟨-, hnone, hnew⟩
        · exact heq
        · rw [hnone, hnew] at hsome
          exact absurd hsome (by simp)
      have hbefore : d.find? q = some (.file text time) := hsame (e := .folder) hq (Or.inr hfind) ▸ hfind
      obtain ⟨text', time', hcomponent⟩ := h.whole n hout q text time hq hbefore
      exact ⟨text', time', (hsame ⟨_, by decide, rfl⟩ (Or.inl hcomponent)).trans hcomponent⟩
    · exact hdone
  folders := by
    intro fs hout hfind
    rcases hfolders fs hout hfind with hbefore | hplain
    · exact h.folders fs hout hbefore
    · exact hplain

/-! ## One document -/

/-- A transform of a document that is there keeps the shape. -/
theorem shape_transform {cancelled : Bool} {out : Output} {fault : Option ProcessFault}
    (h : L.CacheShape w.disk) {text : Text} {time : Int}
    (hfile : w.disk.find? (L.place n) = some (.file text time))
    (hdepth : n.folders.length < Disk.maxDepth)
    (htransform : w.transform s.toTransformSettings cancelled (L.path n) = (out, fault, w')) :
    L.CacheShape w'.disk := by
  have hplain : ∀ fs, fs.head? ≠ some componentsFolder → L.cache ++ fs <+: L.artifactFolder n →
      PlainFolders fs := by
    intro fs hout hway
    exact plainFolders_of_document h.sources h.tree hfile hdepth
      ((List.prefix_append_right_inj _).1 hway) hout
  have hrun : ∀ {c : Compiled} {d : Disk} {f : Option ProcessFault},
      (c.plan (L.artifacts n)).run w.disk = (d, f) → L.CacheShape d := by
    intro c d f hrun
    have hnew : ∀ fs, fs.head? ≠ some componentsFolder → d.find? (L.cache ++ fs) = some .folder →
        w.disk.find? (L.cache ++ fs) = some .folder ∨ PlainFolders fs := by
      intro fs hout hfolder
      rcases run_folders h.tree (L.standAt _ n) hrun hfolder with hbefore | hway
      · exact Or.inl hbefore
      · exact Or.inr (hplain fs hout hway)
    rcases run_component h.tree (L.standAt _ n) hrun with hcomponent | hmade
    · refine shape_of_touches h (inCache_artifacts L n) (run_touches h.tree (L.standAt _ n) hrun)
        (fun fs stem _ hplace => isName_of_isArtifactOf hplace) (fun m _ => ?_) hnew
      by_cases hm : m = n
      · exact Or.inr fun _ _ _ _ _ => hm ▸ hcomponent
      · exact Or.inl fun q hq hq' => hm (artifactPlace_inj hq hq')
    · -- no file was written
      exact shape_of_touches h ⟨fun _ hq => hq.elim, (inCache_artifacts L n).folder⟩ hmade
        (fun _ _ _ hq => hq.elim) (fun _ _ => Or.inl fun _ _ => id) hnew
  cases transformed_of_eq htransform with
  | refused => exact h
  | skipped => exact h
  | stopped _ ha _ _ hran =>
    obtain rfl := Except.ok.inj ((L.resolve_path n).symm.trans ha)
    exact hrun hran
  | written _ ha _ _ hran =>
    obtain rfl := Except.ok.inj ((L.resolve_path n).symm.trans ha)
    exact hrun hran

theorem shape_processAll {ps : List Text} {rs : List ProcessResult} (h : L.CacheShape w.disk)
    (hdocs : ∀ p ∈ ps, L.IsDocument w.disk p)
    (hprocess : processAll s.toTransformSettings ps w = (rs, w')) : L.CacheShape w'.disk := by
  induction ps generalizing w rs with
  | nil => exact (Prod.mk.inj hprocess).2 ▸ h
  | cons p ps ih =>
    obtain ⟨n, text, time, rfl, hfile, hdepth⟩ := hdocs p (List.mem_cons_self ..)
    unfold processAll at hprocess
    rw [path, place, processFile_document (Path.names_append.2 ⟨L.names_src, n.names_folders⟩)
      n.isName_stem.no_slash] at hprocess
    generalize htransform : w.transform s.toTransformSettings false
      (rooted (L.src ++ n.folders ++ [n.stem ++ documentExt])) = result at hprocess
    obtain ⟨out, fault, w₁⟩ := result
    simp only at hprocess
    generalize hrest : processAll s.toTransformSettings ps w₁ = rest at hprocess
    obtain ⟨rs', w₂⟩ := rest
    obtain ⟨-, rfl⟩ := Prod.mk.inj hprocess
    have htouch := touches_cache (inCache_artifacts L n)
      (transform_touches h.tree (L.resolve_path n) (L.standAt _ n) htransform)
    refine ih (shape_transform h hfile hdepth htransform) (fun p hp => ?_) hrest
    exact isDocument_of_touches htouch (hdocs p (List.mem_cons_of_mem _ hp))

/-! ## The other steps -/

/-- Making the folder of the cache adds nothing to it. -/
theorem shape_makeFolders (h : L.CacheShape d) (hmake : d.makeFolders s.cacheDir = .ok d') :
    L.CacheShape d' := by
  rw [L.cacheDir_eq] at hmake
  have htouch := Disk.makeFolders_touches h.tree (Disk.placeOf_rooted L.names_cache)
    (Path.upFirst_rooted L.names_cache) hmake
  refine shape_of_touches h ⟨fun _ hq => hq.elim, fun _ => Or.inr⟩ htouch (fun _ _ _ hq => hq.elim)
    (fun _ _ => Or.inl fun _ _ => id) fun fs _ hfolder => ?_
  rcases htouch.find _ id with hsame | ⟨hway, -, -⟩
  · exact Or.inl (hsame ▸ hfolder)
  · have hlen := hway.length_le
    rw [List.length_append] at hlen
    rw [List.eq_nil_of_length_eq_zero (by omega : fs.length = 0)]
    exact Or.inr plainFolders_nil

theorem shape_mirror {r : Except BuildFault Unit} (h : L.CacheShape d)
    (hcopy : copyComponents s d = (r, d')) : L.CacheShape d' := by
  have htouch := copyComponents_touches L.rootsAt h.tree hcopy
  have hin : L.InCache (L.mirrorPlace <+: ·) L.mirrorPlace :=
    ⟨fun q hq => (List.prefix_append ..).trans hq,
      fun q hq => List.prefix_or_prefix_of_prefix (List.prefix_append ..) hq⟩
  refine shape_of_touches h hin htouch (fun fs stem hout hmirror => ?_) (fun n hout => ?_)
    fun fs hout hfolder => ?_
  · exact absurd hmirror (not_mirrored hout (by decide))
  · refine Or.inl ?_
    rintro q ⟨ext, hext, rfl⟩
    exact not_mirrored hout hext
  · -- a folder in the mirror, or the folder of the cache
    by_cases hmirror : L.mirrorPlace <+: L.cache ++ fs
    · obtain ⟨rest, hrest⟩ := (List.prefix_append_right_inj _).1 hmirror
      exact absurd (by rw [← hrest]; rfl) hout
    · rcases htouch.find _ hmirror with hsame | ⟨hway, -, -⟩
      · exact Or.inl (hsame ▸ hfolder)
      · obtain hsame | habove := List.prefix_concat_iff.1 hway
        · exact absurd (hsame ▸ List.prefix_refl _) hmirror
        · have hlen := habove.length_le
          rw [List.length_append] at hlen
          rw [List.eq_nil_of_length_eq_zero (by omega : fs.length = 0)]
          exact Or.inr plainFolders_nil

theorem shape_declare {ps : List Text} {out : Text} (h : L.CacheShape d)
    (hdeclare : declareComponents s ps d = .ok (out, d')) : L.CacheShape d' := by
  obtain ⟨hnames, text, hstored⟩ := declareComponents_eq_ok L.rootsAt hdeclare
  have hplace : d.placeOf (rooted (L.cache ++ [declarationsFile])) = L.cache ++ [declarationsFile] :=
    Disk.placeOf_rooted hnames
  refine shape_of_touches h (inCache_declarations L) (Disk.store_touches h.tree hplace hstored L.cache)
    (fun fs stem _ hsame => ?_) (fun n _ => Or.inl ?_) fun fs _ hfolder => Or.inl ?_
  · exact absurd hsame (ne_declarations (by decide))
  · rintro q ⟨ext, hext, rfl⟩
    exact ne_declarations (List.mem_cons_of_mem _ hext)
  · rw [Disk.find?_store h.tree hplace hstored] at hfolder
    split at hfolder
    next => exact absurd hfolder (by simp)
    next => exact hfolder

/-! ## Cleaning -/

/-- A disk that documents have been taken from, all of them gone and with a
component in the cache. -/
structure Cleaned (L : ProjectLayout s) (d₀ : Disk) (taken : DocumentName → Prop) (d : Disk) : Prop where
  gone : ∀ n, taken n → ¬ n.InComponents ∧ L.HasComponent d₀ n ∧
    d₀.find? (L.place n) = none ∧ ¬ d₀.Blocked (L.place n)
  lost : ∀ n q, taken n → L.IsArtifactOf n q → d.find? q = none
  kept : ∀ q, (∀ n, taken n → ¬ L.IsArtifactOf n q) → d.find? q = d₀.find? q

section

variable {d₀ : Disk} {taken : DocumentName → Prop}

theorem Cleaned.shrinks (h : L.Cleaned d₀ taken d) : d₀.Shrinks d := by
  intro q
  by_cases htaken : ∃ n, taken n ∧ L.IsArtifactOf n q
  · obtain ⟨n, hn, hq⟩ := htaken
    exact Or.inr (h.lost n q hn hq)
  · exact Or.inl (h.kept q fun n hn hq => htaken ⟨n, hn, hq⟩)

/-- Nothing outside the cache is taken. -/
theorem Cleaned.outside (h : L.Cleaned d₀ taken d) {q : Place} (hq : ¬ L.cache <+: q) :
    d.find? q = d₀.find? q := h.kept q fun _ _ hart => hq (cache_above hart)

/-- Documents that are not taken keep their artifacts. -/
theorem Cleaned.artifact (h : L.Cleaned d₀ taken d) {q : Place} (hn : ¬ taken n)
    (hq : L.IsArtifactOf n q) : d.find? q = d₀.find? q :=
  h.kept q fun _ hm hart => hn (artifactPlace_inj hq hart ▸ hm)

/-- Where a document has its component, no folder is in the place of an artifact. -/
theorem CacheShape.not_folder (h : L.CacheShape d) (hout : ¬ n.InComponents) (hn : L.HasComponent d n)
    {q : Place} (hq : L.IsArtifactOf n q) : d.find? q ≠ some .folder := by
  intro hfolder
  obtain ⟨ext, hext, rfl⟩ := hq
  simp only [artifactExts, List.mem_cons, List.not_mem_nil, or_false] at hext
  have hplain : ext ∈ [metaExt, highlightExt] → False := by
    intro hmem
    rw [artifactFolder, List.append_assoc] at hfolder
    have hhead : (n.folders ++ [n.stem ++ ext]).head? ≠ some componentsFolder := by
      intro hhead
      have hmirror : L.mirrorPlace <+: L.cache ++ n.folders ++ [n.stem ++ ext] := by
        rw [mirrorPlace, List.append_assoc, List.prefix_append_right_inj]
        obtain ⟨rest, hrest⟩ := List.head?_eq_some_iff.1 hhead
        exact ⟨rest, by rw [hrest]; rfl⟩
      exact not_mirrored hout (List.mem_cons_of_mem _ hmem) hmirror
    exact (h.folders _ hhead hfolder).name n.folders n.stem ext hmem rfl
  rcases hext with rfl | hrest
  · obtain ⟨text, time, hfile⟩ := hn
    exact absurd (hfile.symm.trans hfolder) (by simp)
  · exact hplain (by simpa using hrest)

theorem Cleaned.folders (h : L.Cleaned d₀ taken d) (hshape : L.CacheShape d₀) {q : Place}
    (hq : d₀.find? q = some .folder) : d.find? q = some .folder := by
  rw [h.kept q fun n hn hart => ?_]
  · exact hq
  · obtain ⟨hout, hcomponent, -⟩ := h.gone n hn
    exact hshape.not_folder hout hcomponent hart hq

/-- **Taking documents away keeps the shape.** -/
theorem Cleaned.shape (h : L.Cleaned d₀ taken d) (hshape : L.CacheShape d₀) (htree : d.IsTree) :
    L.CacheShape d where
  tree := htree
  sources := by
    have hsame : ∀ q, L.src <+: q → d.find? q = d₀.find? q := fun q hq => h.outside (not_cache_of_src hq)
    refine ⟨fun fs stem text time hfile => ?_, fun front stem ext hext hout => ?_⟩
    · rw [hsame _ ⟨_, (List.append_assoc ..).symm⟩] at hfile
      exact hshape.sources.documents fs stem text time hfile
    · rw [hsame _ (List.prefix_append ..)]
      exact hshape.sources.folders front stem ext hext hout
  components fs stem text time hfs hfile := hshape.components fs stem text time hfs (h.shrinks.find hfile)
  whole := by
    intro n hout q text time hq hfile
    have hn : ¬ taken n := by
      intro hn
      rw [h.lost n q hn hq] at hfile
      exact absurd hfile (by simp)
    obtain ⟨text', time', hcomponent⟩ := hshape.whole n hout q text time hq (h.artifact hn hq ▸ hfile)
    exact ⟨text', time', (h.artifact hn ⟨_, by decide, rfl⟩).trans hcomponent⟩
  folders fs hout hfolder := hshape.folders fs hout (h.shrinks.find hfolder)

/-- The places of the artifacts of a document. -/
def artifactPlaces (L : ProjectLayout s) (n : DocumentName) : List Place :=
  artifactExts.map fun ext => L.artifactFolder n ++ [n.stem ++ ext]

theorem mem_artifactPlaces {q : Place} : q ∈ L.artifactPlaces n ↔ L.IsArtifactOf n q := by
  rw [artifactPlaces, List.mem_map]
  exact ⟨fun ⟨ext, hext, heq⟩ => ⟨ext, hext, heq.symm⟩, fun ⟨ext, hext, heq⟩ => ⟨ext, hext, heq.symm⟩⟩

theorem filesOf_artifacts (L : ProjectLayout s) (n : DocumentName) :
    filesOf (L.artifacts n) = (L.artifactPlaces n).map rooted := by
  show artifactExts.map (rooted (L.artifactFolder n ++ [n.stem]) ++ ·) = _
  rw [artifactPlaces, List.map_map]
  exact List.map_congr_left fun ext _ => (Path.rooted_append_singleton _ n.stem ext).symm

/-- Discarding a document that is gone takes all of its artifacts, and does not
fail. -/
theorem cleaned_discard (h : L.Cleaned d₀ taken w.disk) (hshape : L.CacheShape d₀)
    (htree : w.disk.IsTree) (hout : ¬ n.InComponents) (hcomponent : L.HasComponent d₀ n)
    (hgone : d₀.find? (L.place n) = none) (hfree : ¬ d₀.Blocked (L.place n)) {files : List Text}
    {fault : Option ProcessFault}
    (hdiscard : w.discard s.toTransformSettings (L.path n) = (files, fault, w')) :
    fault = none ∧ L.Cleaned d₀ (fun m => taken m ∨ m = n) w'.disk := by
  have hfolder : w.disk.find? (L.artifactFolder n) = some .folder := by
    obtain ⟨text, time, hfile⟩ := hcomponent
    have hup := hshape.tree.inFolder hfile
    rw [componentPlace, List.dropLast_concat] at hup
    exact h.folders hshape hup
  have hplaces : ∀ p ∈ L.artifactPlaces n,
      Names p ∧ w.disk.find? p.dropLast = some .folder ∧ w.disk.find? p ≠ some .folder := by
    intro p hp
    have hart := mem_artifactPlaces.1 hp
    refine ⟨?_, ?_, fun hnow => hshape.not_folder hout hcomponent hart (h.shrinks.find hnow)⟩
    · obtain ⟨ext, hext, rfl⟩ := hart
      exact names_stem (Path.names_append.2 ⟨L.names_cache, n.names_folders⟩) n.isName_stem.no_slash
        (List.mem_cons_of_mem _ hext)
    · obtain ⟨ext, hext, rfl⟩ := hart
      rw [List.dropLast_concat]
      exact hfolder
  obtain ⟨removed, d', hremoved, -, hfind⟩ := removeFiles_places htree hplaces
  unfold Workspace.discard at hdiscard
  simp only [L.resolve_path n] at hdiscard
  rw [filesOf_artifacts, show (w.forget (L.path n)).disk = w.disk from rfl, hremoved] at hdiscard
  obtain ⟨-, hrest⟩ := Prod.mk.inj hdiscard
  obtain ⟨rfl, rfl⟩ := Prod.mk.inj hrest
  refine ⟨rfl, ⟨?_, ?_, ?_⟩⟩
  · rintro m (hm | rfl)
    · exact h.gone m hm
    · exact ⟨hout, hcomponent, hgone, hfree⟩
  · rintro m q hm hq
    show d'.find? q = none
    rw [hfind]
    split
    next => rfl
    next hother =>
      rcases hm with hm | rfl
      · exact h.lost m q hm hq
      · exact absurd (mem_artifactPlaces.2 hq) hother
  · intro q hq
    show d'.find? q = d₀.find? q
    rw [hfind, if_neg fun hmem => hq n (Or.inr rfl) (mem_artifactPlaces.1 hmem)]
    exact h.kept q fun m hm => hq m (Or.inl hm)

/-- The document of a component that is missing, in terms of the disk that the
cleanup found. -/
theorem Cleaned.missing (h : L.Cleaned d₀ taken d) (htree : d.IsTree) {f : DiskFault}
    (hstat : d.stat (L.path n) = .error f) :
    d₀.find? (L.place n) = none ∧
      (f.cause = .notFolder ∧ d₀.Blocked (L.place n) ∨ f.cause = .missing ∧ ¬ d₀.Blocked (L.place n)) := by
  have hsame : ∀ q, q <+: L.place n → d.find? q = d₀.find? q := by
    intro q hq
    refine h.outside fun hcache => ?_
    exact not_cache_of_src (L.src_above n) (hcache.trans hq)
  have hblocked : d.Blocked (L.place n) ↔ d₀.Blocked (L.place n) := by
    constructor
    · rintro ⟨q, text, time, hq, hne, hfile⟩
      exact ⟨q, text, time, hq, hne, hsame q hq ▸ hfile⟩
    · rintro ⟨q, text, time, hq, hne, hfile⟩
      exact ⟨q, text, time, hq, hne, (hsame q hq).trans hfile⟩
  rw [← hsame _ (List.prefix_refl _), ← hblocked]
  exact Disk.stat_rooted_error htree (L.names_place n) hstat

theorem keptByDiscards_cleaned (hshape : L.CacheShape d₀) :
    KeptByDiscards s L.src L.cache d₀ fun w => ∃ taken, L.Cleaned d₀ taken w.disk := by
  rintro w w' fs stem text time f files fault hclean ⟨taken, h⟩ hfs - hout hfile hstat hcause hdiscard
  have hname : IsName stem := hshape.components fs stem text time hout hfile
  obtain ⟨hgone, hwhy⟩ := h.missing (n := ⟨fs, stem, hfs, hname⟩) hclean.tree hstat
  have hfree : ¬ d₀.Blocked (L.place ⟨fs, stem, hfs, hname⟩) := by
    rcases hwhy with ⟨hother, -⟩ | ⟨-, hfree⟩
    · rw [hcause] at hother
      exact absurd hother (by decide)
    · exact hfree
  exact ⟨_, (cleaned_discard (n := ⟨fs, stem, hfs, hname⟩) h hshape hclean.tree hout
    ⟨text, time, hfile⟩ hgone hfree hdiscard).2⟩

end

/-- **Cleaning keeps the shape.** -/
theorem shape_clean {r : Except BuildFault (List Text)} (h : L.CacheShape w.disk)
    (hroot : w.disk.find? L.cache = some .folder) (hclean : cleanUnlessSkipped s w = (r, w')) :
    L.CacheShape w'.disk := by
  unfold cleanUnlessSkipped at hclean
  split at hclean
  next => exact (Prod.mk.inj hclean).2 ▸ h
  next =>
    have hnone : L.Cleaned w.disk (fun _ => False) w.disk :=
      ⟨fun _ hn => hn.elim, fun _ _ hn => hn.elim, fun _ _ => rfl⟩
    obtain ⟨hcleaning, taken, hcleaned⟩ :=
      clean_keeps L.rootsAt h.tree hroot (keptByDiscards_cleaned h) ⟨_, hnone⟩ hclean
    exact hcleaned.shape h hcleaning.tree

/-! ## Builds -/

theorem prepared_shape (h : L.CacheShape w.disk) (hprepared : Prepared s w w') :
    L.CacheShape w'.disk := by
  have hcleaned : ∀ {d : Disk} {r : Except BuildFault (List Text)} {w₁ : Workspace},
      w.disk.makeFolders s.cacheDir = .ok d → cleanUnlessSkipped s { w with disk := d } = (r, w₁) →
      L.CacheShape w₁.disk := by
    intro d r w₁ hmake hclean
    have hroot : d.find? L.cache = some .folder := by
      rw [L.cacheDir_eq] at hmake
      exact Disk.makeFolders_made h.tree L.names_cache hmake
    exact shape_clean (w := { w with disk := d }) (shape_makeFolders h hmake) hroot hclean
  cases hprepared with
  | refused => exact h
  | cleaned hmake hclean => exact hcleaned hmake hclean
  | mirrored hmake hclean hcopy => exact shape_mirror (hcleaned hmake hclean) hcopy

/-- **A build keeps the shape of the cache,** whether or not it reaches its end. -/
theorem build_shape {cancelled : Bool} {res : Option BuildResult} {fault : Option BuildFault}
    (h : L.CacheShape w.disk) (hbuild : build s cancelled w = (res, fault, w')) :
    L.CacheShape w'.disk := by
  rcases build_cases hbuild with ⟨-, hprepared⟩ | ⟨w₁, removed, found, hprepared, hfound, hdocuments⟩
  · exact prepared_shape h hprepared
  · have hfirst := prepared_shape h hprepared
    have hdocs := mem_findDocuments hfirst.tree hfirst.sources.documents hfound
    unfold buildDocuments at hdocuments
    split at hdocuments
    next =>
      cases hdocuments
      exact hfirst
    next =>
      generalize hprocess : processAll s.toTransformSettings found w₁ = result at hdocuments
      obtain ⟨rs, w₂⟩ := result
      have hsecond := shape_processAll hfirst hdocs hprocess
      simp only at hdocuments
      split at hdocuments
      next =>
        cases hdocuments
        exact hsecond
      next hdeclare =>
        cases hdocuments
        exact shape_declare hsecond hdeclare

/-! ## Histories -/

/-- What can happen to a project and its cache: builds, and edits of the sources in
between. In the beginning there is nothing in the cache, and nobody but the builds
touches it. A new run of the program starts with an empty record, so an edit may
change the record too. -/
inductive CacheHistory (L : ProjectLayout s) : Workspace → Prop
  | start {w : Workspace} (htree : w.disk.IsTree)
      (hempty : ∀ q, L.cache <+: q → q ≠ L.cache → w.disk.find? q = none)
      (hsources : L.SourcesPlain w.disk) : CacheHistory L w
  | edit {w w' : Workspace} (hist : CacheHistory L w) (htree : w'.disk.IsTree)
      (hcache : ∀ q, L.cache <+: q → w'.disk.find? q = w.disk.find? q)
      (hsources : L.SourcesPlain w'.disk) : CacheHistory L w'
  | build {w w' : Workspace} {cancelled : Bool} {res : Option BuildResult}
      {fault : Option BuildFault} (hist : CacheHistory L w)
      (h : build s cancelled w = (res, fault, w')) : CacheHistory L w'

/-- **The shape of the cache, over any sequence of edits and builds.** -/
theorem history_shape (hist : L.CacheHistory w) : L.CacheShape w.disk := by
  induction hist with
  | @start w htree hempty hsources =>
    have hfile : ∀ q text time, L.cache <+: q → w.disk.find? q = some (.file text time) → q = L.cache := by
      intro q text time hq hfind
      by_cases hsame : q = L.cache
      · exact hsame
      · rw [hempty q hq hsame] at hfind
        exact absurd hfind (by simp)
    refine ⟨htree, hsources, fun fs stem text time _ hfind => ?_, fun n _ q text time hq hfind => ?_,
      fun fs _ hfolder => ?_⟩
    · have hsame := hfile _ text time ⟨_, (List.append_assoc ..).symm⟩ hfind
      have hlen := congrArg List.length hsame
      simp only [List.length_append, List.length_singleton] at hlen
      omega
    · have hsame := hfile q text time (cache_above hq) hfind
      obtain ⟨ext, -, rfl⟩ := hq
      have hlen := congrArg List.length hsame
      simp only [artifactFolder, List.length_append, List.length_singleton] at hlen
      omega
    · by_cases hnil : fs = []
      · rw [hnil]
        exact plainFolders_nil
      · rw [hempty _ (List.prefix_append ..) fun hsame => hnil (List.append_cancel_left
          (hsame.trans (List.append_nil _).symm))] at hfolder
        exact absurd hfolder (by simp)
  | @edit w w' _ htree hcache hsources ih =>
    refine ⟨htree, hsources, fun fs stem text time hout hfind => ?_,
      fun n hout q text time hq hfind => ?_, fun fs hout hfolder => ?_⟩
    · rw [hcache _ ⟨_, (List.append_assoc ..).symm⟩] at hfind
      exact ih.components fs stem text time hout hfind
    · rw [hcache q (cache_above hq)] at hfind
      obtain ⟨text', time', hcomponent⟩ := ih.whole n hout q text time hq hfind
      exact ⟨text', time', (hcache _ (cache_above ⟨_, by decide, rfl⟩)).trans hcomponent⟩
    · rw [hcache _ (List.prefix_append ..)] at hfolder
      exact ih.folders fs hout hfolder
  | build _ h ih => exact build_shape ih h

end

end ProjectLayout

end Docweave
