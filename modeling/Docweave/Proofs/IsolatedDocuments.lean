import Docweave.Proofs.AlikeDisks
import Docweave.Proofs.BuildPhases

/-!
# Documents that leave each other alone

When no artifact of one document is an artifact of another, or a folder above one,
the documents do not get in each other's way. What is left when some of them have
been processed, in whatever order, is said by what each leaves alone (`Merged`):
a place that a document changes looks as the document leaves it, a place that none
changes looks as it did, and the record is put together in the same way.

> `merged_unique`: this says all about how the disk looks, and about the record.

> `merged_step`: one more document has the result that it has alone, and joins.

> `processAll_merged`: documents in turn.
-/

namespace Docweave

open Docweave.Path (rooted Names IsName liesBelow)
open Workspace Project

/-! ## Artifacts that are apart -/

/-- No file of the artifacts is one of the others, or above one. -/
def Artifacts.Apart (a b : Artifacts) : Prop :=
  ∀ f ∈ filesOf a, ∀ g ∈ filesOf b, f ≠ g ∧ liesBelow f g = false ∧ liesBelow g f = false

instance (a b : Artifacts) : Decidable (a.Apart b) := inferInstanceAs (Decidable (∀ _ ∈ _, _))

/-- Two documents have artifacts that are apart. -/
def ArtifactsApart (s : TransformSettings) (p q : Text) : Prop :=
  ∀ a ∈ (resolveArtifacts s.srcRoot s.cacheDir p).toOption,
    ∀ b ∈ (resolveArtifacts s.srcRoot s.cacheDir q).toOption, a.Apart b

instance (s : TransformSettings) (p q : Text) : Decidable (ArtifactsApart s p q) :=
  inferInstanceAs (Decidable (∀ _ ∈ Except.toOption _, _))

/-- The places of artifacts under two stems are apart. -/
def PlacesApart (folder : Place) (stem : Text) (folder' : Place) (stem' : Text) : Prop :=
  ∀ p p', IsArtifactPlace folder stem p → IsArtifactPlace folder' stem' p' → ¬ p <+: p' ∧ ¬ p' <+: p

section

variable {folder folder' : Place} {stem stem' : Text}

theorem mem_filesOf_rooted {f : Text} :
    f ∈ filesOf (.ofBase (rooted (folder ++ [stem]))) ↔
      ∃ ext ∈ artifactExts, f = rooted (folder ++ [stem ++ ext]) := by
  simp only [Path.rooted_append_singleton]
  exact mem_filesOf_ofBase

theorem placesApart_of_apart (hfolder : Names folder) (hstem : '/' ∉ stem) (hfolder' : Names folder')
    (hstem' : '/' ∉ stem')
    (h : (Artifacts.ofBase (rooted (folder ++ [stem]))).Apart (.ofBase (rooted (folder' ++ [stem'])))) :
    PlacesApart folder stem folder' stem' := by
  have hnot : ∀ {p q : Place}, Names p → Names q → p ≠ [] → rooted p ≠ rooted q →
      liesBelow (rooted p) (rooted q) = false → ¬ p <+: q := by
    intro p q hp hq hne hother hbelow
    rintro ⟨rest, rfl⟩
    by_cases hnil : rest = []
    · exact hother (by rw [hnil, List.append_nil])
    · rw [(Path.liesBelow_rooted hne hp hq).2 ⟨rest, hnil, rfl⟩] at hbelow
      exact absurd hbelow (by simp)
  rintro p p' ⟨ext, hext, rfl⟩ ⟨ext', hext', rfl⟩
  have hp := names_stem hfolder hstem (List.mem_cons_of_mem _ hext)
  have hp' := names_stem hfolder' hstem' (List.mem_cons_of_mem _ hext')
  obtain ⟨hne, hbelow, habove⟩ :=
    h _ (mem_filesOf_rooted.2 ⟨ext, hext, rfl⟩) _ (mem_filesOf_rooted.2 ⟨ext', hext', rfl⟩)
  exact ⟨hnot hp hp' (by simp) hne hbelow, hnot hp' hp (by simp) hne.symm habove⟩

end

/-! ## Documents and where their artifacts are -/

/-- A document is a file on a disk, and its artifacts are in a folder, under a
stem. -/
structure Located (s : TransformSettings) (d : Disk) (p : Text) (folder : Place) (stem : Text) : Prop where
  names : Names folder
  slash : '/' ∉ stem
  artifacts : resolveArtifacts s.srcRoot s.cacheDir p = .ok (.ofBase (rooted (folder ++ [stem])))
  file : ∃ front name text time, Names front ∧ '/' ∉ name ∧ p = rooted (front ++ [name ++ documentExt]) ∧
    d.find? (front ++ [name ++ documentExt]) = some (.file text time)

/-- Documents on a disk that have their artifacts apart. -/
structure Isolated (s : TransformSettings) (d : Disk) (docs : List Text) : Prop where
  tree : d.IsTree
  located : ∀ p ∈ docs, ∃ folder stem, Located s d p folder stem
  apart : ∀ p ∈ docs, ∀ q ∈ docs, p ≠ q → ∀ {folder stem folder' stem'}, Located s d p folder stem →
    Located s d q folder' stem' → PlacesApart folder stem folder' stem'

section

variable {s : TransformSettings} {d d' : Disk} {p : Text} {folder : Place} {stem : Text} {w : Workspace}

/-- Documents that are found are isolated, if their artifacts are apart. -/
theorem isolated_of_found {S C : Place} (hS : Names S) (hC : Names C) (hsrc : s.srcRoot = rooted S)
    (hcache : s.cacheDir = rooted C) (htree : d.IsTree) {found docs : List Text}
    (hfound : findDocuments s.srcRoot d = .ok found) (hdocs : docs.Sublist found)
    (hapart : ∀ p ∈ docs, ∀ q ∈ docs, p ≠ q → ArtifactsApart s p q) : Isolated s d docs where
  tree := htree
  located p hp := by
    rw [hsrc] at hfound
    obtain ⟨fs, name, text, time, hfs, hname, -, rfl, hfile⟩ :=
      mem_findDocuments_rooted hS htree hfound p (hdocs.subset hp)
    obtain ⟨folder, stem, hfolder, hstem, hbase, -⟩ := exists_base_stem hC hfs hname
    refine ⟨folder, stem, hfolder, hstem, ?_,
      S ++ fs, name, text, time, Path.names_append.2 ⟨hS, hfs⟩, hname, rfl, hfile⟩
    rw [hsrc, hcache, resolveArtifacts_stem hS hC hfs hname, hbase]
  apart p hp q hq hne folder stem folder' stem' hlocp hlocq := by
    exact placesApart_of_apart hlocp.names hlocp.slash hlocq.names hlocq.slash
      (hapart p hp q hq hne _ (by rw [hlocp.artifacts]; rfl) _ (by rw [hlocq.artifacts]; rfl))

theorem Located.stat (h : Located s d p folder stem) (htree : d.IsTree) (htree' : d'.IsTree)
    (hkept : ∀ front name e, d.find? (front ++ [name ++ documentExt]) = some e →
      d'.find? (front ++ [name ++ documentExt]) = some e) :
    ∃ text time, d.stat p = .ok (.file text time) ∧ d'.stat p = .ok (.file text time) := by
  obtain ⟨front, name, text, time, hfront, hname, rfl, hfile⟩ := h.file
  have hnames : Names (front ++ [name ++ documentExt]) := names_stem hfront hname (List.mem_cons_self ..)
  exact ⟨text, time, (Disk.stat_rooted htree hnames).2 hfile,
    (Disk.stat_rooted htree' hnames).2 (hkept front name _ hfile)⟩

/-- A document that is processed is transformed. -/
theorem Located.processFile (h : Located s d p folder stem) {out : Output} {f : Option ProcessFault}
    {w' : Workspace} (ht : w.transform s false p = (out, f, w')) :
    Project.processFile s false p w = (⟨p, out, f⟩, w') := by
  obtain ⟨front, name, -, -, hfront, hname, rfl, -⟩ := h.file
  rw [ProjectLayout.processFile_document hfront hname, ht]

/-- Processing a document touches its artifacts. -/
theorem Located.touches (h : Located s d p folder stem) (htree : w.disk.IsTree) :
    Disk.Touches (IsArtifactPlace folder stem) folder w.disk (Project.processFile s false p w).2.disk := by
  generalize ht : w.transform s false p = result
  obtain ⟨out, f, w'⟩ := result
  rw [h.processFile ht]
  exact transform_touches htree h.artifacts (standAt_ofBase_rooted _ h.names h.slash) ht

/-- What is there under the name of a document stays. -/
theorem document_kept (h : Disk.Touches (IsArtifactPlace folder stem) folder d d') {front : Place}
    {name : Text} {e : Entry} (hfind : d.find? (front ++ [name ++ documentExt]) = some e) :
    d'.find? (front ++ [name ++ documentExt]) = some e := by
  have hother : ¬ IsArtifactPlace folder stem (front ++ [name ++ documentExt]) := by
    rintro ⟨ext, hext, hsame⟩
    obtain ⟨-, -, rfl⟩ := standAt_inj (List.mem_cons_self ..) (List.mem_cons_of_mem _ hext) hsame
    exact absurd hext (by decide)
  rcases h.find _ hother with hsame | ⟨-, hnone, -⟩
  · rw [hsame]
    exact hfind
  · rw [hnone] at hfind
    exact absurd hfind (by simp)

/-- A document changes the look of its artifacts, and of folders that are made. -/
theorem Located.changes (h : Located s d p folder stem) (htree : w.disk.IsTree) {q : Place}
    (hq : (Project.processFile s false p w).2.disk.look q ≠ w.disk.look q) :
    IsArtifactPlace folder stem q ∨ q <+: folder ∧ w.disk.look q = none ∧
      (Project.processFile s false p w).2.disk.look q = some none := by
  by_cases hown : IsArtifactPlace folder stem q
  · exact Or.inl hown
  · rcases (h.touches htree).find q hown with hsame | ⟨hway, hnone, hnew⟩
    · exact absurd (look_of_find? hsame) hq
    · exact Or.inr ⟨hway, look_eq_none.2 hnone, look_eq_folder.2 hnew⟩

end

/-! ## What some of the documents leave together -/

/-- Some documents have been processed, and each has left what it leaves alone. -/
structure Merged (s : TransformSettings) (w₀ : Workspace) (done : Text → Prop) (w : Workspace) : Prop where
  tree : w.disk.IsTree
  kept : ∀ q, (∀ p, done p → (processFile s false p w₀).2.disk.look q = w₀.disk.look q) →
    w.disk.look q = w₀.disk.look q
  changed : ∀ p q, done p → (processFile s false p w₀).2.disk.look q ≠ w₀.disk.look q →
    w.disk.look q = (processFile s false p w₀).2.disk.look q
  documents : ∀ front name e, w₀.disk.find? (front ++ [name ++ documentExt]) = some e →
    w.disk.find? (front ++ [name ++ documentExt]) = some e
  recorded : ∀ p, done p → w.recorded? p = (processFile s false p w₀).2.recorded? p
  unrecorded : ∀ p, ¬ done p → w.recorded? p = w₀.recorded? p

section

variable {s : TransformSettings} {w₀ w w' : Workspace} {docs : List Text} {done done' : Text → Prop} {p : Text}
  {folder : Place} {stem : Text}

theorem merged_start (htree : w₀.disk.IsTree) : Merged s w₀ (fun _ => False) w₀ where
  tree := htree
  kept _ _ := rfl
  changed _ _ hdone := hdone.elim
  documents _ _ _ hfind := hfind
  recorded _ hdone := hdone.elim
  unrecorded _ _ := rfl

theorem Merged.congr (h : Merged s w₀ done w) (hsame : ∀ p, done p ↔ done' p) : Merged s w₀ done' w := by
  have heq : done = done' := funext fun p => propext (hsame p)
  exact heq ▸ h

/-- **The order does not matter:** which documents have been processed tells how the
disk looks and what is recorded. -/
theorem merged_unique (h : Merged s w₀ done w) (h' : Merged s w₀ done w') :
    (∀ q, w.disk.look q = w'.disk.look q) ∧ ∀ p, w.recorded? p = w'.recorded? p := by
  constructor
  · intro q
    by_cases hchanged : ∃ p, done p ∧ (processFile s false p w₀).2.disk.look q ≠ w₀.disk.look q
    · obtain ⟨p, hdone, hne⟩ := hchanged
      rw [h.changed p q hdone hne, h'.changed p q hdone hne]
    · have hkept : ∀ p, done p → (processFile s false p w₀).2.disk.look q = w₀.disk.look q :=
        fun p hdone => Classical.not_not.1 fun hne => hchanged ⟨p, hdone, hne⟩
      rw [h.kept q hkept, h'.kept q hkept]
  · intro p
    by_cases hdone : done p
    · rw [h.recorded p hdone, h'.recorded p hdone]
    · rw [h.unrecorded p hdone, h'.unrecorded p hdone]

/-- Another document changes nothing at or below the artifacts of a document, and on
the way to them it only makes folders. -/
theorem foreign_change (hiso : Isolated s w₀.disk docs) (hp : p ∈ docs)
    (hloc : Located s w₀.disk p folder stem) {p' : Text} (hp' : p' ∈ docs) (hne : p' ≠ p) {q : Place}
    (hq : (processFile s false p' w₀).2.disk.look q ≠ w₀.disk.look q) :
    (∀ r, IsArtifactPlace folder stem r → ¬ r <+: q) ∧
      (q <+: folder → w₀.disk.look q = none ∧ (processFile s false p' w₀).2.disk.look q = some none) := by
  obtain ⟨folder', stem', hloc'⟩ := hiso.located p' hp'
  have hapart := hiso.apart p hp p' hp' hne.symm hloc hloc'
  have habove : ∀ r, IsArtifactPlace folder stem r → folder <+: r := by
    rintro r ⟨ext, -, rfl⟩
    exact List.prefix_append ..
  have hsome : ∀ folder stem, IsArtifactPlace folder stem (folder ++ [stem ++ componentExt]) :=
    fun folder stem => ⟨_, by decide, rfl⟩
  rcases hloc'.changes hiso.tree hq with hown | ⟨hway, hnone, hnew⟩
  · refine ⟨fun r hr hpre => (hapart r q hr hown).1 hpre, fun hpre => ?_⟩
    -- an artifact of the other would be above the artifacts of this one
    exact absurd (hpre.trans (habove _ (hsome folder stem))) (hapart _ q (hsome folder stem) hown).2
  · refine ⟨fun r hr hpre => ?_, fun _ => ⟨hnone, hnew⟩⟩
    have hbelow : r <+: folder' ++ [stem' ++ componentExt] :=
      (hpre.trans hway).trans (List.prefix_append ..)
    exact (hapart r _ hr (hsome folder' stem')).1 hbelow

/-- The disk is still alike for a document that has not been processed. -/
theorem Merged.alike (h : Merged s w₀ done w) (hiso : Isolated s w₀.disk docs) (hp : p ∈ docs)
    (hloc : Located s w₀.disk p folder stem) (hdone : ∀ q, done q → q ∈ docs) (hnew : ¬ done p) :
    Disk.Alike folder stem w₀.disk w.disk := by
  have hforeign : ∀ p', done p' → ∀ q, (processFile s false p' w₀).2.disk.look q ≠ w₀.disk.look q →
      (∀ r, IsArtifactPlace folder stem r → ¬ r <+: q) ∧
        (q <+: folder → w₀.disk.look q = none ∧ (processFile s false p' w₀).2.disk.look q = some none) :=
    fun p' hp' q hq => foreign_change hiso hp hloc (hdone p' hp') (fun heq => hnew (heq ▸ hp')) hq
  have hcases : ∀ q, w.disk.look q = w₀.disk.look q ∨
      ∃ p', done p' ∧ (processFile s false p' w₀).2.disk.look q ≠ w₀.disk.look q := by
    intro q
    by_cases hchanged : ∃ p', done p' ∧ (processFile s false p' w₀).2.disk.look q ≠ w₀.disk.look q
    · exact Or.inr hchanged
    · exact Or.inl (h.kept q fun p' hp' => Classical.not_not.1 fun hne => hchanged ⟨p', hp', hne⟩)
  refine ⟨hiso.tree, h.tree, fun r hr => ?_, fun r hr q hq => ?_⟩
  · rcases hcases r with hsame | ⟨p', hp', hne⟩
    · exact Or.inl hsame
    · obtain ⟨hnone, hfolder⟩ := (hforeign p' hp' r hne).2 hr
      exact Or.inr ⟨hnone, (h.changed p' r hp' hne).trans hfolder⟩
  · rcases hcases q with hsame | ⟨p', hp', hne⟩
    · exact hsame
    · exact absurd hq ((hforeign p' hp' q hne).1 r hr)

/-- **One more document.** It has the result that it has alone, and leaves what it
leaves alone. -/
theorem merged_step (h : Merged s w₀ done w) (hiso : Isolated s w₀.disk docs) (hp : p ∈ docs)
    (hdone : ∀ q, done q → q ∈ docs) (hnew : ¬ done p) :
    (processFile s false p w).1 = (processFile s false p w₀).1 ∧
      Merged s w₀ (fun q => q = p ∨ done q) (processFile s false p w).2 := by
  obtain ⟨folder, stem, hloc⟩ := hiso.located p hp
  have halike := h.alike hiso hp hloc hdone hnew
  obtain ⟨text, time, hfile₀, hfile⟩ := hloc.stat hiso.tree h.tree h.documents
  obtain ⟨out, f, w₁, w', ht₀, ht, hchanged, hrecord, hothers⟩ :=
    transform_alike hloc.names hloc.slash halike hloc.artifacts hfile₀ hfile (h.unrecorded p hnew) false
  have htouch := hloc.touches h.tree
  rw [hloc.processFile ht] at htouch ⊢
  have halone := hloc.processFile ht₀
  refine ⟨by rw [halone], htouch.tree, fun q hq => ?_, fun p' q hp' hne => ?_, fun front name e hfind => ?_,
    fun q hq => ?_, fun q hq => ?_⟩
  · -- no document changes the place
    have hsame := hq p (Or.inl rfl)
    rw [halone] at hsame
    rw [hchanged.kept q hsame]
    exact h.kept q fun p' hp' => hq p' (Or.inr hp')
  · rcases hp' with rfl | hp'
    · rw [halone] at hne ⊢
      exact hchanged.changed q hne
    · have hforeign := foreign_change hiso hp hloc (hdone p' hp') (fun heq => hnew (heq ▸ hp')) hne
      by_cases hboth : w₁.disk.look q = w₀.disk.look q
      · rw [hchanged.kept q hboth]
        exact h.changed p' q hp' hne
      · -- both documents change the place, so both make a folder there
        have hboth' : (processFile s false p w₀).2.disk.look q ≠ w₀.disk.look q := by
          rw [halone]
          exact hboth
        rcases hloc.changes hiso.tree hboth' with hown | ⟨hway, -, hfolder⟩
        · exact absurd (List.prefix_refl q) (hforeign.1 q hown)
        · rw [halone] at hfolder
          rw [hchanged.changed q hboth, (hforeign.2 hway).2]
          exact hfolder
  · exact document_kept htouch (h.documents front name e hfind)
  · by_cases hsame : q = p
    · rw [hsame, hrecord, halone]
    · rw [hothers q hsame]
      exact h.recorded q (hq.resolve_left hsame)
  · rw [hothers q fun hsame => hq (Or.inl hsame)]
    exact h.unrecorded q fun hd => hq (Or.inr hd)

/-- A document that has been processed has the artifacts that it leaves alone. -/
theorem Merged.own (h : Merged s w₀ done w) (hiso : Isolated s w₀.disk docs) (hp : p ∈ docs)
    (hloc : Located s w₀.disk p folder stem) (hdone : ∀ q, done q → q ∈ docs) (hd : done p) {q : Place}
    (hq : IsArtifactPlace folder stem q) : w.disk.look q = (processFile s false p w₀).2.disk.look q := by
  by_cases hsame : (processFile s false p w₀).2.disk.look q = w₀.disk.look q
  · rw [hsame]
    refine h.kept q fun p' hp' => ?_
    by_cases heq : p' = p
    · rw [heq, hsame]
    · refine Classical.not_not.1 fun hne => ?_
      exact (foreign_change hiso hp hloc (hdone p' hp') heq hne).1 q hq (List.prefix_refl q)
  · exact h.changed p q hd hsame

/-- **Documents in turn.** -/
theorem processAll_merged {ps : List Text} (h : Merged s w₀ done w) (hiso : Isolated s w₀.disk docs)
    (hps : ∀ p ∈ ps, p ∈ docs ∧ ¬ done p) (hnodup : ps.Nodup) (hdone : ∀ q, done q → q ∈ docs) :
    (processAll s ps w).1 = ps.map (fun p => (processFile s false p w₀).1) ∧
      Merged s w₀ (fun q => q ∈ ps ∨ done q) (processAll s ps w).2 := by
  induction ps generalizing w done with
  | nil => exact ⟨rfl, h.congr fun q => by simp⟩
  | cons p ps ih =>
    obtain ⟨hp, hnew⟩ := hps p (List.mem_cons_self ..)
    obtain ⟨hfresh, hnodup'⟩ := List.nodup_cons.1 hnodup
    obtain ⟨hresult, hmerged⟩ := merged_step h hiso hp hdone hnew
    have hrest := ih hmerged (fun q hq => ⟨(hps q (List.mem_cons_of_mem _ hq)).1, fun hd => ?_⟩) hnodup'
      (fun q hq => ?_)
    · rw [processAll, List.map_cons, ← hresult]
      refine ⟨congrArg (_ :: ·) hrest.1, hrest.2.congr fun q => ?_⟩
      rw [List.mem_cons, or_left_comm, or_assoc]
    · rcases hd with rfl | hd
      · exact hfresh hq
      · exact (hps q (List.mem_cons_of_mem _ hq)).2 hd
    · rcases hq with rfl | hd
      · exact hp
      · exact hdone q hd

end

end Docweave
