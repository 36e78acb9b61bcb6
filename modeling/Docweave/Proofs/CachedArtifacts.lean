import Docweave.Proofs.ArtifactPlaces
import Docweave.Proofs.DiskTree
import Docweave.Proofs.TransformSteps

/-!
# Artifacts in the cache

`Disk.Holds` says that the files of a document are what compiling it writes.
Writing and discarding artifacts touches their own places and no other, so what
is held for one document is kept while another is worked on.

> `run_touches`, `transform_touches`, `discard_touches`: only the three places,
> and missing folders above them.

> `holds_of_run`: a plan that reaches its end leaves what it should.
-/

namespace Docweave

open Docweave.Path (rooted Names IsName)
open Workspace

/-! ## What is held -/

/-- The text of the file that a path names, if there is a file. -/
def Disk.text? (d : Disk) (path : Text) : Option Text := d.textAt? (d.placeOf path)

/-- The artifacts are what a compiled document writes. There is a highlight
module if and only if there is highlighted code. -/
structure Disk.Holds (d : Disk) (a : Artifacts) (c : Compiled) : Prop where
  component : d.text? a.component = some c.content
  metadata : ∃ text, metadataText c.metadata = .ok text ∧ d.text? a.metadata = some text
  highlights : d.text? a.highlights =
    if c.highlights.isEmpty then none else some (highlightModule c.highlights)

theorem text?_rooted {d : Disk} {es : List Text} (hes : Names es) :
    d.text? (rooted es) = d.textAt? es := by
  rw [Disk.text?, Disk.placeOf_rooted hes]

theorem text?_of_touches {touched : Place → Prop} {folder : Place} {d d' : Disk} {path : Text}
    (h : Disk.Touches touched folder d d') (hpath : ¬ touched (d.placeOf path)) :
    d'.text? path = d.text? path := by
  rw [Disk.text?, Disk.text?, h.placeOf, h.textAt? hpath]

theorem mem_filesOf_ofBase {base f : Text} :
    f ∈ filesOf (.ofBase base) ↔ ∃ ext ∈ artifactExts, f = base ++ ext := by
  simp [filesOf, Artifacts.ofBase, artifactExts]

theorem holds_congr {d d' : Disk} {a : Artifacts} {c : Compiled}
    (hsame : ∀ f ∈ filesOf a, d'.text? f = d.text? f) (h : d.Holds a c) : d'.Holds a c where
  component := (hsame _ (by simp [filesOf])).trans h.component
  metadata := by
    obtain ⟨text, hmeta, htext⟩ := h.metadata
    exact ⟨text, hmeta, (hsame _ (by simp [filesOf])).trans htext⟩
  highlights := (hsame _ (by simp [filesOf])).trans h.highlights

/-! ## Changes that stay in their places -/

/-- The place is that of an artifact. -/
def IsArtifactPlace (folder : Place) (stem : Text) (q : Place) : Prop :=
  ∃ ext ∈ artifactExts, q = folder ++ [stem ++ ext]

/-- A change of files at some places, or of the way to a folder. -/
def Change.StaysIn (work : Place) (touched : Place → Prop) (folder : Place) : Change → Prop
  | makeFolders path => Path.UpFirst (Path.elements path) ∧ Path.placeFrom work path = folder
  | write path _ => touched (Path.placeFrom work path)
  | erase path => touched (Path.placeFrom work path)

section

variable {touched : Place → Prop} {folder : Place} {stem : Text} {d d' : Disk} {a : Artifacts}

theorem erase_touches {path : Text} (htree : d.IsTree) (hpath : touched (d.placeOf path))
    (h : d.remove path = .ok d') : Disk.Touches touched folder d d' :=
  (Disk.remove_touches htree rfl h folder).mono (fun _ hq => hq ▸ hpath) fun _ => Or.inr

theorem apply_touches {change : Change} (htree : d.IsTree)
    (hstays : change.StaysIn d.workFolder touched folder) (h : d.apply change = .ok d') :
    Disk.Touches touched folder d d' := by
  cases change with
  | makeFolders path =>
    obtain ⟨hup, hplace⟩ := hstays
    exact (Disk.makeFolders_touches htree hplace hup h).mono (fun _ hq => hq.elim) fun _ => Or.inr
  | write path text =>
    exact (Disk.store_touches htree rfl h folder).mono (fun _ hq => hq ▸ hstays) fun _ => Or.inr
  | erase path =>
    unfold Disk.apply at h
    simp only at h
    split at h
    next =>
      split at h
      next => exact Except.ok.inj h ▸ Disk.Touches.refl htree
      next => exact absurd h (by simp)
    next hremoved => exact Except.ok.inj h ▸ erase_touches htree hstays hremoved

/-- Changes that all stay in some places touch no other, whether or not they
are all made. -/
theorem applyAll_touches {changes : List (Stage × Change)} {f : Option ProcessFault}
    (htree : d.IsTree) (hstay : ∀ x ∈ changes, x.2.StaysIn d.workFolder touched folder)
    (h : d.applyAll changes = (d', f)) : Disk.Touches touched folder d d' := by
  induction changes generalizing d with
  | nil => exact (Prod.mk.inj h).1 ▸ Disk.Touches.refl htree
  | cons x rest ih =>
    rcases applyAll_cons h with ⟨g, _, rfl, _⟩ | ⟨d₁, hfirst, hrest⟩
    · exact Disk.Touches.refl htree
    · have htouch := apply_touches htree (hstay x (List.mem_cons_self ..)) hfirst
      refine htouch.trans (ih htouch.tree (fun y hy => ?_) hrest)
      rw [htouch.workFolder]
      exact hstay y (List.mem_cons_of_mem _ hy)

theorem Artifacts.StandAt.isArtifactPlace {work : Place} (hstand : a.StandAt work folder stem)
    {f : Text} (hf : f ∈ filesOf a) : IsArtifactPlace folder stem (Path.placeFrom work f) := by
  simp only [filesOf, List.mem_cons, List.not_mem_nil, or_false] at hf
  rcases hf with rfl | rfl | rfl
  · exact ⟨_, by decide, hstand.component⟩
  · exact ⟨_, by decide, hstand.metadata⟩
  · exact ⟨_, by decide, hstand.highlights⟩

/-- The artifacts stand at three places. -/
theorem Artifacts.StandAt.apart {work : Place} (hstand : a.StandAt work folder stem) :
    Path.placeFrom work a.component ≠ Path.placeFrom work a.metadata ∧
      Path.placeFrom work a.component ≠ Path.placeFrom work a.highlights ∧
      Path.placeFrom work a.metadata ≠ Path.placeFrom work a.highlights := by
  have hapart : ∀ {e e' : Text}, e ∈ artifactExts → e' ∈ artifactExts → e ≠ e' →
      folder ++ [stem ++ e] ≠ folder ++ [stem ++ e'] := fun he he' hne hsame =>
    hne (standAt_inj (List.mem_cons_of_mem _ he) (List.mem_cons_of_mem _ he') hsame).2.2
  rw [hstand.component, hstand.metadata, hstand.highlights]
  exact ⟨hapart (by decide) (by decide) (by decide), hapart (by decide) (by decide) (by decide),
    hapart (by decide) (by decide) (by decide)⟩

theorem componentChanges_stayIn {work : Place} (hstand : a.StandAt work folder stem) (c : Compiled) :
    ∀ x ∈ c.componentChanges a, x.2.StaysIn work (IsArtifactPlace folder stem) folder := by
  intro x hx
  simp only [Compiled.componentChanges, List.mem_cons, List.not_mem_nil, or_false] at hx
  rcases hx with rfl | rfl
  · exact ⟨Path.upFirst_clean _, hstand.dir⟩
  · exact hstand.isArtifactPlace (f := a.component) (by simp [filesOf])

theorem changes_stayIn {work : Place} (hstand : a.StandAt work folder stem) (c : Compiled)
    (metadata : Text) :
    ∀ x ∈ c.changes a metadata, x.2.StaysIn work (IsArtifactPlace folder stem) folder := by
  have hfile := hstand.isArtifactPlace (f := a.highlights) (by simp [filesOf])
  have hhighlights : (c.highlightChange a).2.StaysIn work (IsArtifactPlace folder stem) folder := by
    unfold Compiled.highlightChange
    split
    next => exact hfile
    next => exact hfile
  intro x hx
  rcases List.mem_append.1 hx with hfront | hback
  · exact componentChanges_stayIn hstand c x hfront
  · simp only [List.mem_cons, List.not_mem_nil, or_false] at hback
    rcases hback with rfl | rfl
    · exact hstand.isArtifactPlace (f := a.metadata) (by simp [filesOf])
    · exact hhighlights

/-- Running a plan touches the artifacts, also when it stops half-way. -/
theorem run_touches {c : Compiled} {f : Option ProcessFault} (htree : d.IsTree)
    (hstand : a.StandAt d.workFolder folder stem) (h : (c.plan a).run d = (d', f)) :
    Disk.Touches (IsArtifactPlace folder stem) folder d d' := by
  cases hmeta : metadataText c.metadata with
  | ok text =>
    rw [run_of_metadata hmeta] at h
    exact applyAll_touches htree (changes_stayIn hstand c text) h
  | error e =>
    rw [run_of_no_metadata hmeta] at h
    split at h
    next heq => exact (Prod.mk.inj h).1 ▸ applyAll_touches htree (componentChanges_stayIn hstand c) heq
    next heq => exact (Prod.mk.inj h).1 ▸ applyAll_touches htree (componentChanges_stayIn hstand c) heq

/-- A transform touches the artifacts of its document, however it ends. -/
theorem transform_touches {s : TransformSettings} {cancelled : Bool} {path : Text} {w w' : Workspace}
    {out : Output} {f : Option ProcessFault} (htree : w.disk.IsTree)
    (ha : resolveArtifacts s.srcRoot s.cacheDir path = .ok a)
    (hstand : a.StandAt w.disk.workFolder folder stem)
    (h : w.transform s cancelled path = (out, f, w')) :
    Disk.Touches (IsArtifactPlace folder stem) folder w.disk w'.disk := by
  cases transformed_of_eq h with
  | refused => exact Disk.Touches.refl htree
  | skipped => exact Disk.Touches.refl htree
  | stopped _ ha' _ _ hrun =>
    obtain rfl := Except.ok.inj (ha.symm.trans ha')
    exact run_touches htree hstand hrun
  | written _ ha' _ _ hrun =>
    obtain rfl := Except.ok.inj (ha.symm.trans ha')
    exact run_touches htree hstand hrun

theorem removeFiles_touches {files removed : List Text} {f : Option ProcessFault} (htree : d.IsTree)
    (hfiles : ∀ f ∈ files, touched (d.placeOf f)) (h : removeFiles d files = (removed, f, d')) :
    Disk.Touches touched folder d d' := by
  induction files generalizing d removed with
  | nil => exact (Prod.mk.inj (Prod.mk.inj h).2).2 ▸ Disk.Touches.refl htree
  | cons x files ih =>
    have hrest : ∀ f ∈ files, touched (d.placeOf f) := fun f hf => hfiles f (List.mem_cons_of_mem _ hf)
    unfold removeFiles at h
    split at h
    next d₁ hremoved =>
      have htouch : Disk.Touches touched folder d d₁ :=
        erase_touches htree (hfiles x (List.mem_cons_self ..)) hremoved
      simp only at h
      have hlast : removeFiles d₁ files = ((removeFiles d₁ files).1, f, d') := by
        obtain ⟨_, h₂⟩ := Prod.mk.inj h
        exact Prod.ext rfl h₂
      refine htouch.trans (ih htouch.tree (fun f hf => ?_) hlast)
      rw [htouch.placeOf]
      exact hrest f hf
    next =>
      split at h
      next => exact ih htree hrest h
      next => exact (Prod.mk.inj (Prod.mk.inj h).2).2 ▸ Disk.Touches.refl htree

/-- Files in folders that are there are all removed, if none of them is a folder. -/
theorem removeFiles_places {ps : List Place} (htree : d.IsTree)
    (hps : ∀ p ∈ ps, Names p ∧ d.find? p.dropLast = some .folder ∧ d.find? p ≠ some .folder) :
    ∃ removed d', removeFiles d (ps.map rooted) = (removed, none, d') ∧ d'.IsTree ∧
      ∀ q, d'.find? q = if q ∈ ps then none else d.find? q := by
  induction ps generalizing d with
  | nil => exact ⟨[], d, rfl, htree, fun q => by simp⟩
  | cons p ps ih =>
    obtain ⟨hp, hfolder, hfile⟩ := hps p (List.mem_cons_self ..)
    rw [List.map_cons, removeFiles]
    have hne : p ≠ [] := fun hnil => hfile (by rw [hnil]; rfl)
    rcases Disk.remove_rooted htree hp hne hfolder with
      ⟨hnone, hmissing⟩ | ⟨hfull, -⟩ | ⟨-, d₁, hremoved, htree₁, hfind₁⟩
    · obtain ⟨removed, d', hrest, htree', hfind⟩ := ih htree fun q hq => hps q (List.mem_cons_of_mem _ hq)
      refine ⟨removed, d', by simp only [hmissing, if_true]; exact hrest, htree', fun q => ?_⟩
      rw [hfind q]
      by_cases hq : q = p
      · simp [hq, hnone]
      · simp [hq]
    · exact absurd hfull hfile
    · have hkept : ∀ q ∈ ps, Names q ∧ d₁.find? q.dropLast = some .folder ∧ d₁.find? q ≠ some .folder := by
        intro q hq
        obtain ⟨hq, hfolder', hfile'⟩ := hps q (List.mem_cons_of_mem _ hq)
        have hother : q.dropLast ≠ p := fun heq => hfile (heq ▸ hfolder')
        refine ⟨hq, by rw [hfind₁, if_neg hother]; exact hfolder', fun hnow => ?_⟩
        rw [hfind₁] at hnow
        split at hnow
        next => exact absurd hnow (by simp)
        next => exact hfile' hnow
      obtain ⟨removed, d', hrest, htree', hfind⟩ := ih htree₁ hkept
      refine ⟨rooted p :: removed, d', by simp only [hremoved, hrest], htree', fun q => ?_⟩
      rw [hfind q, hfind₁]
      by_cases hq : q = p
      · simp [hq]
      · simp [hq]

/-- Discarding a document touches its artifacts, and takes it from the record. -/
theorem discard_touches {s : TransformSettings} {path : Text} {w w' : Workspace}
    {removed : List Text} {f : Option ProcessFault} (htree : w.disk.IsTree)
    (ha : resolveArtifacts s.srcRoot s.cacheDir path = .ok a)
    (hstand : a.StandAt w.disk.workFolder folder stem) (h : w.discard s path = (removed, f, w')) :
    Disk.Touches (IsArtifactPlace folder stem) folder w.disk w'.disk ∧
      w'.record = (w.forget path).record := by
  unfold Workspace.discard at h
  simp only [ha] at h
  obtain rfl := (Prod.mk.inj (Prod.mk.inj h).2).2
  exact ⟨removeFiles_touches htree (fun _ hf => hstand.isArtifactPlace hf) rfl, rfl⟩

/-! ## A plan that reaches its end -/

theorem apply_erase {path : Text} (htree : d.IsTree) (hloc : d.locate path = .ok (d.placeOf path))
    (h : d.apply (.erase path) = .ok d') : d'.textAt? (d.placeOf path) = none := by
  unfold Disk.apply at h
  simp only at h
  split at h
  next f hrefused =>
    split at h
    next =>
      obtain rfl := Except.ok.inj h
      cases htext : d.textAt? (d.placeOf path) with
      | none => rfl
      | some t =>
        -- a file could have been removed
        obtain ⟨d₁, hremoved⟩ := Disk.remove_of_file hloc htext
        rw [hremoved] at hrefused
        exact absurd hrefused (by simp)
    next => exact absurd h (by simp)
  next hremoved =>
    obtain rfl := Except.ok.inj h
    exact Disk.textAt?_remove htree rfl hremoved

theorem highlightChange_stayIn (c : Compiled) (a : Artifacts) (work folder : Place) :
    (c.highlightChange a).2.StaysIn work (· = Path.placeFrom work a.highlights) folder := by
  unfold Compiled.highlightChange
  split
  next => exact rfl
  next => exact rfl

theorem apply_highlightChange {c : Compiled} (htree : d.IsTree)
    (hloc : d.locate a.highlights = .ok (d.placeOf a.highlights))
    (h : d.apply (c.highlightChange a).2 = .ok d') :
    d'.textAt? (d.placeOf a.highlights) =
      if c.highlights.isEmpty then none else some (highlightModule c.highlights) := by
  unfold Compiled.highlightChange at h
  split at h
  next hempty =>
    rw [if_pos hempty]
    exact apply_erase htree hloc h
  next hsome =>
    rw [if_neg hsome]
    exact Disk.textAt?_store htree rfl h

/-- New folders are on the way to the one that is made. -/
theorem apply_folders {change : Change} (htree : d.IsTree)
    (hstays : change.StaysIn d.workFolder touched folder) (h : d.apply change = .ok d') {q : Place}
    (hq : d'.find? q = some .folder) : d.find? q = some .folder ∨ q <+: folder := by
  cases change with
  | makeFolders path =>
    obtain ⟨hup, hplace⟩ := hstays
    rcases (Disk.makeFolders_touches htree hplace hup h).find q id with hsame | ⟨hway, -, -⟩
    · exact Or.inl (hsame ▸ hq)
    · exact Or.inr hway
  | write path text =>
    rw [Disk.find?_store htree rfl h] at hq
    split at hq
    next => exact absurd hq (by simp)
    next => exact Or.inl hq
  | erase path =>
    unfold Disk.apply at h
    simp only at h
    split at h
    next =>
      split at h
      next => exact Or.inl (Except.ok.inj h ▸ hq)
      next => exact absurd h (by simp)
    next d₁ hremoved =>
      rw [← Except.ok.inj h, (Disk.remove_eq_ok htree rfl hremoved).1, Disk.find?_clear] at hq
      split at hq
      next => exact absurd hq (by simp)
      next => exact Or.inl hq

theorem applyAll_folders {changes : List (Stage × Change)} {f : Option ProcessFault} (htree : d.IsTree)
    (hstay : ∀ x ∈ changes, x.2.StaysIn d.workFolder touched folder)
    (h : d.applyAll changes = (d', f)) {q : Place} (hq : d'.find? q = some .folder) :
    d.find? q = some .folder ∨ q <+: folder := by
  induction changes generalizing d with
  | nil => exact Or.inl ((Prod.mk.inj h).1 ▸ hq)
  | cons x rest ih =>
    rcases applyAll_cons h with ⟨g, _, rfl, _⟩ | ⟨d₁, hfirst, hrest⟩
    · exact Or.inl hq
    · have hx := hstay x (List.mem_cons_self ..)
      have htouch := apply_touches htree hx hfirst
      have hstay' : ∀ y ∈ rest, y.2.StaysIn d₁.workFolder touched folder := by
        rw [htouch.workFolder]
        exact fun y hy => hstay y (List.mem_cons_of_mem _ hy)
      rcases ih htouch.tree hstay' hrest with hnow | hway
      · exact apply_folders htree hx hfirst hnow
      · exact Or.inr hway

theorem run_folders {c : Compiled} {f : Option ProcessFault} (htree : d.IsTree)
    (hstand : a.StandAt d.workFolder folder stem) (h : (c.plan a).run d = (d', f)) {q : Place}
    (hq : d'.find? q = some .folder) : d.find? q = some .folder ∨ q <+: folder := by
  cases hmeta : metadataText c.metadata with
  | ok text =>
    rw [run_of_metadata hmeta] at h
    exact applyAll_folders htree (changes_stayIn hstand c text) h hq
  | error e =>
    rw [run_of_no_metadata hmeta] at h
    split at h
    next heq =>
      obtain ⟨rfl, -⟩ := Prod.mk.inj h
      exact applyAll_folders htree (componentChanges_stayIn hstand c) heq hq
    next heq =>
      obtain ⟨rfl, -⟩ := Prod.mk.inj h
      exact applyAll_folders htree (componentChanges_stayIn hstand c) heq hq

/-- A plan that gets past the folder leaves a component. -/
theorem run_component {c : Compiled} {f : Option ProcessFault} (htree : d.IsTree)
    (hstand : a.StandAt d.workFolder folder stem) (h : (c.plan a).run d = (d', f)) :
    (∃ text time, d'.find? (folder ++ [stem ++ componentExt]) = some (.file text time)) ∨
      Disk.Touches (fun _ => False) folder d d' := by
  -- what is done behind the component does not touch it
  have hbehind : ∀ {rest : List (Stage × Change)} {d₂ d₃ : Disk} {f : Option ProcessFault},
      (∀ x ∈ rest, x.2.StaysIn d₂.workFolder (· ≠ folder ++ [stem ++ componentExt]) folder) → d₂.IsTree →
      (∃ text time, d₂.find? (folder ++ [stem ++ componentExt]) = some (.file text time)) →
      d₂.applyAll rest = (d₃, f) →
      ∃ text time, d₃.find? (folder ++ [stem ++ componentExt]) = some (.file text time) := by
    rintro rest d₂ d₃ f hstay htree₂ ⟨text, time, hfile⟩ hrest
    rcases (applyAll_touches htree₂ hstay hrest).find _ (fun hne => hne rfl) with hsame | ⟨-, hnone, -⟩
    · exact ⟨text, time, hsame.trans hfile⟩
    · rw [hnone] at hfile
      exact absurd hfile (by simp)
  have hfirst : ∀ {rest : List (Stage × Change)} {f : Option ProcessFault},
      (∀ x ∈ rest, x.2.StaysIn d.workFolder (· ≠ folder ++ [stem ++ componentExt]) folder) →
      d.applyAll (c.componentChanges a ++ rest) = (d', f) →
      (∃ text time, d'.find? (folder ++ [stem ++ componentExt]) = some (.file text time)) ∨
        Disk.Touches (fun _ => False) folder d d' := by
    intro rest f hstay hchanges
    rcases applyAll_cons hchanges with ⟨g, -, rfl, -⟩ | ⟨d₁, hmake, hchanges⟩
    · exact Or.inr (Disk.Touches.refl htree)
    · have hmade : Disk.Touches (fun _ => False) folder d d₁ :=
        Disk.makeFolders_touches htree hstand.dir (Path.upFirst_clean _) hmake
      rcases applyAll_cons hchanges with ⟨g, -, rfl, -⟩ | ⟨d₂, hwrite, hchanges⟩
      · exact Or.inr hmade
      · have hplace : d₁.placeOf a.component = folder ++ [stem ++ componentExt] := by
          rw [hmade.placeOf]
          exact hstand.component
        have hstored := Disk.store_touches hmade.tree hplace hwrite folder
        refine Or.inl (hbehind ?_ hstored.tree ⟨c.content, d₁.clock, ?_⟩ hchanges)
        · rw [hstored.workFolder, hmade.workFolder]
          exact hstay
        · rw [Disk.find?_store hmade.tree hplace hwrite, if_pos rfl]
  cases hmeta : metadataText c.metadata with
  | ok text =>
    rw [run_of_metadata hmeta] at h
    refine hfirst (fun x hx => ?_) h
    obtain ⟨hcomponent, hcomponent', -⟩ := hstand.apart
    rw [hstand.component] at hcomponent hcomponent'
    simp only [List.mem_cons, List.not_mem_nil, or_false] at hx
    rcases hx with rfl | rfl
    · exact hcomponent.symm
    · unfold Compiled.highlightChange
      split
      next => exact hcomponent'.symm
      next => exact hcomponent'.symm
  | error e =>
    rw [run_of_no_metadata hmeta] at h
    have hnone : ∀ x ∈ ([] : List (Stage × Change)),
        x.2.StaysIn d.workFolder (· ≠ folder ++ [stem ++ componentExt]) folder := by simp
    split at h
    next heq =>
      obtain ⟨rfl, -⟩ := Prod.mk.inj h
      exact hfirst hnone (by rw [List.append_nil]; exact heq)
    next heq =>
      obtain ⟨rfl, -⟩ := Prod.mk.inj h
      exact hfirst hnone (by rw [List.append_nil]; exact heq)

/-- **What a plan leaves.** A plan that reaches its end leaves the artifacts of
the document. -/
theorem holds_of_run {c : Compiled} (htree : d.IsTree) (hstand : a.StandAt d.workFolder folder stem)
    (h : (c.plan a).run d = (d', none)) : d'.Holds a c := by
  obtain ⟨text, hmeta, hchanges⟩ := run_finished h
  -- the four changes, and the disk behind each
  obtain ⟨d₁, hmake, hchanges⟩ := (applyAll_cons hchanges).resolve_left (by simp)
  obtain ⟨d₂, hcomponent, hchanges⟩ := (applyAll_cons hchanges).resolve_left (by simp)
  obtain ⟨d₃, hmetadata, hchanges⟩ := (applyAll_cons hchanges).resolve_left (by simp)
  obtain ⟨d₄, hhighlight, hchanges⟩ := (applyAll_cons hchanges).resolve_left (by simp)
  obtain rfl : d₄ = d' := (Prod.mk.inj hchanges).1
  have hmade : Disk.Touches (IsArtifactPlace folder stem) folder d d₁ :=
    apply_touches htree (componentChanges_stayIn hstand c _ (List.mem_cons_self ..)) hmake
  have hfirst := Disk.store_touches hmade.tree rfl hcomponent folder
  have hsecond := Disk.store_touches hfirst.tree rfl hmetadata folder
  have hthird := apply_touches hsecond.tree (highlightChange_stayIn c a d₃.workFolder folder) hhighlight
  -- no change touches what another has written
  have hstand₂ : a.StandAt d₂.workFolder folder stem := by
    rw [hfirst.workFolder, hmade.workFolder]
    exact hstand
  have hstand₃ : a.StandAt d₃.workFolder folder stem := by
    rw [hsecond.workFolder]
    exact hstand₂
  have hcomponent₂ : d₂.text? a.component = some c.content := by
    rw [Disk.text?, hfirst.placeOf]
    exact Disk.textAt?_store hmade.tree rfl hcomponent
  have hmetadata₃ : d₃.text? a.metadata = some text := by
    rw [Disk.text?, hsecond.placeOf]
    exact Disk.textAt?_store hfirst.tree rfl hmetadata
  refine ⟨?_, ⟨text, hmeta, ?_⟩, ?_⟩
  · rw [text?_of_touches hthird hstand₃.apart.2.1, text?_of_touches hsecond hstand₂.apart.1]
    exact hcomponent₂
  · rw [text?_of_touches hthird hstand₃.apart.2.2]
    exact hmetadata₃
  · rw [Disk.text?, hthird.placeOf]
    obtain ⟨base, rfl⟩ := hstand.ofBase
    refine apply_highlightChange hsecond.tree ?_ hhighlight
    -- the metadata stand in the same folder
    refine Disk.locate_of_store hfirst.tree hmetadata ?_ (isName_lastPart base (by decide))
      (isName_lastPart base (by decide))
    exact (Path.ahead_append base (by decide)).trans (Path.ahead_append base (by decide)).symm

end

end Docweave
