import Docweave.Proofs.DiskAnswers

/-!
# Disks that are alike for a document

A transform reads few places of a disk: its document, the folders on the way to
its artifacts, and what is at or below them. Two disks that look the same there
are `Alike` for the document, and a transform ends on both in the same way: with
the same output and the same fault, and what it changes on one disk comes to look
the same on the other (`ChangedAlike`). When something was written does not count,
and a folder on the way may be there already on one of the two.

> `apply_alike`, `makeFolders_alike`: one change, on both disks.

> `run_alike`: a plan, on both disks.

> `transform_alike`: a transform, in both workspaces.
-/

namespace Docweave

open Docweave.Path (rooted Names IsName)
open Workspace

/-! ## What can be seen at a place -/

/-- The text of a file. -/
def Entry.text? : Entry → Option Text
  | folder => none
  | file text _ => some text

/-- What can be seen at a place, whenever it was written: a folder is one without
a text. -/
def Disk.look (d : Disk) (p : Place) : Option (Option Text) := (d.find? p).map Entry.text?

section

variable {d d' e : Disk} {p q : Place}

theorem look_eq_none : d.look p = none ↔ d.find? p = none := Option.map_eq_none_iff

theorem look_eq_folder : d.look p = some none ↔ d.find? p = some .folder := by
  rw [Disk.look, Option.map_eq_some_iff]
  constructor
  · rintro ⟨entry, hfind, htext⟩
    cases entry with
    | folder => exact hfind
    | file text time => exact absurd htext (by simp [Entry.text?])
  · intro hfind
    exact ⟨_, hfind, rfl⟩

theorem look_of_find? (h : d'.find? q = e.find? p) : d'.look q = e.look p := congrArg (Option.map Entry.text?) h

/-- The look of a disk with a new entry at a place. -/
theorem look_update {x : Option Entry} (h : ∀ q, d'.find? q = if q = p then x else d.find? q) (q : Place) :
    d'.look q = if q = p then x.map Entry.text? else d.look q := by
  rw [Disk.look, h, Disk.look]
  split
  next => rfl
  next => rfl

theorem textAt?_of_look (h : d.look p = e.look p) : d.textAt? p = e.textAt? p := by
  have htext : ∀ d : Disk, d.textAt? p = (d.look p).join := by
    intro d
    unfold Disk.textAt? Disk.look
    cases d.find? p with
    | none => rfl
    | some entry =>
      cases entry with
      | folder => rfl
      | file text time => rfl
  rw [htext, htext, h]

/-- There is a file at a place of both disks, or of none. -/
theorem file_of_look (h : d.look p = e.look p) {text : Text} {time : Int}
    (hfile : d.find? p = some (.file text time)) : ∃ time', e.find? p = some (.file text time') := by
  rw [Disk.look, hfile] at h
  obtain ⟨entry, hfind, htext⟩ := Option.map_eq_some_iff.1 h.symm
  cases entry with
  | folder => exact absurd htext (by simp [Entry.text?])
  | file text' time' =>
    obtain rfl : text' = text := Option.some.inj htext
    exact ⟨time', hfind⟩

end

/-! ## Artifacts along paths from the root -/

section

variable {folder : Place} {stem : Text}

theorem dir_rooted (hfolder : Names folder) (hstem : '/' ∉ stem) :
    Path.dir (Artifacts.ofBase (rooted (folder ++ [stem]))).component = rooted folder := by
  have hplace := (standAt_ofBase_rooted [] hfolder hstem).dir
  have hroot : Path.isRooted
      (Path.ahead (Artifacts.ofBase (rooted (folder ++ [stem]))).component) = true := by
    rw [Path.isRooted_ahead]
    rfl
  obtain ⟨es, hes, hclean⟩ := Path.clean_of_isRooted hroot
  rw [Path.dir_eq_clean_ahead, hclean] at hplace ⊢
  rw [← hplace, Path.placeFrom_rooted [] hes]

/-- A change of a file that is an artifact. -/
def Change.IsOfArtifact (folder : Place) (stem : Text) : Change → Prop
  | makeFolders _ => False
  | write path _ => ∃ ext ∈ artifactExts, path = rooted (folder ++ [stem ++ ext])
  | erase path => ∃ ext ∈ artifactExts, path = rooted (folder ++ [stem ++ ext])

/-- An artifact stands in its folder, and not on the way to it. -/
theorem not_prefix_folder {p : Place} (hp : IsArtifactPlace folder stem p) : ¬ p <+: folder := by
  obtain ⟨ext, -, rfl⟩ := hp
  intro hpre
  have hlen := hpre.length_le
  rw [List.length_append, List.length_singleton] at hlen
  omega

theorem ne_artifactPlace {p : Place} (hp : IsArtifactPlace folder stem p) : folder ≠ p := by
  intro heq
  exact not_prefix_folder hp (heq ▸ List.prefix_refl _)

theorem dropLast_artifactPlace {p : Place} (hp : IsArtifactPlace folder stem p) : p.dropLast = folder := by
  obtain ⟨ext, -, rfl⟩ := hp
  exact List.dropLast_concat

end

/-! ## Alike disks -/

/-- Two disks look the same as far as artifacts under a stem are concerned. On the
second there may be more folders on the way to them. -/
structure Disk.Alike (folder : Place) (stem : Text) (d e : Disk) : Prop where
  tree : d.IsTree
  tree' : e.IsTree
  way : ∀ r, r <+: folder → e.look r = d.look r ∨ d.look r = none ∧ e.look r = some none
  own : ∀ p, IsArtifactPlace folder stem p → ∀ q, p <+: q → e.look q = d.look q

/-- Two disks are changed in the same way: what has changed on the first looks the
same on the second, and what has not is as it was there. -/
structure Disk.ChangedAlike (d e d' e' : Disk) : Prop where
  changed : ∀ q, d'.look q ≠ d.look q → e'.look q = d'.look q
  kept : ∀ q, d'.look q = d.look q → e'.look q = e.look q

section

variable {folder : Place} {stem : Text} {d d' e e' : Disk}

/-- A folder that is there on the first disk is there on the second. -/
theorem Disk.Alike.folder_there (h : Disk.Alike folder stem d e) (hd : d.find? folder = some .folder) :
    e.find? folder = some .folder := by
  have hlook := look_eq_folder.2 hd
  rcases h.way folder (List.prefix_refl _) with hsame | ⟨hnone, -⟩
  · exact look_eq_folder.1 (hsame.trans hlook)
  · rw [hnone] at hlook
    exact absurd hlook (by simp)

/-- The same is put at the place of an artifact of both disks. -/
theorem Disk.Alike.update (h : Disk.Alike folder stem d e) {p : Place} (hp : IsArtifactPlace folder stem p)
    (htree : d'.IsTree) (htree' : e'.IsTree) {x : Option (Option Text)}
    (hd : ∀ q, d'.look q = if q = p then x else d.look q)
    (he : ∀ q, e'.look q = if q = p then x else e.look q) : Disk.Alike folder stem d' e' where
  tree := htree
  tree' := htree'
  way r hr := by
    have hother : r ≠ p := fun heq => not_prefix_folder hp (heq ▸ hr)
    rw [hd, he, if_neg hother, if_neg hother]
    exact h.way r hr
  own p' hp' q hq := by
    rw [hd, he]
    split
    next => rfl
    next => exact h.own p' hp' q hq

/-- Where there is a folder, and where nothing, at or below an artifact. -/
theorem Disk.Alike.own_iff (h : Disk.Alike folder stem d e) {p q : Place}
    (hp : IsArtifactPlace folder stem p) (hq : p <+: q) :
    (d.find? q = some .folder ↔ e.find? q = some .folder) ∧ (d.find? q = none ↔ e.find? q = none) := by
  rw [← look_eq_folder, ← look_eq_folder, ← look_eq_none, ← look_eq_none, h.own p hp q hq]
  exact ⟨Iff.rfl, Iff.rfl⟩

/-- A file written on both disks, unless there is a folder in its place. -/
theorem store_alike (h : Disk.Alike folder stem d e) (hthere : d.find? folder = some .folder) {p : Place}
    (hp : IsArtifactPlace folder stem p) (hnames : Names p) (text : Text) :
    (∃ f, d.store (rooted p) text = .error f ∧ e.store (rooted p) text = .error f) ∨
      ∃ d' e', d.store (rooted p) text = .ok d' ∧ e.store (rooted p) text = .ok e' ∧
        Disk.Alike folder stem d' e' ∧ d'.find? folder = some .folder := by
  obtain ⟨hfolder, -⟩ := h.own_iff hp (List.prefix_refl p)
  have hin : p.dropLast = folder := dropLast_artifactPlace hp
  rcases Disk.store_rooted h.tree hnames (hin ▸ hthere) text with
    ⟨hfull, hrefused⟩ | ⟨hfree, d', hd', htree, hfind⟩
  · rcases Disk.store_rooted h.tree' hnames (hin ▸ h.folder_there hthere) text with
      ⟨-, hrefused'⟩ | ⟨hfree', -⟩
    · exact Or.inl ⟨_, hrefused, hrefused'⟩
    · exact absurd (hfolder.1 hfull) hfree'
  · rcases Disk.store_rooted h.tree' hnames (hin ▸ h.folder_there hthere) text with
      ⟨hfull', -⟩ | ⟨-, e', he', htree', hfind'⟩
    · exact absurd (hfolder.2 hfull') hfree
    · refine Or.inr ⟨d', e', hd', he',
        h.update (x := some (some text)) hp htree htree' (look_update hfind) (look_update hfind'), ?_⟩
      rw [hfind, if_neg (ne_artifactPlace hp)]
      exact hthere

/-- What is there removed on both disks, unless it is a folder with something in
it. -/
theorem erase_alike (h : Disk.Alike folder stem d e) (hthere : d.find? folder = some .folder) {p : Place}
    (hp : IsArtifactPlace folder stem p) (hnames : Names p) :
    (∃ f, d.apply (.erase (rooted p)) = .error f ∧ e.apply (.erase (rooted p)) = .error f) ∨
      ∃ d' e', d.apply (.erase (rooted p)) = .ok d' ∧ e.apply (.erase (rooted p)) = .ok e' ∧
        Disk.Alike folder stem d' e' ∧ d'.find? folder = some .folder := by
  obtain ⟨hfolder, -⟩ := h.own_iff hp (List.prefix_refl p)
  have hin : p.dropLast = folder := dropLast_artifactPlace hp
  have hne : p ≠ [] := fun hnil => not_prefix_folder hp (hnil ▸ List.nil_prefix)
  rcases Disk.erase_rooted h.tree hnames hne (hin ▸ hthere) with
    ⟨hfull, hsome, hrefused⟩ | ⟨hempty, d', hd', htree, hfind⟩
  · rcases Disk.erase_rooted h.tree' hnames hne (hin ▸ h.folder_there hthere) with
      ⟨-, -, hrefused'⟩ | ⟨hempty', -⟩
    · exact Or.inl ⟨_, hrefused, hrefused'⟩
    · refine absurd (fun q hq hne => ?_) hsome
      exact (h.own_iff hp hq).2.2 (hempty' (hfolder.1 hfull) q hq hne)
  · rcases Disk.erase_rooted h.tree' hnames hne (hin ▸ h.folder_there hthere) with
      ⟨hfull', hsome', -⟩ | ⟨-, e', he', htree', hfind'⟩
    · refine absurd (fun q hq hne => ?_) hsome'
      exact (h.own_iff hp hq).2.1 (hempty (hfolder.2 hfull') q hq hne)
    · refine Or.inr ⟨d', e', hd', he',
        h.update hp htree htree' (look_update hfind) (look_update hfind'), ?_⟩
      rw [hfind, if_neg (ne_artifactPlace hp)]
      exact hthere

/-- **A change of an artifact on both disks:** it is refused for the same reason, or
made in the same way. -/
theorem apply_alike (hfolder : Names folder) (hstem : '/' ∉ stem) (h : Disk.Alike folder stem d e)
    (hthere : d.find? folder = some .folder) {c : Change} (hc : c.IsOfArtifact folder stem) :
    (∃ f, d.apply c = .error f ∧ e.apply c = .error f) ∨
      ∃ d' e', d.apply c = .ok d' ∧ e.apply c = .ok e' ∧ Disk.Alike folder stem d' e' ∧
        d'.find? folder = some .folder := by
  cases c with
  | makeFolders path => exact hc.elim
  | write path text =>
    obtain ⟨ext, hext, rfl⟩ := hc
    exact store_alike h hthere ⟨ext, hext, rfl⟩ (names_stem hfolder hstem (List.mem_cons_of_mem _ hext)) text
  | erase path =>
    obtain ⟨ext, hext, rfl⟩ := hc
    exact erase_alike h hthere ⟨ext, hext, rfl⟩ (names_stem hfolder hstem (List.mem_cons_of_mem _ hext))

theorem applyAll_alike (hfolder : Names folder) (hstem : '/' ∉ stem) (h : Disk.Alike folder stem d e)
    (hthere : d.find? folder = some .folder) {changes : List (Stage × Change)}
    (hchanges : ∀ x ∈ changes, x.2.IsOfArtifact folder stem) :
    ∃ d' e' f, d.applyAll changes = (d', f) ∧ e.applyAll changes = (e', f) ∧
      Disk.Alike folder stem d' e' ∧ d'.find? folder = some .folder := by
  induction changes generalizing d e with
  | nil => exact ⟨d, e, none, rfl, rfl, h, hthere⟩
  | cons x rest ih =>
    rcases apply_alike hfolder hstem h hthere (hchanges x (List.mem_cons_self ..)) with
      ⟨f, hd, he⟩ | ⟨d₁, e₁, hd, he, h₁, hthere₁⟩
    · exact ⟨d, e, some (.change x.1 f), by rw [Disk.applyAll, hd], by rw [Disk.applyAll, he], h, hthere⟩
    · rw [Disk.applyAll, Disk.applyAll, hd, he]
      exact ih h₁ hthere₁ fun y hy => hchanges y (List.mem_cons_of_mem _ hy)

/-- **The folders on the way, on both disks:** a file is in the way of both, or all of
them are there in the end. -/
theorem makeFolders_alike (hfolder : Names folder) (h : Disk.Alike folder stem d e) :
    (∃ f, d.makeFolders (rooted folder) = .error f ∧ e.makeFolders (rooted folder) = .error f) ∨
      ∃ d' e', d.makeFolders (rooted folder) = .ok d' ∧ e.makeFolders (rooted folder) = .ok e' ∧
        Disk.Alike folder stem d' e' ∧ d'.find? folder = some .folder := by
  by_cases hblocked : ∃ r text time, r <+: folder ∧ d.find? r = some (.file text time)
  · left
    obtain ⟨r, text, time, hr, hfile⟩ := hblocked
    obtain ⟨f, hf⟩ := Disk.makeFolders_blocked hfolder hr
    refine ⟨f, hf d h.tree ⟨text, time, hfile⟩, hf e h.tree' ?_⟩
    rcases h.way r hr with hsame | ⟨hnone, -⟩
    · exact ⟨text, file_of_look hsame.symm hfile⟩
    · rw [look_eq_none.1 hnone] at hfile
      exact absurd hfile (by simp)
  · right
    have hfree : ∀ r text time, r <+: folder → d.find? r ≠ some (.file text time) :=
      fun r text time hr hfile => hblocked ⟨r, text, time, hr, hfile⟩
    have hfree' : ∀ r text time, r <+: folder → e.find? r ≠ some (.file text time) := by
      intro r text time hr hfile
      rcases h.way r hr with hsame | ⟨-, hnew⟩
      · obtain ⟨time', hfile'⟩ := file_of_look hsame hfile
        exact hfree r text time' hr hfile'
      · rw [look_eq_folder.1 hnew] at hfile
        exact absurd hfile (by simp)
    obtain ⟨d', hd', htree, hfind⟩ := Disk.makeFolders_free h.tree hfolder hfree
    obtain ⟨e', he', htree', hfind'⟩ := Disk.makeFolders_free h.tree' hfolder hfree'
    refine ⟨d', e', hd', he', ⟨htree, htree', fun r hr => Or.inl ?_, fun p hp q hq => ?_⟩, ?_⟩
    · exact look_of_find? (by rw [hfind, hfind', if_pos hr, if_pos hr])
    · -- what is at or below an artifact is not on the way
      have hnot : ¬ q <+: folder := fun hpre => not_prefix_folder hp (hq.trans hpre)
      have hd : d'.look q = d.look q := look_of_find? (by rw [hfind, if_neg hnot])
      have he : e'.look q = e.look q := look_of_find? (by rw [hfind', if_neg hnot])
      rw [hd, he]
      exact h.own p hp q hq
    · rw [hfind, if_pos (List.prefix_refl _)]

/-! ## Plans -/

theorem applyAll_made_alike (hfolder : Names folder) (hstem : '/' ∉ stem) (h : Disk.Alike folder stem d e)
    {changes : List (Stage × Change)} (hchanges : ∀ x ∈ changes, x.2.IsOfArtifact folder stem)
    (stage : Stage) :
    ∃ d' e' f, d.applyAll ((stage, .makeFolders (rooted folder)) :: changes) = (d', f) ∧
      e.applyAll ((stage, .makeFolders (rooted folder)) :: changes) = (e', f) ∧
      Disk.Alike folder stem d' e' ∧ (d' = d ∧ e' = e ∨ d'.find? folder = some .folder) := by
  rw [Disk.applyAll, Disk.applyAll, Disk.apply, Disk.apply]
  rcases makeFolders_alike hfolder h with ⟨f, hd, he⟩ | ⟨d₁, e₁, hd, he, h₁, hthere⟩
  · rw [hd, he]
    exact ⟨d, e, _, rfl, rfl, h, Or.inl ⟨rfl, rfl⟩⟩
  · rw [hd, he]
    obtain ⟨d', e', f, hd', he', h', hthere'⟩ := applyAll_alike hfolder hstem h₁ hthere hchanges
    exact ⟨d', e', f, hd', he', h', Or.inr hthere'⟩

/-- **A plan on both disks** ends with the same fault, if any. -/
theorem run_alike (hfolder : Names folder) (hstem : '/' ∉ stem) (h : Disk.Alike folder stem d e)
    (c : Compiled) :
    ∃ d' e' f, (c.plan (.ofBase (rooted (folder ++ [stem])))).run d = (d', f) ∧
      (c.plan (.ofBase (rooted (folder ++ [stem])))).run e = (e', f) ∧
      Disk.Alike folder stem d' e' ∧ (d' = d ∧ e' = e ∨ d'.find? folder = some .folder) := by
  have hfile : ∀ ext, rooted (folder ++ [stem]) ++ ext = rooted (folder ++ [stem ++ ext]) := fun ext =>
    (Path.rooted_append_singleton folder stem ext).symm
  have hcomponent : ∀ text,
      Change.IsOfArtifact folder stem (.write (rooted (folder ++ [stem]) ++ componentExt) text) :=
    fun _ => ⟨_, by decide, hfile _⟩
  have hchanges : c.componentChanges (.ofBase (rooted (folder ++ [stem]))) =
      (.outputFolder, .makeFolders (rooted folder)) ::
        [(.component, .write (rooted (folder ++ [stem]) ++ componentExt) c.content)] := by
    rw [Compiled.componentChanges, dir_rooted hfolder hstem]
    rfl
  cases hmeta : metadataText c.metadata with
  | ok text =>
    simp only [run_of_metadata hmeta, Compiled.changes, hchanges, List.cons_append]
    refine applyAll_made_alike hfolder hstem h ?_ _
    intro x hx
    simp only [List.nil_append, List.mem_cons, List.not_mem_nil, or_false] at hx
    rcases hx with rfl | rfl | rfl
    · exact hcomponent _
    · exact ⟨_, by decide, hfile _⟩
    · unfold Compiled.highlightChange
      split
      next => exact ⟨_, by decide, hfile _⟩
      next => exact ⟨_, by decide, hfile _⟩
  | error fault =>
    simp only [run_of_no_metadata hmeta, hchanges]
    have hone : ∀ x ∈ [(Stage.component, Change.write (rooted (folder ++ [stem]) ++ componentExt) c.content)],
        x.2.IsOfArtifact folder stem := by
      intro x hx
      rw [List.mem_singleton.1 hx]
      exact hcomponent _
    obtain ⟨d', e', f, hd', he', h', hdone⟩ := applyAll_made_alike hfolder hstem h hone .outputFolder
    rw [hd', he']
    cases f with
    | some f => exact ⟨d', e', some f, rfl, rfl, h', hdone⟩
    | none => exact ⟨d', e', some (.encoding fault), rfl, rfl, h', hdone⟩

/-- What a plan changes on one of two alike disks it changes on the other. -/
theorem changedAlike_of_touches (h : Disk.Alike folder stem d e) (h' : Disk.Alike folder stem d' e')
    (hd : Disk.Touches (IsArtifactPlace folder stem) folder d d')
    (he : Disk.Touches (IsArtifactPlace folder stem) folder e e')
    (hdone : d' = d ∧ e' = e ∨ d'.find? folder = some .folder) : Disk.ChangedAlike d e d' e' := by
  -- with its folder there, everything on the way is there on both disks
  have hway : ∀ q, q <+: folder → d'.find? folder = some .folder →
      d'.look q = some none ∧ e'.look q = some none := by
    intro q hq hfolder
    have hup : ∀ {x : Disk}, x.IsTree → x.find? folder = some .folder → x.look q = some none := by
      intro x htree hx
      by_cases hsame : q = folder
      · rw [hsame]
        exact look_eq_folder.2 hx
      · exact look_eq_folder.2 (htree.folder_above hx hq hsame)
    exact ⟨hup h'.tree hfolder, hup h'.tree' (h'.folder_there hfolder)⟩
  constructor
  · intro q hne
    by_cases hq : IsArtifactPlace folder stem q
    · exact h'.own q hq q (List.prefix_refl _)
    · rcases hd.find q hq with hsame | ⟨hpre, hnone, hnew⟩
      · exact absurd (look_of_find? hsame) hne
      · rcases hdone with ⟨rfl, -⟩ | hfolder
        · exact absurd rfl hne
        · obtain ⟨hd', he'⟩ := hway q hpre hfolder
          rw [hd', he']
  · intro q heq
    by_cases hq : IsArtifactPlace folder stem q
    · rw [h'.own q hq q (List.prefix_refl _), heq, h.own q hq q (List.prefix_refl _)]
    · rcases he.find q hq with hsame | ⟨hpre, hnone, hnew⟩
      · exact look_of_find? hsame
      · rcases hdone with ⟨-, rfl⟩ | hfolder
        · rfl
        · -- the folder is new on the second disk only, but the first has it in the end
          obtain ⟨hd', he'⟩ := hway q hpre hfolder
          rw [hd'] at heq
          rcases h.way q hpre with hsame | ⟨hd, -⟩
          · rw [he', hsame, heq]
          · rw [hd] at heq
            exact absurd heq (by simp)

/-! ## Transforms -/

variable {s : TransformSettings} {path text : Text} {time : Int}

/-- A transform of a document that is a file. -/
theorem transform_of_file {w : Workspace} {a : Artifacts} (hfile : w.disk.stat path = .ok (.file text time))
    (ha : resolveArtifacts s.srcRoot s.cacheDir path = .ok a) (cancelled : Bool) :
    w.transform s cancelled path =
      if w.recorded? path = some time then (⟨path, a, true⟩, none, w)
      else
        match compileSource s cancelled a text with
        | .error f => (⟨path, a, false⟩, some f, w)
        | .ok c =>
          match (c.plan a).run w.disk with
          | (d, some f) => (⟨path, a, false⟩, some f, { w with disk := d })
          | (d, none) => (⟨path, a, false⟩, none, { w with disk := d }.remember path time) := by
  have hread := contents_of_stat hfile
  unfold transform
  simp only [hfile, ha, hread, timeOf, Option.isSome_some, Bool.true_and, Option.getD_some]
  by_cases hskip : w.recorded? path = some time
  · simp only [hskip, decide_true, if_true]
  · simp only [hskip, decide_false, if_false]
    rfl

/-- **A transform in two workspaces** whose disks are alike for the document, and
whose records say the same about it. -/
theorem transform_alike {w₀ w : Workspace} (hfolder : Names folder) (hstem : '/' ∉ stem)
    (h : Disk.Alike folder stem w₀.disk w.disk)
    (ha : resolveArtifacts s.srcRoot s.cacheDir path = .ok (.ofBase (rooted (folder ++ [stem]))))
    (hfile₀ : w₀.disk.stat path = .ok (.file text time)) (hfile : w.disk.stat path = .ok (.file text time))
    (hrecord : w.recorded? path = w₀.recorded? path) (cancelled : Bool) :
    ∃ out f w₀' w', w₀.transform s cancelled path = (out, f, w₀') ∧
      w.transform s cancelled path = (out, f, w') ∧
      Disk.ChangedAlike w₀.disk w.disk w₀'.disk w'.disk ∧
      w'.recorded? path = w₀'.recorded? path ∧ ∀ q, q ≠ path → w'.recorded? q = w.recorded? q := by
  have hsame : Disk.ChangedAlike w₀.disk w.disk w₀.disk w.disk :=
    ⟨fun q hne => absurd rfl hne, fun q _ => rfl⟩
  rw [transform_of_file hfile₀ ha, transform_of_file hfile ha, hrecord]
  by_cases hskip : w₀.recorded? path = some time
  · rw [if_pos hskip, if_pos hskip]
    exact ⟨_, _, _, _, rfl, rfl, hsame, hrecord, fun _ _ => rfl⟩
  · rw [if_neg hskip, if_neg hskip]
    cases hcompiled : compileSource s cancelled (.ofBase (rooted (folder ++ [stem]))) text with
    | error f => exact ⟨_, _, _, _, rfl, rfl, hsame, hrecord, fun _ _ => rfl⟩
    | ok c =>
      obtain ⟨d', e', f, hd', he', h', hdone⟩ := run_alike hfolder hstem h c
      have hchanged := changedAlike_of_touches h h'
        (run_touches h.tree (standAt_ofBase_rooted _ hfolder hstem) hd')
        (run_touches h.tree' (standAt_ofBase_rooted _ hfolder hstem) he') hdone
      simp only [hd', he']
      cases f with
      | some f => exact ⟨_, _, _, _, rfl, rfl, hchanged, hrecord, fun _ _ => rfl⟩
      | none =>
        refine ⟨_, _, _, _, rfl, rfl, hchanged, ?_, fun q hq => ?_⟩
        · rw [recorded?_remember, recorded?_remember, if_pos rfl, if_pos rfl]
        · rw [recorded?_remember, if_neg hq]
          rfl

end

end Docweave
