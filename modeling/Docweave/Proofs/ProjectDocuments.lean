import Docweave.Project.Build
import Docweave.Proofs.CachedArtifacts
import Docweave.Proofs.DiskWalks

/-!
# The documents of a project

A project has its sources below one folder and its cache below another, and
neither folder is in the other (`ProjectLayout`). A document is known by the
folders it is in and by the stem of its name (`DocumentName`); its place among
the sources and the places of its artifacts follow from these.

> `mem_findDocuments_rooted`, `nodup_findDocuments`, `sorted_findDocuments`: what is
> found below a root, each path once and in order.

> `path_inj`, `artifactPlace_inj`: documents share neither paths nor artifacts.

> `findDocuments_congr`: which documents are found is decided by the sources.

> `mem_findDocuments`: what is found is a file among the sources, under the name
> of a document.
-/

namespace Docweave

open Docweave.Path (rooted Names IsName)
open Docweave.Text

/-! ## Searching below a root -/

/-- A path that ends like a document or an artifact ends in such a name. -/
theorem exists_stem_of_endsWith {es : List Text} (hes : Names es) {ext : Text}
    (hext : ext ∈ documentExt :: artifactExts) (h : endsWith (rooted es) ext = true) :
    ∃ front stem, es = front ++ [stem ++ ext] := by
  have hkinds : ∀ e ∈ documentExt :: artifactExts, e ≠ [] ∧ '/' ∉ e := by decide
  obtain ⟨r, hr⟩ := endsWith_iff.1 h
  rcases List.eq_nil_or_concat es with rfl | ⟨front, n, rfl⟩
  · -- the root is a slash, which stands in no extension
    have hmem : '/' ∈ ext := by
      rcases List.append_eq_singleton_iff.1 hr.symm with ⟨-, rfl⟩ | ⟨-, hnil⟩
      · exact List.mem_singleton.2 rfl
      · exact absurd hnil (hkinds ext hext).1
    exact absurd hmem (hkinds ext hext).2
  · rw [List.concat_eq_append] at hes hr ⊢
    refine ⟨front, ?_⟩
    obtain ⟨above, habove, -⟩ := Path.exists_front_rooted (Path.names_append.1 hes).1 n
    rw [habove] at hr
    rcases List.append_eq_append_iff.1 hr with ⟨mid, -, hmid⟩ | ⟨mid, -, hmid⟩
    · -- the name would have to be in front of the extension, slash and all
      cases mid with
      | nil =>
        obtain rfl : '/' :: n = ext := hmid
        exact absurd (List.mem_cons_self ..) (hkinds _ hext).2
      | cons c mid =>
        obtain ⟨-, hn⟩ := List.cons.inj hmid
        exact ⟨mid, by rw [hn]; rfl⟩
    · exact absurd (hmid ▸ List.mem_append_right _ (List.mem_cons_self ..)) (hkinds ext hext).2

/-- What ends so below a root is in folders below it. -/
theorem exists_stem_below {S rest : List Text} (hnames : Names (S ++ rest)) (hne : rest ≠ []) {ext : Text}
    (hext : ext ∈ documentExt :: artifactExts) (h : endsWith (rooted (S ++ rest)) ext = true) :
    ∃ fs stem, Names fs ∧ '/' ∉ stem ∧ rest = fs ++ [stem ++ ext] := by
  obtain ⟨front, stem, hplace⟩ := exists_stem_of_endsWith hnames hext h
  obtain ⟨fs, last, rfl⟩ : ∃ fs last, rest = fs ++ [last] :=
    ⟨_, _, (List.dropLast_concat_getLast hne).symm⟩
  rw [← List.append_assoc] at hplace
  obtain ⟨-, hlast⟩ := List.append_inj' hplace rfl
  obtain rfl : last = stem ++ ext := (List.cons.inj hlast).1
  obtain ⟨hfs, hname⟩ := Path.names_append.1 (Path.names_append.1 hnames).2
  refine ⟨fs, stem, hfs, fun hin => ?_, rfl⟩
  exact (Path.names_singleton.1 hname).no_slash (List.mem_append_left _ hin)

section

variable {S : List Text} {d : Disk} {found : List Text}

/-- What is visited below a root. -/
def SeenBelow (S : Place) (d : Disk) (q : Place) (b : Bool) : Prop :=
  Names q ∧ S <+: q ∧ ∃ e, d.find? q = some e ∧ e.isFolder = b

/-- A visit leaves the disk alone, and may find a document. -/
theorem findVisit_cases (root : Text) (rules : List IgnoreRule) (path : Text) (b : Bool) (d : Disk)
    (found : List Text) :
    (Project.findVisit root rules path b (d, found)).2 = (d, found) ∨
      (Project.findVisit root rules path b (d, found)).2 = (d, path :: found) ∧ b = false ∧
        endsWith path documentExt = true ∧ (Path.relative? root path).getD path ≠ ['.'] := by
  unfold Project.findVisit
  simp only
  split
  next => exact Or.inl rfl
  next hinside =>
    split
    next => exact Or.inl rfl
    next =>
      split
      next hdoc =>
        rw [Bool.and_eq_true, Bool.not_eq_true'] at hdoc
        exact Or.inr ⟨rfl, hdoc.1, hdoc.2, hinside⟩
      next => exact Or.inl rfl

theorem findVisit_disk (root : Text) (rules : List IgnoreRule) (path : Text) (b : Bool) (d : Disk)
    (found : List Text) : (Project.findVisit root rules path b (d, found)).2.1 = d := by
  rcases findVisit_cases root rules path b d found with h | ⟨h, -⟩
  · rw [h]
  · rw [h]

/-- What is found by visits: the paths of some of them. -/
theorem visitAll_found (root : Text) (rules : List IgnoreRule) (d : Disk) (vs : List (Place × Bool))
    (found : List Text) :
    ∃ us : List (Place × Bool), us.Sublist vs ∧
      Disk.visitAll (Project.findVisit root rules) vs (d, found) =
        (d, (us.map fun v => rooted v.1).reverse ++ found) ∧
      ∀ u ∈ us, u.2 = false ∧ endsWith (rooted u.1) documentExt = true ∧
        (Path.relative? root (rooted u.1)).getD (rooted u.1) ≠ ['.'] := by
  induction vs generalizing found with
  | nil => exact ⟨[], List.Sublist.slnil, rfl, by simp⟩
  | cons v vs ih =>
    rw [Disk.visitAll]
    rcases findVisit_cases root rules (rooted v.1) v.2 d found with hsame | ⟨hnew, hdoc⟩
    · obtain ⟨us, hsub, hvisits, hus⟩ := ih found
      exact ⟨us, hsub.cons v, by rw [hsame, hvisits], hus⟩
    · obtain ⟨us, hsub, hvisits, hus⟩ := ih (rooted v.1 :: found)
      refine ⟨v :: us, hsub.cons_cons v, ?_, List.forall_mem_cons.2 ⟨hdoc, hus⟩⟩
      rw [hnew, hvisits, List.map_cons, List.reverse_cons, List.append_assoc]
      rfl

theorem keptByVisits_find (htree : d.IsTree) (rules : List IgnoreRule) :
    Disk.KeptByVisits (·.1) (Project.findVisit (rooted S) rules)
      (fun x : Disk × List Text => x.1 = d) (SeenBelow S d) where
  tree hx := hx ▸ htree
  names hseen := hseen.1
  kept := by
    rintro q b ⟨d', found⟩ - rfl
    exact findVisit_disk ..
  entered := by
    rintro q ⟨d', found⟩ ⟨hq, hbelow, -⟩ rfl - ⟨name, b⟩ hx
    rw [findVisit_disk] at hx
    obtain ⟨e, hfind, hb⟩ := (Disk.mem_namesAt htree).1 hx
    have hn := Disk.isName_of_mem_namesAt htree hx
    exact ⟨Path.names_append.2 ⟨hq, Path.names_singleton.2 hn⟩, hbelow.trans (List.prefix_append ..),
      e, hfind, hb⟩

/-- What is found below a root: files that are named like documents, each once. -/
theorem exists_found (hS : Names S) (htree : d.IsTree) (h : Project.findDocuments (rooted S) d = .ok found) :
    ∃ us : List (Place × Bool), found = Text.sort (us.map fun v => rooted v.1).reverse ∧
      (us.map (·.1)).Nodup ∧ ∀ u ∈ us, SeenBelow S d u.1 u.2 ∧ u.2 = false ∧
        u.1.length ≤ S.length + Disk.maxDepth ∧ u.1 ≠ S ∧ endsWith (rooted u.1) documentExt = true := by
  unfold Project.findDocuments at h
  generalize Project.rulesOf (rooted S) d = rules at h
  obtain ⟨vs, hvs, hwalk⟩ := Disk.walk_visits id (keptByVisits_find htree rules) S (s := (d, []))
    (fun e hentry => ⟨hS, List.prefix_refl _, e, (Disk.entryOf_rooted htree hS).1 hentry, rfl⟩) rfl
  obtain ⟨us, hsub, hvisits, hus⟩ := visitAll_found (rooted S) rules d vs []
  rw [hvisits, List.append_nil] at hwalk
  refine ⟨us, ?_, hvs.once.sublist (hsub.map _), fun u hu => ?_⟩
  · split at h
    next => exact absurd h (by simp)
    next heq =>
      rw [heq] at hwalk
      rw [← Except.ok.inj h, (Prod.mk.inj hwalk).2]
  · have hmem := hsub.subset hu
    obtain ⟨hfile, hext, hinside⟩ := hus u hu
    refine ⟨hvs.seen u hmem, hfile, hvs.depth u hmem, fun hroot => hinside ?_, hext⟩
    -- the root itself is passed over
    have hself := Path.relative?_rooted hS (List.forall_mem_nil _)
    rw [List.append_nil, if_pos rfl] at hself
    rw [hroot, hself]
    rfl

/-- **What is found below a root.** -/
theorem mem_findDocuments_rooted (hS : Names S) (htree : d.IsTree)
    (h : Project.findDocuments (rooted S) d = .ok found) :
    ∀ p ∈ found, ∃ fs stem text time, Names fs ∧ '/' ∉ stem ∧ fs.length < Disk.maxDepth ∧
      p = rooted (S ++ fs ++ [stem ++ documentExt]) ∧
      d.find? (S ++ fs ++ [stem ++ documentExt]) = some (.file text time) := by
  obtain ⟨us, rfl, -, hus⟩ := exists_found hS htree h
  intro p hp
  obtain ⟨⟨q, b⟩, hu, rfl⟩ := List.mem_map.1 (List.mem_reverse.1 (List.mem_mergeSort.1 hp))
  obtain ⟨⟨hnames, ⟨rest, rfl⟩, e, hfind, hb⟩, rfl, hdepth, hne, hext⟩ := hus _ hu
  obtain ⟨text, time, rfl⟩ : ∃ text time, e = .file text time := by
    cases e with
    | folder => exact absurd hb (by simp [Entry.isFolder])
    | file text time => exact ⟨text, time, rfl⟩
  have hbelow : rest ≠ [] := fun hnil => hne (by rw [hnil, List.append_nil])
  obtain ⟨fs, stem, hfs, hstem, rfl⟩ := exists_stem_below hnames hbelow (List.mem_cons_self ..) hext
  rw [← List.append_assoc] at hfind ⊢
  refine ⟨fs, stem, text, time, hfs, hstem, ?_, rfl, hfind⟩
  simp only [List.length_append, List.length_singleton] at hdepth
  omega

theorem nodup_findDocuments (hS : Names S) (htree : d.IsTree)
    (h : Project.findDocuments (rooted S) d = .ok found) : found.Nodup := by
  obtain ⟨us, rfl, honce, hus⟩ := exists_found hS htree h
  refine (List.mergeSort_perm _ _).nodup_iff.2 ((List.reverse_perm _).nodup_iff.2 ?_)
  rw [List.Nodup, List.pairwise_map] at honce ⊢
  refine honce.imp_of_mem fun hu hv hne heq => hne ?_
  exact Path.rooted_inj (hus _ hu).1.1 (hus _ hv).1.1 heq

theorem sorted_findDocuments {root : Text} (h : Project.findDocuments root d = .ok found) :
    found.Pairwise fun p q => Text.le p q = true := by
  unfold Project.findDocuments at h
  split at h
  next => exact absurd h (by simp)
  next => exact Except.ok.inj h ▸ Text.sort_sorted _

end

/-! ## Layouts -/

/-- The source root and the cache directory are given from the root. -/
structure BuildSettings.RootsAt (s : BuildSettings) (S C : Place) : Prop where
  names_src : Names S
  names_cache : Names C
  srcRoot_eq : s.srcRoot = rooted S
  cacheDir_eq : s.cacheDir = rooted C

/-- Where the sources and the cache of a project are. -/
structure ProjectLayout (s : BuildSettings) where
  src : List Text
  cache : List Text
  names_src : Names src
  names_cache : Names cache
  srcRoot_eq : s.srcRoot = rooted src
  cacheDir_eq : s.cacheDir = rooted cache
  cache_outside : ¬ src <+: cache
  src_outside : ¬ cache <+: src

theorem names_srcFolder : Names ["src"] := by decide

theorem names_cacheFolder : Names ["cache"] := by decide

/-- The sources in one folder and the cache in another, side by side. -/
def ProjectLayout.sideBySide {s : BuildSettings} (hsrc : s.srcRoot = rooted ["src"])
    (hcache : s.cacheDir = rooted ["cache"]) : ProjectLayout s where
  src := ["src"]
  cache := ["cache"]
  names_src := names_srcFolder
  names_cache := names_cacheFolder
  srcRoot_eq := hsrc
  cacheDir_eq := hcache
  cache_outside := by decide
  src_outside := by decide

/-- The name of a document: the folders that it is in, and the stem. -/
structure DocumentName where
  folders : List Text
  stem : Text
  names_folders : Names folders
  isName_stem : IsName stem

/-- The document is among the handwritten components. -/
def DocumentName.InComponents (n : DocumentName) : Prop := n.folders.head? = some componentsFolder

instance (n : DocumentName) : Decidable n.InComponents := inferInstanceAs (Decidable (_ = _))

namespace ProjectLayout

variable {s : BuildSettings} (L : ProjectLayout s)

/-- The place of a document among the sources. -/
def place (n : DocumentName) : Place := L.src ++ n.folders ++ [n.stem ++ documentExt]

/-- The path of a document. -/
def path (n : DocumentName) : Text := rooted (L.place n)

/-- The folder of the artifacts of a document. -/
def artifactFolder (n : DocumentName) : Place := L.cache ++ n.folders

/-- The artifacts of a document. -/
def artifacts (n : DocumentName) : Artifacts := .ofBase (rooted (L.artifactFolder n ++ [n.stem]))

/-- The place is that of an artifact of a document. -/
def IsArtifactOf (n : DocumentName) (q : Place) : Prop := IsArtifactPlace (L.artifactFolder n) n.stem q

theorem rootsAt : s.RootsAt L.src L.cache := ⟨L.names_src, L.names_cache, L.srcRoot_eq, L.cacheDir_eq⟩

/-! ## Places -/

variable {L} {m n : DocumentName} {q : Place}

theorem names_place (L : ProjectLayout s) (n : DocumentName) : Names (L.place n) :=
  names_stem (Path.names_append.2 ⟨L.names_src, n.names_folders⟩) n.isName_stem.no_slash (by decide)

theorem standAt (L : ProjectLayout s) (work : Place) (n : DocumentName) :
    (L.artifacts n).StandAt work (L.artifactFolder n) n.stem :=
  standAt_ofBase_rooted work (Path.names_append.2 ⟨L.names_cache, n.names_folders⟩) n.isName_stem.no_slash

theorem resolve_path (L : ProjectLayout s) (n : DocumentName) :
    resolveArtifacts s.srcRoot s.cacheDir (L.path n) = .ok (L.artifacts n) := by
  rw [L.srcRoot_eq, L.cacheDir_eq]
  exact resolveArtifacts_document L.names_src L.names_cache n.names_folders n.isName_stem

theorem documentName_ext (hfolders : m.folders = n.folders) (hstem : m.stem = n.stem) : m = n := by
  cases m
  cases n
  simp_all

theorem path_inj (h : L.path m = L.path n) : m = n := by
  have hplace := Path.rooted_inj (L.names_place m) (L.names_place n) h
  obtain ⟨hfolders, hstem, -⟩ := standAt_inj (List.mem_cons_self ..) (List.mem_cons_self ..) hplace
  exact documentName_ext (List.append_cancel_left hfolders) hstem

theorem artifactPlace_inj (hm : L.IsArtifactOf m q) (hn : L.IsArtifactOf n q) : m = n := by
  obtain ⟨ext, hext, rfl⟩ := hm
  obtain ⟨ext', hext', hsame⟩ := hn
  obtain ⟨hfolders, hstem, -⟩ :=
    standAt_inj (List.mem_cons_of_mem _ hext) (List.mem_cons_of_mem _ hext') hsame
  exact documentName_ext (List.append_cancel_left hfolders) hstem

/-- The files of a document are named from the root. -/
theorem artifact_rooted {f : Text} (hf : f ∈ Workspace.filesOf (L.artifacts n)) :
    ∃ es, Names es ∧ L.IsArtifactOf n es ∧ f = rooted es := by
  obtain ⟨ext, hext, rfl⟩ := mem_filesOf_ofBase.1 hf
  refine ⟨_, ?_, ⟨ext, hext, rfl⟩, (Path.rooted_append_singleton _ n.stem ext).symm⟩
  exact names_stem (Path.names_append.2 ⟨L.names_cache, n.names_folders⟩) n.isName_stem.no_slash
    (List.mem_cons_of_mem _ hext)

theorem cache_above (h : L.IsArtifactOf n q) : L.cache <+: q := by
  obtain ⟨ext, -, rfl⟩ := h
  exact ⟨n.folders ++ [n.stem ++ ext], by rw [artifactFolder, List.append_assoc]⟩

theorem src_above (L : ProjectLayout s) (n : DocumentName) : L.src <+: L.place n :=
  ⟨n.folders ++ [n.stem ++ documentExt], by rw [place, List.append_assoc]⟩

/-- No place is both among the sources and in the cache. -/
theorem not_cache_of_src (h : L.src <+: q) : ¬ L.cache <+: q := by
  intro hcache
  rcases List.prefix_or_prefix_of_prefix h hcache with hbelow | hbelow
  · exact L.cache_outside hbelow
  · exact L.src_outside hbelow

/-- What only touches the cache leaves the sources alone. -/
theorem find?_src_of_touches {d d' : Disk} (h : Disk.Touches (L.cache <+: ·) L.cache d d')
    (hq : L.src <+: q) : d'.find? q = d.find? q := by
  rcases h.find q (not_cache_of_src hq) with heq | ⟨habove, -, -⟩
  · exact heq
  · exact absurd (hq.trans habove) L.cache_outside

/-! ## Names of documents -/

/-- No document on a disk is called by its extension alone, or by dots in front
of it. -/
def DocumentsNamed (L : ProjectLayout s) (d : Disk) : Prop :=
  ∀ fs stem text time, d.find? (L.src ++ fs ++ [stem ++ documentExt]) = some (.file text time) →
    IsName stem

theorem documentsNamed_of_touches {d d' : Disk} (h : Disk.Touches (L.cache <+: ·) L.cache d d')
    (hnamed : L.DocumentsNamed d) : L.DocumentsNamed d' := by
  intro fs stem text time hfind
  have hbelow : L.src <+: L.src ++ fs ++ [stem ++ documentExt] := ⟨_, (List.append_assoc ..).symm⟩
  exact hnamed fs stem text time (find?_src_of_touches h hbelow ▸ hfind)

/-- The names that have no name in front of the extension. -/
def bareNames (ext : Text) : List Text := [ext, '.' :: ext, '.' :: '.' :: ext]

/-- Where no entry has such a name, every stem is a name. -/
theorem isName_of_entries {d : Disk} (htree : d.IsTree) {ext : Text}
    (h : ∀ x ∈ d.entries, x.1.getLast? ∉ (bareNames ext).map some) {front : Place} {stem : Text}
    {e : Entry} (hfind : d.find? (front ++ [stem ++ ext]) = some e) : IsName stem := by
  have hmem := Disk.mem_of_find? (by simp) hfind
  have hslash := (htree.names _ hmem (stem ++ ext) (by simp)).no_slash
  have hbare := h _ hmem
  rw [List.getLast?_concat] at hbare
  refine ⟨?_, fun hin => hslash (List.mem_append_left _ hin), ?_, ?_⟩
  all_goals
    rintro rfl
    exact hbare (List.mem_map_of_mem (by simp [bareNames]))

theorem findVisit_onlyReads (root : Text) (rules : List IgnoreRule) :
    Disk.OnlyReads (Project.findVisit root rules) := by
  intro path b found
  unfold Project.findVisit
  simp only
  split
  next => exact ⟨_, _, fun _ => rfl⟩
  next =>
    split
    next => exact ⟨_, _, fun _ => rfl⟩
    next =>
      split
      next => exact ⟨_, _, fun _ => rfl⟩
      next => exact ⟨_, _, fun _ => rfl⟩

section

variable {d d' : Disk} {found : List Text}

theorem rulesOf_congr (htree : d.IsTree) (htree' : d'.IsTree)
    (hsame : ∀ q, L.src <+: q → d'.find? q = d.find? q) :
    Project.rulesOf s.srcRoot d' = Project.rulesOf s.srcRoot d := by
  have hnames : Names (L.src ++ [".gitignore".toList]) :=
    Path.names_append.2 ⟨L.names_src, by decide⟩
  have hpath : Path.join s.srcRoot ".gitignore" = rooted (L.src ++ [".gitignore".toList]) := by
    rw [L.srcRoot_eq]
    exact Path.join_rooted_name L.names_src (by decide)
  have hread : ∀ t, d'.contents (rooted (L.src ++ [".gitignore".toList])) = .ok t ↔
      d.contents (rooted (L.src ++ [".gitignore".toList])) = .ok t := by
    intro t
    rw [Disk.contents_rooted htree' hnames, Disk.contents_rooted htree hnames, Disk.textAt?,
      Disk.textAt?, hsame _ (List.prefix_append ..)]
  unfold Project.rulesOf
  rw [hpath]
  congr 1
  cases h : d.contents (rooted (L.src ++ [".gitignore".toList])) with
  | ok t => rw [(hread t).2 h]
  | error f =>
    cases h' : d'.contents (rooted (L.src ++ [".gitignore".toList])) with
    | ok t =>
      rw [(hread t).1 h'] at h
      exact absurd h (by simp)
    | error f' => rfl

/-- **What is found is decided by the sources.** -/
theorem findDocuments_congr (htree : d.IsTree) (htree' : d'.IsTree)
    (hsame : ∀ q, L.src <+: q → d'.find? q = d.find? q)
    (h : Project.findDocuments s.srcRoot d = .ok found) :
    Project.findDocuments s.srcRoot d' = .ok found := by
  unfold Project.findDocuments at h ⊢
  rw [rulesOf_congr htree htree' hsame]
  generalize Project.rulesOf s.srcRoot d = rules at h ⊢
  rw [L.srcRoot_eq] at h ⊢
  cases hroot : d.find? L.src with
  | none =>
    -- without a source root nothing is found
    cases hentry : d.entryOf (rooted L.src) with
    | ok e =>
      rw [(Disk.entryOf_rooted htree L.names_src).1 hentry] at hroot
      exact absurd hroot (by simp)
    | error c =>
      unfold Disk.walk at h
      simp only [hentry] at h
      exact absurd h (by simp)
  | some e =>
    obtain ⟨r, x, hwalk, hwalk'⟩ := Disk.walk_agrees id
      (findVisit_onlyReads (rooted L.src) rules) L.names_src htree htree' hsame hroot []
    rw [hwalk] at h
    rw [hwalk']
    cases r with
    | error f => exact absurd h (by simp)
    | ok u => exact h

/-- The path of a document that is on the disk, where a walk can find it. -/
def IsDocument (L : ProjectLayout s) (d : Disk) (p : Text) : Prop :=
  ∃ n text time, p = L.path n ∧ d.find? (L.place n) = some (.file text time) ∧
    n.folders.length < Disk.maxDepth

theorem isDocument_of_touches {p : Text} (h : Disk.Touches (L.cache <+: ·) L.cache d d')
    (hdoc : L.IsDocument d p) : L.IsDocument d' p := by
  obtain ⟨n, text, time, rfl, hfile, hdepth⟩ := hdoc
  exact ⟨n, text, time, rfl, (find?_src_of_touches h (L.src_above n)).trans hfile, hdepth⟩

/-- **What is found is a document.** -/
theorem mem_findDocuments (htree : d.IsTree) (hnamed : L.DocumentsNamed d)
    (h : Project.findDocuments s.srcRoot d = .ok found) : ∀ p ∈ found, L.IsDocument d p := by
  rw [L.srcRoot_eq] at h
  intro p hp
  obtain ⟨fs, stem, text, time, hfs, -, hdepth, rfl, hfind⟩ :=
    mem_findDocuments_rooted L.names_src htree h p hp
  exact ⟨⟨fs, stem, hfs, hnamed fs stem text time hfind⟩, text, time, rfl, hfind, hdepth⟩

end

end ProjectLayout

end Docweave
