import Docweave.Config.Load
import Docweave.Proofs.BuildPhases

/-!
# Where a build writes

A build takes files away in three ways: it discards the artifacts of documents
that are gone, it clears the mirrored components, and it writes over artifacts
and declarations. All of these have names of their own (`IsOutput`), and a file
at any other place is kept, wherever the source root and the cache directory
are. Nothing keeps the two folders apart, though. When neither is in the other,
no source has the name of an output. When they are one folder, the components
that are to be mirrored are cleared first, and are lost.

> `build_keepsFiles`: a build keeps all files but its outputs.

> `resolve_rootsAt`: a configuration gives both folders from the root.

> `build_keeps_sources`: what that means for the files below the source root.
-/

namespace Docweave

open Docweave.Path (rooted Names IsName)
open Workspace Project

/-! ## Files that are kept -/

/-- The disk is a tree again, and all files are as they were but at some places. -/
structure Disk.KeepsFiles (touched : Place → Prop) (d d' : Disk) : Prop where
  tree : d'.IsTree
  find : ∀ {q text time}, ¬ touched q → d.find? q = some (.file text time) →
    d'.find? q = some (.file text time)

section

variable {touched wider : Place → Prop} {folder : Place} {d d' d'' : Disk}

theorem Disk.KeepsFiles.refl (h : d.IsTree) : d.KeepsFiles touched d := ⟨h, fun _ hfile => hfile⟩

theorem Disk.KeepsFiles.trans (h : d.KeepsFiles touched d') (h' : d'.KeepsFiles touched d'') :
    d.KeepsFiles touched d'' := ⟨h'.tree, fun hq hfile => h'.find hq (h.find hq hfile)⟩

/-- Making folders takes no file away. -/
theorem Disk.Touches.keepsFiles (h : Disk.Touches touched folder d d')
    (hplaces : ∀ q, touched q → wider q) : d.KeepsFiles wider d' := by
  refine ⟨h.tree, @fun q text time hq hfile => ?_⟩
  rcases h.find q fun ht => hq (hplaces q ht) with hsame | ⟨-, hnone, -⟩
  · rw [hsame]
    exact hfile
  · rw [hnone] at hfile
    exact absurd hfile (by simp)

end

/-! ## The steps of a build -/

/-- The places that builds write to: what is in the mirror of the components, the
declarations, and artifacts. These stand below the cache directory, or further
up in its path. -/
def IsOutput (C q : Place) : Prop :=
  C ++ [componentsFolder] <+: q ∨ q = C ++ [declarationsFile] ∨
    ∃ folder stem, IsArtifactPlace folder stem q ∧ (C <+: folder ∨ folder <+: C)

section

variable {s : BuildSettings} {S C : Place} {d₀ d d' : Disk} {w w' : Workspace}

theorem resolve_documentPath (hroots : s.RootsAt S C) {fs : Place} {stem : Text} (hfs : Names fs)
    (hstem : '/' ∉ stem) (work : Place) :
    ∃ a folder t, resolveArtifacts s.srcRoot s.cacheDir (documentPath S fs stem) = .ok a ∧
      a.StandAt work folder t ∧ ∀ q, IsArtifactPlace folder t q → IsOutput C q := by
  have ha := resolveArtifacts_stem hroots.names_src hroots.names_cache hfs hstem
  rw [← hroots.srcRoot_eq, ← hroots.cacheDir_eq] at ha
  obtain ⟨folder, t, hstand, hnear⟩ := standAt_stem work hroots.names_cache hfs hstem
  exact ⟨_, folder, t, ha, hstand, fun q hq => Or.inr (Or.inr ⟨folder, t, hq, hnear⟩)⟩

/-- The cleanup discards artifacts. -/
theorem clean_keepsFiles {r : Except BuildFault (List Text)} (hroots : s.RootsAt S C)
    (htree : w.disk.IsTree) (hroot : w.disk.find? C = some .folder)
    (h : cleanUnlessSkipped s w = (r, w')) : w.disk.KeepsFiles (IsOutput C) w'.disk := by
  have hkept : KeptByDiscards s S C w.disk fun w₁ => w.disk.KeepsFiles (IsOutput C) w₁.disk := by
    intro w₁ w₂ fs stem text time f files fault hclean h hfs hstem _ _ _ _ hdiscard
    obtain ⟨a, folder, t, ha, hstand, hplaces⟩ :=
      resolve_documentPath hroots hfs hstem w₁.disk.workFolder
    exact h.trans ((discard_touches hclean.tree ha hstand hdiscard).1.keepsFiles hplaces)
  unfold cleanUnlessSkipped at h
  split at h
  next => exact (Prod.mk.inj h).2 ▸ .refl htree
  next => exact (clean_keeps hroots htree hroot hkept (.refl htree) h).2

/-- What comes before the documents: the folder of the cache, the cleanup and the
mirroring. -/
theorem prepared_keepsFiles (hroots : s.RootsAt S C) (htree : w.disk.IsTree)
    (h : ProjectLayout.Prepared s w w') : w.disk.KeepsFiles (IsOutput C) w'.disk := by
  have hcleaned : ∀ {d : Disk} {r : Except BuildFault (List Text)} {w₁ : Workspace},
      w.disk.makeFolders s.cacheDir = .ok d → cleanUnlessSkipped s { w with disk := d } = (r, w₁) →
      w.disk.KeepsFiles (IsOutput C) w₁.disk := by
    intro d r w₁ hmake hclean
    rw [hroots.cacheDir_eq] at hmake
    have hmade := Disk.makeFolders_touches htree (Disk.placeOf_rooted hroots.names_cache)
      (Path.upFirst_rooted hroots.names_cache) hmake
    have hroot := Disk.makeFolders_made htree hroots.names_cache hmake
    exact (hmade.keepsFiles fun _ hq => hq.elim).trans (clean_keepsFiles hroots hmade.tree hroot hclean)
  cases h with
  | refused => exact .refl htree
  | cleaned hmake hclean => exact hcleaned hmake hclean
  | mirrored hmake hclean hcopy =>
    have hfirst := hcleaned hmake hclean
    have hmirror := ProjectLayout.copyComponents_touches hroots hfirst.tree hcopy
    exact hfirst.trans (hmirror.keepsFiles fun _ => Or.inl)

theorem processAll_keepsFiles (hroots : s.RootsAt S C) {ps : List Text} {rs : List ProcessResult}
    (htree : w.disk.IsTree)
    (hdocs : ∀ p ∈ ps, ∃ fs stem, Names fs ∧ '/' ∉ stem ∧ p = documentPath S fs stem)
    (h : processAll s.toTransformSettings ps w = (rs, w')) :
    w.disk.KeepsFiles (IsOutput C) w'.disk := by
  induction ps generalizing w rs with
  | nil => exact (Prod.mk.inj h).2 ▸ .refl htree
  | cons p ps ih =>
    obtain ⟨fs, stem, hfs, hstem, rfl⟩ := hdocs p (List.mem_cons_self ..)
    obtain ⟨a, folder, t, ha, hstand, hplaces⟩ := resolve_documentPath hroots hfs hstem w.disk.workFolder
    unfold processAll documentPath at h
    rw [ProjectLayout.processFile_document (Path.names_append.2 ⟨hroots.names_src, hfs⟩) hstem] at h
    generalize htransform : w.transform s.toTransformSettings false
      (rooted (S ++ fs ++ [stem ++ documentExt])) = result at h
    obtain ⟨out, fault, w₁⟩ := result
    simp only at h
    generalize hrest : processAll s.toTransformSettings ps w₁ = rest at h
    obtain ⟨rs', w₂⟩ := rest
    obtain ⟨-, rfl⟩ := Prod.mk.inj h
    have hfirst := (transform_touches htree ha hstand htransform).keepsFiles hplaces
    exact hfirst.trans (ih hfirst.tree (fun p hp => hdocs p (List.mem_cons_of_mem _ hp)) hrest)

theorem buildDocuments_keepsFiles (hroots : s.RootsAt S C) {cancelled : Bool}
    {removed documents : List Text} {res : Option BuildResult} {fault : Option BuildFault}
    (htree : w.disk.IsTree)
    (hdocs : ∀ p ∈ documents, ∃ fs stem, Names fs ∧ '/' ∉ stem ∧ p = documentPath S fs stem)
    (h : buildDocuments s cancelled removed documents w = (res, fault, w')) :
    w.disk.KeepsFiles (IsOutput C) w'.disk := by
  unfold buildDocuments at h
  split at h
  next =>
    cases h
    exact .refl htree
  next =>
    generalize hprocess : processAll s.toTransformSettings documents w = result at h
    obtain ⟨rs, w₁⟩ := result
    have hfirst := processAll_keepsFiles hroots htree hdocs hprocess
    simp only at h
    split at h
    next =>
      cases h
      exact hfirst
    next hdeclare =>
      cases h
      obtain ⟨hnames, text, hstored⟩ := ProjectLayout.declareComponents_eq_ok hroots hdeclare
      have hstore := Disk.store_touches hfirst.tree (Disk.placeOf_rooted hnames) hstored C
      exact hfirst.trans (hstore.keepsFiles fun _ hq => Or.inr (Or.inl hq))

/-- **A build keeps all files but its outputs.** -/
theorem build_keepsFiles (hroots : s.RootsAt S C) {cancelled : Bool} {res : Option BuildResult}
    {fault : Option BuildFault} (htree : w.disk.IsTree) (h : build s cancelled w = (res, fault, w')) :
    w.disk.KeepsFiles (IsOutput C) w'.disk := by
  rcases ProjectLayout.build_cases h with
    ⟨-, hprepared⟩ | ⟨w₁, removed, found, hprepared, hfound, hdocuments⟩
  · exact prepared_keepsFiles hroots htree hprepared
  · have hfirst := prepared_keepsFiles hroots htree hprepared
    rw [hroots.srcRoot_eq] at hfound
    refine hfirst.trans (buildDocuments_keepsFiles hroots hfirst.tree (fun p hp => ?_) hdocuments)
    obtain ⟨fs, stem, -, -, hfs, hstem, -, rfl, -⟩ :=
      mem_findDocuments_rooted hroots.names_src hfirst.tree hfound p hp
    exact ⟨fs, stem, hfs, hstem, rfl⟩

end

/-! ## Which sources are outputs -/

section

variable {S C q : Place}

/-- Documents are not named like artifacts. -/
theorem not_isOutput_document {front : Place} {stem : Text}
    (hout : ¬ C ++ [componentsFolder] <+: front ++ [stem ++ documentExt]) :
    ¬ IsOutput C (front ++ [stem ++ documentExt]) := by
  rintro (hmirror | hdeclared | ⟨folder, t, ⟨ext, hext, hsame⟩, -⟩)
  · exact hout hmirror
  · exact ProjectLayout.ne_declarations (List.mem_cons_self ..) hdeclared
  · obtain ⟨-, -, rfl⟩ := standAt_inj (List.mem_cons_self ..) (List.mem_cons_of_mem _ hext) hsame
    exact absurd hext (by decide)

/-- Below a source root that is apart from the cache directory there are no
outputs. -/
theorem not_isOutput_apart (hS : ¬ S <+: C) (hC : ¬ C <+: S) (hq : S <+: q) (hne : q ≠ S) :
    ¬ IsOutput C q := by
  have hcache : ¬ C <+: q := by
    intro hbelow
    rcases List.prefix_or_prefix_of_prefix hq hbelow with h | h
    · exact hS h
    · exact hC h
  rintro (hmirror | rfl | ⟨folder, t, ⟨ext, -, rfl⟩, hbelow | habove⟩)
  · exact hcache ((List.prefix_append ..).trans hmirror)
  · exact hcache (List.prefix_append ..)
  · exact hcache (hbelow.trans (List.prefix_append ..))
  · -- the folder is in the path of the cache directory, and the source root is not
    rcases List.prefix_concat_iff.1 hq with hsame | hfolder
    · exact hne hsame.symm
    · exact hS (hfolder.trans habove)

end

/-! ## Configurations -/

theorem isCleanRooted_absoluteFrom {work : Text} (hwork : Path.isRooted work = true) (base p : Text) :
    Path.IsCleanRooted (Config.absoluteFrom work base p) := by
  have hclean : ∀ {t : Text}, Path.isRooted t = true → Path.IsCleanRooted (Path.clean t) := by
    intro t ht
    obtain ⟨es, hes, heq⟩ := Path.clean_of_isRooted ht
    rw [heq]
    exact Path.isCleanRooted_rooted hes
  unfold Config.absoluteFrom
  split
  next hp => exact hclean hp
  next =>
    simp only
    split
    next hjoin =>
      -- a joined path is cleaned
      have hcleaned : Path.join base p = [] ∨ ∃ t, Path.join base p = Path.clean t := by
        unfold Path.join Path.joinAll
        split
        next => exact Or.inl rfl
        next => exact Or.inr ⟨_, rfl⟩
      rcases hcleaned with hnil | ⟨t, ht⟩
      · rw [hnil] at hjoin
        exact absurd hjoin (by decide)
      · rw [ht] at hjoin ⊢
        rw [Path.isRooted_clean] at hjoin
        exact hclean hjoin
    next =>
      rw [Path.join_of_isRooted hwork]
      refine Path.isCleanRooted_rooted (Path.names_squash (List.forall_mem_nil _) fun e he => ?_)
      rcases List.mem_append.1 he with hfront | hback
      · exact Path.mem_elements hfront
      · exact Path.mem_elements hback

/-- **A configuration gives both folders from the root,** wherever they are. -/
theorem resolve_rootsAt {work : Text} (hwork : Path.isRooted work = true) (c : Config) {s : BuildSettings}
    (hsrc : s.srcRoot = (Config.resolve work c).srcRoot)
    (hcache : s.cacheDir = (Config.resolve work c).cacheDir) :
    s.RootsAt (Path.elements s.srcRoot) (Path.elements s.cacheDir) := by
  have hplace : ∀ {p : Text}, Path.IsCleanRooted p → Names (Path.elements p) ∧ p = rooted (Path.elements p) := by
    intro p hp
    obtain ⟨es, hes, rfl⟩ := hp.exists_names
    rw [Path.elements_rooted hes]
    exact ⟨hes, rfl⟩
  obtain ⟨hS, hSroot⟩ := hplace (p := s.srcRoot) (by
    rw [hsrc]
    exact isCleanRooted_absoluteFrom hwork _ _)
  obtain ⟨hC, hCroot⟩ := hplace (p := s.cacheDir) (by
    rw [hcache]
    exact isCleanRooted_absoluteFrom hwork _ _)
  exact ⟨hS, hC, hSroot, hCroot⟩

/-- **A build keeps the sources, if they are apart from the cache.** Under any
configuration, on any disk, a build keeps every file that is not at the place of
an output. So it keeps all files below the source root when neither of the two
folders is in the other, and it keeps documents even when one is, but for those
in the mirror of the components. -/
theorem build_keeps_sources {work : Text} (hwork : Path.isRooted work = true) (c : Config)
    {s : BuildSettings} (hsrc : s.srcRoot = (Config.resolve work c).srcRoot)
    (hcache : s.cacheDir = (Config.resolve work c).cacheDir) {cancelled : Bool} {w w' : Workspace}
    {res : Option BuildResult} {fault : Option BuildFault} (htree : w.disk.IsTree)
    (h : Project.build s cancelled w = (res, fault, w')) :
    (∀ q text time, w.disk.find? q = some (.file text time) → ¬ IsOutput (Path.elements s.cacheDir) q →
        w'.disk.find? q = some (.file text time)) ∧
      (¬ Path.elements s.srcRoot <+: Path.elements s.cacheDir →
        ¬ Path.elements s.cacheDir <+: Path.elements s.srcRoot →
        ∀ q text time, Path.elements s.srcRoot <+: q → q ≠ Path.elements s.srcRoot →
          w.disk.find? q = some (.file text time) → w'.disk.find? q = some (.file text time)) ∧
      ∀ front stem text time,
        w.disk.find? (front ++ [stem ++ documentExt]) = some (.file text time) →
        ¬ Path.elements s.cacheDir ++ [componentsFolder] <+: front ++ [stem ++ documentExt] →
        w'.disk.find? (front ++ [stem ++ documentExt]) = some (.file text time) := by
  have hkeeps := build_keepsFiles (resolve_rootsAt hwork c hsrc hcache) htree h
  refine ⟨fun q text time hfile hout => hkeeps.find hout hfile, ?_, ?_⟩
  · intro hS hC q text time hq hne hfile
    exact hkeeps.find (not_isOutput_apart hS hC hq hne) hfile
  · intro front stem text time hfile hout
    exact hkeeps.find (not_isOutput_document hout) hfile

/-- A configuration with the sources in one folder and the cache in another, or in
the same. -/
def cardConfig (cacheDir : Text) : Config := { srcRoot := "src", cacheDir := cacheDir }

/-- How a project in the root folder is built under it. -/
def cardSettings (cacheDir : Text) : BuildSettings :=
  (Config.resolve "/" (cardConfig cacheDir)).buildSettings

/-- A project with a handwritten component. -/
def cardWorkspace : Workspace :=
  { disk := { entries := [(["src"], .folder), (["src", "components"], .folder),
      (["src", "components", "card.vue"], .file "<template/>\n" 2)] } }

/-- With the cache beside the sources the handwritten component is kept. -/
theorem build_keeps_sources_card :
    (Project.build (cardSettings ".mdv") false cardWorkspace).1.isSome = true ∧
      (Project.build (cardSettings ".mdv") false cardWorkspace).2.2.disk.find?
        ["src", "components", "card.vue"] = some (.file "<template/>\n" 2) := by
  have hresult : (Project.build (cardSettings ".mdv") false cardWorkspace).1.isSome = true := by
    decide +kernel
  generalize hbuild : Project.build (cardSettings ".mdv") false cardWorkspace = r at hresult ⊢
  obtain ⟨res, fault, w'⟩ := r
  have hkept := build_keeps_sources (show Path.isRooted "/" = true by decide) (cardConfig ".mdv") rfl rfl
    (by decide) hbuild
  exact ⟨hresult, hkept.2.1 (by decide) (by decide) _ _ _ (by decide) (by decide) (by decide)⟩

/-- With both in one folder it is cleared away before it is copied, and the build
fails. -/
theorem components_lost_in_shared_folder :
    cardWorkspace.disk.has "/src/components/card.vue" = true ∧
      (Project.build (cardSettings "src") false cardWorkspace).2.1.map BuildFault.message =
        some ("lstat /src/components: no such file or directory" : Text) ∧
      (Project.build (cardSettings "src") false cardWorkspace).2.2.disk.has
        "/src/components/card.vue" = false := by
  decide +kernel

end Docweave
