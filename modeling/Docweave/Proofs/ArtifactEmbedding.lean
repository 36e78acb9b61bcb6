import Docweave.Proofs.ProjectDocuments

/-!
# Artifacts as an image of the sources

The artifacts of a document stand below the cache directory where the document
stands below the source root. For documents with a name in front of their
extension this is an embedding: no two of them share a file, and a component
tells its document. A document called by its extension alone, or by dots in
front of it, has no place of its own. What is left of its path when the
extension is cut off names a folder, and its artifacts stand beside that folder.

> `isOk_resolveArtifacts`: which paths have artifacts.

> `artifacts_of_bare_document`: where those of a document without a name are.

> `artifacts_embed_documents`: the embedding, and what it fails on.
-/

namespace Docweave

open Docweave.Path (rooted Names IsName IsCleanRooted liesBelow lastPart placeFrom)
open Docweave.Text

/-- What stands in front of the extension in the name of a document. -/
def documentStem (p : Text) : Text := trimSuffix documentExt (lastPart p)

section

variable {S C fs es : List Text} {stem p : Text}

theorem documentStem_rooted (fs : List Text) (hstem : '/' ∉ stem) :
    documentStem (rooted (fs ++ [stem ++ documentExt])) = stem := by
  have hslash := (isName_stem hstem (List.mem_cons_self ..)).no_slash
  unfold documentStem
  rw [rooted, Path.lastPart_ofElements true fs hslash, trimSuffix_append]

/-! ## Which paths have artifacts -/

theorem isOk_resolveArtifacts (hS : Names S) (hes : Names es) (cacheDir : Text) :
    (resolveArtifacts (rooted S) cacheDir (rooted es)).isOk = true ↔ S <+: es := by
  constructor
  · intro hok
    by_cases hbelow : S <+: es
    · exact hbelow
    · -- the way to the path leads out of the source root
      obtain ⟨rel, hrel, hleaves⟩ := Path.relative?_outside hS hes hbelow
      unfold resolveArtifacts at hok
      simp only [hrel, hleaves] at hok
      exact absurd hok (by simp [Except.isOk, Except.toBool])
  · rintro ⟨rest, rfl⟩
    rw [resolveArtifacts_below hS (Path.clean_rooted hS) (Path.names_append.1 hes).2]
    rfl

/-- A document below the source root: the folders that it is in, and its stem. -/
theorem exists_document (hS : Names S) (hne : S ≠ []) (hp : IsCleanRooted p)
    (hext : endsWith p documentExt = true) (hbelow : liesBelow (rooted S) p = true) :
    ∃ fs stem, Names fs ∧ '/' ∉ stem ∧ p = rooted (S ++ fs ++ [stem ++ documentExt]) ∧
      documentStem p = stem := by
  obtain ⟨es, hes, rfl⟩ := hp.exists_names
  obtain ⟨rest, hrest, rfl⟩ := (Path.liesBelow_rooted hne hS hes).1 hbelow
  obtain ⟨fs, stem, hfs, hstem, rfl⟩ := exists_stem_below hes hrest (List.mem_cons_self ..) hext
  rw [← List.append_assoc]
  exact ⟨fs, stem, hfs, hstem, rfl, documentStem_rooted _ hstem⟩

/-! ## Documents without a name -/

theorem component_not_below {cache folder : List Text} (hcache : Names cache) (hne : cache ≠ [])
    (hfolder : Names folder) (hlen : folder.length ≤ cache.length) :
    liesBelow (rooted cache) (rooted folder ++ componentExt) = false := by
  rw [← Bool.not_eq_true]
  intro hbelow
  have hpos := List.length_pos_iff.2 hne
  rcases List.eq_nil_or_concat folder with rfl | ⟨front, f, rfl⟩
  · have hroot : rooted [] ++ componentExt = rooted [componentExt] := rfl
    rw [hroot] at hbelow
    obtain ⟨rest, hrest, heq⟩ := (Path.liesBelow_rooted hne hcache (by decide)).1 hbelow
    have hcount := congrArg List.length heq
    have hsome := List.length_pos_iff.2 hrest
    simp only [List.length_singleton, List.length_append] at hcount
    omega
  · rw [List.concat_eq_append] at hfolder hlen hbelow
    have hf := Path.names_singleton.1 (Path.names_append.1 hfolder).2
    have hnames : Names (front ++ [f ++ componentExt]) :=
      names_stem (Path.names_append.1 hfolder).1 hf.no_slash (by decide)
    rw [← Path.rooted_append_singleton] at hbelow
    obtain ⟨rest, hrest, heq⟩ := (Path.liesBelow_rooted hne hcache hnames).1 hbelow
    have hcount := congrArg List.length heq
    have hsome := List.length_pos_iff.2 hrest
    simp only [List.length_singleton, List.length_append] at hcount hlen
    omega

/-- The artifacts of a document without a name stand outside the cache
directory, or are those of another document. -/
theorem artifacts_of_bare_document (hS : Names S) (hC : Names C) (hCne : C ≠ []) (hfs : Names fs)
    (hslash : '/' ∉ stem) (hstem : ¬ IsName stem) {a : Artifacts}
    (ha : resolveArtifacts (rooted S) (rooted C) (rooted (S ++ fs ++ [stem ++ documentExt])) = .ok a) :
    liesBelow (rooted C) a.component = false ∨
      ∃ front n, Names front ∧ IsName n ∧ front.length < fs.length ∧
        resolveArtifacts (rooted S) (rooted C) (rooted (S ++ front ++ [n ++ documentExt])) = .ok a := by
  have hnames : Names (C ++ fs) := Path.names_append.2 ⟨hC, hfs⟩
  rw [resolveArtifacts_stem hS hC hfs hslash] at ha
  obtain rfl := Except.ok.inj ha
  -- what is left when the extension is cut off is a folder below the cache, or one above
  have hbase : (∃ gs, gs <+: fs ∧ placeFrom (C ++ fs) stem = C ++ gs) ∨
      placeFrom (C ++ fs) stem = C.dropLast := by
    rcases Path.placeFrom_no_name hnames hslash hstem with hsame | hup
    · exact Or.inl ⟨fs, List.prefix_refl fs, hsame⟩
    · by_cases hnil : fs = []
      · exact Or.inr (by rw [hup, hnil, List.append_nil])
      · exact Or.inl ⟨fs.dropLast, List.dropLast_prefix fs,
          by rw [hup, List.dropLast_append_of_ne_nil hnil]⟩
  rcases hbase with ⟨gs, hgs, hbase⟩ | hbase
  · rcases List.eq_nil_or_concat gs with rfl | ⟨front, n, rfl⟩
    · left
      rw [hbase, List.append_nil]
      exact component_not_below hC hCne hC (Nat.le_refl _)
    · -- the document that is called like the folder has the same artifacts
      right
      rw [List.concat_eq_append] at hgs hbase
      have hgsnames : Names (front ++ [n]) := fun m hm => hfs m (hgs.subset hm)
      obtain ⟨hfront, hn⟩ := Path.names_append.1 hgsnames
      refine ⟨front, n, hfront, Path.names_singleton.1 hn, ?_, ?_⟩
      · have hlen := hgs.length_le
        rw [List.length_append, List.length_singleton] at hlen
        omega
      · rw [resolveArtifacts_document hS hC hfront (Path.names_singleton.1 hn), hbase,
          List.append_assoc]
  · left
    rw [hbase]
    refine component_not_below hC hCne (fun m hm => hC m (List.dropLast_subset C hm)) ?_
    rw [List.length_dropLast]
    omega

/-! ## The embedding -/

/-- The files of a document with a name are below the cache directory. -/
theorem files_below (hC : Names C) (hCne : C ≠ []) (hfs : Names fs) (hstem : IsName stem) :
    ∀ f ∈ Workspace.filesOf (.ofBase (rooted (C ++ fs ++ [stem]))), liesBelow (rooted C) f = true := by
  intro f hf
  obtain ⟨ext, hext, rfl⟩ := mem_filesOf_ofBase.1 hf
  have hnames : Names (C ++ fs ++ [stem ++ ext]) :=
    names_stem (Path.names_append.2 ⟨hC, hfs⟩) hstem.no_slash (List.mem_cons_of_mem _ hext)
  rw [← Path.rooted_append_singleton, Path.liesBelow_rooted hCne hC hnames]
  exact ⟨fs ++ [stem ++ ext], by simp, List.append_assoc ..⟩

/-- Stems that share a file are the same. -/
theorem base_of_shared_file {base base' f : Text} (hf : f ∈ Workspace.filesOf (.ofBase base))
    (hf' : f ∈ Workspace.filesOf (.ofBase base')) : base = base' := by
  obtain ⟨ext, hext, rfl⟩ := mem_filesOf_ofBase.1 hf
  obtain ⟨ext', hext', hsame⟩ := mem_filesOf_ofBase.1 hf'
  obtain rfl := ext_inj (List.mem_cons_of_mem _ hext) (List.mem_cons_of_mem _ hext') hsame
  exact List.append_cancel_right hsame

/-- The base that the artifacts of a document share: the source root, if it is
one, has the cache directory itself. -/
theorem base_of_resolved (hS : Names S) (hSne : S ≠ []) (hC : Names C) (hp : IsCleanRooted p)
    (hext : endsWith p documentExt = true) (hname : IsName (documentStem p)) {a : Artifacts}
    (ha : resolveArtifacts (rooted S) (rooted C) p = .ok a) :
    a = .ofBase (rooted C) ∨
      ∃ fs stem, Names (fs ++ [stem]) ∧ p = rooted (S ++ fs ++ [stem ++ documentExt]) ∧
        a = .ofBase (rooted (C ++ fs ++ [stem])) := by
  by_cases hbelow : liesBelow (rooted S) p = true
  · right
    obtain ⟨fs, stem, hfs, -, rfl, hstem⟩ := exists_document hS hSne hp hext hbelow
    rw [hstem] at hname
    refine ⟨fs, stem, Path.names_append.2 ⟨hfs, Path.names_singleton.2 hname⟩, rfl, ?_⟩
    rw [resolveArtifacts_document hS hC hfs hname] at ha
    exact (Except.ok.inj ha).symm
  · left
    obtain ⟨es, hes, rfl⟩ := hp.exists_names
    have hok : (resolveArtifacts (rooted S) (rooted C) (rooted es)).isOk = true := by
      rw [ha]
      rfl
    obtain ⟨rest, rfl⟩ := (isOk_resolveArtifacts hS hes _).1 hok
    have hnil : rest = [] := Classical.not_not.1 fun hne =>
      hbelow ((Path.liesBelow_rooted hSne hS hes).2 ⟨rest, hne, rfl⟩)
    have hdot : trimSuffix documentExt ['.'] = ['.'] := by decide
    rw [resolveArtifacts_below hS (Path.clean_rooted hS) (Path.names_append.1 hes).2, if_pos hnil, hdot,
      Path.join_rooted hC, show Path.elements ['.'] = [] from rfl, Path.squash,
      List.reverse_reverse] at ha
    exact (Except.ok.inj ha).symm

end

/-- **Artifacts embed the documents that have a name.** A document has artifacts
if and only if it is below the source root (or is the source root). With a name
in front of its extension, all of them are below the cache directory, its
component tells the document, and none is an artifact of another such document.
Without a name, its component is outside the cache directory or its artifacts
are those of another document. -/
theorem artifacts_embed_documents {srcRoot cacheDir p : Text} (hS : IsCleanRooted srcRoot)
    (hC : IsCleanRooted cacheDir) (hSne : srcRoot ≠ ['/']) (hCne : cacheDir ≠ ['/'])
    (hp : IsCleanRooted p) (hext : endsWith p documentExt = true) :
    ((resolveArtifacts srcRoot cacheDir p).isOk = true ↔ p = srcRoot ∨ liesBelow srcRoot p = true) ∧
      (liesBelow srcRoot p = true → ∃ a, resolveArtifacts srcRoot cacheDir p = .ok a ∧
        (IsName (documentStem p) →
          (∀ f ∈ Workspace.filesOf a, liesBelow cacheDir f = true) ∧
          documentOf srcRoot cacheDir a.component = .ok p ∧
          ∀ q b, IsCleanRooted q → endsWith q documentExt = true → IsName (documentStem q) → q ≠ p →
            resolveArtifacts srcRoot cacheDir q = .ok b →
            ∀ f ∈ Workspace.filesOf a, f ∉ Workspace.filesOf b) ∧
        (¬ IsName (documentStem p) →
          liesBelow cacheDir a.component = false ∨
            ∃ q, IsCleanRooted q ∧ endsWith q documentExt = true ∧ q ≠ p ∧
              resolveArtifacts srcRoot cacheDir q = .ok a)) := by
  obtain ⟨S, hSnames, rfl⟩ := hS.exists_names
  obtain ⟨C, hCnames, rfl⟩ := hC.exists_names
  have hS₀ : S ≠ [] := fun hnil => hSne (by rw [hnil]; rfl)
  have hC₀ : C ≠ [] := fun hnil => hCne (by rw [hnil]; rfl)
  refine ⟨?_, fun hbelow => ?_⟩
  · obtain ⟨es, hes, rfl⟩ := hp.exists_names
    rw [isOk_resolveArtifacts hSnames hes, Path.liesBelow_rooted hS₀ hSnames hes]
    constructor
    · rintro ⟨rest, rfl⟩
      by_cases hnil : rest = []
      · exact Or.inl (by rw [hnil, List.append_nil])
      · exact Or.inr ⟨rest, hnil, rfl⟩
    · rintro (hroot | ⟨rest, -, rfl⟩)
      · exact Path.rooted_inj hes hSnames hroot ▸ List.prefix_refl _
      · exact List.prefix_append ..
  · obtain ⟨fs, stem, hfs, hslash, rfl, hstem⟩ := exists_document hSnames hS₀ hp hext hbelow
    have ha := resolveArtifacts_stem hSnames hCnames hfs hslash
    rw [hstem]
    refine ⟨_, ha, fun hname => ?_, fun hbare => ?_⟩
    · rw [Path.placeFrom_name _ hname] at ha ⊢
      have hbase : Names (C ++ fs ++ [stem]) :=
        Path.names_append.2 ⟨Path.names_append.2 ⟨hCnames, hfs⟩, Path.names_singleton.2 hname⟩
      refine ⟨files_below hCnames hC₀ hfs hname, ?_, ?_⟩
      · show documentOf _ _ (rooted (C ++ fs ++ [stem]) ++ componentExt) = _
        rw [← Path.rooted_append_singleton, documentOf_component hSnames hCnames hfs hslash]
      · intro q b hq hqext hqname hne hb f hf hf'
        rcases base_of_resolved hSnames hS₀ hCnames hq hqext hqname hb with rfl | ⟨gs, n, hgs, rfl, rfl⟩
        · -- the source root as a document has its files beside the cache directory
          have hplace := Path.rooted_inj hbase hCnames (base_of_shared_file hf hf')
          have hlen := congrArg List.length hplace
          simp only [List.length_append, List.length_singleton] at hlen
          omega
        · have hgsbase : Names (C ++ gs ++ [n]) := by
            rw [List.append_assoc]
            exact Path.names_append.2 ⟨hCnames, hgs⟩
          have hplace := Path.rooted_inj hbase hgsbase (base_of_shared_file hf hf')
          obtain ⟨hfolders, hlast⟩ := List.append_inj' hplace rfl
          rw [← List.append_cancel_left hfolders, ← (List.cons.inj hlast).1] at hne
          exact hne rfl
    · -- no place of its own
      rcases artifacts_of_bare_document hSnames hCnames hC₀ hfs hslash hbare ha with
        hout | ⟨front, n, hfront, hn, hshort, hsame⟩
      · exact Or.inl hout
      · have hnames : Names (S ++ front ++ [n ++ documentExt]) :=
          names_stem (Path.names_append.2 ⟨hSnames, hfront⟩) hn.no_slash (List.mem_cons_self ..)
        refine Or.inr ⟨_, Path.isCleanRooted_rooted hnames,
          endsWith_iff.2 ⟨_, Path.rooted_append_singleton ..⟩, ?_, hsame⟩
        intro heq
        have hplace := Path.rooted_inj hnames (names_stem (Path.names_append.2 ⟨hSnames, hfs⟩) hslash
          (List.mem_cons_self ..)) heq
        have hlen := congrArg List.length hplace
        simp only [List.length_append, List.length_singleton] at hlen
        omega

theorem artifacts_embed_setup :
    IsName (documentStem "/project/src/docs/setup.v.md") ∧
      ∃ a, resolveArtifacts "/project/src" "/project/.mdv" "/project/src/docs/setup.v.md" = .ok a ∧
        (∀ f ∈ Workspace.filesOf a, liesBelow "/project/.mdv" f = true) ∧
        documentOf "/project/src" "/project/.mdv" a.component = .ok "/project/src/docs/setup.v.md" := by
  have hname : IsName (documentStem "/project/src/docs/setup.v.md") := by decide
  obtain ⟨-, hbelow⟩ := @artifacts_embed_documents "/project/src" "/project/.mdv"
    "/project/src/docs/setup.v.md" (by decide) (by decide) (by decide) (by decide) (by decide) (by decide)
  obtain ⟨a, ha, hnamed, -⟩ := hbelow (by decide)
  obtain ⟨hfiles, hdocument, -⟩ := hnamed hname
  exact ⟨hname, a, ha, hfiles, hdocument⟩

/-- A document that is called by its extension alone has the artifacts of the
one that is called like its folder, and its component leads to that one. -/
theorem bare_document_shares_artifacts :
    (resolveArtifacts "/project/src" "/project/.mdv" "/project/src/sub/.v.md").toOption =
        some (.ofBase "/project/.mdv/sub") ∧
      (resolveArtifacts "/project/src" "/project/.mdv" "/project/src/sub.v.md").toOption =
        some (.ofBase "/project/.mdv/sub") ∧
      (documentOf "/project/src" "/project/.mdv" "/project/.mdv/sub.vue").toOption =
        some ("/project/src/sub.v.md" : Text) := by
  decide +kernel

end Docweave
