import Docweave.Artifact
import Docweave.Proofs.PathPlaces

/-!
# Where artifacts stand

The artifacts of a document share a folder and a stem and differ in what
stands behind the stem, so their places say which document they are of.

> `resolveArtifacts_below`: the artifacts of a document below the source root.

> `exists_standAt`: they share a folder and a stem, wherever the cache is.

> `standAt_inj`: the same place is the same folder, stem and kind.

> `standAt_stem`: they stand below the cache directory, or above it in its path.

> `documentOf_component`: the document that a component stands for. It is the one
> that has the component, if its stem is a name.
-/

namespace Docweave

open Docweave.Path (rooted Names IsName placeFrom ahead lastPart)
open Docweave.Text

/-! ## Folder and stem -/

/-- What can stand behind the stem of an artifact. -/
def artifactExts : List Text := [componentExt, metaExt, highlightExt]

/-- The artifacts of a stem that is written with the way to it. -/
def Artifacts.ofBase (base : Text) : Artifacts :=
  ⟨base ++ componentExt, base ++ metaExt, base ++ highlightExt⟩

/-- Artifacts that stand in a folder, under a stem. Relative paths start in the
folder `work`. -/
structure Artifacts.StandAt (a : Artifacts) (work folder : List Text) (stem : Text) : Prop where
  ofBase : ∃ base, a = .ofBase base
  component : placeFrom work a.component = folder ++ [stem ++ componentExt]
  metadata : placeFrom work a.metadata = folder ++ [stem ++ metaExt]
  highlights : placeFrom work a.highlights = folder ++ [stem ++ highlightExt]
  dir : placeFrom work (Path.dir a.component) = folder

section

variable {work folder folder' : List Text} {stem stem' ext ext' : Text}

theorem no_slash_ext (hext : ext ∈ documentExt :: artifactExts) : '/' ∉ ext := by
  have hkinds : ∀ e ∈ documentExt :: artifactExts, '/' ∉ e := by decide
  exact hkinds ext hext

theorem isName_stem (hstem : '/' ∉ stem) (hext : ext ∈ documentExt :: artifactExts) :
    IsName (stem ++ ext) := by
  have hlong : ∀ e ∈ documentExt :: artifactExts, 2 < e.length := by decide
  exact Path.isName_append hstem (no_slash_ext hext) (hlong ext hext)

theorem names_stem (hfolder : Names folder) (hstem : '/' ∉ stem)
    (hext : ext ∈ documentExt :: artifactExts) : Names (folder ++ [stem ++ ext]) :=
  Path.names_append.2 ⟨hfolder, Path.names_singleton.2 (isName_stem hstem hext)⟩

theorem isName_lastPart (base : Text) (hext : ext ∈ artifactExts) :
    IsName (lastPart (base ++ ext)) := by
  rw [Path.lastPart_append base (no_slash_ext (List.mem_cons_of_mem _ hext))]
  exact isName_stem (Path.no_slash_lastPart base) (List.mem_cons_of_mem _ hext)

/-- **Artifacts share a folder and a stem,** however the way to them is written. -/
theorem standAt_ofBase (work : List Text) (base : Text) :
    (Artifacts.ofBase base).StandAt work (placeFrom work (ahead base)) (lastPart base) := by
  have hplace : ∀ ext ∈ artifactExts,
      placeFrom work (base ++ ext) = placeFrom work (ahead base) ++ [lastPart base ++ ext] := by
    intro ext hext
    have hslash := no_slash_ext (List.mem_cons_of_mem documentExt hext)
    rw [Path.placeFrom_lastPart work (isName_lastPart base hext), Path.ahead_append base hslash,
      Path.lastPart_append base hslash]
  refine ⟨⟨base, rfl⟩, hplace _ (by decide), hplace _ (by decide), hplace _ (by decide), ?_⟩
  rw [Path.dir_eq_clean_ahead, Path.placeFrom_clean]
  exact congrArg (placeFrom work) (Path.ahead_append base (by decide))

theorem standAt_ofBase_rooted (work : List Text) (hfolder : Names folder) (hstem : '/' ∉ stem) :
    (Artifacts.ofBase (rooted (folder ++ [stem]))).StandAt work folder stem := by
  have hstand := standAt_ofBase work (rooted (folder ++ [stem]))
  have hlast : lastPart (rooted (folder ++ [stem])) = stem := Path.lastPart_ofElements true folder hstem
  have hplace := hstand.component
  have hcomponent : (Artifacts.ofBase (rooted (folder ++ [stem]))).component =
      rooted (folder ++ [stem ++ componentExt]) := (Path.rooted_append_singleton ..).symm
  rw [hcomponent, Path.placeFrom_rooted work (names_stem hfolder hstem (by decide))] at hplace
  rw [← (List.append_inj' hplace rfl).1, hlast] at hstand
  exact hstand

/-- The stem of a base is its last name; the root has an empty one. -/
theorem exists_stem_of_base {base : List Text} (hbase : Names base) :
    ∃ stem, '/' ∉ stem ∧ rooted base = rooted (base.dropLast ++ [stem]) := by
  rcases List.eq_nil_or_concat base with rfl | ⟨front, n, rfl⟩
  · exact ⟨[], by simp, rfl⟩
  · rw [List.concat_eq_append] at hbase ⊢
    have hn := Path.names_singleton.1 (Path.names_append.1 hbase).2
    exact ⟨n, hn.no_slash, by rw [List.dropLast_concat]⟩

/-- The last character tells what stands behind the stem. -/
theorem ext_inj {s t : Text} (hext : ext ∈ documentExt :: artifactExts)
    (hext' : ext' ∈ documentExt :: artifactExts) (h : s ++ ext = t ++ ext') : ext = ext' := by
  have hlast : ∀ e ∈ documentExt :: artifactExts, ∀ e' ∈ documentExt :: artifactExts,
      e.getLast? = e'.getLast? → e = e' := by decide
  have hsome : ∀ e ∈ documentExt :: artifactExts, ∀ r : Text, (r ++ e).getLast? = e.getLast? := by
    intro e he r
    have hne : ∀ e ∈ documentExt :: artifactExts, e ≠ [] := by decide
    rw [List.getLast?_append, List.getLast?_eq_some_getLast (hne e he)]
    rfl
  refine hlast ext hext ext' hext' ?_
  rw [← hsome ext hext s, h, hsome ext' hext' t]

/-- The same place is the same folder, the same stem and the same kind. -/
theorem standAt_inj (hext : ext ∈ documentExt :: artifactExts)
    (hext' : ext' ∈ documentExt :: artifactExts)
    (h : folder ++ [stem ++ ext] = folder' ++ [stem' ++ ext']) :
    folder = folder' ∧ stem = stem' ∧ ext = ext' := by
  obtain ⟨hfolder, hname⟩ := List.append_inj' h rfl
  have hsame := (List.cons.inj hname).1
  obtain rfl := ext_inj hext hext' hsame
  exact ⟨hfolder, List.append_cancel_right hsame, rfl⟩

end

/-! ## Documents and their artifacts -/

section

variable {S C fs : List Text} {srcRoot cacheDir stem ext : Text}

theorem resolveArtifacts_below (hS : Names S) (hroot : Path.clean srcRoot = rooted S)
    {rest : List Text} (hrest : Names rest) (cacheDir : Text) :
    resolveArtifacts srcRoot cacheDir (rooted (S ++ rest)) =
      .ok (.ofBase (Path.join cacheDir
        (trimSuffix documentExt (if rest = [] then ['.'] else Text.join "/" rest)))) := by
  have hinside : Path.leavesDir (if rest = [] then ['.'] else Text.join "/" rest) = false := by
    split
    next => rfl
    next => exact Path.not_leavesDir_join hrest
  unfold resolveArtifacts
  simp only [Path.relative?_of_clean hS hroot, Path.relative?_rooted hS hrest, hinside]
  rfl

theorem exists_standAt {path : Text} {a : Artifacts} (work : List Text)
    (h : resolveArtifacts srcRoot cacheDir path = .ok a) :
    ∃ folder stem, a.StandAt work folder stem := by
  unfold resolveArtifacts at h
  split at h
  next => exact absurd h (by simp)
  next =>
    split at h
    next => exact absurd h (by simp)
    next =>
      obtain rfl := Except.ok.inj h
      exact ⟨_, _, standAt_ofBase work _⟩

/-- A path and its clean form have the same artifacts. -/
theorem resolveArtifacts_clean {path : Text} {a : Artifacts} (hpath : Path.isRooted path = true) :
    resolveArtifacts srcRoot cacheDir (Path.clean path) = .ok a ↔ resolveArtifacts srcRoot cacheDir path = .ok a := by
  have hrelative : Path.relative? srcRoot (Path.clean path) = Path.relative? srcRoot path := by
    unfold Path.relative?
    rw [Path.clean_clean hpath]
  unfold resolveArtifacts
  rw [hrelative]
  -- only what is said of a path outside the source root quotes the path
  cases Path.relative? srcRoot path with
  | none => simp
  | some rel =>
    simp only
    split
    next => simp
    next => rfl

/-- No file below the source root is one of its own artifacts. -/
theorem not_own_artifact (hS : Names S) (hroot : Path.clean srcRoot = rooted S) {rest : List Text}
    (hrest : Names rest) (hne : rest ≠ []) {a : Artifacts} {work folder : List Text}
    (h : resolveArtifacts srcRoot cacheDir (rooted (S ++ rest)) = .ok a)
    (hstand : a.StandAt work folder stem) (hext : ext ∈ artifactExts) :
    S ++ rest ≠ folder ++ [stem ++ ext] := by
  intro hplace
  obtain ⟨fs, n, rfl⟩ : ∃ fs n, rest = fs ++ [n] :=
    ⟨_, _, (List.dropLast_concat_getLast hne).symm⟩
  rw [← List.append_assoc] at hplace
  have hname : n = stem ++ ext := (List.cons.inj (List.append_inj' hplace rfl).2).1
  rw [resolveArtifacts_below hS hroot hrest, if_neg hne] at h
  cases hdoc : endsWith (Text.join "/" (fs ++ [n])) documentExt with
  | true =>
    -- the file ends like a document, and no artifact does
    obtain ⟨r, hr⟩ := endsWith_iff.1 hdoc
    obtain ⟨front, hfront⟩ := join_suffix "/" fs [n]
    have hend : r ++ documentExt = front ++ stem ++ ext := by
      rw [← hr, ← hfront, List.append_assoc, ← hname]
      rfl
    obtain rfl := ext_inj (List.mem_cons_self ..) (List.mem_cons_of_mem _ hext) hend
    exact absurd hext (by decide)
  | false =>
    -- its artifacts have longer names than the file
    rw [trimSuffix_of_not_endsWith hdoc] at h
    have hbase := standAt_ofBase work (Path.join cacheDir (Text.join "/" (fs ++ [n])))
    rw [Except.ok.inj h, Path.lastPart_join cacheDir hrest] at hbase
    have hsame := hstand.component.symm.trans hbase.component
    obtain ⟨-, rfl, -⟩ := standAt_inj (by decide) (by decide) hsame
    rw [List.self_eq_append_right.1 hname] at hext
    exact absurd hext (by decide)

/-- The artifacts of a document, whatever stands in front of its extension. -/
theorem resolveArtifacts_stem (hS : Names S) (hC : Names C) (hfs : Names fs) (hstem : '/' ∉ stem) :
    resolveArtifacts (rooted S) (rooted C) (rooted (S ++ fs ++ [stem ++ documentExt])) =
      .ok (.ofBase (rooted (placeFrom (C ++ fs) stem))) := by
  have hrest : Names (fs ++ [stem ++ documentExt]) := names_stem hfs hstem (by decide)
  have hcut : Path.elements (Text.join "/" (fs ++ [stem])) = fs ++ Path.elements stem := by
    by_cases hne : fs = []
    · rw [hne]
      rfl
    · rw [Text.join_concat _ hne, List.append_assoc]
      show Path.elements (Text.join "/" fs ++ '/' :: stem) = _
      rw [Path.elements_append_slash, Path.elements_names hfs]
  rw [List.append_assoc, resolveArtifacts_below hS (Path.clean_rooted hS) hrest, if_neg (by simp),
    join_concat_append, trimSuffix_append, Path.join_rooted hC, hcut, Path.squash_names _ _ _ hfs,
    placeFrom, Path.isRooted_of_no_slash hstem, List.reverse_append]
  rfl

/-- The artifacts of a document with a name in front of its extension. -/
theorem resolveArtifacts_document (hS : Names S) (hC : Names C) (hfs : Names fs) (hstem : IsName stem) :
    resolveArtifacts (rooted S) (rooted C) (rooted (S ++ fs ++ [stem ++ documentExt])) =
      .ok (.ofBase (rooted (C ++ fs ++ [stem]))) := by
  rw [resolveArtifacts_stem hS hC hfs hstem.no_slash, Path.placeFrom_name _ hstem]

/-- Without a name in front of the extension, the artifacts stand further up. -/
theorem exists_base_stem (hC : Names C) (hfs : Names fs) (hstem : '/' ∉ stem) :
    ∃ folder t, Names folder ∧ '/' ∉ t ∧
      Artifacts.ofBase (rooted (placeFrom (C ++ fs) stem)) = .ofBase (rooted (folder ++ [t])) ∧
      (C <+: folder ∨ folder <+: C) := by
  have hnames : Names (C ++ fs) := Path.names_append.2 ⟨hC, hfs⟩
  have hbase : Names (placeFrom (C ++ fs) stem) := Path.names_placeFrom hnames stem
  have habove : (placeFrom (C ++ fs) stem).dropLast <+: C ++ fs := by
    by_cases hname : IsName stem
    · simp [Path.placeFrom_name _ hname]
    · rcases Path.placeFrom_no_name hnames hstem hname with hsame | hup
      · rw [hsame]
        exact List.dropLast_prefix _
      · rw [hup]
        exact (List.dropLast_prefix _).trans (List.dropLast_prefix _)
  obtain ⟨t, ht, heq⟩ := exists_stem_of_base hbase
  exact ⟨_, t, fun n hn => hbase n (List.dropLast_subset _ hn), ht, by rw [heq],
    List.prefix_or_prefix_of_prefix (List.prefix_append C fs) habove⟩

theorem standAt_stem (work : List Text) (hC : Names C) (hfs : Names fs) (hstem : '/' ∉ stem) :
    ∃ folder t, (Artifacts.ofBase (rooted (placeFrom (C ++ fs) stem))).StandAt work folder t ∧
      (C <+: folder ∨ folder <+: C) := by
  obtain ⟨folder, t, hfolder, ht, heq, hnear⟩ := exists_base_stem hC hfs hstem
  exact ⟨folder, t, heq ▸ standAt_ofBase_rooted work hfolder ht, hnear⟩

theorem documentOf_component (hS : Names S) (hC : Names C) (hfs : Names fs) (hstem : '/' ∉ stem) :
    documentOf (rooted S) (rooted C) (rooted (C ++ fs ++ [stem ++ componentExt])) =
      .ok (rooted (S ++ fs ++ [stem ++ documentExt])) := by
  have hcomponent : Names (fs ++ [stem ++ componentExt]) := names_stem hfs hstem (by decide)
  have hdocument : Names (fs ++ [stem ++ documentExt]) := names_stem hfs hstem (by decide)
  unfold documentOf
  rw [List.append_assoc, Path.relative?_rooted hC hcomponent, if_neg (by simp)]
  simp only
  rw [join_concat_append, trimSuffix_append, ← join_concat_append,
    Path.join_rooted_names hS hdocument, List.append_assoc]

end

end Docweave
