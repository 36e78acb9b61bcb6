import Docweave.Proofs.AlikeDisks
import Docweave.Proofs.ArtifactEmbedding

/-!
# Where references lead

Generated code refers to the files of a document by relative paths. The path of
the metadata is read below the cache directory, that of the highlighted code below
the components in it, and the component itself brings its metadata in by the last
element of the path, from its own folder. Each of them has to lead to the file.

The way from one place to another goes up to the folder that both are in, and down
again (`way`). Between places it always exists, and walking it arrives:

> `join_relative?`: a relative path leads to where it was made for.

The last element of the way is the name of the file, unless the way goes up only.
For that the file would have to be a folder around the cache directory, or the
cache directory itself.

> `base_of_relative?`: the name at the end of the way.

> `exists_base`: what the artifacts of a path have in common is below the cache
> directory, or one folder above it for a document that is called by two dots.

> `references_lead_to_artifacts`: all references lead to the files, but for a single
> document in a single cache directory.
-/

namespace Docweave

open Docweave.Text

namespace Path

/-! ## The way between two places -/

/-- The elements that lead from one place to another. -/
def way (es fs : List Text) : List Text :=
  List.replicate (dropCommon es fs).1.length ['.', '.'] ++ (dropCommon es fs).2

section

variable {es fs : List Text}

/-- As many steps up as there are names in front leave these behind. -/
theorem squash_ups {up : List Text} (hup : Names up) (front rest : List Text) :
    squash true (up ++ front) (List.replicate up.length ['.', '.'] ++ rest) = squash true front rest := by
  induction up with
  | nil => rfl
  | cons u up ih =>
    obtain ⟨hu, hrest⟩ := List.forall_mem_cons.1 hup
    rw [List.length_cons, List.replicate_succ, List.cons_append, List.cons_append, squash, if_pos rfl]
    show (if u = ['.', '.'] then _ else squash true (up ++ front) _) = _
    rw [if_neg hu.ne_dots, ih hrest]

theorem dropCommon_above (fs up : List Text) : dropCommon (fs ++ up) fs = (up, []) := by
  induction fs with
  | nil => cases up <;> rfl
  | cons f fs ih => rw [List.cons_append, dropCommon, if_pos rfl, ih]

/-- **The way arrives.** -/
theorem squash_way (hes : Names es) (hfs : Names fs) : squash true es.reverse (way es fs) = fs := by
  obtain ⟨common, hup, hdown⟩ := dropCommon_spec es fs
  unfold way
  generalize dropCommon es fs = rest at hup hdown ⊢
  obtain ⟨up, down⟩ := rest
  simp only at hup hdown ⊢
  rw [hup] at hes
  rw [hdown] at hfs
  have hback : Names up.reverse := fun n hn => (names_append.1 hes).2 n (List.mem_reverse.1 hn)
  rw [hup, List.reverse_append, ← List.length_reverse, squash_ups hback,
    squash_down true _ (names_append.1 hfs).2, List.reverse_reverse, hdown]

/-- The way consists of steps up and of names. -/
theorem mem_way (hfs : Names fs) {e : Text} (he : e ∈ way es fs) : IsName e ∨ e = ['.', '.'] := by
  obtain ⟨common, -, hdown⟩ := dropCommon_spec es fs
  rcases List.mem_append.1 he with hup | hname
  · exact Or.inr (List.eq_of_mem_replicate hup)
  · exact Or.inl (hfs e (hdown ▸ List.mem_append_right _ hname))

/-- Places are always related: the way, or a dot where there is none to go. -/
theorem relative?_way (hes : Names es) (hfs : Names fs) :
    relative? (rooted es) (rooted fs) = some (if es = fs then ['.'] else Text.join "/" (way es fs)) := by
  unfold relative?
  simp only [clean_rooted hes, clean_rooted hfs]
  by_cases hsame : es = fs
  · rw [if_pos (congrArg rooted hsame), if_pos hsame]
    rfl
  · have hne : rooted es ≠ rooted fs := fun h => hsame (rooted_inj hes hfs h)
    have hdot : rooted es ≠ ['.'] := fun h => absurd (List.cons.inj h).1 (by decide)
    have hcommon : dropCommon (words (rooted es)) (words (rooted fs)) = dropCommon es fs := by
      unfold words
      rw [isRooted_rooted, isRooted_rooted, if_pos rfl, if_pos rfl, elements_rooted hes,
        elements_rooted hfs, dropCommon, if_pos rfl]
    obtain ⟨common, hup, hdown⟩ := dropCommon_spec es fs
    rw [if_neg hne, if_neg (by simp [hdot]), if_neg hdot, hcommon, if_neg hsame]
    unfold way
    generalize dropCommon es fs = rest at hup hdown ⊢
    obtain ⟨up, down⟩ := rest
    simp only at hup hdown ⊢
    -- names are neither steps up nor dots
    have hhead : up.head? ≠ some ['.', '.'] := fun h =>
      (hes _ (hup ▸ List.mem_append_right _ (List.mem_of_head? h))).ne_dots rfl
    have hdown' : down ≠ [['.']] := by
      rintro rfl
      exact (hfs ['.'] (hdown ▸ by simp)).ne_dot rfl
    rw [if_neg (by simp [hhead]), if_neg hdown']

/-- **A relative path leads to where it was made for.** -/
theorem join_relative? (hes : Names es) (hfs : Names fs) :
    ∃ rel, relative? (rooted es) (rooted fs) = some rel ∧ join (rooted es) rel = rooted fs := by
  refine ⟨_, relative?_way hes hfs, ?_⟩
  rw [join_rooted hes]
  split
  next hsame => exact congrArg rooted ((List.reverse_reverse es).trans hsame)
  next => rw [elements_join fun _ => mem_way hfs, squash_way hes hfs]

/-- A path that is not rooted is not related to one that is. -/
theorem isRooted_of_relative? {p rel : Text} (hes : Names es) (h : relative? (rooted es) p = some rel) :
    isRooted p = true := by
  unfold relative? at h
  simp only [clean_rooted hes] at h
  rw [← isRooted_clean]
  split at h
  next hsame => rw [← hsame, isRooted_rooted]
  next =>
    have hdot : rooted es ≠ ['.'] := fun h => absurd (List.cons.inj h).1 (by decide)
    split at h
    next => exact absurd h (by simp)
    next hrooted => simpa [hdot] using hrooted

end

/-! ## The name at the end of the way -/

theorem base_eq_lastPart {p : Text} (h : lastPart p ≠ []) : base p = lastPart p := by
  cases hp : p.reverse with
  | nil => exact absurd (by rw [lastPart, hp]; rfl) h
  | cons c r =>
    have hc : c ≠ '/' := by
      rintro rfl
      exact h (by rw [lastPart, hp, List.takeWhile_cons_of_neg (by simp)]; rfl)
    have hne : p ≠ [] := fun hnil => absurd hp (by simp [hnil])
    have hkept : trimRight (· = '/') p = p := by
      rw [trimRight, hp, List.dropWhile_cons_of_neg (by simpa using hc), ← hp, List.reverse_reverse]
    unfold base
    simp only [hkept, List.isEmpty_eq_false_iff.2 hne]
    rfl

theorem base_join_concat (front : List Text) {n : Text} (hslash : '/' ∉ n) (hne : n ≠ []) :
    base (Text.join "/" (front ++ [n])) = n := by
  have hlast : lastPart (Text.join "/" (front ++ [n])) = n := by
    have hpath := lastPart_ofElements false front hslash
    rwa [ofElements, if_neg (by simp), if_neg (by simp)] at hpath
  rw [base_eq_lastPart (by rw [hlast]; exact hne), hlast]

section

variable {es fs : List Text} {n rel : Text}

/-- The way to a place that is not above the other ends with its name. -/
theorem base_of_relative? (hes : Names es) (hfs : Names (fs ++ [n])) (hout : ¬ fs ++ [n] <+: es)
    (h : relative? (rooted es) (rooted (fs ++ [n])) = some rel) : base rel = n := by
  have hn := names_singleton.1 (names_append.1 hfs).2
  obtain ⟨front, hway⟩ : ∃ front, way es (fs ++ [n]) = front ++ [n] := by
    obtain ⟨common, hup, hdown⟩ := dropCommon_spec es (fs ++ [n])
    unfold way
    generalize dropCommon es (fs ++ [n]) = rest at hup hdown ⊢
    obtain ⟨up, down⟩ := rest
    rcases List.eq_nil_or_concat down with rfl | ⟨down', m, rfl⟩
    · -- nothing to go down for, so the place is above the other
      rw [List.append_nil] at hdown
      exact absurd ⟨up, by rw [hdown]; exact hup.symm⟩ hout
    · simp only [List.concat_eq_append, ← List.append_assoc] at hdown ⊢
      obtain ⟨-, hlast⟩ := List.append_inj' hdown rfl
      exact ⟨_, by rw [(List.cons.inj hlast).1]⟩
  have hne : es ≠ fs ++ [n] := fun heq => hout (heq ▸ List.prefix_refl _)
  rw [relative?_way hes hfs, if_neg hne, hway] at h
  rw [← Option.some.inj h, base_join_concat front hn.no_slash hn.ne_nil]

/-- The way to a place above the other ends with a step up, if it is a way at all. -/
theorem base_of_relative?_above (hes : Names es) (hfs : Names fs) (habove : fs <+: es)
    (h : relative? (rooted es) (rooted fs) = some rel) : base rel = ['.'] ∨ base rel = ['.', '.'] := by
  rw [relative?_way hes hfs, Option.some.injEq] at h
  obtain ⟨up, rfl⟩ := habove
  by_cases hnil : up = []
  · rw [hnil, List.append_nil, if_pos rfl] at h
    exact Or.inl (h ▸ rfl)
  · obtain ⟨k, hk⟩ := Nat.exists_eq_succ_of_ne_zero fun hzero => hnil (List.eq_nil_of_length_eq_zero hzero)
    have hway : way (fs ++ up) fs = List.replicate k ['.', '.'] ++ [['.', '.']] := by
      unfold way
      rw [dropCommon_above, List.append_nil, hk, List.replicate_succ']
    rw [if_neg (by simpa using hnil), hway] at h
    exact Or.inr (h ▸ base_join_concat _ (by decide) (by decide))

/-- **The end of the way leads on from the folder** to a place that is not above the
other. -/
theorem join_base_iff (hes : Names es) (hfs : Names (fs ++ [n]))
    (h : relative? (rooted es) (rooted (fs ++ [n])) = some rel) :
    join (rooted fs) (base rel) = rooted (fs ++ [n]) ↔ ¬ fs ++ [n] <+: es := by
  obtain ⟨hfolder, hn⟩ := names_append.1 hfs
  constructor
  · intro hjoin habove
    -- what is no name leads to the folder or above it
    have hplace : join (rooted fs) (base rel) = rooted fs ∨ join (rooted fs) (base rel) = rooted fs.dropLast := by
      rw [join_rooted hfolder]
      rcases base_of_relative?_above hes hfs habove h with hdot | hdots
      · rw [hdot]
        exact Or.inl (congrArg rooted (List.reverse_reverse fs))
      · rw [hdots]
        exact Or.inr (congrArg rooted (placeFrom_dots hfolder))
    rcases hplace with hsame | hup
    · have hlen := congrArg List.length (rooted_inj hfs hfolder (hjoin.symm.trans hsame))
      simp at hlen
    · have hlen := congrArg List.length (rooted_inj hfs (fun m hm => hfolder m (List.dropLast_subset fs hm))
        (hjoin.symm.trans hup))
      simp only [List.length_append, List.length_dropLast, List.length_singleton] at hlen
      omega
  · intro hout
    rw [base_of_relative? hes hfs hout h]
    exact join_rooted_name hfolder (names_singleton.1 hn)

end

end Path

open Docweave.Path (rooted Names IsName IsCleanRooted placeFrom)

/-! ## What the artifacts of a path have in common -/

/-- The document that is called by two dots. -/
def dotsDocument : Text := ".." ++ documentExt

section

variable {S C B rest : List Text} {a : Artifacts}

/-- A place that is reached from below a directory is below it, unless the way starts at the
directory and goes up. -/
theorem prefix_placeFrom {fs : List Text} {stem : Text} (hfolder : Names (C ++ fs)) (hstem : '/' ∉ stem)
    (h : ¬ (fs = [] ∧ stem = ['.', '.'])) : C <+: placeFrom (C ++ fs) stem := by
  by_cases hname : IsName stem
  · rw [Path.placeFrom_name _ hname, List.append_assoc]
    exact List.prefix_append C _
  · rcases Path.no_name_cases hstem hname with rfl | rfl | rfl
    · exact ⟨fs, (List.reverse_reverse (C ++ fs)).symm⟩
    · exact ⟨fs, (List.reverse_reverse (C ++ fs)).symm⟩
    · have hne : fs ≠ [] := fun hnil => h ⟨hnil, rfl⟩
      rw [Path.placeFrom_dots hfolder, List.dropLast_append_of_ne_nil hne]
      exact List.prefix_append C _

/-- A path without the extension of documents keeps its elements. -/
theorem resolveArtifacts_plain (hS : Names S) (hC : Names C) (hrest : Names rest)
    (h : rest ≠ [] → endsWith (rooted (S ++ rest)) documentExt = false) :
    resolveArtifacts (rooted S) (rooted C) (rooted (S ++ rest)) = .ok (.ofBase (rooted (C ++ rest))) := by
  rw [resolveArtifacts_below hS (Path.clean_rooted hS) hrest]
  by_cases hnil : rest = []
  · rw [if_pos hnil, hnil, show trimSuffix documentExt ['.'] = ['.'] by decide, Path.join_rooted hC,
      List.append_nil]
    exact congrArg (fun es => Except.ok (Artifacts.ofBase (rooted es))) (List.reverse_reverse C)
  · have hjoined : endsWith (Text.join "/" rest) documentExt = false := by
      have hdoc := h hnil
      rw [← Bool.not_eq_true, endsWith_iff] at hdoc ⊢
      intro hends
      obtain ⟨r, hr⟩ := hends
      obtain ⟨front, hfront⟩ := join_suffix "/" S rest
      exact hdoc ⟨'/' :: (front ++ r), by
        rw [List.cons_append, List.append_assoc, ← hr, hfront]
        rfl⟩
    rw [if_neg hnil, trimSuffix_of_not_endsWith hjoined, Path.join_rooted_names hC hrest]

theorem eq_dotsDocument_iff {fs : List Text} {stem : Text} :
    fs ++ [stem ++ documentExt] = [dotsDocument] ↔ fs = [] ∧ stem = ['.', '.'] := by
  constructor
  · intro heq
    have hsame : fs ++ [stem ++ documentExt] = [] ++ [dotsDocument] := heq
    obtain ⟨hfs, hname⟩ := List.append_inj' hsame rfl
    exact ⟨hfs, List.append_cancel_right (List.cons.inj hname).1⟩
  · intro h
    rw [h.1, h.2]
    rfl

/-- The artifacts of a path stand below the cache directory, or beside it for the one
document whose name is a step up when its extension is cut off. -/
theorem exists_base (hS : Names S) (hC : Names C) (hrest : Names rest)
    (h : resolveArtifacts (rooted S) (rooted C) (rooted (S ++ rest)) = .ok a) :
    ∃ B, Names B ∧ a = .ofBase (rooted B) ∧ (rest = [dotsDocument] → B = C.dropLast) ∧
      (rest ≠ [dotsDocument] → C <+: B) := by
  by_cases hplain : rest ≠ [] → endsWith (rooted (S ++ rest)) documentExt = false
  · rw [resolveArtifacts_plain hS hC hrest hplain] at h
    refine ⟨C ++ rest, Path.names_append.2 ⟨hC, hrest⟩, (Except.ok.inj h).symm, fun hdots => ?_,
      fun _ => List.prefix_append C rest⟩
    have hends : endsWith (rooted (S ++ rest)) documentExt = true := by
      rw [hdots, endsWith_iff]
      exact ⟨_, Path.rooted_append_singleton S ['.', '.'] documentExt⟩
    rw [hplain (by simp [hdots])] at hends
    exact absurd hends (by simp)
  · -- the name in front of the extension is joined like any other element
    obtain ⟨hnil, hdoc⟩ := Classical.not_imp.1 hplain
    obtain ⟨fs, stem, hfs, hstem, rfl⟩ := exists_stem_below (Path.names_append.2 ⟨hS, hrest⟩) hnil
      (List.mem_cons_self ..) ((Bool.not_eq_false _).mp hdoc)
    have hfolder : Names (C ++ fs) := Path.names_append.2 ⟨hC, hfs⟩
    rw [← List.append_assoc, resolveArtifacts_stem hS hC hfs hstem] at h
    rw [eq_dotsDocument_iff, Ne, eq_dotsDocument_iff]
    refine ⟨_, Path.names_placeFrom hfolder stem, (Except.ok.inj h).symm, fun hdots => ?_,
      prefix_placeFrom hfolder hstem⟩
    obtain ⟨rfl, rfl⟩ := hdots
    rw [Path.placeFrom_dots hfolder, List.append_nil]

/-- The folder and the stem of artifacts, from what they have in common. -/
theorem exists_folder_stem (hB : Names B) :
    ∃ stem, '/' ∉ stem ∧ Artifacts.ofBase (rooted B) = .ofBase (rooted (B.dropLast ++ [stem])) ∧
      (B = [] ∧ stem = [] ∨ B = B.dropLast ++ [stem]) := by
  rcases List.eq_nil_or_concat B with rfl | ⟨front, n, rfl⟩
  · exact ⟨[], by simp, rfl, Or.inl ⟨rfl, rfl⟩⟩
  · rw [List.concat_eq_append] at hB ⊢
    have hn := Path.names_singleton.1 (Path.names_append.1 hB).2
    rw [List.dropLast_concat]
    exact ⟨n, hn.no_slash, rfl, Or.inr rfl⟩

/-- Metadata stands in place of the cache directory, or of a folder around it, only for
the document of two dots and if the cache directory has the name of its metadata. -/
theorem metadata_prefix_iff {stem : Text} (hB : B = [] ∧ stem = [] ∨ B = B.dropLast ++ [stem])
    (hdots : rest = [dotsDocument] → B = C.dropLast) (hbelow : rest ≠ [dotsDocument] → C <+: B) :
    B.dropLast ++ [stem ++ metaExt] <+: C ↔ C = [metaExt] ∧ rest = [dotsDocument] := by
  have hext : stem ++ metaExt ≠ stem := fun h => absurd (List.append_right_eq_self.1 h) (by decide)
  constructor
  · intro hprefix
    by_cases hrest : rest = [dotsDocument]
    · obtain hB' := hdots hrest
      rcases hB with ⟨hnil, rfl⟩ | hstem
      · -- the cache directory is at the root
        rw [hnil] at hprefix hB'
        obtain ⟨tail, htail⟩ := hprefix
        have hlen := congrArg List.length hB'
        have hboth := congrArg List.length htail
        simp only [List.length_dropLast, List.length_nil] at hlen
        simp only [List.dropLast_nil, List.nil_append, List.singleton_append, List.length_cons] at hboth
        obtain rfl : tail = [] := List.eq_nil_of_length_eq_zero (by omega)
        exact ⟨htail.symm, hrest⟩
      · -- the folder above the cache directory has the stem for a name
        have habove : B.dropLast ++ [stem] <+: C := hstem ▸ hB' ▸ List.dropLast_prefix C
        have hsame := (List.prefix_of_prefix_length_le hprefix habove (by simp)).eq_of_length (by simp)
        exact absurd (List.cons.inj (List.append_cancel_left hsame)).1 hext
    · have hwhole := hprefix.trans (hbelow hrest)
      rcases hB with ⟨hnil, rfl⟩ | hstem
      · rw [hnil] at hwhole
        exact absurd (List.prefix_nil.1 hwhole) (by simp)
      · rw [hstem, List.dropLast_concat] at hwhole
        have hsame := hwhole.eq_of_length (by simp)
        exact absurd (List.cons.inj (List.append_cancel_left hsame)).1 hext
  · rintro ⟨rfl, hrest⟩
    obtain rfl := hdots hrest
    rcases hB with ⟨-, rfl⟩ | hstem
    · exact List.prefix_refl _
    · exact absurd (congrArg List.length hstem) (by simp)

end

/-! ## References -/

/-- The references to artifacts that stand in a folder, under a stem. -/
theorem references_of_base {C folder : List Text} {stem : Text} (hC : Names C) (hfolder : Names folder)
    (hstem : '/' ∉ stem) :
    let a := Artifacts.ofBase (rooted (folder ++ [stem]))
    ∃ paths, referencePaths (rooted C) a = .ok paths ∧
      Path.join (rooted C) paths.metadata = a.metadata ∧
      Path.join (Path.join (rooted C) "components") paths.highlights = a.highlights ∧
      (Path.join (Path.dir a.component) (Path.base paths.metadata) = a.metadata ↔
        ¬ folder ++ [stem ++ metaExt] <+: C) := by
  intro a
  have hmetadata : a.metadata = rooted (folder ++ [stem ++ metaExt]) := (Path.rooted_append_singleton ..).symm
  have hhighlights : a.highlights = rooted (folder ++ [stem ++ highlightExt]) :=
    (Path.rooted_append_singleton ..).symm
  have hcomponents : Path.join (rooted C) "components" = rooted (C ++ ["components".toList]) :=
    Path.join_rooted_name hC (by decide)
  have hfiles : ∀ ext ∈ artifactExts, Names (folder ++ [stem ++ ext]) := fun ext hext =>
    names_stem hfolder hstem (List.mem_cons_of_mem _ hext)
  have hfile := hfiles metaExt (by decide)
  have hnames : Names (C ++ ["components".toList]) := Path.names_append.2 ⟨hC, by decide⟩
  obtain ⟨m, hm, hmjoin⟩ := Path.join_relative? hC hfile
  obtain ⟨k, hk, hkjoin⟩ := Path.join_relative? hnames (hfiles highlightExt (by decide))
  refine ⟨⟨m, k⟩, ?_, ?_, ?_, ?_⟩
  · unfold referencePaths
    simp only [hmetadata, hhighlights, hcomponents, hm, hk]
  · rw [hmjoin, hmetadata]
  · rw [hcomponents, hkjoin, hhighlights]
  · rw [hmetadata, dir_rooted hfolder hstem, Path.join_base_iff hC hfile hm]

/-- **References lead to the artifacts.** For each path that has artifacts there are
relative paths; that of the metadata leads to it from the cache directory, and that of
the highlighted code to it from the components. From the folder of the component the last
element of the former leads to the metadata too, unless the document is called by two dots,
right below the source root, and the cache directory is called like metadata, right below
the root: the metadata then stands in place of the cache directory. -/
theorem references_lead_to_artifacts {srcRoot cacheDir p : Text} {a : Artifacts} (hS : IsCleanRooted srcRoot)
    (hC : IsCleanRooted cacheDir) (h : resolveArtifacts srcRoot cacheDir p = .ok a) :
    ∃ paths, referencePaths cacheDir a = .ok paths ∧
      Path.join cacheDir paths.metadata = a.metadata ∧
      Path.join (Path.join cacheDir "components") paths.highlights = a.highlights ∧
      (Path.join (Path.dir a.component) (Path.base paths.metadata) = a.metadata ↔
        ¬ (cacheDir = '/' :: metaExt ∧ Path.clean p = Path.join srcRoot dotsDocument)) := by
  obtain ⟨S, hSnames, rfl⟩ := hS.exists_names
  obtain ⟨C, hCnames, rfl⟩ := hC.exists_names
  -- the path is one below the source root
  have hrooted : Path.isRooted p = true := by
    cases hrel : Path.relative? (rooted S) p with
    | none => exact absurd h (by simp [resolveArtifacts, hrel])
    | some rel => exact Path.isRooted_of_relative? hSnames hrel
  obtain ⟨es, hes, hclean⟩ := Path.clean_of_isRooted hrooted
  have ha := (resolveArtifacts_clean hrooted).2 h
  rw [hclean] at ha
  obtain ⟨rest, rfl⟩ : S <+: es := (isOk_resolveArtifacts hSnames hes _).1 (by rw [ha]; rfl)
  obtain ⟨B, hB, hbase, hdots, hbelow⟩ := exists_base hSnames hCnames (Path.names_append.1 hes).2 ha
  obtain ⟨stem, hstem, hsplit, hBstem⟩ := exists_folder_stem hB
  have hcache : rooted C = '/' :: metaExt ↔ C = [metaExt] :=
    ⟨fun heq => Path.rooted_inj hCnames (by decide) heq, fun heq => by rw [heq]; rfl⟩
  have hdocument : Path.clean p = Path.join (rooted S) dotsDocument ↔ rest = [dotsDocument] := by
    have hnames : Names (S ++ [dotsDocument]) := Path.names_append.2 ⟨hSnames, by decide⟩
    rw [hclean, Path.join_rooted_name hSnames (by decide)]
    exact ⟨fun heq => List.append_cancel_left (Path.rooted_inj hes hnames heq), fun heq => by rw [heq]⟩
  rw [hbase, hsplit, hcache, hdocument, ← metadata_prefix_iff hBstem hdots hbelow]
  exact references_of_base hCnames (fun n hn => hB n (List.dropLast_subset B hn)) hstem

/-- The references of a document that is called like one of the components. -/
theorem references_lead_to_card :
    ∃ a paths, resolveArtifacts "/project/src" "/project/.mdv" "/project/src/components/card.v.md" = .ok a ∧
      referencePaths "/project/.mdv" a = .ok paths ∧ paths.metadata = "components/card.mdv.json" ∧
      paths.highlights = "card.shiki.js" ∧
      Path.join (Path.join "/project/.mdv" "components") paths.highlights = a.highlights ∧
      Path.join (Path.dir a.component) (Path.base paths.metadata) = a.metadata := by
  have ha : resolveArtifacts "/project/src" "/project/.mdv" "/project/src/components/card.v.md" =
      .ok (.ofBase "/project/.mdv/components/card") := by rfl
  have hvalue : referencePaths "/project/.mdv" (.ofBase "/project/.mdv/components/card") =
      .ok ⟨"components/card.mdv.json", "card.shiki.js"⟩ := by rfl
  obtain ⟨paths, hpaths, -, hhighlights, himport⟩ :=
    references_lead_to_artifacts (by decide) (by decide) ha
  obtain rfl := Except.ok.inj (hpaths.symm.trans hvalue)
  exact ⟨_, _, ha, hvalue, rfl, rfl, hhighlights, himport.2 (by decide)⟩

/-- **Metadata in place of the cache directory.** A document that is called by two dots has
its metadata there, and the component would bring in the folder around it. -/
theorem metadata_in_place_of_cache :
    ∃ a paths, resolveArtifacts "/src" "/.mdv.json" "/src/...v.md" = .ok a ∧
      referencePaths "/.mdv.json" a = .ok paths ∧ a.metadata = "/.mdv.json" ∧ paths.metadata = "." ∧
      Path.join (Path.dir a.component) (Path.base paths.metadata) ≠ a.metadata :=
  ⟨.ofBase "/", ⟨".", "../../.shiki.js"⟩, by rfl, by rfl, by decide, by decide, by decide⟩

end Docweave
