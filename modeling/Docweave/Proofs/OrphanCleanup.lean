import Docweave.Proofs.CacheShape

/-!
# Cleaning up exactly

The cleanup of a build should take the artifacts of documents that are gone, all
of them and no others, and should not fail. On a cache that only builds have
written to it does so, with one exception. A document is looked for along its
path, and when a file has come to stand in the place of a folder on that path,
the answer is not that the document is missing but that there is no folder. The
cleanup takes this for a failure and stops, and so does every build from then
on, for the component stays.

> `safeVisits_clean`: the visits succeed, where no document is blocked.

> `doneByVisits_clean`: a component that has been visited has its document.

> `orphans_cleaned`: the cleanup takes what it should, and when it fails.
-/

namespace Docweave

open Docweave.Path (rooted Names IsName)
open Workspace Project

namespace ProjectLayout

variable {s : BuildSettings} {L : ProjectLayout s} {d₀ : Disk}

/-- The cleanup on its way: some documents have been taken. -/
def Underway (L : ProjectLayout s) (d₀ : Disk) (c : Cleanup) : Prop :=
  Cleaning d₀ c.1.disk ∧ ∃ taken, L.Cleaned d₀ taken c.1.disk

/-- A document with a component in the cache that cannot be looked for. -/
def BlockedOrphan (L : ProjectLayout s) (d : Disk) : Prop :=
  ∃ n, ¬ n.InComponents ∧ L.HasComponent d n ∧ d.Blocked (L.place n)

/-- The document of a component that is visited. -/
theorem exists_visited (hshape : L.CacheShape d₀) {fs : List Text} {stem : Text}
    (hseen : SeenInCache L.cache d₀ (L.cache ++ fs ++ [stem ++ componentExt]) false) :
    ∃ n : DocumentName, n.folders = fs ∧ n.stem = stem ∧ ¬ n.InComponents ∧ L.HasComponent d₀ n := by
  obtain ⟨hfs, hout, text, time, hfile⟩ := hseen.outside
  exact ⟨⟨fs, stem, hfs, hshape.components fs stem text time hout hfile⟩, rfl, rfl, hout, text, time, hfile⟩

/-! ## Visits that succeed -/

theorem cleanVisit_ok (hshape : L.CacheShape d₀) (hroot : d₀.find? L.cache = some .folder)
    (hfree : ¬ L.BlockedOrphan d₀) {q : Place} {b : Bool} {c : Cleanup}
    (hseen : SeenInCache L.cache d₀ q b) (hc : L.Underway d₀ c) :
    ∃ next, (cleanVisit s (rooted q) b c).1 = .ok next := by
  obtain ⟨hclean, taken, hcleaned⟩ := hc
  obtain ⟨rest, rfl, hrest, -⟩ := id hseen
  generalize hr : cleanVisit s (rooted (L.cache ++ rest)) b c = r
  cases hr ▸ cleanVisit_cases L.rootsAt hrest (hseen.isFolder hroot) c with
  | passed => exact ⟨_, rfl⟩
  | kept => exact ⟨_, rfl⟩
  | discarded => exact ⟨_, rfl⟩
  | unclear hq hb hstat hcause =>
    -- the document is blocked
    rw [hq, hb] at hseen
    obtain ⟨n, rfl, rfl, hout, hcomponent⟩ := exists_visited hshape hseen
    obtain ⟨-, hwhy⟩ := hcleaned.missing hclean.tree (show c.1.disk.stat (L.path n) = _ from hstat)
    rcases hwhy with ⟨-, hblocked⟩ | ⟨hmissing, -⟩
    · exact absurd ⟨n, hout, hcomponent, hblocked⟩ hfree
    · exact absurd hmissing hcause
  | stuck hq hb _ _ hstat hcause hdiscard =>
    -- all artifacts are files
    rw [hq, hb] at hseen
    obtain ⟨n, rfl, rfl, hout, hcomponent⟩ := exists_visited hshape hseen
    obtain ⟨hgone, -⟩ := hcleaned.missing hclean.tree (show c.1.disk.stat (L.path n) = _ from hstat)
    have hopen : ¬ d₀.Blocked (L.place n) := fun hblocked => hfree ⟨n, hout, hcomponent, hblocked⟩
    obtain ⟨hnone, -⟩ := cleaned_discard hcleaned hshape hclean.tree hout hcomponent hgone hopen hdiscard
    exact absurd hnone (by simp)

theorem keptByVisits_underway (hshape : L.CacheShape d₀) (hroot : d₀.find? L.cache = some .folder) :
    Disk.KeptByVisits (fun c : Cleanup => c.1.disk) (cleanVisit s) (L.Underway d₀)
      (SeenInCache L.cache d₀) :=
  keptByVisits_clean L.rootsAt hroot (keptByDiscards_cleaned hshape)

theorem safeVisits_clean (hshape : L.CacheShape d₀) (hroot : d₀.find? L.cache = some .folder)
    (hfree : ¬ L.BlockedOrphan d₀) :
    Disk.SafeVisits (fun c : Cleanup => c.1.disk) (cleanVisit s) (L.Underway d₀)
      (SeenInCache L.cache d₀) (L.cache.length + Disk.maxDepth) where
  ok hseen hc := cleanVisit_ok hshape hroot hfree hseen hc
  folder := by
    rintro q c hseen hc
    obtain ⟨-, taken, hcleaned⟩ := (keptByVisits_underway hshape hroot).kept hseen hc
    obtain ⟨-, -, -, -, e, hfind, hb⟩ := hseen
    refine hcleaned.folders hshape ?_
    cases e with
    | folder => exact hfind
    | file text time => exact absurd hb (by simp [Entry.isFolder])
  depth := by
    rintro q c hseen hc henter
    obtain ⟨fs, rfl, hfs, hcomponents, e, hfind, hb⟩ := hseen
    -- the folder of the components is not entered, and the others are plain
    have hother : fs.head? ≠ some componentsFolder := by
      intro hhead
      rw [hcomponents hhead] at henter
      exact absurd henter (by simp [cleanVisit, join_components L.rootsAt])
    have hfolder : d₀.find? (L.cache ++ fs) = some .folder := by
      cases e with
      | folder => exact hfind
      | file text time => exact absurd hb (by simp [Entry.isFolder])
    have hshort := (hshape.folders fs hother hfolder).depth
    rw [List.length_append]
    omega

/-! ## Visits that reach all components -/

/-- A component that is there has its document. -/
def ComponentDone (L : ProjectLayout s) (d₀ : Disk) (p : Place) (c : Cleanup) : Prop :=
  ∀ n : DocumentName, ¬ n.InComponents → p = L.componentPlace n → L.HasComponent c.1.disk n →
    ∃ e, d₀.find? (L.place n) = some e

/-- What a visit leaves of the component that it comes to. -/
theorem componentDone_here (hshape : L.CacheShape d₀) (hroot : d₀.find? L.cache = some .folder)
    {q : Place} {b : Bool} {c c' : Cleanup} {next : WalkNext} (hseen : SeenInCache L.cache d₀ q b)
    (hc : L.Underway d₀ c) (hvisit : cleanVisit s (rooted q) b c = (.ok next, c')) :
    L.ComponentDone d₀ q c' := by
  have hkept := (keptByVisits_underway hshape hroot).kept hseen hc
  rw [hvisit] at hkept
  obtain ⟨hclean, taken, hcleaned⟩ := hc
  obtain ⟨rest, hrest, hnames, -, e, hfind, rfl⟩ := id hseen
  intro n hout hplace hcomponent
  -- the component was a file when the cleanup began
  obtain ⟨text, time, hfile⟩ := id hcomponent
  obtain rfl : e = .file text time := by
    rw [hplace] at hfind
    exact Option.some.inj (hfind.symm.trans (hkept.1.shrinks.find hfile))
  have hsame : ∀ {fs : Place} {stem : Text}, q = L.cache ++ fs ++ [stem ++ componentExt] →
      documentPath L.src fs stem = L.path n := by
    intro fs stem hq
    obtain ⟨hfolders, hstem, -⟩ := standAt_inj (by decide) (by decide) (hq.symm.trans hplace)
    rw [List.append_cancel_left hfolders, hstem]
    rfl
  rw [hrest] at hvisit hseen
  cases hvisit ▸ cleanVisit_cases L.rootsAt hnames (hseen.isFolder hroot) c with
  | passed _ hother => exact absurd (hrest.symm.trans hplace) (hother rfl n.folders n.stem)
  | kept hq hb hstat =>
    rw [hsame (hrest.trans hq)] at hstat
    exact ⟨_, hclean.shrinks.find ((Disk.stat_rooted hclean.tree (L.names_place n)).1 hstat)⟩
  | discarded hq hb _ _ hstat hcause hdiscard =>
    -- it has been taken away
    rw [hsame (hrest.trans hq)] at hstat hdiscard
    have hcomponent₀ : L.HasComponent d₀ n := ⟨text, time, hkept.1.shrinks.find hfile⟩
    obtain ⟨hgone, hwhy⟩ := hcleaned.missing hclean.tree hstat
    have hopen : ¬ d₀.Blocked (L.place n) := by
      rcases hwhy with ⟨hother, -⟩ | ⟨-, hopen⟩
      · rw [hcause] at hother
        exact absurd hother (by decide)
      · exact hopen
    obtain ⟨-, htaken⟩ := cleaned_discard hcleaned hshape hclean.tree hout hcomponent₀ hgone hopen hdiscard
    have hlost := htaken.lost n (L.componentPlace n) (Or.inr rfl) ⟨_, by decide, rfl⟩
    exact absurd (hlost.symm.trans hfile) (by simp)

theorem doneByVisits_clean (hshape : L.CacheShape d₀) (hroot : d₀.find? L.cache = some .folder) :
    Disk.DoneByVisits (fun c : Cleanup => c.1.disk) (cleanVisit s) (L.Underway d₀)
      (SeenInCache L.cache d₀) (L.ComponentDone d₀) where
  stable := by
    rintro q b c p hseen hc hdone n hout hplace ⟨text, time, hfile⟩
    have hless := (cleanVisit_shrinks L.rootsAt hroot hseen hc.1.tree).2
    exact hdone n hout hplace ⟨text, time, hless.find hfile⟩
  here hseen hc hvisit := componentDone_here hshape hroot hseen hc hvisit
  passed := by
    rintro q b c next c' p hseen hc hvisit hstays hp n hout hplace hcomponent
    have hkept := (keptByVisits_underway hshape hroot).kept hseen hc
    rw [hvisit] at hkept
    by_cases hsame : p = q
    · exact componentDone_here hshape hroot hseen hc hvisit n hout (hsame ▸ hplace) hcomponent
    · exfalso
      obtain ⟨text, time, hfile⟩ := hcomponent
      have hfile₀ := hkept.1.shrinks.find hfile
      rw [← hplace] at hfile₀
      obtain ⟨rest, rfl, hrest, -, e, hfind, rfl⟩ := id hseen
      -- above the component there is a folder, and it is that of the components
      rw [hshape.tree.folder_above hfile₀ hp (Ne.symm hsame)] at hfind
      obtain rfl := Option.some.inj hfind
      obtain rfl : next = .skip := hstays.resolve_left (by simp [Entry.isFolder])
      cases hvisit ▸ cleanVisit_cases L.rootsAt hrest (hseen.isFolder hroot) c with
      | passed hnext _ =>
        rw [(hnext.1 rfl).2, hplace] at hp
        exact not_mirrored hout (by decide) hp
  nothing := by
    rintro c p hc hnone n hout rfl ⟨text, time, hfile⟩
    exact absurd (hnone.symm.trans hfile) (by simp)

/-! ## The cleanup -/

/-- What the cleanup leaves, and when it fails. -/
theorem clean_outcome {w w' : Workspace} (hshape : L.CacheShape w.disk)
    (hroot : w.disk.find? L.cache = some .folder) {r : Except BuildFault (List Text)}
    (h : cleanOrphans s w = (r, w')) :
    (w'.disk.IsTree ∧ ∃ taken, L.Cleaned w.disk taken w'.disk) ∧
      (¬ L.BlockedOrphan w.disk → r.isOk = true) ∧
      (r.isOk = true → ∀ n, ¬ n.InComponents → L.HasComponent w'.disk n →
        ∃ e, w.disk.find? (L.place n) = some e) := by
  have hkept := keptByVisits_underway hshape hroot
  have hstart : L.Underway w.disk (w, []) :=
    ⟨⟨hshape.tree, fun q => Or.inl rfl⟩, fun _ => False, fun _ hn => hn.elim, fun _ _ hn => hn.elim,
      fun _ _ => rfl⟩
  have hseen := seenInCache_root L.rootsAt hshape.tree
  have hwalk := Disk.walk_keeps .cleaningDisk hkept L.cache (s := (w, [])) hseen hstart
  have hok : ¬ L.BlockedOrphan w.disk →
      (Disk.walk (fun c : Cleanup => c.1.disk) .cleaningDisk (cleanVisit s) (rooted L.cache) (w, [])).1 =
        .ok () := fun hfree =>
    Disk.walk_ok .cleaningDisk hkept (safeVisits_clean hshape hroot hfree) hroot
      (hseen .folder ((Disk.entryOf_rooted hshape.tree L.names_cache).2 hroot)) hstart
  unfold cleanOrphans at h
  rw [L.cacheDir_eq] at h
  split at h
  next f w₁ removed heq =>
    obtain ⟨rfl, rfl⟩ := Prod.mk.inj h
    rw [heq] at hwalk hok
    refine ⟨⟨hwalk.1.tree, hwalk.2⟩, fun hfree => absurd (hok hfree) (by simp), fun hfalse => ?_⟩
    exact absurd hfalse (by simp [Except.isOk, Except.toBool])
  next w₁ removed heq =>
    obtain ⟨rfl, rfl⟩ := Prod.mk.inj h
    rw [heq] at hwalk
    refine ⟨⟨hwalk.1.tree, hwalk.2⟩, fun _ => rfl, fun _ n hout hcomponent => ?_⟩
    have hdone := Disk.walk_reaches .cleaningDisk hkept (doneByVisits_clean hshape hroot)
      (p := L.componentPlace n) hseen hstart (cache_above ⟨_, by decide, rfl⟩) heq
    exact hdone n hout rfl hcomponent

/-- A blocked document keeps its component, so the cleanup cannot have succeeded. -/
theorem clean_stops {w w' : Workspace} (hshape : L.CacheShape w.disk)
    (hroot : w.disk.find? L.cache = some .folder) {r : Except BuildFault (List Text)}
    (h : cleanOrphans s w = (r, w')) {n : DocumentName} (hout : ¬ n.InComponents)
    (hn : L.HasComponent w.disk n) (hblocked : w.disk.Blocked (L.place n)) :
    r.isOk = false ∧ L.HasComponent w'.disk n := by
  obtain ⟨⟨-, taken, hcleaned⟩, -, hdone⟩ := clean_outcome hshape hroot h
  have hfree : ¬ taken n := fun htaken => (hcleaned.gone n htaken).2.2.2 hblocked
  obtain ⟨text, time, hfile⟩ := hn
  have hcomponent : L.HasComponent w'.disk n :=
    ⟨text, time, (hcleaned.artifact hfree ⟨_, by decide, rfl⟩).trans hfile⟩
  refine ⟨?_, hcomponent⟩
  rw [← Bool.not_eq_true]
  intro hr
  obtain ⟨e, he⟩ := hdone hr n hout hcomponent
  exact Disk.not_blocked_of_find? hshape.tree he hblocked

end ProjectLayout

/-- A build fails with its cleanup. -/
theorem build_of_unclean {s : BuildSettings} {cancelled : Bool} {w w' : Workspace} {d : Disk} {f : BuildFault}
    (hmake : w.disk.makeFolders s.cacheDir = .ok d)
    (hclean : cleanUnlessSkipped s { w with disk := d } = (.error f, w')) :
    build s cancelled w = (none, some f, w') := by
  unfold build
  simp only [hmake, hclean]

/-- **The cleanup takes exactly the orphans, unless a document is blocked.** After
any sequence of builds and of edits of the sources, when the next build cleans up:
the cleanup succeeds if and only if no document with a component in the cache has
a file in the place of one of its folders. When it succeeds, no artifact of a
document that is gone is left. In any case, what is taken are artifacts of
documents that are gone, so those of a document that is there are as they were,
and so is all else on the disk. -/
theorem orphans_cleaned {s : BuildSettings} (L : ProjectLayout s) {w : Workspace}
    (hist : L.CacheHistory w) {d : Disk} (hmake : w.disk.makeFolders s.cacheDir = .ok d)
    {r : Except BuildFault (List Text)} {w' : Workspace}
    (h : Project.cleanOrphans s { w with disk := d } = (r, w')) :
    (r.isOk = true ↔ ¬ ∃ n, ¬ n.InComponents ∧ L.HasComponent d n ∧ d.Blocked (L.place n)) ∧
      (r.isOk = true → ∀ n q, ¬ n.InComponents → d.find? (L.place n) = none → L.IsArtifactOf n q →
        w'.disk.textAt? q = none) ∧
      (∀ n q e, d.find? (L.place n) = some e → L.IsArtifactOf n q → w'.disk.find? q = d.find? q) ∧
      ∀ q, w'.disk.find? q = d.find? q ∨ w'.disk.find? q = none ∧
        ∃ n, ¬ n.InComponents ∧ d.find? (L.place n) = none ∧ L.IsArtifactOf n q := by
  have hshape : L.CacheShape d := ProjectLayout.shape_makeFolders (ProjectLayout.history_shape hist) hmake
  have hroot : d.find? L.cache = some .folder := by
    rw [L.cacheDir_eq] at hmake
    exact Disk.makeFolders_made (ProjectLayout.history_shape hist).tree L.names_cache hmake
  obtain ⟨⟨htree, taken, hcleaned⟩, hok, hdone⟩ :=
    ProjectLayout.clean_outcome (w := { w with disk := d }) hshape hroot h
  refine ⟨⟨fun hr => ?_, hok⟩, fun hr n q hout hgone hq => ?_, fun n q e hfile hq => ?_, fun q => ?_⟩
  · rintro ⟨n, hout, hcomponent, hblocked⟩
    have hstops := ProjectLayout.clean_stops (w := { w with disk := d }) hshape hroot h hout hcomponent hblocked
    exact absurd (hstops.1.symm.trans hr) (by simp)
  · cases htext : w'.disk.textAt? q with
    | none => rfl
    | some text =>
      exfalso
      obtain ⟨time, hfile⟩ := Disk.textAt?_eq_some.1 htext
      have hcomponent := (hcleaned.shape hshape htree).whole n hout q text time hq hfile
      obtain ⟨e, he⟩ := hdone hr n hout hcomponent
      exact absurd (hgone.symm.trans he) (by simp)
  · refine hcleaned.artifact (fun hn => ?_) hq
    exact absurd ((hcleaned.gone n hn).2.2.1.symm.trans hfile) (by simp)
  · by_cases htaken : ∃ n, taken n ∧ L.IsArtifactOf n q
    · obtain ⟨n, hn, hq⟩ := htaken
      obtain ⟨hout, -, hgone, -⟩ := hcleaned.gone n hn
      exact Or.inr ⟨hcleaned.lost n q hn hq, n, hout, hgone, hq⟩
    · exact Or.inl (hcleaned.kept q fun n hn hq => htaken ⟨n, hn, hq⟩)

/-! ## A project whose folder is deleted, or replaced by a file -/

/-- Settings of a project with its sources in one folder and the cache in another. -/
def docsSettings : BuildSettings :=
  { highlighter := plainHighlighter .github, parser := fun _ _ => [], srcRoot := "/src", cacheDir := "/cache" }

def docsLayout : ProjectLayout docsSettings := .sideBySide rfl rfl

/-- The document of the project. -/
def docsName : DocumentName := ⟨["docs"], "a", by decide, by decide⟩

/-- The project in front of its first build. -/
def docsWorkspace : Workspace :=
  { disk := { entries := [(["src"], .folder), (["src", "docs"], .folder),
      (["src", "docs", "a.v.md"], .file "# A\n" 5)], clock := 9 } }

/-- What the first build leaves; -/
def docsBuilt : Workspace := (Project.build docsSettings false docsWorkspace).2.2

/-- without the folder of the document; -/
def docsDeleted : Workspace :=
  { disk := { entries := [
      (["cache", "mdv-global-components.d.ts"], .file (globalComponentsModule ["./docs/a.v.md"]) 11),
      (["cache", "docs", "a.mdv.json"], .file "\x7b\x7d" 10),
      (["cache", "docs", "a.vue"], .file "<template>\n<h1>A</h1>\n</template>\n" 9),
      (["cache", "docs"], .folder), (["cache"], .folder), (["src"], .folder)], clock := 12 } }

/-- which are these entries; -/
def docsSources : List (Place × Entry) :=
  [(["src", "docs"], .folder), (["src", "docs", "a.v.md"], .file "# A\n" 5)]

/-- and with a file in the place of the folder. -/
def docsReplaced : Workspace := { disk := docsDeleted.disk.put ["src", "docs"] (.file "x\n" 30) }

theorem docsBuilt_entries : docsBuilt.disk.entries = docsDeleted.disk.entries ++ docsSources := by
  decide +kernel

theorem docsHistory_built : docsLayout.CacheHistory docsBuilt := by
  have htree : docsWorkspace.disk.IsTree := by decide
  refine .build (.start htree (fun q hq hne => ?_)
    (ProjectLayout.sourcesPlain_of_entries htree (by decide) (by decide))) rfl
  -- there is no entry below the cache
  cases hfind : docsWorkspace.disk.find? q with
  | none => rfl
  | some e =>
    have hroot : q ≠ [] := fun hnil => absurd (hnil ▸ hq) (by decide)
    have hnone : ∀ x ∈ docsWorkspace.disk.entries, ¬ ["cache".toList] <+: x.1 := by decide
    exact absurd hq (hnone _ (Disk.mem_of_find? hroot hfind))

theorem docsHistory_deleted : docsLayout.CacheHistory docsDeleted := by
  have htree : docsDeleted.disk.IsTree := by decide
  refine .edit docsHistory_built htree (fun q hq => ?_)
    (ProjectLayout.sourcesPlain_of_entries htree (by decide) (by decide))
  have hroot : q ≠ [] := fun hnil => absurd (hnil ▸ hq) (by decide)
  have hsources : docsSources.find? (·.1 = q) = none := by
    rw [List.find?_eq_none]
    intro x hx heq
    have hsrc : ∀ x ∈ docsSources, ¬ docsLayout.cache <+: x.1 := by decide
    exact hsrc x hx (of_decide_eq_true heq ▸ hq)
  unfold Disk.find?
  rw [if_neg hroot, if_neg hroot, docsBuilt_entries, List.find?_append, hsources, Option.or_none]

theorem docsHistory_replaced : docsLayout.CacheHistory docsReplaced := by
  have htree : docsReplaced.disk.IsTree := by decide
  refine .edit docsHistory_deleted htree (fun q hq => ?_)
    (ProjectLayout.sourcesPlain_of_entries htree (by decide) (by decide))
  refine Disk.find?_put_of_ne _ ?_ _
  rintro rfl
  exact absurd hq (by decide)

/-- The artifacts of a document go with its folder. -/
theorem orphans_cleaned_deleted :
    docsDeleted.disk.has "/cache/docs/a.vue" = true ∧
      (Project.cleanOrphans docsSettings docsDeleted).1.isOk = true ∧
      (Project.cleanOrphans docsSettings docsDeleted).2.disk.textAt? ["cache", "docs", "a.vue"] = none := by
  have hmake : docsDeleted.disk.makeFolders docsSettings.cacheDir = .ok docsDeleted.disk :=
    Disk.makeFolders_of_folder (ProjectLayout.history_shape docsHistory_deleted).tree
      docsLayout.names_cache (by decide)
  generalize hclean : Project.cleanOrphans docsSettings docsDeleted = result
  obtain ⟨r, w'⟩ := result
  obtain ⟨hok, hgone, -⟩ := orphans_cleaned docsLayout docsHistory_deleted hmake hclean
  have hr : r.isOk = true := by
    refine hok.2 ?_
    rintro ⟨n, -, -, q, text, time, habove, -, hfile⟩
    -- all files are in the cache
    have hfiles : ∀ x ∈ docsDeleted.disk.entries, x.2.isFolder = false → docsLayout.cache <+: x.1 := by
      decide
    have hne : q ≠ [] := fun hnil => absurd (hnil ▸ hfile) (by simp)
    have hcache := hfiles _ (Disk.mem_of_find? hne hfile) rfl
    exact ProjectLayout.not_cache_of_src (docsLayout.src_above n) (hcache.trans habove)
  refine ⟨by decide +kernel, hr, hgone hr docsName _ (by decide) (by decide) ?_⟩
  exact ⟨componentExt, by decide, rfl⟩

/-- A file in the place of the folder stops the cleanup and with it the build, and
the component stays. -/
theorem cleanup_stops_at_replaced_folder :
    docsLayout.CacheHistory docsReplaced ∧
      docsReplaced.disk.has "/cache/docs/a.vue" = true ∧
      docsReplaced.disk.has "/src/docs/a.v.md" = false ∧
      (Project.cleanOrphans docsSettings docsReplaced).1.isOk = false ∧
      (Project.build docsSettings false docsReplaced).1.isNone = true ∧
      docsLayout.HasComponent (Project.build docsSettings false docsReplaced).2.2.disk docsName := by
  have hshape := ProjectLayout.history_shape docsHistory_replaced
  have hroot : docsReplaced.disk.find? docsLayout.cache = some .folder := by decide
  have hmake : docsReplaced.disk.makeFolders docsSettings.cacheDir = .ok docsReplaced.disk :=
    Disk.makeFolders_of_folder hshape.tree docsLayout.names_cache hroot
  have hcomponent : docsLayout.HasComponent docsReplaced.disk docsName := ⟨_, _, rfl⟩
  have hblocked : docsReplaced.disk.Blocked (docsLayout.place docsName) :=
    ⟨["src", "docs"], "x\n", 30, by decide, by decide, by decide⟩
  generalize hclean : Project.cleanOrphans docsSettings docsReplaced = result
  obtain ⟨r, w'⟩ := result
  obtain ⟨hfails, hstays⟩ :=
    ProjectLayout.clean_stops hshape hroot hclean (by decide) hcomponent hblocked
  cases r with
  | ok removed => exact absurd hfails (by simp [Except.isOk, Except.toBool])
  | error f =>
    have hstopped : cleanUnlessSkipped docsSettings docsReplaced = (.error f, w') := by
      rw [cleanUnlessSkipped, if_neg (by decide)]
      exact hclean
    rw [build_of_unclean hmake hstopped]
    exact ⟨docsHistory_replaced, by decide +kernel, by decide +kernel, rfl, rfl, hstays⟩

end Docweave
