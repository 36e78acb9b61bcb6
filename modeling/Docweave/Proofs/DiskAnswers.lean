import Docweave.Proofs.CachedArtifacts

/-!
# What a disk answers

Whether a change is made, and with which fault it is refused otherwise, depends
on few places: those on the way to the folder of a file, the file, and what is
below it. On a disk that is a tree this is said for the three kinds of changes,
for paths from the root.

> `makeFolders_free`, `makeFolders_blocked`: folders are made unless a file is in
> the way, and then the fault tells which.

> `store_rooted`: a file is written unless there is a folder in its place.

> `erase_rooted`: what is there is removed unless it is a folder with something in
> it.
-/

namespace Docweave

open Docweave.Path (rooted Names IsName)

namespace Disk

/-! ## Ways -/

/-- The path leads along names, and may end in a slash. -/
def IsWay (path : Text) (es : List Text) : Prop := path = rooted es ∨ es ≠ [] ∧ path = rooted es ++ ['/']

section

variable {es : List Text} {n path : Text} {d : Disk}

theorem rooted_concat (hne : es ≠ []) (n : Text) : rooted (es ++ [n]) = rooted es ++ '/' :: n := by
  rw [rooted, Path.ofElements, if_pos rfl, Text.join_concat _ hne, List.append_assoc]
  rfl

theorem bare_rooted (hn : IsName n) :
    Text.trimRight (· = '/') (rooted (es ++ [n])) = rooted (es ++ [n]) := by
  obtain ⟨tail, hpath, htail⟩ := Text.eq_trimRight_append (· = '/') (rooted (es ++ [n]))
  have hlast : Path.lastPart (rooted (es ++ [n])) = n := Path.lastPart_ofElements true es hn.no_slash
  rcases List.eq_nil_or_concat tail with rfl | ⟨front, c, rfl⟩
  · rw [List.append_nil] at hpath
    exact hpath.symm
  · -- a slash at the end would leave nothing behind it
    obtain rfl : c = '/' := of_decide_eq_true (htail c (by simp))
    rw [List.concat_eq_append, ← List.append_assoc] at hpath
    rw [hpath, Path.lastPart_slash_append _ (by simp)] at hlast
    exact absurd hlast.symm hn.ne_nil

theorem IsWay.bare (h : IsWay path (es ++ [n])) (hn : IsName n) :
    Text.trimRight (· = '/') path = rooted (es ++ [n]) := by
  rcases h with rfl | ⟨-, rfl⟩
  · exact bare_rooted hn
  · have hslash : Text.trimRight (· = '/') (rooted (es ++ [n]) ++ ['/']) =
        Text.trimRight (· = '/') (rooted (es ++ [n])) := by
      rw [Text.trimRight, List.reverse_concat, List.dropWhile_cons_of_pos (by simp)]
      rfl
    rw [hslash, bare_rooted hn]

/-- The folder above is on the way, behind a slash. -/
theorem IsWay.parent (h : IsWay path (es ++ [n])) (hn : IsName n) :
    IsWay (parentPath path) es ∧ parentPath path ≠ [] ∧ (parentPath path).length < path.length := by
  have hparent : parentPath path = Path.ahead (rooted (es ++ [n])) := by
    rw [parentPath_eq_ahead, h.bare hn]
  have hboth := Path.ahead_append_lastPart (rooted (es ++ [n]))
  have hlast : Path.lastPart (rooted (es ++ [n])) = n := Path.lastPart_ofElements true es hn.no_slash
  rw [hlast, ← hparent] at hboth
  have hway : IsWay (parentPath path) es := by
    by_cases hne : es = []
    · subst hne
      have hroot : parentPath path ++ n = rooted [] ++ n := hboth
      exact Or.inl (List.append_cancel_right hroot)
    · rw [rooted_concat hne, List.append_cons] at hboth
      exact Or.inr ⟨hne, List.append_cancel_right hboth⟩
  have hlonger : (rooted (es ++ [n])).length ≤ path.length := by
    rcases h with rfl | ⟨-, rfl⟩
    · exact Nat.le_refl _
    · rw [List.length_append]
      omega
  refine ⟨hway, ?_, ?_⟩
  · rcases hway with heq | ⟨-, heq⟩
    · exact heq ▸ Path.rooted_ne_nil es
    · exact heq ▸ List.append_ne_nil_of_left_ne_nil (Path.rooted_ne_nil es) _
  · have hlen := congrArg List.length hboth
    have hpos := List.length_pos_iff.2 hn.ne_nil
    rw [List.length_append] at hlen
    omega

theorem walkSteps_concat (d : Disk) (p : Place) (ss : List Text) (n : Text) :
    d.walkSteps p (ss ++ [n]) =
      match d.walkSteps p ss with
      | .error c => .error c
      | .ok q => d.step q n := by
  induction ss generalizing p with
  | nil =>
    show (match d.step p n with
      | .error c => .error c
      | .ok q => .ok q) = d.step p n
    cases d.step p n with
    | error c => rfl
    | ok q => rfl
  | cons m ss ih =>
    rw [List.cons_append, walkSteps, walkSteps]
    cases d.step p m with
    | error c => rfl
    | ok q => exact ih q

/-- A slash at the end asks for a folder. -/
theorem entryOf_slash (hes : Names es) (hne : es ≠ []) :
    d.entryOf (rooted es ++ ['/']) =
      match d.entryOf (rooted es) with
      | .error c => .error c
      | .ok .folder => .ok .folder
      | .ok (.file _ _) => .error .notFolder := by
  have hsteps : steps (rooted es ++ ['/']) = es ++ [['.']] := by
    have hsplit : Text.splitOn '/' (rooted es ++ ['/']) = Text.splitOn '/' (rooted es) ++ [[]] :=
      Text.splitOn_append_cons '/' (rooted es) []
    have hend : Text.endsWith (rooted es ++ ['/']) "/" = true := Text.endsWith_iff.2 ⟨rooted es, rfl⟩
    unfold steps
    simp only [hend, hsplit, List.filter_append, parts_rooted hes hne, if_true]
    exact congrArg (· ++ _) (List.append_nil es)
  have hloc : ∀ path, path ≠ [] → Path.isRooted path = true →
      d.locate path = d.walkSteps [] (steps path) := by
    intro path hpath hroot
    rw [locate, if_neg (by simpa using hpath), if_pos hroot]
  unfold entryOf
  rw [hloc (rooted es ++ ['/']) (by simp) (by rw [Path.isRooted_append _ (Path.rooted_ne_nil es)]; rfl),
    hloc (rooted es) (Path.rooted_ne_nil es) rfl, hsteps, steps_rooted hes hne, walkSteps_concat]
  cases hwalk : d.walkSteps [] es with
  | error c => rfl
  | ok q =>
    simp only [step]
    cases hfind : d.find? q with
    | none => rfl
    | some e =>
      cases e with
      | folder => simp [hfind]
      | file text time => rfl

/-- Along a way a folder is found when it is there, and nothing otherwise; a file
only without a slash behind it. -/
theorem IsWay.entryOf (h : IsWay path es) (htree : d.IsTree) (hes : Names es) :
    (d.find? es = some .folder → d.entryOf path = .ok .folder) ∧
      (d.find? es = none → ∃ c, d.entryOf path = .error c) := by
  have hentry : d.find? es = some .folder → d.entryOf (rooted es) = .ok .folder :=
    (entryOf_rooted htree hes).2
  have hnone : d.find? es = none → ∃ c, d.entryOf (rooted es) = .error c := by
    intro hfind
    cases hr : d.entryOf (rooted es) with
    | error c => exact ⟨c, rfl⟩
    | ok e =>
      rw [(entryOf_rooted htree hes).1 hr] at hfind
      exact absurd hfind (by simp)
  rcases h with rfl | ⟨hne, rfl⟩
  · exact ⟨hentry, hnone⟩
  · rw [entryOf_slash hes hne]
    refine ⟨fun hfind => by rw [hentry hfind], fun hfind => ?_⟩
    obtain ⟨c, hc⟩ := hnone hfind
    exact ⟨c, by rw [hc]⟩

end

/-! ## Making folders -/

section

variable {es : List Text} {path : Text} {d : Disk}

/-- On a way that is free of files, the folders that are missing are made. -/
theorem makeFoldersWithin_free {fuel : Nat} (htree : d.IsTree) (hes : Names es) (hway : IsWay path es)
    (hfuel : path.length < fuel) (hfree : ∀ r text time, r <+: es → d.find? r ≠ some (.file text time)) :
    ∃ d', makeFoldersWithin fuel d path = .ok d' ∧ d'.IsTree ∧
      ∀ q, d'.find? q = if q <+: es then some .folder else d.find? q := by
  induction fuel generalizing path es with
  | zero => omega
  | succ fuel ih =>
    -- a folder that is there has folders above it
    have hthere : d.find? es = some .folder → ∃ d', makeFoldersWithin (fuel + 1) d path = .ok d' ∧ d'.IsTree ∧
        ∀ q, d'.find? q = if q <+: es then some .folder else d.find? q := by
      intro hfolder
      refine ⟨d, ?_, htree, fun q => ?_⟩
      · rw [makeFoldersWithin, (hway.entryOf htree hes).1 hfolder]
      · split
        next hq =>
          by_cases hsame : q = es
          · rw [hsame, hfolder]
          · exact htree.folder_above hfolder hq hsame
        next => rfl
    rcases List.eq_nil_or_concat es with rfl | ⟨front, n, rfl⟩
    · exact hthere rfl
    · rw [List.concat_eq_append] at *
      obtain ⟨hfront, hlast⟩ := Path.names_append.1 hes
      have hn := Path.names_singleton.1 hlast
      cases hfind : d.find? (front ++ [n]) with
      | some e =>
        cases e with
        | folder => exact hthere hfind
        | file text time => exact absurd hfind (hfree _ text time (List.prefix_refl _))
      | none =>
        -- first the folders above, then this one
        obtain ⟨hparent, hne, hshort⟩ := hway.parent hn
        obtain ⟨c, hentry⟩ := (hway.entryOf htree hes).2 hfind
        obtain ⟨d₁, hmade, htree₁, hfind₁⟩ := ih hfront hparent (by omega) fun r text time hr =>
          hfree r text time (hr.trans (List.prefix_append ..))
        have hfolder₁ : d₁.find? front = some .folder := by
          rw [hfind₁, if_pos (List.prefix_refl _)]
        have hnone₁ : d₁.find? (front ++ [n]) = none := by
          rw [hfind₁, if_neg, hfind]
          intro hpre
          have hlen := hpre.length_le
          rw [List.length_append, List.length_singleton] at hlen
          omega
        have hloc : d₁.locate (rooted (front ++ [n])) = .ok (front ++ [n]) :=
          locate_rooted htree₁ hes (by rw [List.dropLast_concat]; exact hfolder₁)
        have hmake : d₁.makeFolder path = .ok (d₁.put (front ++ [n]) .folder) := by
          unfold makeFolder
          simp only [hway.bare hn, hloc, hnone₁, List.dropLast_concat, hfolder₁]
        refine ⟨d₁.put (front ++ [n]) .folder, ?_,
          isTree_put htree₁ (by simp) hes (by rw [List.dropLast_concat]; exact hfolder₁) fun _ => rfl,
          fun q => ?_⟩
        · rw [makeFoldersWithin, hentry]
          simp only [List.isEmpty_eq_false_iff.2 hne, hmade, hmake]
          rfl
        · rw [find?_put d₁ (by simp), hfind₁]
          by_cases hq : q = front ++ [n]
          · rw [if_pos hq, hq, if_pos (List.prefix_refl _)]
          · rw [if_neg hq]
            simp only [List.prefix_concat_iff, hq, false_or]

theorem makeFolders_free (htree : d.IsTree) (hes : Names es)
    (hfree : ∀ r text time, r <+: es → d.find? r ≠ some (.file text time)) :
    ∃ d', d.makeFolders (rooted es) = .ok d' ∧ d'.IsTree ∧
      ∀ q, d'.find? q = if q <+: es then some .folder else d.find? q :=
  makeFoldersWithin_free htree hes (Or.inl rfl) (Nat.lt_succ_self _) hfree

/-- A file in the way is refused, on every disk with the same fault. -/
theorem makeFoldersWithin_blocked {fuel : Nat} (hes : Names es) (hway : IsWay path es)
    (hfuel : path.length < fuel) {r : Place} (hr : r <+: es) :
    ∃ f, ∀ d : Disk, d.IsTree → (∃ text time, d.find? r = some (.file text time)) →
      makeFoldersWithin fuel d path = .error f := by
  induction fuel generalizing path es with
  | zero => omega
  | succ fuel ih =>
    rcases List.eq_nil_or_concat es with rfl | ⟨front, n, rfl⟩
    · -- the root is no file
      refine ⟨⟨[], [], .missing⟩, ?_⟩
      rintro d htree ⟨text, time, hfile⟩
      rw [List.prefix_nil.1 hr] at hfile
      exact absurd hfile (by simp)
    · rw [List.concat_eq_append] at *
      obtain ⟨hfront, hlast⟩ := Path.names_append.1 hes
      have hn := Path.names_singleton.1 hlast
      obtain ⟨hparent, hne, hshort⟩ := hway.parent hn
      rcases List.prefix_concat_iff.1 hr with rfl | habove
      · -- the file itself: found as it is, or in the way when a folder is made
        rcases hway with rfl | ⟨hfull, rfl⟩
        · refine ⟨⟨"mkdir", rooted (front ++ [n]), .notFolder⟩, ?_⟩
          rintro d htree ⟨text, time, hfile⟩
          rw [makeFoldersWithin, (entryOf_rooted htree hes).2 hfile]
        · have hway : IsWay (rooted (front ++ [n]) ++ ['/']) (front ++ [n]) := Or.inr ⟨hfull, rfl⟩
          refine ⟨⟨"mkdir", rooted (front ++ [n]) ++ ['/'], .occupied⟩, ?_⟩
          rintro d htree ⟨text, time, hfile⟩
          have hfolder : d.find? front = some .folder := by
            have hup := htree.inFolder hfile
            rwa [List.dropLast_concat] at hup
          have hslash : d.entryOf (rooted (front ++ [n]) ++ ['/']) = .error .notFolder := by
            rw [entryOf_slash hes hfull, (entryOf_rooted htree hes).2 hfile]
          have hthere : makeFoldersWithin fuel d (parentPath (rooted (front ++ [n]) ++ ['/'])) = .ok d := by
            cases fuel with
            | zero => omega
            | succ fuel => rw [makeFoldersWithin, (hparent.entryOf htree hfront).1 hfolder]
          have hloc : d.locate (rooted (front ++ [n])) = .ok (front ++ [n]) :=
            locate_rooted htree hes (htree.inFolder hfile)
          have hmake : d.makeFolder (rooted (front ++ [n]) ++ ['/']) =
              .error ⟨"mkdir", rooted (front ++ [n]) ++ ['/'], .occupied⟩ := by
            unfold makeFolder
            simp only [hway.bare hn, hloc, hfile]
          rw [makeFoldersWithin, hslash]
          simp only [List.isEmpty_eq_false_iff.2 hne, hthere, hmake]
          rfl
      · obtain ⟨f, hf⟩ := ih hfront hparent (by omega) habove
        refine ⟨f, ?_⟩
        rintro d htree ⟨text, time, hfile⟩
        have hnone : d.find? (front ++ [n]) = none := by
          cases hfind : d.find? (front ++ [n]) with
          | none => rfl
          | some e =>
            have hother : r ≠ front ++ [n] := by
              rintro rfl
              have hlen := habove.length_le
              rw [List.length_append, List.length_singleton] at hlen
              omega
            rw [htree.folder_above hfind hr hother] at hfile
            exact absurd hfile (by simp)
        obtain ⟨c, hentry⟩ := (hway.entryOf htree hes).2 hnone
        rw [makeFoldersWithin, hentry]
        simp only [List.isEmpty_eq_false_iff.2 hne, hf d htree ⟨text, time, hfile⟩]
        rfl

theorem makeFolders_blocked (hes : Names es) {r : Place} (hr : r <+: es) :
    ∃ f, ∀ d : Disk, d.IsTree → (∃ text time, d.find? r = some (.file text time)) →
      d.makeFolders (rooted es) = .error f :=
  makeFoldersWithin_blocked hes (Or.inl rfl) (Nat.lt_succ_self _) hr

end

/-! ## Files in a folder that is there -/

section

variable {d : Disk} {p : Place}

/-- A file is written unless there is a folder in its place. -/
theorem store_rooted (htree : d.IsTree) (hp : Names p) (hfolder : d.find? p.dropLast = some .folder)
    (text : Text) :
    d.find? p = some .folder ∧ d.store (rooted p) text = .error ⟨"open", rooted p, .isFolder⟩ ∨
      d.find? p ≠ some .folder ∧ ∃ d', d.store (rooted p) text = .ok d' ∧ d'.IsTree ∧
        ∀ q, d'.find? q = if q = p then some (.file text d.clock) else d.find? q := by
  have hloc := locate_rooted htree hp hfolder
  by_cases hfind : d.find? p = some .folder
  · left
    unfold store
    simp only [hloc, hfind, and_self]
  · right
    have hstored : ∃ d', d.store (rooted p) text = .ok d' := by
      unfold store
      simp only [hloc, hfolder]
      exact ⟨_, rfl⟩
    obtain ⟨d', hstored⟩ := hstored
    have htouch := store_touches htree (placeOf_rooted hp) hstored []
    exact ⟨hfind, d', hstored, htouch.tree, find?_store htree (placeOf_rooted hp) hstored⟩

/-- What is there is removed, unless it is a folder with something in it. -/
theorem erase_rooted (htree : d.IsTree) (hp : Names p) (hne : p ≠ [])
    (hfolder : d.find? p.dropLast = some .folder) :
    (d.find? p = some .folder ∧ ¬ (∀ q, p <+: q → q ≠ p → d.find? q = none) ∧
        d.apply (.erase (rooted p)) = .error ⟨"remove", rooted p, .notEmpty⟩) ∨
      ((d.find? p = some .folder → ∀ q, p <+: q → q ≠ p → d.find? q = none) ∧
        ∃ d', d.apply (.erase (rooted p)) = .ok d' ∧ d'.IsTree ∧
          ∀ q, d'.find? q = if q = p then none else d.find? q) := by
  rcases remove_rooted htree hp hne hfolder with
    ⟨hnone, hmissing⟩ | ⟨hfull, hsome, hrefused⟩ | ⟨hempty, d', hremoved, htree', hfind⟩
  · -- nothing to remove is no fault
    refine Or.inr ⟨fun hfull => absurd (hnone.symm.trans hfull) (by simp), d, ?_, htree, fun q => ?_⟩
    · rw [apply, hmissing]
      rfl
    · split
      next hq => rw [hq, hnone]
      next => rfl
  · refine Or.inl ⟨hfull, hsome, ?_⟩
    rw [apply, hrefused]
    rfl
  · exact Or.inr ⟨hempty, d', by rw [apply, hremoved], htree', hfind⟩

end

end Disk

end Docweave
