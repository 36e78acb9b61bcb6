import Docweave.Disk.Basic
import Docweave.Proofs.PathPlaces

/-!
# Disks as trees

On a disk that is a tree (`Disk.IsTree`: one entry for a place, in a folder,
under names) a path leads to the place that it names or nowhere, so all that
can be seen of the disk is `find?`. What the writing operations do is said once
in these terms: they keep the tree and touch a few places (`Touches`).

> `locate_eq_ok`: the place that a path leads to.

> `entryOf_rooted`, `contents_rooted`: what is read along a path from the root.

> `entryOf_rooted_error`: why a path from the root leads nowhere.

> `store_touches`, `makeFolders_touches`, `remove_touches`,
> `removeAll_touches`: what is written along a path.
-/

namespace Docweave

open Docweave.Path (rooted Names IsName)

/-- What is found does not depend on how a fault is told. -/
theorem mapError_eq_ok {α ε ε' : Type} {f : ε → ε'} {x : Except ε α} {a : α} :
    x.mapError f = .ok a ↔ x = .ok a := by
  cases x with
  | error e => exact ⟨nofun, nofun⟩
  | ok b => exact ⟨fun h => congrArg _ (Except.ok.inj h), fun h => congrArg _ (Except.ok.inj h)⟩

namespace Disk

/-- A disk is a tree. -/
structure IsTree (d : Disk) : Prop where
  unique : (d.entries.map (·.1)).Nodup
  inFolder : ∀ {p e}, d.find? p = some e → d.find? p.dropLast = some .folder
  names : ∀ x ∈ d.entries, Names x.1
  work : Names d.workFolder

/-! ## The entry at a place -/

theorem mem_of_find? {d : Disk} {p : Place} {e : Entry} (hp : p ≠ []) (h : d.find? p = some e) :
    (p, e) ∈ d.entries := by
  rw [find?, if_neg hp] at h
  obtain ⟨x, hx, rfl⟩ := Option.map_eq_some_iff.1 h
  have hplace := List.find?_some hx
  obtain rfl : x.1 = p := of_decide_eq_true hplace
  exact List.mem_of_find?_eq_some hx

theorem find?_of_mem {d : Disk} (htree : d.IsTree) {p : Place} {e : Entry} (hp : p ≠ [])
    (h : (p, e) ∈ d.entries) : d.find? p = some e := by
  have hunique := htree.unique
  rw [find?, if_neg hp]
  generalize d.entries = entries at h hunique
  induction entries with
  | nil => exact absurd h (by simp)
  | cons x xs ih =>
    rw [List.map_cons, List.nodup_cons] at hunique
    rcases List.mem_cons.1 h with rfl | hmem
    · simp
    · -- the first entry is at another place
      have hne : x.1 ≠ p := fun heq => hunique.1 (heq ▸ List.mem_map_of_mem hmem)
      rw [List.find?_cons_of_neg (by simpa using hne)]
      exact ih hmem hunique.2

theorem find?_put (d : Disk) {p : Place} (hp : p ≠ []) (e : Entry) (q : Place) :
    (d.put p e).find? q = if q = p then some e else d.find? q := by
  split
  next h => rw [h, find?_put_self d hp]
  next h => exact find?_put_of_ne d h e

theorem find?_clear (d : Disk) (p q : Place) :
    (d.clear p).find? q = if q ≠ [] ∧ p <+: q then none else d.find? q := by
  by_cases hq : q = []
  · rw [if_neg (fun h => h.1 hq), hq]
    rfl
  · rw [find?, if_neg hq, find?, if_neg hq, clear, List.find?_filter]
    split
    next h =>
      rw [List.find?_eq_none.2, Option.map_none]
      intro x _ hx
      simp only [Bool.not_eq_true', decide_eq_true_eq] at hx
      have hpre : p.isPrefixOf x.1 = true := List.isPrefixOf_iff_prefix.2 (hx.2 ▸ h.2)
      rw [hpre] at hx
      exact absurd hx.1 (by simp)
    next h =>
      congr 2
      funext x
      by_cases hx : x.1 = q
      · have hnot : p.isPrefixOf x.1 = false := by
          rw [← Bool.not_eq_true, List.isPrefixOf_iff_prefix, hx]
          exact fun hpre => h ⟨hq, hpre⟩
        simp [hx, hx ▸ hnot]
      · simp [hx]

/-- Above an entry there are folders only. -/
theorem IsTree.folder_above {d : Disk} (htree : d.IsTree) {p q : Place} {e : Entry}
    (h : d.find? q = some e) (hpre : p <+: q) (hne : p ≠ q) : d.find? p = some .folder := by
  obtain ⟨rest, rfl⟩ := hpre
  induction hlen : rest.length generalizing rest e with
  | zero => exact absurd (by rw [List.eq_nil_of_length_eq_zero hlen, List.append_nil]) hne
  | succ k ih =>
    have hrest : rest ≠ [] := fun hnil => absurd (hnil ▸ hlen) (by simp)
    have hup := htree.inFolder h
    rw [List.dropLast_append_of_ne_nil hrest] at hup
    by_cases hlast : rest.dropLast = []
    · rw [hlast, List.append_nil] at hup
      exact hup
    · exact ih rest.dropLast hup (fun heq => hlast (List.self_eq_append_right.1 heq))
        (by rw [List.length_dropLast, hlen]; rfl)

/-- It is enough to look at the entries. -/
theorem isTree_iff {d : Disk} :
    d.IsTree ↔ (d.entries.map (·.1)).Nodup ∧ Names d.workFolder ∧
      ∀ x ∈ d.entries, d.find? x.1.dropLast = some .folder ∧ Names x.1 := by
  constructor
  · intro htree
    refine ⟨htree.unique, htree.work, fun x hx => ⟨?_, htree.names x hx⟩⟩
    by_cases hroot : x.1 = []
    · rw [hroot]
      rfl
    · exact htree.inFolder (find?_of_mem htree hroot hx)
  · rintro ⟨hunique, hwork, hentries⟩
    refine ⟨hunique, fun {p e} hfind => ?_, fun x hx => (hentries x hx).2, hwork⟩
    by_cases hroot : p = []
    · rw [hroot]
      rfl
    · exact (hentries _ (mem_of_find? hroot hfind)).1

instance (d : Disk) : Decidable d.IsTree := decidable_of_iff' _ isTree_iff

/-! ## Trees stay trees -/

theorem isTree_clear {d : Disk} (htree : d.IsTree) (p : Place) : (d.clear p).IsTree where
  unique := htree.unique.sublist (List.filter_sublist.map _)
  inFolder {q e} h := by
    rw [find?_clear] at h ⊢
    split at h
    next => exact absurd h (by simp)
    next hkept =>
      rw [if_neg]
      · exact htree.inFolder h
      · rintro ⟨hne, hpre⟩
        have hq : q ≠ [] := fun hnil => hne (by rw [hnil]; rfl)
        exact hkept ⟨hq, hpre.trans (List.dropLast_prefix q)⟩
  names x hx := htree.names x (List.mem_filter.1 hx).1
  work := htree.work

/-- An entry may be put into a folder, but no file in the place of a folder. -/
theorem isTree_put {d : Disk} (htree : d.IsTree) {p : Place} {e : Entry} (hp : p ≠ [])
    (hnames : Names p) (hfolder : d.find? p.dropLast = some .folder)
    (hkeep : d.find? p = some .folder → e = .folder) : (d.put p e).IsTree where
  unique := by
    rw [put, List.map_cons, List.nodup_cons]
    refine ⟨?_, htree.unique.sublist (List.filter_sublist.map _)⟩
    rintro hmem
    obtain ⟨x, hx, hplace⟩ := List.mem_map.1 hmem
    have hne := (List.mem_filter.1 hx).2
    exact absurd hplace (by simpa using hne)
  inFolder {q f} h := by
    have hup : ∀ {f}, d.find? q = some f → (d.put p e).find? q.dropLast = some .folder := by
      intro f hf
      rw [find?_put d hp]
      split
      next heq => rw [hkeep (heq ▸ htree.inFolder hf)]
      next => exact htree.inFolder hf
    rw [find?_put d hp] at h
    split at h
    next heq =>
      have hshort : p.dropLast ≠ p := by
        intro hsame
        have hlen := congrArg List.length hsame
        have hpos := List.length_pos_iff.2 hp
        rw [List.length_dropLast] at hlen
        omega
      rw [heq, find?_put d hp, if_neg hshort]
      exact hfolder
    next => exact hup h
  names x hx := by
    rcases List.mem_cons.1 hx with rfl | hmem
    · exact hnames
    · exact htree.names x (List.mem_filter.1 hmem).1
  work := htree.work

/-! ## Walking along a path -/

theorem parts_rooted {es : List Text} (hes : Names es) (hne : es ≠ []) :
    (Text.splitOn '/' (rooted es)).filter (!·.isEmpty) = es := by
  have hsplit : Text.splitOn '/' (rooted es) = [] :: es := by
    show Text.splitOn '/' ('/' :: Text.join "/" es) = _
    have hparts : Text.splitOn '/' (Text.join "/" es) = es :=
      Text.splitOn_join hne fun n hn => (hes n hn).no_slash
    rw [Text.splitOn, if_pos rfl, hparts]
  rw [hsplit, List.filter_cons_of_neg (by simp), List.filter_eq_self]
  intro n hn
  simp [(hes n hn).ne_nil]

theorem steps_rooted {es : List Text} (hes : Names es) (hne : es ≠ []) : steps (rooted es) = es := by
  have hlast : Path.lastPart (rooted es) ≠ [] := by
    rw [← List.dropLast_concat_getLast hne] at hes ⊢
    obtain ⟨-, hname⟩ := Path.names_append.1 hes
    rw [rooted, Path.lastPart_ofElements true _ (Path.names_singleton.1 hname).no_slash]
    exact (Path.names_singleton.1 hname).ne_nil
  have hend := Path.not_endsWith_slash hlast
  unfold steps
  simp only [parts_rooted hes hne, hend]
  rfl

/-- A walk that arrives has gone along the elements, up and down. -/
theorem walkSteps_eq_ok {d : Disk} {ss : List Text} {p q : Place} (hp : Names p)
    (hss : ∀ n ∈ ss, n ≠ ['.'] → IsName n ∨ n = ['.', '.']) (h : d.walkSteps p ss = .ok q) :
    q = Path.squash true p.reverse (ss.filter (· ≠ ['.'])) := by
  induction ss generalizing p with
  | nil =>
    rw [List.filter_nil, Path.squash, List.reverse_reverse]
    exact (Except.ok.inj h).symm
  | cons n ss ih =>
    have hrest : ∀ m ∈ ss, m ≠ ['.'] → IsName m ∨ m = ['.', '.'] :=
      fun m hm => hss m (List.mem_cons_of_mem _ hm)
    unfold walkSteps step at h
    cases hfind : d.find? p with
    | none => simp [hfind] at h
    | some e =>
      cases e with
      | file t m => simp [hfind] at h
      | folder =>
        by_cases hdot : n = ['.']
        · -- the walk stays where it is
          rw [List.filter_cons_of_neg (by simp [hdot])]
          simp only [hfind, if_pos hdot] at h
          exact ih hp hrest h
        · rw [List.filter_cons_of_pos (by simp [hdot])]
          by_cases hup : n = ['.', '.']
          · -- the name in front is taken back
            simp only [hfind, if_neg hdot, if_pos hup] at h
            rw [ih (fun m hm => hp m (List.dropLast_subset _ hm)) hrest h, hup]
            rcases List.eq_nil_or_concat p with rfl | ⟨front, f, rfl⟩
            · rfl
            · rw [List.concat_eq_append] at hp ⊢
              have hf := hp f (by simp)
              rw [List.dropLast_concat, List.reverse_concat, Path.squash, if_pos rfl]
              exact (if_neg hf.ne_dots).symm
          · have hn := (hss n (List.mem_cons_self ..) hdot).resolve_right hup
            simp only [hfind, if_neg hdot, if_neg hup] at h
            rw [ih (Path.names_append.2 ⟨hp, Path.names_singleton.2 hn⟩) hrest h, List.reverse_concat]
            exact (if_neg hup).symm

theorem walkSteps_of_folders {d : Disk} {es : List Text} (hes : Names es) {p : Place}
    (h : ∀ r, r <+: es → r ≠ es → d.find? (p ++ r) = some .folder) :
    d.walkSteps p es = .ok (p ++ es) := by
  induction es generalizing p with
  | nil => rw [List.append_nil]; rfl
  | cons n es ih =>
    have hn := hes n (List.mem_cons_self ..)
    have hhere : d.find? p = some .folder := by
      have := h [] (List.nil_prefix ..) (by simp)
      rwa [List.append_nil] at this
    unfold walkSteps step
    simp only [hhere, if_neg hn.ne_dot, if_neg hn.ne_dots]
    have hrest := ih (fun m hm => hes m (List.mem_cons_of_mem _ hm)) (p := p ++ [n]) fun r hr hne => by
      rw [List.append_assoc]
      exact h (n :: r) (List.cons_prefix_cons.2 ⟨rfl, hr⟩) fun heq => hne (List.cons.inj heq).2
    rw [hrest, List.append_assoc]
    rfl

theorem steps_filter (path : Text) : (steps path).filter (· ≠ ['.']) = Path.elements path := by
  have hsame : ((Text.splitOn '/' path).filter (!·.isEmpty)).filter (· ≠ ['.']) =
      Path.elements path := by
    rw [List.filter_filter]
    exact List.filter_congr fun e _ => Bool.and_comm ..
  unfold steps
  simp only
  split
  next => rw [List.filter_append, hsame]; exact List.append_nil _
  next => exact hsame

theorem walkSteps_folder {d : Disk} {ss : List Text} {p q : Place} (hne : ss ≠ [])
    (h : d.walkSteps p ss = .ok q) : d.find? p = some .folder := by
  cases ss with
  | nil => exact absurd rfl hne
  | cons n ss =>
    unfold walkSteps step at h
    cases hfind : d.find? p with
    | none => simp [hfind] at h
    | some e =>
      cases e with
      | file t m => simp [hfind] at h
      | folder => rfl

/-- Where a walk arrives, one to another name in the same folder arrives too,
also on a disk that has got more folders. -/
theorem walkSteps_sibling {d d' : Disk}
    (hkeep : ∀ q, d.find? q = some .folder → d'.find? q = some .folder) {n n' : Text} (hn : IsName n')
    {ss : List Text} {p q : Place} (h : d.walkSteps p (ss ++ [n]) = .ok q) :
    ∃ q', d'.walkSteps p (ss ++ [n']) = .ok q' := by
  have hhere := hkeep p (walkSteps_folder (by simp) h)
  induction ss generalizing p with
  | nil =>
    refine ⟨p ++ [n'], ?_⟩
    simp [walkSteps, step, hhere, hn.ne_dot, hn.ne_dots]
  | cons m ss ih =>
    rw [List.cons_append, walkSteps] at h ⊢
    have hstep : d'.step p m = d.step p m := by
      have hfolder := walkSteps_folder (List.cons_ne_nil m (ss ++ [n])) (by rw [walkSteps]; exact h)
      rw [step, step, hhere, hfolder]
    rw [hstep]
    split at h
    next => exact absurd h (by simp)
    next r hr => exact ih h (hkeep r (walkSteps_folder (by simp) h))

/-- The steps of a path: those to its last slash, and one. -/
theorem steps_lastPart {path : Text} (h : Path.lastPart path ≠ []) :
    steps path = (Text.splitOn '/' (Path.ahead path)).filter (!·.isEmpty) ++ [Path.lastPart path] := by
  have hboth := Path.ahead_append_lastPart path
  have hlast := Text.splitOn_of_not_mem (Path.no_slash_lastPart path)
  have hkept : [Path.lastPart path].filter (!·.isEmpty) = [Path.lastPart path] := by simp [h]
  have hend := Path.not_endsWith_slash h
  have hparts : (Text.splitOn '/' path).filter (!·.isEmpty) =
      (Text.splitOn '/' (Path.ahead path)).filter (!·.isEmpty) ++ [Path.lastPart path] := by
    rcases Path.ahead_cases path with hnil | ⟨front, hfront⟩
    · have hbare : Path.lastPart path = path := by rwa [hnil, List.nil_append] at hboth
      rw [hbare] at hlast hkept
      rw [hnil, hlast, hkept, hbare]
      rfl
    · rw [hfront] at hboth ⊢
      have hcut := Text.splitOn_append_cons '/' front (Path.lastPart path)
      rw [List.append_cons, hboth, hlast] at hcut
      rw [hcut, Text.splitOn_append_cons '/' front [], List.filter_append, hkept, List.filter_append]
      exact congrArg (· ++ _) (List.append_nil _).symm
  unfold steps
  simp only [hend, hparts]
  rfl

theorem steps_ne_nil {path : Text} (h : path ≠ []) : steps path ≠ [] := by
  by_cases hlast : Path.lastPart path = []
  · -- the path ends in a slash, which asks for a folder
    have hboth := Path.ahead_append_lastPart path
    rw [hlast, List.append_nil] at hboth
    obtain ⟨front, hfront⟩ := (Path.ahead_cases path).resolve_left fun hnil => h (hboth ▸ hnil)
    have hend : Text.endsWith path "/" = true :=
      Text.endsWith_iff.2 ⟨front, by rw [← hboth, hfront]; rfl⟩
    unfold steps
    simp only [hend, if_true]
    exact List.append_ne_nil_of_right_ne_nil _ (by simp)
  · rw [steps_lastPart hlast]
    simp

/-- A walk that arrives sets out from a folder. -/
theorem start_of_locate {d : Disk} {path : Text} {q : Place} (h : d.locate path = .ok q) :
    d.find? (if Path.isRooted path then [] else d.workFolder) = some .folder := by
  unfold locate at h
  split at h
  next => exact absurd h (by simp)
  next hne => exact walkSteps_folder (steps_ne_nil (by simpa using hne)) h

theorem locate_sibling {d d' : Disk} (hwork : d'.workFolder = d.workFolder)
    (hkeep : ∀ q, d.find? q = some .folder → d'.find? q = some .folder) {path path' : Text}
    (hahead : Path.ahead path' = Path.ahead path) (hlast : IsName (Path.lastPart path))
    (hlast' : IsName (Path.lastPart path')) {q : Place} (h : d.locate path = .ok q) :
    ∃ q', d'.locate path' = .ok q' := by
  have hne : path' ≠ [] := fun hnil => hlast'.ne_nil (by rw [hnil]; rfl)
  have hroot : Path.isRooted path' = Path.isRooted path := by
    rw [← Path.isRooted_ahead path', hahead, Path.isRooted_ahead]
  unfold locate at h ⊢
  split at h
  next => exact absurd h (by simp)
  next =>
    rw [if_neg (by simpa using hne), hroot, hwork, steps_lastPart hlast'.ne_nil, hahead]
    rw [steps_lastPart hlast.ne_nil] at h
    exact walkSteps_sibling hkeep hlast' h

/-- The place that a path names on a disk. -/
def placeOf (d : Disk) (path : Text) : Place := Path.placeFrom d.workFolder path

theorem placeOf_rooted {d : Disk} {es : List Text} (hes : Names es) : d.placeOf (rooted es) = es :=
  Path.placeFrom_rooted _ hes

theorem IsTree.names_placeOf {d : Disk} (htree : d.IsTree) (path : Text) : Names (d.placeOf path) :=
  Path.names_placeFrom htree.work path

/-- **A path leads to the place that it names, or nowhere.** -/
theorem locate_eq_ok {d : Disk} (htree : d.IsTree) {path : Text} {q : Place}
    (h : d.locate path = .ok q) : q = d.placeOf path := by
  have hsteps : ∀ n ∈ steps path, n ≠ ['.'] → IsName n ∨ n = ['.', '.'] := fun n hn hdot =>
    Path.mem_elements (steps_filter path ▸ List.mem_filter.2 ⟨hn, by simpa using hdot⟩)
  unfold locate at h
  split at h
  next => exact absurd h (by simp)
  next =>
    split at h
    next hroot =>
      rw [walkSteps_eq_ok (List.forall_mem_nil _) hsteps h, steps_filter, placeOf, Path.placeFrom,
        if_pos hroot]
      rfl
    next hroot =>
      rw [walkSteps_eq_ok htree.work hsteps h, steps_filter, placeOf, Path.placeFrom, if_neg hroot]

/-- It leads there when the folder is there. -/
theorem locate_rooted {d : Disk} (htree : d.IsTree) {es : List Text} (hes : Names es)
    (h : d.find? es.dropLast = some .folder) : d.locate (rooted es) = .ok es := by
  by_cases hne : es = []
  · rw [hne]
    rfl
  · rw [locate, if_neg (by simp [Path.rooted_ne_nil]), steps_rooted hes hne]
    refine walkSteps_of_folders (p := []) hes fun r hr hrne => ?_
    have hup : r <+: es.dropLast := by
      rw [← List.dropLast_concat_getLast hne] at hr
      exact (List.prefix_concat_iff.1 hr).resolve_left
        fun heq => hrne (heq.trans (List.dropLast_concat_getLast hne))
    by_cases hsame : r = es.dropLast
    · rw [hsame]
      exact h
    · exact htree.folder_above h hup hsame

theorem find?_of_entryOf {d : Disk} (htree : d.IsTree) {path : Text} {e : Entry}
    (h : d.entryOf path = .ok e) : d.find? (d.placeOf path) = some e := by
  unfold entryOf at h
  split at h
  next => exact absurd h (by simp)
  next q hloc =>
    rw [← locate_eq_ok htree hloc]
    split at h
    next => exact absurd h (by simp)
    next hfind => exact Except.ok.inj h ▸ hfind

theorem entryOf_rooted {d : Disk} (htree : d.IsTree) {es : List Text} (hes : Names es) {e : Entry} :
    d.entryOf (rooted es) = .ok e ↔ d.find? es = some e := by
  constructor
  · intro h
    rw [← placeOf_rooted (d := d) hes]
    exact find?_of_entryOf htree h
  · intro h
    unfold entryOf
    simp only [locate_rooted htree hes (htree.inFolder h), h]

theorem stat_rooted {d : Disk} (htree : d.IsTree) {es : List Text} (hes : Names es) {e : Entry} :
    d.stat (rooted es) = .ok e ↔ d.find? es = some e := by
  rw [← entryOf_rooted htree hes, stat, mapError_eq_ok]

/-! ## Paths that lead nowhere -/

/-- A file stands above the place, so that no path leads there. -/
def Blocked (d : Disk) (p : Place) : Prop :=
  ∃ q text time, q <+: p ∧ q ≠ p ∧ d.find? q = some (.file text time)

theorem not_blocked_of_find? {d : Disk} (htree : d.IsTree) {p : Place} {e : Entry}
    (h : d.find? p = some e) : ¬ d.Blocked p := by
  rintro ⟨q, text, time, hpre, hne, hfile⟩
  rw [htree.folder_above h hpre hne] at hfile
  exact absurd hfile (by simp)

/-- A walk along names comes by folders only, or stops at the first place that is
none. -/
theorem walkSteps_names {d : Disk} {es : List Text} (hes : Names es) (p : Place) :
    (∀ r, r <+: es → r ≠ es → d.find? (p ++ r) = some .folder) ∨
      ∃ r c, r <+: es ∧ r ≠ es ∧ (∀ r', r' <+: r → r' ≠ r → d.find? (p ++ r') = some .folder) ∧
        d.walkSteps p es = .error c ∧
        ((∃ text time, d.find? (p ++ r) = some (.file text time)) ∧ c = .notFolder ∨
          d.find? (p ++ r) = none ∧ c = .missing) := by
  induction es generalizing p with
  | nil => exact Or.inl fun r hr hne => absurd (List.prefix_nil.1 hr) hne
  | cons n es ih =>
    have hn := hes n (List.mem_cons_self ..)
    -- a walk that stops where it is
    have hstop : ∀ c, d.step p n = .error c → d.walkSteps p (n :: es) = .error c := by
      intro c hc
      rw [walkSteps, hc]
    have hnone : ∀ r', r' <+: [] → r' ≠ [] → d.find? (p ++ r') = some .folder :=
      fun r' hr' hne => absurd (List.prefix_nil.1 hr') hne
    cases hfind : d.find? p with
    | none =>
      have hstep : d.step p n = .error .missing := by rw [step, hfind]
      exact Or.inr ⟨[], .missing, List.nil_prefix .., by simp, hnone, hstop _ hstep,
        Or.inr ⟨by rw [List.append_nil]; exact hfind, rfl⟩⟩
    | some e =>
      cases e with
      | file text time =>
        have hstep : d.step p n = .error .notFolder := by rw [step, hfind]
        exact Or.inr ⟨[], .notFolder, List.nil_prefix .., by simp, hnone, hstop _ hstep,
          Or.inl ⟨⟨text, time, by rw [List.append_nil]; exact hfind⟩, rfl⟩⟩
      | folder =>
        have hwalk : d.walkSteps p (n :: es) = d.walkSteps (p ++ [n]) es := by
          rw [walkSteps, step, hfind]
          simp only [if_neg hn.ne_dot, if_neg hn.ne_dots]
        -- below the first name it is the walk along the others
        have hmore : ∀ {rs : List Text}, (∀ r, r <+: rs → r ≠ rs → d.find? (p ++ [n] ++ r) = some .folder) →
            ∀ r, r <+: n :: rs → r ≠ n :: rs → d.find? (p ++ r) = some .folder := by
          intro rs hrs r hr hne
          cases r with
          | nil =>
            rw [List.append_nil]
            exact hfind
          | cons m r =>
            obtain ⟨rfl, hrest⟩ := List.cons_prefix_cons.1 hr
            have hfolder := hrs r hrest fun heq => hne (by rw [heq])
            rw [List.append_assoc] at hfolder
            exact hfolder
        rcases ih (fun m hm => hes m (List.mem_cons_of_mem _ hm)) (p ++ [n]) with
          hall | ⟨r, c, hr, hne, hfolders, herror, hlast⟩
        · exact Or.inl (hmore hall)
        · rw [List.append_assoc] at hlast
          exact Or.inr ⟨n :: r, c, List.cons_prefix_cons.2 ⟨rfl, hr⟩,
            fun heq => hne (List.cons.inj heq).2, hmore hfolders, hwalk.trans herror, hlast⟩

/-- Nothing is found at a place because it is missing, or because it is blocked. -/
theorem entryOf_rooted_error {d : Disk} (htree : d.IsTree) {es : List Text} (hes : Names es)
    {c : DiskCause} (h : d.entryOf (rooted es) = .error c) :
    d.find? es = none ∧ (c = .notFolder ∧ d.Blocked es ∨ c = .missing ∧ ¬ d.Blocked es) := by
  have hnone : d.find? es = none := by
    cases hfind : d.find? es with
    | none => rfl
    | some e =>
      rw [(entryOf_rooted htree hes).2 hfind] at h
      exact absurd h (by simp)
  have hne : es ≠ [] := fun hnil => absurd (hnil ▸ hnone) (by simp)
  have hloc : d.locate (rooted es) = d.walkSteps [] es := by
    rw [locate, if_neg (by simp [Path.rooted_ne_nil]), steps_rooted hes hne]
    rfl
  refine ⟨hnone, ?_⟩
  unfold entryOf at h
  rw [hloc] at h
  rcases walkSteps_names hes [] with hall | ⟨r, c', hr, hrne, hfolders, herror, hlast⟩
  · rw [walkSteps_of_folders hes hall, List.nil_append] at h
    simp only [hnone] at h
    refine Or.inr ⟨(Except.error.inj h).symm, ?_⟩
    rintro ⟨q, text, time, hq, hqne, hfile⟩
    rw [show d.find? q = some .folder from hall q hq hqne] at hfile
    exact absurd hfile (by simp)
  · rw [herror] at h
    obtain rfl := Except.error.inj h
    simp only [List.nil_append] at hfolders hlast
    rcases hlast with ⟨⟨text, time, hfile⟩, rfl⟩ | ⟨hmissing, rfl⟩
    · exact Or.inl ⟨rfl, r, text, time, hr, hrne, hfile⟩
    · refine Or.inr ⟨rfl, ?_⟩
      rintro ⟨q, text, time, hq, -, hfile⟩
      -- a file would have to stand above the gap, or below it
      have hother : q ≠ r := by
        rintro rfl
        rw [hmissing] at hfile
        exact absurd hfile (by simp)
      rcases List.prefix_or_prefix_of_prefix hq hr with habove | hbelow
      · rw [hfolders q habove hother] at hfile
        exact absurd hfile (by simp)
      · rw [htree.folder_above hfile hbelow hother.symm] at hmissing
        exact absurd hmissing (by simp)

/-- Where a path is refused: the place is missing, or it is blocked. -/
theorem stat_rooted_error {d : Disk} (htree : d.IsTree) {es : List Text} (hes : Names es) {f : DiskFault}
    (h : d.stat (rooted es) = .error f) :
    d.find? es = none ∧ (f.cause = .notFolder ∧ d.Blocked es ∨ f.cause = .missing ∧ ¬ d.Blocked es) := by
  cases hentry : d.entryOf (rooted es) with
  | ok e =>
    have hok : d.stat (rooted es) = .ok e := mapError_eq_ok.2 hentry
    exact absurd (hok.symm.trans h) (by simp)
  | error c =>
    rw [stat, hentry] at h
    obtain rfl := Except.error.inj h
    exact entryOf_rooted_error htree hes hentry

/-- The text of the file at a place. -/
def textAt? (d : Disk) (p : Place) : Option Text :=
  match d.find? p with
  | some (.file text _) => some text
  | _ => none

theorem textAt?_eq_some {d : Disk} {p : Place} {t : Text} :
    d.textAt? p = some t ↔ ∃ time, d.find? p = some (.file t time) := by
  unfold textAt?
  split
  next text time hfind => simp [hfind]
  next hnone =>
    refine ⟨fun h => absurd h (by simp), ?_⟩
    rintro ⟨time, hfind⟩
    exact absurd hfind (hnone t time)

/-- What is read along a path is the text of the file that it names. -/
theorem textAt?_of_contents {d : Disk} (htree : d.IsTree) {path t : Text}
    (h : d.contents path = .ok t) : d.textAt? (d.placeOf path) = some t := by
  unfold contents at h
  split at h
  next => exact absurd h (by simp)
  next => exact absurd h (by simp)
  next text time hentry =>
    rw [textAt?, find?_of_entryOf htree hentry, Except.ok.inj h]

theorem contents_rooted {d : Disk} (htree : d.IsTree) {es : List Text} (hes : Names es) {t : Text} :
    d.contents (rooted es) = .ok t ↔ d.textAt? es = some t := by
  constructor
  · intro h
    rw [← placeOf_rooted (d := d) hes]
    exact textAt?_of_contents htree h
  · intro h
    unfold textAt? at h
    split at h
    next text time hfind =>
      unfold contents
      simp only [(entryOf_rooted htree hes).2 hfind, Option.some.inj h]
    next => exact absurd h (by simp)

/-! ## What writing touches -/

/-- The disk is a tree again, and the same but for some places, and for folders
that were missing on the way to one. -/
structure Touches (touched : Place → Prop) (folder : Place) (d d' : Disk) : Prop where
  tree : d'.IsTree
  workFolder : d'.workFolder = d.workFolder
  find : ∀ q, ¬ touched q →
    d'.find? q = d.find? q ∨ q <+: folder ∧ d.find? q = none ∧ d'.find? q = some .folder

section

variable {touched : Place → Prop} {folder : Place} {d d' d'' : Disk}

theorem Touches.refl (h : d.IsTree) : Touches touched folder d d := ⟨h, rfl, fun _ _ => Or.inl rfl⟩

theorem Touches.trans (h : Touches touched folder d d') (h' : Touches touched folder d' d'') :
    Touches touched folder d d'' := by
  refine ⟨h'.tree, h'.workFolder.trans h.workFolder, fun q hq => ?_⟩
  rcases h.find q hq with heq | ⟨hpre, hnone, hnew⟩
  · rcases h'.find q hq with heq' | ⟨hpre, hnone, hnew⟩
    · exact Or.inl (heq'.trans heq)
    · exact Or.inr ⟨hpre, heq ▸ hnone, hnew⟩
  · rcases h'.find q hq with heq' | ⟨_, hnone', _⟩
    · exact Or.inr ⟨hpre, hnone, heq'.trans hnew⟩
    · rw [hnew] at hnone'
      exact absurd hnone' (by simp)

/-- More places may count as touched. -/
theorem Touches.mono {wider : Place → Prop} {other : Place} (h : Touches touched folder d d')
    (hplaces : ∀ q, touched q → wider q) (hfolder : ∀ q, q <+: folder → wider q ∨ q <+: other) :
    Touches wider other d d' := by
  refine ⟨h.tree, h.workFolder, fun q hq => ?_⟩
  rcases h.find q fun ht => hq (hplaces q ht) with heq | ⟨hpre, hnone, hnew⟩
  · exact Or.inl heq
  · exact Or.inr ⟨(hfolder q hpre).resolve_left hq, hnone, hnew⟩

/-- Files elsewhere keep their texts. -/
theorem Touches.textAt? (h : Touches touched folder d d') {q : Place} (hq : ¬ touched q) :
    d'.textAt? q = d.textAt? q := by
  unfold Disk.textAt?
  rcases h.find q hq with heq | ⟨_, hnone, hnew⟩
  · rw [heq]
  · rw [hnone, hnew]

theorem Touches.placeOf (h : Touches touched folder d d') (path : Text) :
    d'.placeOf path = d.placeOf path := by
  rw [Disk.placeOf, Disk.placeOf, h.workFolder]

end

section

variable {d d' : Disk} {path text : Text} {p : Place}

/-- A stored file stands in a folder, and was none before. -/
theorem store_eq_ok (htree : d.IsTree) (hp : d.placeOf path = p) (h : d.store path text = .ok d') :
    d.find? p ≠ some .folder ∧ d.find? p.dropLast = some .folder ∧
      d' = { d.put p (.file text d.clock) with clock := d.clock + 1 } := by
  unfold store at h
  cases hloc : d.locate path with
  | error c => simp [hloc] at h
  | ok q =>
    obtain rfl := (locate_eq_ok htree hloc).trans hp
    simp only [hloc] at h
    split at h
    next => exact absurd h (by simp)
    next hfolder hfile => exact ⟨fun heq => hfile heq, hfolder, (Except.ok.inj h).symm⟩
    next => exact absurd h (by simp)
    next => exact absurd h (by simp)

theorem find?_store (htree : d.IsTree) (hp : d.placeOf path = p) (h : d.store path text = .ok d')
    (q : Place) : d'.find? q = if q = p then some (.file text d.clock) else d.find? q := by
  obtain ⟨hfile, -, rfl⟩ := store_eq_ok htree hp h
  have hne : p ≠ [] := fun hnil => hfile (by rw [hnil]; rfl)
  exact find?_put d hne _ q

theorem store_touches (htree : d.IsTree) (hp : d.placeOf path = p) (h : d.store path text = .ok d')
    (folder : Place) : Touches (· = p) folder d d' := by
  obtain ⟨hfile, hfolder, heq⟩ := store_eq_ok htree hp h
  have hne : p ≠ [] := fun hnil => hfile (by rw [hnil]; rfl)
  refine ⟨?_, by rw [heq]; rfl, fun q hq => Or.inl (by rw [find?_store htree hp h, if_neg hq])⟩
  have htree' := isTree_put (e := .file text d.clock) htree hne (hp ▸ htree.names_placeOf path) hfolder
    fun hf => absurd hf hfile
  rw [heq]
  exact ⟨htree'.unique, htree'.inFolder, htree'.names, htree'.work⟩

theorem textAt?_store (htree : d.IsTree) (hp : d.placeOf path = p) (h : d.store path text = .ok d') :
    d'.textAt? p = some text := by
  rw [textAt?, find?_store htree hp h, if_pos rfl]

/-- Where a file has been stored, other files in the same folder are found. -/
theorem locate_of_store {path' : Text} (htree : d.IsTree) (h : d.store path text = .ok d')
    (hahead : Path.ahead path' = Path.ahead path) (hlast : IsName (Path.lastPart path))
    (hlast' : IsName (Path.lastPart path')) : d'.locate path' = .ok (d'.placeOf path') := by
  obtain ⟨q, hloc⟩ : ∃ q, d.locate path = .ok q := by
    unfold store at h
    split at h
    next => exact absurd h (by simp)
    next q hloc => exact ⟨q, hloc⟩
  have htouch := store_touches htree rfl h []
  have hkeep : ∀ q, d.find? q = some .folder → d'.find? q = some .folder := by
    intro q hq
    have hother : q ≠ d.placeOf path := fun heq => (store_eq_ok htree rfl h).1 (heq ▸ hq)
    rw [find?_store htree rfl h, if_neg hother]
    exact hq
  obtain ⟨q', hloc'⟩ := locate_sibling htouch.workFolder hkeep hahead hlast hlast' hloc
  rw [hloc', locate_eq_ok htouch.tree hloc']

/-- A removed entry was a file, or a folder with nothing in it. -/
theorem remove_eq_ok (htree : d.IsTree) (hp : d.placeOf path = p) (h : d.remove path = .ok d') :
    d' = d.clear p ∧
      ((∃ t m, d.find? p = some (.file t m)) ∨ d.find? p = some .folder ∧ d.isEmptyAt p = true) := by
  unfold remove at h
  cases hloc : d.locate path with
  | error c => simp [hloc] at h
  | ok q =>
    obtain rfl := (locate_eq_ok htree hloc).trans hp
    simp only [hloc] at h
    split at h
    next => exact absurd h (by simp)
    next t m hfind => exact ⟨(Except.ok.inj h).symm, Or.inl ⟨t, m, hfind⟩⟩
    next hfind =>
      split at h
      next hempty => exact ⟨(Except.ok.inj h).symm, Or.inr ⟨hfind, hempty⟩⟩
      next => exact absurd h (by simp)

theorem remove_of_file (hloc : d.locate path = .ok p) {t : Text} (h : d.textAt? p = some t) :
    ∃ d', d.remove path = .ok d' := by
  unfold textAt? at h
  split at h
  next text time hfind =>
    refine ⟨d.clear p, ?_⟩
    unfold remove
    simp only [hloc, hfind]
  next => exact absurd h (by simp)

theorem isEmptyAt_iff (htree : d.IsTree) :
    d.isEmptyAt p = true ↔ ∀ q, p <+: q → q ≠ p → d.find? q = none := by
  rw [isEmptyAt, List.all_eq_true]
  constructor
  · intro h q hpre hne
    cases hfind : d.find? q with
    | none => rfl
    | some e =>
      have hroot : q ≠ [] := by
        rintro rfl
        exact hne (List.prefix_nil.1 hpre).symm
      have hentry := h _ (mem_of_find? hroot hfind)
      simp only [hne, decide_false, Bool.false_or, Bool.not_eq_true'] at hentry
      rw [List.isPrefixOf_iff_prefix.2 hpre] at hentry
      exact absurd hentry (by simp)
  · intro h x hx
    by_cases hsame : x.1 = p
    · simp [hsame]
    · rw [Bool.or_eq_true, Bool.not_eq_true', ← Bool.not_eq_true, List.isPrefixOf_iff_prefix]
      refine Or.inr fun hpre => ?_
      have hnone := h x.1 hpre hsame
      have hroot : x.1 ≠ [] := fun hnil => absurd (hnil ▸ hnone) (by simp)
      rw [find?_of_mem htree hroot hx] at hnone
      exact absurd hnone (by simp)

/-- Nothing stands below what is removed. -/
theorem find?_below_removed (htree : d.IsTree) (hp : d.placeOf path = p) (h : d.remove path = .ok d')
    {q : Place} (hpre : p <+: q) (hne : q ≠ p) : d.find? q = none := by
  rcases (remove_eq_ok htree hp h).2 with ⟨t, m, hfile⟩ | ⟨_, hempty⟩
  · cases hfind : d.find? q with
    | none => rfl
    | some e =>
      rw [htree.folder_above hfind hpre hne.symm] at hfile
      exact absurd hfile (by simp)
  · exact (isEmptyAt_iff htree).1 hempty q hpre hne

theorem remove_touches (htree : d.IsTree) (hp : d.placeOf path = p) (h : d.remove path = .ok d')
    (folder : Place) : Touches (· = p) folder d d' := by
  rw [(remove_eq_ok htree hp h).1]
  refine ⟨isTree_clear htree p, rfl, fun q hq => Or.inl ?_⟩
  rw [find?_clear]
  split
  next hbelow => exact (find?_below_removed htree hp h hbelow.2 hq).symm
  next => rfl

theorem textAt?_remove (htree : d.IsTree) (hp : d.placeOf path = p) (h : d.remove path = .ok d') :
    d'.textAt? p = none := by
  rw [(remove_eq_ok htree hp h).1, textAt?, find?_clear]
  split
  next t m heq =>
    split at heq
    next => exact absurd heq (by simp)
    next hroot =>
      have hnil : p = [] := Classical.not_not.1 fun hne => hroot ⟨hne, List.prefix_refl p⟩
      rw [hnil] at heq
      exact absurd heq (by simp)
  next => rfl

/-- Removing along a path from the root, in a folder that is there: there is
nothing, or a folder with something in it, or what is there goes. -/
theorem remove_rooted {p : Place} (htree : d.IsTree) (hp : Names p) (hne : p ≠ [])
    (hfolder : d.find? p.dropLast = some .folder) :
    (d.find? p = none ∧ d.remove (rooted p) = .error ⟨"remove", rooted p, .missing⟩) ∨
      (d.find? p = some .folder ∧ ¬ (∀ q, p <+: q → q ≠ p → d.find? q = none) ∧
        d.remove (rooted p) = .error ⟨"remove", rooted p, .notEmpty⟩) ∨
      ((d.find? p = some .folder → ∀ q, p <+: q → q ≠ p → d.find? q = none) ∧
        ∃ d', d.remove (rooted p) = .ok d' ∧ d'.IsTree ∧
          ∀ q, d'.find? q = if q = p then none else d.find? q) := by
  have hloc := locate_rooted htree hp hfolder
  have hgone : d.remove (rooted p) = .ok (d.clear p) →
      ∃ d', d.remove (rooted p) = .ok d' ∧ d'.IsTree ∧
        ∀ q, d'.find? q = if q = p then none else d.find? q := by
    intro hremoved
    refine ⟨_, hremoved, isTree_clear htree p, fun q => ?_⟩
    rw [find?_clear]
    by_cases hsame : q = p
    · rw [if_pos hsame, hsame, if_pos ⟨hne, List.prefix_refl p⟩]
    · rw [if_neg hsame]
      split
      next hbelow => exact (find?_below_removed htree (placeOf_rooted hp) hremoved hbelow.2 hsame).symm
      next => rfl
  cases hfind : d.find? p with
  | none =>
    left
    unfold remove
    simp only [hloc, hfind, and_self]
  | some e =>
    right
    cases e with
    | file text time =>
      right
      refine ⟨fun hfull => absurd hfull (by simp), hgone ?_⟩
      unfold remove
      simp only [hloc, hfind]
    | folder =>
      by_cases hempty : d.isEmptyAt p = true
      · right
        refine ⟨fun _ => (isEmptyAt_iff htree).1 hempty, hgone ?_⟩
        unfold remove
        simp only [hloc, hfind, hempty, if_true]
      · left
        refine ⟨rfl, fun hnone => hempty ((isEmptyAt_iff htree).2 hnone), ?_⟩
        unfold remove
        simp only [hloc, hfind, if_neg hempty]

/-- Removing everything below a place leaves nothing there. -/
theorem removeAll_touches (htree : d.IsTree) (hp : d.placeOf path = p) (folder : Place) :
    Touches (p <+: ·) folder d (d.removeAll path) := by
  unfold removeAll
  cases hloc : d.locate path with
  | error c => exact Touches.refl htree
  | ok q =>
    obtain rfl := (locate_eq_ok htree hloc).trans hp
    refine ⟨isTree_clear htree q, rfl, fun r hr => Or.inl ?_⟩
    rw [find?_clear, if_neg fun h => hr h.2]

end

/-! ## Making folders -/

theorem elements_append_slashes (s : Text) {t : Text} (h : ∀ c ∈ t, c = '/') :
    Path.elements (s ++ t) = Path.elements s := by
  induction t generalizing s with
  | nil => rw [List.append_nil]
  | cons c t ih =>
    have ht : ∀ c ∈ t, c = '/' := fun c hc => h c (List.mem_cons_of_mem _ hc)
    rw [h c (List.mem_cons_self ..), Path.elements_append_slash]
    exact (congrArg _ (ih [] ht)).trans (List.append_nil _)

/-- A path without the slashes at its end has the same elements. -/
theorem elements_bare (path : Text) :
    Path.elements (Text.trimRight (· = '/') path) = Path.elements path := by
  obtain ⟨tail, hpath, htail⟩ := Text.eq_trimRight_append (· = '/') path
  have hslashes : ∀ c ∈ tail, c = '/' := fun c hc => of_decide_eq_true (htail c hc)
  calc Path.elements (Text.trimRight (· = '/') path)
      = Path.elements (Text.trimRight (· = '/') path ++ tail) :=
        (elements_append_slashes _ hslashes).symm
    _ = Path.elements path := by rw [← hpath]

theorem parentPath_eq_ahead (path : Text) :
    parentPath path = Path.ahead (Text.trimRight (· = '/') path) := by
  rw [parentPath, Path.ahead, Text.trimRight, Text.trimRight, List.reverse_reverse]

theorem isRooted_bare {path : Text} (hne : Text.trimRight (· = '/') path ≠ []) :
    Path.isRooted (Text.trimRight (· = '/') path) = Path.isRooted path := by
  obtain ⟨tail, hpath, -⟩ := Text.eq_trimRight_append (· = '/') path
  rw [← Path.isRooted_append tail hne, ← hpath]

section

variable {d d' : Disk} {path : Text}

/-- A folder is made at the place of a path, when the walk to it sets out. -/
theorem makeFolder_eq_ok (htree : d.IsTree) (h : d.makeFolder path = .ok d') :
    d.find? (d.placeOf path) = none ∧ d.find? (d.placeOf path).dropLast = some .folder ∧
      d' = d.put (d.placeOf path) .folder ∧
      d.find? (if Path.isRooted path then [] else d.workFolder) = some .folder := by
  unfold makeFolder at h
  simp only at h
  cases hloc : d.locate (Text.trimRight (· = '/') path) with
  | error c => simp [hloc] at h
  | ok q =>
    have hbare : Text.trimRight (· = '/') path ≠ [] := by
      intro hnil
      rw [hnil] at hloc
      exact absurd hloc (by simp [locate])
    have hplace : q = d.placeOf path := by
      rw [locate_eq_ok htree hloc, placeOf, placeOf, Path.placeFrom, Path.placeFrom,
        isRooted_bare hbare, elements_bare]
    have hstart := start_of_locate hloc
    rw [isRooted_bare hbare] at hstart
    rw [← hplace]
    simp only [hloc] at h
    split at h
    next => exact absurd h (by simp)
    next hnone hfolder => exact ⟨hnone, hfolder, (Except.ok.inj h).symm, hstart⟩
    next => exact absurd h (by simp)
    next => exact absurd h (by simp)

theorem ne_nil_of_find? {p : Place} (h : d.find? p = none) : p ≠ [] :=
  fun hnil => absurd (hnil ▸ h) (by simp)

theorem makeFolder_touches (htree : d.IsTree) (h : d.makeFolder path = .ok d') :
    Touches (fun _ => False) (d.placeOf path) d d' := by
  obtain ⟨hnone, hfolder, rfl, -⟩ := makeFolder_eq_ok htree h
  have hne := ne_nil_of_find? hnone
  refine ⟨isTree_put htree hne (htree.names_placeOf path) hfolder fun _ => rfl, rfl, fun r _ => ?_⟩
  rw [find?_put d hne]
  split
  next heq => exact Or.inr ⟨heq ▸ List.prefix_refl _, heq ▸ hnone, rfl⟩
  next => exact Or.inl rfl

/-- No folder is made along steps up, for they lead to one. -/
theorem not_makeFolder_up (htree : d.IsTree) (hups : ∀ e ∈ Path.elements path, e = ['.', '.']) :
    d.makeFolder path ≠ .ok d' := by
  intro h
  -- the walk has set out from a folder, and all above it are folders
  obtain ⟨hnone, -, -, hstart⟩ := makeFolder_eq_ok htree h
  have habove : d.placeOf path <+: if Path.isRooted path then [] else d.workFolder := by
    unfold placeOf Path.placeFrom
    split
    next => exact Path.squash_up (List.forall_mem_nil _) hups
    next =>
      have hwork : Names d.workFolder.reverse := fun n hn => htree.work n (List.mem_reverse.1 hn)
      simpa using Path.squash_up hwork hups
  by_cases hsame : d.placeOf path = if Path.isRooted path then [] else d.workFolder
  · rw [hsame, hstart] at hnone
    exact absurd hnone (by simp)
  · rw [htree.folder_above hstart habove hsame] at hnone
    exact absurd hnone (by simp)

/-- The folder above is on the way, unless the path ends in a step up. -/
theorem placeOf_parentPath (d : Disk) (hne : parentPath path ≠ [])
    (hup : Path.UpFirst (Path.elements path)) :
    Path.UpFirst (Path.elements (parentPath path)) ∧
      ((∀ e ∈ Path.elements path, e = ['.', '.']) ∨
        d.placeOf (parentPath path) <+: d.placeOf path) := by
  have hparent := parentPath_eq_ahead path
  generalize hbare : Text.trimRight (· = '/') path = bare at hparent
  have hsplit : Path.elements path =
      Path.elements (parentPath path) ++ Path.elements (Path.lastPart bare) := by
    rw [hparent, ← Path.elements_eq_append_lastPart, ← hbare, elements_bare]
  rw [hsplit] at hup ⊢
  refine ⟨Path.upFirst_of_append hup, ?_⟩
  have hroot : Path.isRooted (parentPath path) = Path.isRooted path := by
    have hne' : bare ≠ [] := fun hnil => hne (by rw [hparent, hnil]; rfl)
    rw [hparent, Path.isRooted_ahead, ← hbare, isRooted_bare (hbare ▸ hne')]
  have hdown : Names (Path.elements (Path.lastPart bare)) →
      d.placeOf (parentPath path) <+: d.placeOf path := by
    intro hnames
    unfold placeOf Path.placeFrom
    rw [hroot, hsplit, Path.squash_append, Path.squash_down _ _ hnames, List.reverse_reverse]
    exact List.prefix_append ..
  have hone : Path.elements (Path.lastPart bare) = [] ∨
      Path.elements (Path.lastPart bare) = [Path.lastPart bare] := by
    rw [Path.elements, Text.splitOn_of_not_mem (Path.no_slash_lastPart bare), List.filter_cons]
    split
    next => exact Or.inr rfl
    next => exact Or.inl rfl
  rcases hone with hnone | hname
  · -- a dot leads to the same folder
    exact Or.inr (hdown (by rw [hnone]; exact List.forall_mem_nil _))
  · rcases Path.mem_elements (hname ▸ List.mem_singleton.2 rfl) with hlast | hdots
    · exact Or.inr (hdown (by rw [hname]; exact Path.names_singleton.2 hlast))
    · -- a step up at the end, so there was nothing else
      left
      rw [hname, hdots] at hup ⊢
      intro e he
      rcases List.mem_append.1 he with hfront | hback
      · exact Path.ups_of_upFirst hup e hfront
      · exact List.mem_singleton.1 hback

theorem makeFoldersWithin_touches {fuel : Nat} (htree : d.IsTree)
    (hup : Path.UpFirst (Path.elements path)) (h : makeFoldersWithin fuel d path = .ok d') :
    Touches (fun _ => False) (d.placeOf path) d d' := by
  induction fuel generalizing path d' with
  | zero => exact absurd h (by simp [makeFoldersWithin])
  | succ fuel ih =>
    unfold makeFoldersWithin at h
    split at h
    next => exact Except.ok.inj h ▸ Touches.refl htree
    next => exact absurd h (by simp)
    next =>
      simp only at h
      split at h
      next => exact makeFolder_touches htree h
      next hparent =>
        split at h
        next => exact absurd h (by simp)
        next d₁ hmade =>
          -- the folder above is made first, and then the folder in it
          obtain ⟨hup', hcase⟩ := placeOf_parentPath d (by simpa using hparent) hup
          have hfirst := ih hup' hmade
          rcases hcase with hups | habove
          · exact absurd h (not_makeFolder_up hfirst.tree hups)
          · have hlast := makeFolder_touches hfirst.tree h
            rw [hfirst.placeOf] at hlast
            have hwider : Touches (fun _ => False) (d.placeOf path) d d₁ :=
              hfirst.mono (fun _ hq => hq) fun q hq => Or.inr (hq.trans habove)
            exact hwider.trans hlast

/-- Making folders makes those on the way that are missing. -/
theorem makeFolders_touches {p : Place} (htree : d.IsTree) (hp : d.placeOf path = p)
    (hup : Path.UpFirst (Path.elements path)) (h : d.makeFolders path = .ok d') :
    Touches (fun _ => False) p d d' :=
  hp ▸ makeFoldersWithin_touches htree hup h

theorem makeFolders_of_folder {es : List Text} (htree : d.IsTree) (hes : Names es)
    (h : d.find? es = some .folder) : d.makeFolders (rooted es) = .ok d := by
  unfold makeFolders makeFoldersWithin
  simp only [(entryOf_rooted htree hes).2 h]

theorem makeFolders_made {es : List Text} (htree : d.IsTree) (hes : Names es)
    (h : d.makeFolders (rooted es) = .ok d') : d'.find? es = some .folder := by
  have hmade : ∀ {d₁ : Disk}, d₁.IsTree → d₁.makeFolder (rooted es) = .ok d' →
      d'.find? es = some .folder := by
    intro d₁ htree₁ hmake
    obtain ⟨hnone, -, rfl, -⟩ := makeFolder_eq_ok htree₁ hmake
    rw [placeOf_rooted hes] at hnone ⊢
    exact find?_put_self d₁ (ne_nil_of_find? hnone) _
  unfold makeFolders makeFoldersWithin at h
  split at h
  next hentry => exact Except.ok.inj h ▸ (entryOf_rooted htree hes).1 hentry
  next => exact absurd h (by simp)
  next =>
    simp only at h
    split at h
    next => exact hmade htree h
    next hne =>
      split at h
      next => exact absurd h (by simp)
      next hparent =>
        obtain ⟨hup, -⟩ := placeOf_parentPath d (by simpa using hne) (Path.upFirst_rooted hes)
        exact hmade (makeFoldersWithin_touches htree hup hparent).tree h

end

end Disk

end Docweave
