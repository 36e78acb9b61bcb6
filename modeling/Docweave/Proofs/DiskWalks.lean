import Docweave.Disk.Walk
import Docweave.Proofs.DiskTree

/-!
# Walks over a disk

What a folder lists is what stands right below it, in order, so two disks that
agree below a place list the same there. A walk keeps what every visit keeps,
also when visits change the disk, and it visits no place twice. When its visits
succeed it does, and then it has done at every place what visits do there. A walk
that only reads sees nothing of a disk but what stands below its root.

> `namesAt_congr`: a listing is given by the entries right below.

> `walk_keeps`: what visits keep is kept by a walk.

> `walk_visits`: a walk is a list of visits, to places below its root.

> `walk_ok`: a walk succeeds when its visits do, and folders are not too deep.

> `walk_reaches`: what is done at a place, when the walk has succeeded.

> `walk_agrees`: a walk that only reads, on two disks that agree below its root.
-/

namespace Docweave.Disk

open Docweave.Path (rooted Names IsName)

/-! ## Listings -/

/-- An entry, as the folder at a place lists it. -/
def listed? (p : Place) (x : Place × Entry) : Option (Text × Bool) :=
  match x.1.getLast? with
  | some name => if x.1.dropLast = p then some (name, x.2.isFolder) else none
  | none => none

theorem namesAt_eq (d : Disk) (p : Place) :
    d.namesAt p = (d.entries.filterMap (listed? p)).mergeSort fun a b => Text.le a.1 b.1 := rfl

theorem listed?_eq_some {p : Place} {x : Place × Entry} {n : Text} {b : Bool} :
    listed? p x = some (n, b) ↔ x.1 = p ++ [n] ∧ x.2.isFolder = b := by
  obtain ⟨q, e⟩ := x
  unfold listed?
  rcases List.eq_nil_or_concat q with rfl | ⟨front, name, rfl⟩
  · simp
  · simp only [List.concat_eq_append, List.getLast?_concat, List.dropLast_concat]
    split
    next hp => simp [hp]
    next hp =>
      refine ⟨fun h => absurd h (by simp), fun h => ?_⟩
      exact absurd (List.append_inj' h.1 rfl).1 hp

section

variable {d d' : Disk} {p : Place} {n : Text} {b : Bool}

theorem mem_namesAt (htree : d.IsTree) :
    (n, b) ∈ d.namesAt p ↔ ∃ e, d.find? (p ++ [n]) = some e ∧ e.isFolder = b := by
  rw [namesAt_eq, List.mem_mergeSort, List.mem_filterMap]
  constructor
  · rintro ⟨⟨q, e⟩, hmem, hlisted⟩
    obtain ⟨rfl, hb⟩ := listed?_eq_some.1 hlisted
    exact ⟨e, find?_of_mem htree (by simp) hmem, hb⟩
  · rintro ⟨e, hfind, hb⟩
    exact ⟨(p ++ [n], e), mem_of_find? (by simp) hfind, listed?_eq_some.2 ⟨rfl, hb⟩⟩

theorem isName_of_mem_namesAt (htree : d.IsTree) (h : (n, b) ∈ d.namesAt p) : IsName n := by
  obtain ⟨e, hfind, _⟩ := (mem_namesAt htree).1 h
  exact htree.names _ (mem_of_find? (by simp) hfind) n (by simp)

/-- No name is listed twice. -/
theorem nodup_names_listed (htree : d.IsTree) (p : Place) :
    ((d.entries.filterMap (listed? p)).map (·.1)).Nodup := by
  have hsub : ∀ l : List (Place × Entry),
      ((l.filterMap (listed? p)).map fun x => p ++ [x.1]).Sublist (l.map (·.1)) := by
    intro l
    induction l with
    | nil => exact List.Sublist.slnil
    | cons x l ih =>
      cases hx : listed? p x with
      | none =>
        rw [List.filterMap_cons_none hx, List.map_cons]
        exact ih.cons _
      | some y =>
        rw [List.filterMap_cons_some hx, List.map_cons, List.map_cons,
          (listed?_eq_some.1 (show listed? p x = some (y.1, y.2) from hx)).1]
        exact ih.cons_cons _
  have hplaces := htree.unique.sublist (hsub d.entries)
  rw [List.Nodup, List.pairwise_map] at hplaces ⊢
  exact hplaces.imp fun hne heq => hne (by rw [heq])

theorem nodup_listed (htree : d.IsTree) (p : Place) : (d.entries.filterMap (listed? p)).Nodup :=
  List.Pairwise.of_map _ (fun _ _ hne heq => hne (by rw [heq])) (nodup_names_listed htree p)

theorem nodup_namesAt (htree : d.IsTree) (p : Place) : ((d.namesAt p).map (·.1)).Nodup := by
  rw [namesAt_eq]
  exact ((List.mergeSort_perm _ _).map _).nodup_iff.2 (nodup_names_listed htree p)

theorem namesAt_sorted (d : Disk) (p : Place) :
    (d.namesAt p).Pairwise fun a b => Text.le a.1 b.1 = true := by
  rw [namesAt_eq]
  exact Text.mergeSort_sorted Prod.fst _

/-- Disks that agree right below a place list the same there. -/
theorem namesAt_congr (htree : d.IsTree) (htree' : d'.IsTree)
    (h : ∀ n, d'.find? (p ++ [n]) = d.find? (p ++ [n])) : d'.namesAt p = d.namesAt p := by
  have hmem : ∀ x, x ∈ d'.namesAt p ↔ x ∈ d.namesAt p := fun (n, b) => by
    rw [mem_namesAt htree, mem_namesAt htree', h n]
  refine List.Perm.eq_of_pairwise (fun x y hx hy hxy hyx => ?_) (namesAt_sorted d' p)
    (namesAt_sorted d p) ?_
  · -- two entries of one name are the same entry
    obtain ⟨m, b⟩ := x
    obtain ⟨n, c⟩ := y
    obtain rfl : m = n := List.le_antisymm (Text.le_iff.1 hxy) (Text.le_iff.1 hyx)
    obtain ⟨e, he, rfl⟩ := (mem_namesAt htree).1 ((hmem _).1 hx)
    obtain ⟨f, hf, rfl⟩ := (mem_namesAt htree).1 hy
    rw [Option.some.inj (he.symm.trans hf)]
  · have hperm := (List.perm_ext_iff_of_nodup (nodup_listed htree' p) (nodup_listed htree p)).2
      fun x => by rw [← List.mem_mergeSort, ← namesAt_eq, hmem, namesAt_eq, List.mem_mergeSort]
    exact (List.mergeSort_perm _ _).trans (hperm.trans (List.mergeSort_perm _ _).symm)

theorem listing_rooted (htree : d.IsTree) (hp : Names p) {names : List (Text × Bool)} :
    d.listing (rooted p) = .ok names ↔ d.find? p = some .folder ∧ names = d.namesAt p := by
  unfold listing
  constructor
  · intro h
    cases hloc : d.locate (rooted p) with
    | error c => simp [hloc] at h
    | ok q =>
      obtain rfl := (locate_eq_ok htree hloc).trans (placeOf_rooted hp)
      simp only [hloc] at h
      split at h
      next => exact absurd h (by simp)
      next => exact absurd h (by simp)
      next hfind => exact ⟨hfind, (Except.ok.inj h).symm⟩
  · rintro ⟨hfind, rfl⟩
    simp only [locate_rooted htree hp (htree.inFolder hfind), hfind]

end

/-! ## The ways a walk can go -/

section

variable {ε σ : Type} {disk : σ → Disk} {lift : DiskFault → ε}
  {visit : Text → Bool → WalkStep ε σ WalkNext}

/-- What a walk from a path comes to. The visit fails; or nothing is entered; or
the folder cannot be entered; or what it lists is walked one after the other. -/
inductive Walked (disk : σ → Disk) (lift : DiskFault → ε)
    (visit : Text → Bool → WalkStep ε σ WalkNext) :
    Nat → Text → Bool → σ → Except ε Unit × σ → Prop
  | failed {depth path b s e s'} (hvisit : visit path b s = (.error e, s')) :
      Walked disk lift visit depth path b s (.error e, s')
  | passed {depth path b s next s'} (hvisit : visit path b s = (.ok next, s'))
      (hstays : b = false ∨ next = .skip) : Walked disk lift visit depth path b s (.ok (), s')
  | tooDeep {path s s'} (hvisit : visit path true s = (.ok .enter, s')) :
      Walked disk lift visit 0 path true s (.error (lift ⟨"open", path, .tooDeep⟩), s')
  | unlisted {depth path s s' f} (hvisit : visit path true s = (.ok .enter, s'))
      (hlist : (disk s').listing path = .error f) :
      Walked disk lift visit (depth + 1) path true s (.error (lift f), s')
  | entered {depth path s s₁ names} (hvisit : visit path true s = (.ok .enter, s₁))
      (hlist : (disk s₁).listing path = .ok names) :
      Walked disk lift visit (depth + 1) path true s
        (walkEach (walkFrom disk lift visit depth) path names s₁)

theorem walked (disk : σ → Disk) (lift : DiskFault → ε)
    (visit : Text → Bool → WalkStep ε σ WalkNext) (depth : Nat) (path : Text) (b : Bool) (s : σ) :
    Walked disk lift visit depth path b s (walkFrom disk lift visit depth path b s) := by
  unfold walkFrom
  split
  next hvisit => exact .failed hvisit
  next next' s' hvisit =>
    split
    next hstays =>
      refine .passed hvisit ?_
      simpa only [Bool.or_eq_true, Bool.not_eq_true', decide_eq_true_eq] using hstays
    next hgo =>
      simp only [Bool.or_eq_true, Bool.not_eq_true', decide_eq_true_eq, not_or,
        Bool.not_eq_false] at hgo
      obtain ⟨rfl, hnext⟩ := hgo
      obtain rfl : next' = .enter := by
        cases next' with
        | enter => rfl
        | skip => exact absurd rfl hnext
      cases depth with
      | zero => exact .tooDeep hvisit
      | succ depth =>
        simp only
        split
        next hlist => exact .unlisted hvisit hlist
        next hlist => exact .entered hvisit hlist

/-! ## What a walk keeps -/

theorem walkEach_keeps {I : σ → Prop} {each : Text → Bool → WalkStep ε σ Unit} {dir : Text}
    {names : List (Text × Bool)}
    (h : ∀ x ∈ names, ∀ s, I s → I (each (Path.join dir x.1) x.2 s).2) {s : σ} (hs : I s) :
    I (walkEach each dir names s).2 := by
  induction names generalizing s with
  | nil => exact hs
  | cons x names ih =>
    have hfirst := h x (List.mem_cons_self ..) s hs
    obtain ⟨n, b⟩ := x
    unfold walkEach
    split
    next heq => rw [heq] at hfirst; exact hfirst
    next heq =>
      rw [heq] at hfirst
      exact ih (fun y hy => h y (List.mem_cons_of_mem _ hy)) hfirst

/-- A property of states that every visit keeps, when the places that a walk
comes to are all `Seen`. What is listed in a place that is entered is seen too. -/
structure KeptByVisits (disk : σ → Disk) (visit : Text → Bool → WalkStep ε σ WalkNext)
    (Kept : σ → Prop) (Seen : Place → Bool → Prop) : Prop where
  tree : ∀ {s}, Kept s → (disk s).IsTree
  names : ∀ {q b}, Seen q b → Names q
  kept : ∀ {q b s}, Seen q b → Kept s → Kept (visit (rooted q) b s).2
  entered : ∀ {q s}, Seen q true → Kept s → (visit (rooted q) true s).1.toOption = some .enter →
    ∀ x ∈ (disk (visit (rooted q) true s).2).namesAt q, Seen (q ++ [x.1]) x.2

section

variable {Kept : σ → Prop} {Seen : Place → Bool → Prop}

/-- What is listed where a walk enters: the names in the folder, with their
paths, all to be seen. -/
structure Listed (disk : σ → Disk) (Kept : σ → Prop) (Seen : Place → Bool → Prop) (q : Place) (s : σ)
    (names : List (Text × Bool)) : Prop where
  kept : Kept s
  folder : (disk s).find? q = some .folder
  names_eq : names = (disk s).namesAt q
  path : ∀ x ∈ names, Path.join (rooted q) x.1 = rooted (q ++ [x.1])
  seen : ∀ x ∈ names, Seen (q ++ [x.1]) x.2

theorem KeptByVisits.listed (h : KeptByVisits disk visit Kept Seen) {q : Place} {s s₁ : σ}
    {names : List (Text × Bool)} (hq : Seen q true) (hs : Kept s)
    (hvisit : visit (rooted q) true s = (.ok .enter, s₁))
    (hlist : (disk s₁).listing (rooted q) = .ok names) : Listed disk Kept Seen q s₁ names := by
  have hkept := h.kept hq hs
  have hseen := h.entered hq hs (by rw [hvisit]; rfl)
  rw [hvisit] at hkept hseen
  obtain ⟨hfolder, rfl⟩ := (listing_rooted (h.tree hkept) (h.names hq)).1 hlist
  refine ⟨hkept, hfolder, rfl, fun x hx => ?_, hseen⟩
  exact Path.join_rooted_name (h.names hq) (isName_of_mem_namesAt (h.tree hkept) hx)

theorem walkFrom_keeps (lift : DiskFault → ε) (h : KeptByVisits disk visit Kept Seen) :
    ∀ (depth : Nat) {q : Place} {b : Bool} {s : σ}, Seen q b → Kept s →
      Kept (walkFrom disk lift visit depth (rooted q) b s).2 := by
  intro depth
  induction depth with
  | zero =>
    intro q b s hq hs
    have hv := h.kept hq hs
    generalize hr : walkFrom disk lift visit 0 (rooted q) b s = r
    cases hr ▸ walked disk lift visit 0 (rooted q) b s with
    | failed hvisit => rw [hvisit] at hv; exact hv
    | passed hvisit => rw [hvisit] at hv; exact hv
    | tooDeep hvisit => rw [hvisit] at hv; exact hv
  | succ depth ih =>
    intro q b s hq hs
    have hv := h.kept hq hs
    generalize hr : walkFrom disk lift visit (depth + 1) (rooted q) b s = r
    cases hr ▸ walked disk lift visit (depth + 1) (rooted q) b s with
    | failed hvisit => rw [hvisit] at hv; exact hv
    | passed hvisit => rw [hvisit] at hv; exact hv
    | unlisted hvisit => rw [hvisit] at hv; exact hv
    | entered hvisit hlist =>
      have hlisted := h.listed hq hs hvisit hlist
      refine walkEach_keeps (fun x hx s' hs' => ?_) hlisted.kept
      rw [hlisted.path x hx]
      exact ih (hlisted.seen x hx) hs'

/-- **What visits keep is kept by a walk.** -/
theorem walk_keeps (lift : DiskFault → ε) (h : KeptByVisits disk visit Kept Seen) (root : Place) {s : σ}
    (hroot : ∀ e, (disk s).entryOf (rooted root) = .ok e → Seen root e.isFolder) (hs : Kept s) :
    Kept (walk disk lift visit (rooted root) s).2 := by
  unfold walk
  split
  next => exact hs
  next e hentry => exact walkFrom_keeps lift h maxDepth (hroot e hentry) hs

/-! ## What a walk visits -/

/-- The state behind visits, one after the other. -/
def visitAll (visit : Text → Bool → WalkStep ε σ WalkNext) : List (Place × Bool) → σ → σ
  | [], s => s
  | v :: vs, s => visitAll visit vs (visit (rooted v.1) v.2 s).2

theorem visitAll_append (us vs : List (Place × Bool)) (s : σ) :
    visitAll visit (us ++ vs) s = visitAll visit vs (visitAll visit us s) := by
  induction us generalizing s with
  | nil => rfl
  | cons u us ih => exact ih _

/-- Visits of places below one, of each once, and not too deep. -/
structure VisitsBelow (Seen : Place → Bool → Prop) (q : Place) (depth : Nat)
    (vs : List (Place × Bool)) : Prop where
  once : (vs.map (·.1)).Nodup
  seen : ∀ v ∈ vs, Seen v.1 v.2
  below : ∀ v ∈ vs, q <+: v.1
  depth : ∀ v ∈ vs, v.1.length ≤ q.length + depth

theorem visitsBelow_single {q : Place} {b : Bool} (hq : Seen q b) (depth : Nat) :
    VisitsBelow Seen q depth [(q, b)] where
  once := List.pairwise_singleton _ _
  seen v hv := List.mem_singleton.1 hv ▸ hq
  below v hv := List.mem_singleton.1 hv ▸ List.prefix_refl q
  depth v hv := by
    rw [List.mem_singleton.1 hv]
    exact Nat.le_add_right ..

/-- Places below two names are apart. -/
theorem name_of_prefix {q p : Place} {m n : Text} (hm : q ++ [m] <+: p) (hn : q ++ [n] <+: p) :
    m = n := by
  have hsame := List.prefix_of_prefix_length_le hm hn (by simp)
  have heq := List.append_cancel_left (hsame.eq_of_length (by simp))
  exact (List.cons.inj heq).1

theorem walkEach_visits {each : Text → Bool → WalkStep ε σ Unit} {q : Place} {depth : Nat}
    {names : List (Text × Bool)} (hnodup : (names.map (·.1)).Nodup)
    (hkeeps : ∀ x ∈ names, ∀ s, Kept s → Kept (each (Path.join (rooted q) x.1) x.2 s).2)
    (heach : ∀ x ∈ names, ∀ s, Kept s → ∃ vs, VisitsBelow Seen (q ++ [x.1]) depth vs ∧
      (each (Path.join (rooted q) x.1) x.2 s).2 = visitAll visit vs s) {s : σ} (hs : Kept s) :
    ∃ vs, VisitsBelow Seen q (depth + 1) vs ∧ (∀ v ∈ vs, ∃ x ∈ names, q ++ [x.1] <+: v.1) ∧
      (walkEach each (rooted q) names s).2 = visitAll visit vs s := by
  induction names generalizing s with
  | nil => exact ⟨[], ⟨List.nodup_nil, by simp, by simp, by simp⟩, by simp, rfl⟩
  | cons x names ih =>
    obtain ⟨us, hus, hfirst⟩ := heach x (List.mem_cons_self ..) s hs
    have hkept := hkeeps x (List.mem_cons_self ..) s hs
    have hwider : VisitsBelow Seen q (depth + 1) us := by
      refine ⟨hus.once, hus.seen, fun v hv => (List.prefix_append ..).trans (hus.below v hv), ?_⟩
      intro v hv
      have hlen := hus.depth v hv
      rw [List.length_append, List.length_singleton] at hlen
      omega
    obtain ⟨n, b⟩ := x
    unfold walkEach
    split
    next heq =>
      rw [heq] at hfirst
      exact ⟨us, hwider, fun v hv => ⟨_, List.mem_cons_self .., hus.below v hv⟩, hfirst⟩
    next heq =>
      rw [heq] at hfirst hkept
      rw [List.map_cons, List.nodup_cons] at hnodup
      obtain ⟨vs, hvs, hnames, hrest⟩ := ih hnodup.2
        (fun y hy => hkeeps y (List.mem_cons_of_mem _ hy))
        (fun y hy => heach y (List.mem_cons_of_mem _ hy)) hkept
      refine ⟨us ++ vs, ⟨?_, ?_, ?_, ?_⟩, ?_, ?_⟩
      · rw [List.map_append, List.nodup_append]
        refine ⟨hus.once, hvs.once, fun p hp p' hp' heq => ?_⟩
        -- a place below the first name is below no other
        obtain ⟨u, hu, rfl⟩ := List.mem_map.1 hp
        obtain ⟨v, hv, rfl⟩ := List.mem_map.1 hp'
        obtain ⟨y, hy, hbelow⟩ := hnames v hv
        have hsame := name_of_prefix (heq ▸ hus.below u hu) hbelow
        exact hnodup.1 (hsame ▸ List.mem_map_of_mem hy)
      · exact List.forall_mem_append.2 ⟨hwider.seen, hvs.seen⟩
      · exact List.forall_mem_append.2 ⟨hwider.below, hvs.below⟩
      · exact List.forall_mem_append.2 ⟨hwider.depth, hvs.depth⟩
      · refine List.forall_mem_append.2 ⟨fun v hv => ⟨_, List.mem_cons_self .., hus.below v hv⟩, ?_⟩
        intro v hv
        obtain ⟨y, hy, hbelow⟩ := hnames v hv
        exact ⟨y, List.mem_cons_of_mem _ hy, hbelow⟩
      · rw [visitAll_append, ← hfirst]
        exact hrest

theorem walkFrom_visits (lift : DiskFault → ε) (h : KeptByVisits disk visit Kept Seen) :
    ∀ (depth : Nat) {q : Place} {b : Bool} {s : σ}, Seen q b → Kept s →
      ∃ vs, VisitsBelow Seen q depth vs ∧
        (walkFrom disk lift visit depth (rooted q) b s).2 = visitAll visit vs s := by
  have hone : ∀ {depth : Nat} {q : Place} {b : Bool} {s : σ} {r : Except ε WalkNext} {s' : σ}, Seen q b →
      visit (rooted q) b s = (r, s') →
      ∃ vs, VisitsBelow Seen q depth vs ∧ s' = visitAll visit vs s := by
    intro depth q b s r s' hq hvisit
    refine ⟨[(q, b)], visitsBelow_single hq depth, ?_⟩
    show s' = (visit (rooted q) b s).2
    rw [hvisit]
  intro depth
  induction depth with
  | zero =>
    intro q b s hq hs
    generalize hr : walkFrom disk lift visit 0 (rooted q) b s = r
    cases hr ▸ walked disk lift visit 0 (rooted q) b s with
    | failed hvisit => exact hone hq hvisit
    | passed hvisit => exact hone hq hvisit
    | tooDeep hvisit => exact hone hq hvisit
  | succ depth ih =>
    intro q b s hq hs
    generalize hr : walkFrom disk lift visit (depth + 1) (rooted q) b s = r
    cases hr ▸ walked disk lift visit (depth + 1) (rooted q) b s with
    | failed hvisit => exact hone hq hvisit
    | passed hvisit => exact hone hq hvisit
    | unlisted hvisit => exact hone hq hvisit
    | @entered _ _ _ s₁ names hvisit hlist =>
      have hlisted := h.listed hq hs hvisit hlist
      have hnodup : (names.map (·.1)).Nodup := by
        rw [hlisted.names_eq]
        exact nodup_namesAt (h.tree hlisted.kept) q
      obtain ⟨vs, hvs, hnames, hwalk⟩ := walkEach_visits hnodup
        (fun x hx s' hs' => by
          rw [hlisted.path x hx]
          exact walkFrom_keeps lift h depth (hlisted.seen x hx) hs')
        (fun x hx s' hs' => by
          rw [hlisted.path x hx]
          exact ih (hlisted.seen x hx) hs') hlisted.kept
      refine ⟨(q, true) :: vs, ⟨?_, ?_, ?_, ?_⟩, ?_⟩
      · rw [List.map_cons, List.nodup_cons]
        refine ⟨fun hmem => ?_, hvs.once⟩
        -- what is listed is further down than the folder
        obtain ⟨v, hv, rfl⟩ := List.mem_map.1 hmem
        obtain ⟨x, -, hbelow⟩ := hnames v hv
        have hlen := hbelow.length_le
        rw [List.length_append, List.length_singleton] at hlen
        omega
      · exact List.forall_mem_cons.2 ⟨hq, hvs.seen⟩
      · exact List.forall_mem_cons.2 ⟨List.prefix_refl q, hvs.below⟩
      · exact List.forall_mem_cons.2 ⟨Nat.le_add_right .., hvs.depth⟩
      · rw [hwalk]
        show visitAll visit vs s₁ = visitAll visit vs (visit (rooted q) true s).2
        rw [hvisit]

/-- **A walk is a row of visits,** of places below its root, of each once. -/
theorem walk_visits (lift : DiskFault → ε) (h : KeptByVisits disk visit Kept Seen) (root : Place) {s : σ}
    (hroot : ∀ e, (disk s).entryOf (rooted root) = .ok e → Seen root e.isFolder) (hs : Kept s) :
    ∃ vs, VisitsBelow Seen root maxDepth vs ∧
      (walk disk lift visit (rooted root) s).2 = visitAll visit vs s := by
  unfold walk
  split
  next => exact ⟨[], ⟨List.nodup_nil, by simp, by simp, by simp⟩, rfl⟩
  next e hentry => exact walkFrom_visits lift h maxDepth (hroot e hentry) hs

/-! ## Walks that succeed -/

theorem walkEach_ok {each : Text → Bool → WalkStep ε σ Unit} {dir : Text} {names : List (Text × Bool)}
    (hkeeps : ∀ x ∈ names, ∀ s, Kept s → Kept (each (Path.join dir x.1) x.2 s).2)
    (hok : ∀ x ∈ names, ∀ s, Kept s → (each (Path.join dir x.1) x.2 s).1 = .ok ()) {s : σ} (hs : Kept s) :
    (walkEach each dir names s).1 = .ok () := by
  induction names generalizing s with
  | nil => rfl
  | cons x names ih =>
    have hfirst := hok x (List.mem_cons_self ..) s hs
    have hkept := hkeeps x (List.mem_cons_self ..) s hs
    obtain ⟨n, b⟩ := x
    unfold walkEach
    split
    next heq =>
      rw [heq] at hfirst
      exact absurd hfirst (by simp)
    next heq =>
      rw [heq] at hkept
      exact ih (fun y hy => hkeeps y (List.mem_cons_of_mem _ hy))
        (fun y hy => hok y (List.mem_cons_of_mem _ hy)) hkept

/-- Visits that all succeed, of folders that are still there and not too deep. -/
structure SafeVisits (disk : σ → Disk) (visit : Text → Bool → WalkStep ε σ WalkNext)
    (Kept : σ → Prop) (Seen : Place → Bool → Prop) (bound : Nat) : Prop where
  ok : ∀ {q b s}, Seen q b → Kept s → ∃ next, (visit (rooted q) b s).1 = .ok next
  folder : ∀ {q s}, Seen q true → Kept s → (disk (visit (rooted q) true s).2).find? q = some .folder
  depth : ∀ {q s}, Seen q true → Kept s → (visit (rooted q) true s).1 = .ok .enter → q.length < bound

theorem walkFrom_ok (lift : DiskFault → ε) (h : KeptByVisits disk visit Kept Seen) {bound : Nat}
    (hsafe : SafeVisits disk visit Kept Seen bound) :
    ∀ (depth : Nat) {q : Place} {b : Bool} {s : σ}, Seen q b → Kept s → bound ≤ q.length + depth →
      (walkFrom disk lift visit depth (rooted q) b s).1 = .ok () := by
  intro depth
  induction depth with
  | zero =>
    intro q b s hq hs hbound
    obtain ⟨next, hok⟩ := hsafe.ok hq hs
    generalize hr : walkFrom disk lift visit 0 (rooted q) b s = r
    cases hr ▸ walked disk lift visit 0 (rooted q) b s with
    | failed hvisit => rw [hvisit] at hok; exact absurd hok (by simp)
    | passed => rfl
    | tooDeep hvisit =>
      have hdepth := hsafe.depth hq hs (by rw [hvisit])
      omega
  | succ depth ih =>
    intro q b s hq hs hbound
    obtain ⟨next, hok⟩ := hsafe.ok hq hs
    generalize hr : walkFrom disk lift visit (depth + 1) (rooted q) b s = r
    cases hr ▸ walked disk lift visit (depth + 1) (rooted q) b s with
    | failed hvisit => rw [hvisit] at hok; exact absurd hok (by simp)
    | passed => rfl
    | unlisted hvisit hlist =>
      -- the folder is there, so it can be listed
      have hfolder := hsafe.folder hq hs
      have hkept := h.kept hq hs
      rw [hvisit] at hfolder hkept
      rw [(listing_rooted (h.tree hkept) (h.names hq)).2 ⟨hfolder, rfl⟩] at hlist
      exact absurd hlist (by simp)
    | entered hvisit hlist =>
      have hlisted := h.listed hq hs hvisit hlist
      refine walkEach_ok (fun x hx s' hs' => ?_) (fun x hx s' hs' => ?_) hlisted.kept
      · rw [hlisted.path x hx]
        exact walkFrom_keeps lift h depth (hlisted.seen x hx) hs'
      · rw [hlisted.path x hx]
        refine ih (hlisted.seen x hx) hs' ?_
        rw [List.length_append, List.length_singleton]
        omega

/-- **Safe visits make a walk that succeeds.** -/
theorem walk_ok (lift : DiskFault → ε) (h : KeptByVisits disk visit Kept Seen) {root : Place}
    (hsafe : SafeVisits disk visit Kept Seen (root.length + maxDepth)) {s : σ} {e : Entry}
    (hentry : (disk s).find? root = some e) (hroot : Seen root e.isFolder) (hs : Kept s) :
    (walk disk lift visit (rooted root) s).1 = .ok () := by
  unfold walk
  rw [(entryOf_rooted (h.tree hs) (h.names hroot)).2 hentry]
  exact walkFrom_ok lift h hsafe maxDepth hroot hs (Nat.le_refl _)

/-! ## Walks that reach everything -/

/-- Something that a visit does for the place it comes to, and for all below a
place that it passes; visits keep it, and where nothing stands it is done. -/
structure DoneByVisits (disk : σ → Disk) (visit : Text → Bool → WalkStep ε σ WalkNext)
    (Kept : σ → Prop) (Seen : Place → Bool → Prop) (Done : Place → σ → Prop) : Prop where
  stable : ∀ {q b s p}, Seen q b → Kept s → Done p s → Done p (visit (rooted q) b s).2
  here : ∀ {q b s next s'}, Seen q b → Kept s → visit (rooted q) b s = (.ok next, s') → Done q s'
  passed : ∀ {q b s next s' p}, Seen q b → Kept s → visit (rooted q) b s = (.ok next, s') →
    b = false ∨ next = .skip → q <+: p → Done p s'
  nothing : ∀ {s p}, Kept s → (disk s).find? p = none → Done p s

theorem KeptByVisits.and_done {Done : Place → σ → Prop} (h : KeptByVisits disk visit Kept Seen)
    (hdone : DoneByVisits disk visit Kept Seen Done) (p : Place) :
    KeptByVisits disk visit (fun s => Kept s ∧ Done p s) Seen where
  tree hs := h.tree hs.1
  names := h.names
  kept hq hs := ⟨h.kept hq hs.1, hdone.stable hq hs.1 hs.2⟩
  entered hq hs := h.entered hq hs.1

theorem walkEach_reaches {each : Text → Bool → WalkStep ε σ Unit} {dir : Text} {P : σ → Prop}
    {names : List (Text × Bool)} {x : Text × Bool} (hx : x ∈ names)
    (hkeeps : ∀ y ∈ names, ∀ s, Kept s → Kept (each (Path.join dir y.1) y.2 s).2)
    (hreaches : ∀ s s', Kept s → each (Path.join dir x.1) x.2 s = (.ok (), s') → P s')
    (hstable : ∀ y ∈ names, ∀ s, Kept s ∧ P s → P (each (Path.join dir y.1) y.2 s).2) {s s' : σ}
    (hs : Kept s) (h : walkEach each dir names s = (.ok (), s')) : P s' := by
  induction names generalizing s with
  | nil => exact absurd hx (by simp)
  | cons y names ih =>
    have hkept := hkeeps y (List.mem_cons_self ..) s hs
    have hrest : ∀ z ∈ names, ∀ s, Kept s → Kept (each (Path.join dir z.1) z.2 s).2 :=
      fun z hz => hkeeps z (List.mem_cons_of_mem _ hz)
    obtain ⟨n, b⟩ := y
    unfold walkEach at h
    split at h
    next => exact absurd (Prod.mk.inj h).1 (by simp)
    next s₁ heq =>
      rw [heq] at hkept
      rcases List.mem_cons.1 hx with rfl | hmem
      · -- reached now, and kept by the rest
        have hboth : Kept (walkEach each dir names s₁).2 ∧ P (walkEach each dir names s₁).2 :=
          walkEach_keeps (I := fun s => Kept s ∧ P s)
            (fun z hz s hs => ⟨hrest z hz s hs.1, hstable z (List.mem_cons_of_mem _ hz) s hs⟩)
            ⟨hkept, hreaches s s₁ hs heq⟩
        rw [h] at hboth
        exact hboth.2
      · exact ih hmem hrest (fun z hz => hstable z (List.mem_cons_of_mem _ hz)) hkept h

theorem walkFrom_reaches (lift : DiskFault → ε) {Done : Place → σ → Prop}
    (h : KeptByVisits disk visit Kept Seen) (hdone : DoneByVisits disk visit Kept Seen Done) :
    ∀ (depth : Nat) {q p : Place} {b : Bool} {s s' : σ}, Seen q b → Kept s → q <+: p →
      walkFrom disk lift visit depth (rooted q) b s = (.ok (), s') → Done p s' := by
  intro depth
  induction depth with
  | zero =>
    intro q p b s s' hq hs hp hr
    cases hr ▸ walked disk lift visit 0 (rooted q) b s with
    | passed hvisit hstays => exact hdone.passed hq hs hvisit hstays hp
  | succ depth ih =>
    intro q p b s s' hq hs hp hr
    generalize hres : (Except.ok (), s') = res at hr
    cases hr ▸ walked disk lift visit (depth + 1) (rooted q) b s with
    | failed => exact absurd (Prod.mk.inj hres).1 (by simp)
    | unlisted => exact absurd (Prod.mk.inj hres).1 (by simp)
    | passed hvisit hstays =>
      obtain ⟨-, rfl⟩ := Prod.mk.inj hres
      exact hdone.passed hq hs hvisit hstays hp
    | @entered _ _ _ s₁ names hvisit hlist =>
      have hlisted := h.listed hq hs hvisit hlist
      have hkeeps : ∀ x ∈ names, ∀ s, Kept s →
          Kept (walkFrom disk lift visit depth (Path.join (rooted q) x.1) x.2 s).2 := by
        intro x hx s hs
        rw [hlisted.path x hx]
        exact walkFrom_keeps lift h depth (hlisted.seen x hx) hs
      have hstable : ∀ x ∈ names, ∀ s, Kept s ∧ Done p s →
          Done p (walkFrom disk lift visit depth (Path.join (rooted q) x.1) x.2 s).2 := by
        intro x hx s hs
        rw [hlisted.path x hx]
        exact (walkFrom_keeps lift (h.and_done hdone p) depth (hlisted.seen x hx) hs).2
      have hlater : Done p s₁ → Done p s' := by
        intro hnow
        have hboth := walkEach_keeps (I := fun s => Kept s ∧ Done p s)
          (fun x hx s hs => ⟨hkeeps x hx s hs.1, hstable x hx s hs⟩) ⟨hlisted.kept, hnow⟩
        rw [← hres] at hboth
        exact hboth.2
      obtain ⟨rest, rfl⟩ := hp
      cases rest with
      | nil =>
        rw [List.append_nil] at hlater ⊢
        exact hlater (hdone.here hq hs hvisit)
      | cons n rest =>
        cases hfind : (disk s₁).find? (q ++ n :: rest) with
        | none => exact hlater (hdone.nothing hlisted.kept hfind)
        | some e =>
          -- what stands below is below a name that is listed
          have hsplit : q ++ n :: rest = q ++ [n] ++ rest := List.append_cons ..
          obtain ⟨e', he'⟩ : ∃ e', (disk s₁).find? (q ++ [n]) = some e' := by
            by_cases hnil : rest = []
            · exact ⟨e, by rw [hnil] at hfind; exact hfind⟩
            · rw [hsplit] at hfind
              refine ⟨_, (h.tree hlisted.kept).folder_above hfind (List.prefix_append ..) ?_⟩
              intro heq
              exact hnil (List.self_eq_append_right.1 heq)
          have hmem : (n, e'.isFolder) ∈ names := by
            rw [hlisted.names_eq]
            exact (mem_namesAt (h.tree hlisted.kept)).2 ⟨e', he', rfl⟩
          refine walkEach_reaches hmem hkeeps (fun s s' hs hwalk => ?_) hstable hlisted.kept hres.symm
          rw [hlisted.path _ hmem] at hwalk
          refine ih (hlisted.seen _ hmem) hs ?_ hwalk
          rw [hsplit]
          exact List.prefix_append ..

/-- **A walk that succeeds has reached everything below its root.** -/
theorem walk_reaches (lift : DiskFault → ε) {Done : Place → σ → Prop}
    (h : KeptByVisits disk visit Kept Seen) (hdone : DoneByVisits disk visit Kept Seen Done)
    {root p : Place} {s s' : σ} (hroot : ∀ e, (disk s).entryOf (rooted root) = .ok e → Seen root e.isFolder)
    (hs : Kept s) (hp : root <+: p) (hwalk : walk disk lift visit (rooted root) s = (.ok (), s')) :
    Done p s' := by
  unfold walk at hwalk
  split at hwalk
  next => exact absurd (Prod.mk.inj hwalk).1 (by simp)
  next e hentry => exact walkFrom_reaches lift h hdone maxDepth (hroot e hentry) hs hp hwalk

end

end

/-! ## Walks that only read -/

section

variable {ε α : Type} {visit : Text → Bool → WalkStep ε (Disk × α) WalkNext} {d d' : Disk}

/-- A visit that leaves the disk alone and does not look at it. -/
def OnlyReads (visit : Text → Bool → WalkStep ε (Disk × α) WalkNext) : Prop :=
  ∀ path b x, ∃ r x', ∀ d, visit path b (d, x) = (r, (d, x'))

/-- A step that does the same on two disks, and leaves both alone. -/
def Agrees (d d' : Disk) (step : WalkStep ε (Disk × α) Unit) : Prop :=
  ∀ x, ∃ r x', step (d, x) = (r, (d, x')) ∧ step (d', x) = (r, (d', x'))

theorem walkEach_agrees {each : Text → Bool → WalkStep ε (Disk × α) Unit} {dir : Text}
    {names : List (Text × Bool)} (h : ∀ y ∈ names, Agrees d d' (each (Path.join dir y.1) y.2)) :
    Agrees d d' (walkEach each dir names) := by
  induction names with
  | nil => exact fun x => ⟨.ok (), x, rfl, rfl⟩
  | cons y names ih =>
    intro x
    obtain ⟨r, x', hfirst, hfirst'⟩ := h y (List.mem_cons_self ..) x
    obtain ⟨n, b⟩ := y
    unfold walkEach
    simp only [hfirst, hfirst']
    cases r with
    | error f => exact ⟨.error f, x', rfl, rfl⟩
    | ok u => exact ih (fun z hz => h z (List.mem_cons_of_mem _ hz)) x'

theorem walkFrom_agrees (lift : DiskFault → ε) (hreads : OnlyReads visit) {root : Place} (htree : d.IsTree)
    (htree' : d'.IsTree) (hsame : ∀ q, root <+: q → d'.find? q = d.find? q) :
    ∀ (depth : Nat) {q : Place} {e : Entry}, root <+: q → Names q → d.find? q = some e →
      Agrees d d' (walkFrom (·.1) lift visit depth (rooted q) e.isFolder) := by
  intro depth
  induction depth with
  | zero =>
    intro q e _ _ _ x
    obtain ⟨r, x', hvisit⟩ := hreads (rooted q) e.isFolder x
    unfold walkFrom
    simp only [hvisit]
    cases r with
    | error f => exact ⟨.error f, x', rfl, rfl⟩
    | ok next =>
      simp only
      split
      next => exact ⟨.ok (), x', rfl, rfl⟩
      next => exact ⟨_, x', rfl, rfl⟩
  | succ depth ih =>
    intro q e hq hnames hfind x
    obtain ⟨r, x', hvisit⟩ := hreads (rooted q) e.isFolder x
    unfold walkFrom
    simp only [hvisit]
    cases r with
    | error f => exact ⟨.error f, x', rfl, rfl⟩
    | ok next =>
      simp only
      split
      next => exact ⟨.ok (), x', rfl, rfl⟩
      next hgo =>
        obtain rfl : e = .folder := by
          cases e with
          | folder => rfl
          | file t m => exact absurd hgo (by simp [Entry.isFolder])
        -- both list the same, and below each name the walks do the same
        have hlist := (listing_rooted htree hnames).2 ⟨hfind, rfl⟩
        have hbelow : ∀ n, d'.find? (q ++ [n]) = d.find? (q ++ [n]) := fun n =>
          hsame _ (hq.trans (List.prefix_append q [n]))
        have hlist' : d'.listing (rooted q) = .ok (d.namesAt q) :=
          (listing_rooted htree' hnames).2
            ⟨(hsame q hq).trans hfind, (namesAt_congr htree htree' hbelow).symm⟩
        simp only [hlist, hlist']
        refine walkEach_agrees (fun y hy => ?_) x'
        obtain ⟨n, b⟩ := y
        have hn := isName_of_mem_namesAt htree hy
        obtain ⟨e', hfind', rfl⟩ := (mem_namesAt htree).1 hy
        rw [Path.join_rooted_name hnames hn]
        exact ih (hq.trans (List.prefix_append q [n]))
          (Path.names_append.2 ⟨hnames, Path.names_singleton.2 hn⟩) hfind'

/-- **A walk that only reads sees what stands below its root.** -/
theorem walk_agrees (lift : DiskFault → ε) (hreads : OnlyReads visit) {root : Place} (hnames : Names root)
    (htree : d.IsTree) (htree' : d'.IsTree) (hsame : ∀ q, root <+: q → d'.find? q = d.find? q)
    {e : Entry} (hroot : d.find? root = some e) :
    Agrees d d' (walk (·.1) lift visit (rooted root)) := by
  have hentry := (entryOf_rooted htree hnames).2 hroot
  have hentry' := (entryOf_rooted htree' hnames).2 ((hsame root (List.prefix_refl root)).trans hroot)
  intro x
  unfold walk
  simp only [hentry, hentry']
  exact walkFrom_agrees lift hreads htree htree' hsame maxDepth (List.prefix_refl root) hnames hroot x

end

end Docweave.Disk
