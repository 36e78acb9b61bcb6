import Docweave.Path
import Docweave.Proofs.TextLaws

/-!
# Paths from the root

A clean path from the root is the same as the list of the names on it:
`rooted` writes the names down and `elements` reads them back. In this form
the operations on paths are operations on lists.

> `clean_rooted`: a path that is written from names is clean.

> `join_rooted`: joining walks on from the names in front.

> `relative?_rooted`: the way down to a path below is the rest of its names.

> `relative?_outside`: the way to any other path leads out of the folder.
-/

namespace Docweave.Path

open Docweave.Text

/-! ## Names -/

/-- A name of a file or folder. `.` and `..` stand for other folders. -/
structure IsName (n : Text) : Prop where
  ne_nil : n ≠ []
  no_slash : '/' ∉ n
  ne_dot : n ≠ ['.']
  ne_dots : n ≠ ['.', '.']

instance (n : Text) : Decidable (IsName n) :=
  decidable_of_iff (n ≠ [] ∧ '/' ∉ n ∧ n ≠ ['.'] ∧ n ≠ ['.', '.'])
    ⟨fun ⟨h₁, h₂, h₃, h₄⟩ => ⟨h₁, h₂, h₃, h₄⟩, fun h => ⟨h.1, h.2, h.3, h.4⟩⟩

/-- Names one below the other. -/
abbrev Names (es : List Text) : Prop := ∀ n ∈ es, IsName n

theorem names_append {es fs : List Text} : Names (es ++ fs) ↔ Names es ∧ Names fs :=
  List.forall_mem_append

theorem names_singleton {n : Text} : Names [n] ↔ IsName n := List.forall_mem_singleton

/-- A name with something behind it that is longer than dots. -/
theorem isName_append {n s : Text} (hn : '/' ∉ n) (hs : '/' ∉ s) (hlen : 2 < s.length) :
    IsName (n ++ s) where
  ne_nil h := by
    have := congrArg List.length h
    simp only [List.length_append, List.length_nil] at this
    omega
  no_slash h := (List.mem_append.1 h).elim hn hs
  ne_dot h := by
    have := congrArg List.length h
    simp only [List.length_append, List.length_singleton] at this
    omega
  ne_dots h := by
    have := congrArg List.length h
    simp only [List.length_append, List.length_cons, List.length_nil] at this
    omega

/-! ## Writing names down and reading them back -/

/-- The path from the root along names. -/
def rooted (es : List Text) : Text := ofElements true es

@[simp] theorem isRooted_rooted (es : List Text) : isRooted (rooted es) = true := rfl

theorem isRooted_append {s : Text} (t : Text) (h : s ≠ []) : isRooted (s ++ t) = isRooted s := by
  cases s with
  | nil => exact absurd rfl h
  | cons c s => rfl

theorem rooted_ne_nil (es : List Text) : rooted es ≠ [] := List.cons_ne_nil _ _

theorem elements_append_slash (s t : Text) : elements (s ++ '/' :: t) = elements s ++ elements t := by
  rw [elements, splitOn_append_cons, List.filter_append]
  rfl

theorem elements_join {es : List Text} (h : ∀ e ∈ es, IsName e ∨ e = ['.', '.']) :
    elements (Text.join "/" es) = es := by
  have hpart : ∀ e ∈ es, '/' ∉ e ∧ e ≠ [] ∧ e ≠ ['.'] := by
    intro e he
    rcases h e he with hname | rfl
    · exact ⟨hname.no_slash, hname.ne_nil, hname.ne_dot⟩
    · decide
  by_cases hne : es = []
  · rw [hne]
    rfl
  · have hparts : splitOn '/' (Text.join "/" es) = es := splitOn_join hne fun e he => (hpart e he).1
    rw [elements, hparts, List.filter_eq_self]
    intro e he
    simp [(hpart e he).2]

theorem elements_names {es : List Text} (h : Names es) : elements (Text.join "/" es) = es :=
  elements_join fun n hn => Or.inl (h n hn)

theorem elements_rooted {es : List Text} (h : Names es) : elements (rooted es) = es :=
  (elements_append_slash [] _).trans (elements_names h)

theorem rooted_inj {es fs : List Text} (hes : Names es) (hfs : Names fs) (h : rooted es = rooted fs) :
    es = fs := by
  rw [← elements_rooted hes, h, elements_rooted hfs]

/-- An element is a name, or leads to the folder above. -/
theorem mem_elements {p e : Text} (h : e ∈ elements p) : IsName e ∨ e = ['.', '.'] := by
  obtain ⟨hsplit, hkept⟩ := List.mem_filter.1 h
  simp only [Bool.and_eq_true, Bool.not_eq_true', List.isEmpty_eq_false_iff, decide_eq_true_eq] at hkept
  by_cases hdots : e = ['.', '.']
  · exact Or.inr hdots
  · exact Or.inl ⟨hkept.1, not_mem_of_mem_splitOn hsplit, hkept.2, hdots⟩

theorem rooted_append_singleton (es : List Text) (n s : Text) :
    rooted (es ++ [n ++ s]) = rooted (es ++ [n]) ++ s :=
  congrArg ('/' :: ·) (join_concat_append "/" es n s)

/-! ## Clean paths -/

/-- Names are walked one after the other. -/
theorem squash_names (rooted : Bool) (front : List Text) {es : List Text} (rest : List Text)
    (h : Names es) : squash rooted front (es ++ rest) = squash rooted (es.reverse ++ front) rest := by
  induction es generalizing front with
  | nil => rfl
  | cons n es ih =>
    have hstep : squash rooted front (n :: (es ++ rest)) = squash rooted (n :: front) (es ++ rest) := by
      rw [squash.eq_def]
      exact if_neg (h n (List.mem_cons_self ..)).ne_dots
    rw [List.cons_append, hstep, ih _ fun m hm => h m (List.mem_cons_of_mem _ hm),
      List.reverse_cons, List.append_assoc]
    rfl

theorem squash_down (rooted : Bool) (front : List Text) {es : List Text} (h : Names es) :
    squash rooted front es = front.reverse ++ es := by
  rw [← List.append_nil es, squash_names rooted front [] h, squash, List.reverse_append,
    List.reverse_reverse, List.append_nil]

theorem squash_append (rooted : Bool) (front es fs : List Text) :
    squash rooted front (es ++ fs) = squash rooted (squash rooted front es).reverse fs := by
  fun_induction squash rooted front es with
  | case1 front => rw [List.nil_append, List.reverse_reverse]
  | case2 es hroot ih => simpa [squash, hroot] using ih
  | case3 es hroot ih => simpa [squash, hroot] using ih
  | case4 es fs' ih => simpa [squash] using ih
  | case5 es f fs' hf ih => simpa [squash, hf] using ih
  | case6 front e es he ih => simpa [squash, he] using ih

/-- From the root there is no way above it, so only names are left. -/
theorem names_squash {front es : List Text} (hfront : Names front)
    (hes : ∀ e ∈ es, IsName e ∨ e = ['.', '.']) : Names (squash true front es) := by
  fun_induction squash true front es with
  | case1 front => exact fun n hn => hfront n (List.mem_reverse.1 hn)
  | case2 es _ ih => exact ih hfront fun e he => hes e (List.mem_cons_of_mem _ he)
  | case3 es hroot => exact absurd rfl hroot
  | case4 es fs ih => exact absurd rfl (hfront _ (List.mem_cons_self ..)).ne_dots
  | case5 es f fs hf ih =>
    exact ih (fun n hn => hfront n (List.mem_cons_of_mem _ hn))
      fun e he => hes e (List.mem_cons_of_mem _ he)
  | case6 front e es he ih =>
    refine ih (fun n hn => ?_) fun e he => hes e (List.mem_cons_of_mem _ he)
    rcases List.mem_cons.1 hn with rfl | hn'
    · exact (hes n (List.mem_cons_self ..)).resolve_right he
    · exact hfront n hn'

theorem clean_rooted {es : List Text} (h : Names es) : clean (rooted es) = rooted es := by
  rw [clean, isRooted_rooted, elements_rooted h, squash_down true [] h]
  rfl

/-- A clean path from the root. -/
structure IsCleanRooted (p : Text) : Prop where
  isRooted : isRooted p = true
  clean : clean p = p

instance (p : Text) : Decidable (IsCleanRooted p) :=
  decidable_of_iff (isRooted p = true ∧ clean p = p) ⟨fun ⟨h₁, h₂⟩ => ⟨h₁, h₂⟩, fun h => ⟨h.1, h.2⟩⟩

theorem isCleanRooted_rooted {es : List Text} (h : Names es) : IsCleanRooted (rooted es) :=
  ⟨isRooted_rooted es, clean_rooted h⟩

theorem clean_of_isRooted {p : Text} (h : isRooted p = true) :
    ∃ es, Names es ∧ clean p = rooted es :=
  ⟨squash true [] (elements p), names_squash (List.forall_mem_nil _) fun _ => mem_elements,
    by rw [clean, h]; rfl⟩

theorem clean_clean {p : Text} (h : isRooted p = true) : clean (clean p) = clean p := by
  obtain ⟨es, hes, heq⟩ := clean_of_isRooted h
  rw [heq, clean_rooted hes]

theorem IsCleanRooted.exists_names {p : Text} (h : IsCleanRooted p) :
    ∃ es, Names es ∧ p = rooted es := h.clean ▸ clean_of_isRooted h.isRooted

/-- The path is below a folder other than the root, going by their texts. -/
def liesBelow (folder p : Text) : Bool := startsWith p (folder ++ "/")

theorem liesBelow_iff {folder p : Text} :
    liesBelow folder p = true ↔ ∃ rest, p = folder ++ '/' :: rest := by
  rw [liesBelow, startsWith, Option.isSome_iff_exists]
  simp only [dropPrefix?_eq_some, List.append_assoc]
  rfl

theorem liesBelow_rooted {es fs : List Text} (hne : es ≠ []) (hes : Names es) (hfs : Names fs) :
    liesBelow (rooted es) (rooted fs) = true ↔ ∃ rest, rest ≠ [] ∧ fs = es ++ rest := by
  rw [liesBelow_iff]
  constructor
  · rintro ⟨tail, htail⟩
    have helements : fs = es ++ elements tail := by
      rw [← elements_rooted hfs, htail, elements_append_slash, elements_rooted hes]
    refine ⟨elements tail, fun hnil => ?_, helements⟩
    -- the path would be the folder, with a slash behind it
    rw [helements, hnil, List.append_nil] at htail
    exact absurd (List.self_eq_append_right.1 htail) (by simp)
  · rintro ⟨rest, hrest, rfl⟩
    refine ⟨Text.join "/" rest, congrArg ('/' :: ·) ?_⟩
    rw [Text.join_append _ hne hrest, List.append_assoc]
    rfl

/-! ## Joining -/

theorem join_eq_clean {dir p : Text} (hdir : dir ≠ []) :
    join dir p = if p = [] then clean dir else clean (dir ++ '/' :: p) := by
  unfold join joinAll
  cases dir with
  | nil => exact absurd rfl hdir
  | cons c dir =>
    by_cases hp : p = []
    · simp [hp, Text.join]
    · have hempty : p.isEmpty = false := by simpa using hp
      simp [hp, hempty, Text.join]

theorem join_of_isRooted {dir : Text} (h : isRooted dir = true) (p : Text) :
    join dir p = rooted (squash true [] (elements dir ++ elements p)) := by
  have hne : dir ≠ [] := fun hnil => absurd (hnil ▸ h) (by decide)
  rw [join_eq_clean hne]
  by_cases hp : p = []
  · rw [if_pos hp, hp, clean, h, show elements [] = [] from rfl, List.append_nil]
    rfl
  · rw [if_neg hp, clean, isRooted_append _ hne, h, elements_append_slash]
    rfl

/-- A path below one from the root is walked from the names in front. -/
theorem join_rooted {es : List Text} (h : Names es) (p : Text) :
    join (rooted es) p = rooted (squash true es.reverse (elements p)) := by
  rw [join_of_isRooted (isRooted_rooted es), elements_rooted h, squash_names true [] _ h,
    List.append_nil]

theorem join_rooted_names {es fs : List Text} (hes : Names es) (hfs : Names fs) :
    join (rooted es) (Text.join "/" fs) = rooted (es ++ fs) := by
  rw [join_rooted hes, elements_names hfs, squash_down _ _ hfs, List.reverse_reverse]

theorem join_rooted_name {es : List Text} {n : Text} (hes : Names es) (hn : IsName n) :
    join (rooted es) n = rooted (es ++ [n]) :=
  show join (rooted es) (Text.join "/" [n]) = _ from join_rooted_names hes (names_singleton.2 hn)

/-- The last name stands behind the last slash. -/
theorem exists_front_rooted {es : List Text} (hes : Names es) (n : Text) :
    ∃ front, rooted (es ++ [n]) = front ++ '/' :: n ∧ elements front = es := by
  by_cases hne : es = []
  · exact ⟨[], by rw [hne]; rfl, hne.symm⟩
  · refine ⟨rooted es, ?_, elements_rooted hes⟩
    rw [rooted, ofElements, if_pos rfl, Text.join_concat _ hne, List.append_assoc]
    rfl

/-! ## The way down -/

theorem dropCommon_append (es fs : List Text) : dropCommon es (es ++ fs) = ([], fs) := by
  induction es with
  | nil => cases fs <;> rfl
  | cons e es ih => rw [List.cons_append, dropCommon, if_pos rfl, ih]

/-- The way from a path from the root down to one below it. -/
theorem relative?_rooted {es fs : List Text} (hes : Names es) (hfs : Names fs) :
    relative? (rooted es) (rooted (es ++ fs)) = some (if fs = [] then ['.'] else Text.join "/" fs) := by
  have hboth : Names (es ++ fs) := names_append.2 ⟨hes, hfs⟩
  unfold relative?
  simp only [clean_rooted hes, clean_rooted hboth]
  by_cases hnil : fs = []
  · rw [hnil, List.append_nil, if_pos rfl, if_pos rfl]
    rfl
  · have hne : rooted es ≠ rooted (es ++ fs) := by
      intro h
      exact hnil (List.self_eq_append_right.1 (rooted_inj hes hboth h))
    have hdot : rooted es ≠ ['.'] := fun h => absurd (List.cons.inj h).1 (by decide)
    have hdown : fs ≠ [['.']] := by
      rintro rfl
      exact (hfs _ (List.mem_singleton.2 rfl)).ne_dot rfl
    have hcommon : dropCommon (words (rooted es)) (words (rooted (es ++ fs))) = ([], fs) := by
      unfold words
      rw [isRooted_rooted, isRooted_rooted, if_pos rfl, if_pos rfl, elements_rooted hes,
        elements_rooted hboth]
      exact dropCommon_append ([] :: es) fs
    rw [if_neg hne, if_neg (by simp [hdot]), if_neg hdot, hcommon]
    simp [hdown, hnil]

/-- What is left of two lists when the words are dropped that they share in front. -/
theorem dropCommon_spec (bs ts : List Text) :
    ∃ common, bs = common ++ (dropCommon bs ts).1 ∧ ts = common ++ (dropCommon bs ts).2 := by
  fun_induction dropCommon bs ts with
  | case1 bs b ts ih =>
    obtain ⟨common, hbs, hts⟩ := ih
    exact ⟨b :: common, congrArg (b :: ·) hbs, congrArg (b :: ·) hts⟩
  | case2 => exact ⟨[], rfl, rfl⟩
  | case3 => exact ⟨[], rfl, rfl⟩

theorem leavesDir_up (es : List Text) : leavesDir (Text.join "/" (['.', '.'] :: es)) = true := by
  cases es with
  | nil => rfl
  | cons e es =>
    unfold leavesDir
    rw [Bool.or_eq_true]
    refine Or.inr (Option.isSome_iff_exists.2 ⟨Text.join "/" (e :: es), ?_⟩)
    exact dropPrefix?_eq_some.2 rfl

/-- The way from a path from the root to one that is not below it. -/
theorem relative?_outside {es fs : List Text} (hes : Names es) (hfs : Names fs) (hout : ¬ es <+: fs) :
    ∃ rel, relative? (rooted es) (rooted fs) = some rel ∧ leavesDir rel = true := by
  have hne : rooted es ≠ rooted fs := fun h => hout (rooted_inj hes hfs h ▸ List.prefix_refl es)
  have hdot : rooted es ≠ ['.'] := fun h => absurd (List.cons.inj h).1 (by decide)
  have hboth : dropCommon (words (rooted es)) (words (rooted fs)) = dropCommon es fs := by
    unfold words
    rw [isRooted_rooted, isRooted_rooted, if_pos rfl, if_pos rfl, elements_rooted hes,
      elements_rooted hfs, dropCommon, if_pos rfl]
  obtain ⟨common, hup, hdown⟩ := dropCommon_spec es fs
  generalize dropCommon es fs = rest at hboth hup hdown
  obtain ⟨up, down⟩ := rest
  cases up with
  | nil =>
    -- nothing to leave, so the path is below
    rw [List.append_nil] at hup
    exact absurd ⟨down, by rw [hup]; exact hdown.symm⟩ hout
  | cons u up =>
    have hu : u ≠ ['.', '.'] := (hes u (hup ▸ by simp)).ne_dots
    refine ⟨_, ?_, leavesDir_up (List.replicate up.length ['.', '.'] ++
      if down = [['.']] then [] else down)⟩
    unfold relative?
    simp only [clean_rooted hes, clean_rooted hfs]
    rw [if_neg hne, if_neg (by simp [hdot]), if_neg hdot, hboth]
    simp only [List.head?_cons, Option.some.injEq, hu, decide_false, Bool.false_and]
    rfl

/-- Only where the folder is counts, not how its path is written. -/
theorem relative?_of_clean {dir : Text} {es : List Text} (hes : Names es) (hdir : clean dir = rooted es)
    (p : Text) : relative? dir p = relative? (rooted es) p := by
  unfold relative?
  rw [hdir, clean_rooted hes]

/-- A path that leads out of its folder does so at once. -/
theorem elements_of_leavesDir {p : Text} (h : leavesDir p = true) :
    (elements p).head? = some ['.', '.'] := by
  unfold leavesDir at h
  rw [Bool.or_eq_true, decide_eq_true_eq] at h
  rcases h with rfl | hstart
  · rfl
  · obtain ⟨r, hr⟩ := Option.isSome_iff_exists.1 hstart
    rw [dropPrefix?_eq_some.1 hr]
    exact congrArg List.head? (elements_append_slash ['.', '.'] r)

theorem not_leavesDir_join {es : List Text} (h : Names es) : leavesDir (Text.join "/" es) = false := by
  rw [← Bool.not_eq_true]
  intro hleaves
  have hhead := elements_of_leavesDir hleaves
  rw [elements_names h] at hhead
  exact (h _ (List.mem_of_head? hhead)).ne_dots rfl

end Docweave.Path
