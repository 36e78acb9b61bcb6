import Docweave.Proofs.RootedPaths

/-!
# The places that paths name

A path names a place by its text alone. From the root, or from the folder that
relative paths start in, its elements are walked one after the other, and `..`
goes back up (`placeFrom`). How the path is written does not matter: a clean
path names the same place, and goes up first if it goes up at all.

> `placeFrom_clean`: cleaning a path does not move it.

> `upFirst_clean`: a clean path goes up first, and from there only down.

> `placeFrom_lastPart`: what stands behind the last slash is the last name.
-/

namespace Docweave.Path

open Docweave.Text

/-! ## Walking up and down -/

/-- The place that a path names. A relative one starts in a folder. -/
def placeFrom (folder : List Text) (p : Text) : List Text :=
  squash true (if isRooted p then [] else folder.reverse) (elements p)

theorem placeFrom_rooted (folder : List Text) {es : List Text} (hes : Names es) :
    placeFrom folder (rooted es) = es := by
  rw [placeFrom, isRooted_rooted, if_pos rfl, elements_rooted hes, squash_down true [] hes]
  rfl

theorem names_placeFrom {folder : List Text} (hfolder : Names folder) (p : Text) :
    Names (placeFrom folder p) := by
  refine names_squash ?_ fun e he => mem_elements he
  split
  next => exact List.forall_mem_nil _
  next => exact fun n hn => hfolder n (List.mem_reverse.1 hn)

/-- Steps up lead to a place above. -/
theorem squash_up {front es : List Text} (hfront : Names front) (h : ∀ e ∈ es, e = ['.', '.']) :
    squash true front es <+: front.reverse := by
  induction es generalizing front with
  | nil => exact List.prefix_refl _
  | cons e es ih =>
    have hes : ∀ e ∈ es, e = ['.', '.'] := fun e he => h e (List.mem_cons_of_mem _ he)
    rw [h e (List.mem_cons_self ..)]
    cases front with
    | nil => exact ih (List.forall_mem_nil _) hes
    | cons f front =>
      obtain ⟨hf, hfront⟩ := List.forall_mem_cons.1 hfront
      have hpop : squash true (f :: front) (['.', '.'] :: es) = squash true front es := by
        rw [squash, if_pos rfl]
        exact if_neg hf.ne_dots
      rw [hpop, List.reverse_cons]
      exact (ih hfront hes).trans (List.prefix_append ..)

/-- Walking along what is left of a walk is walking all of it. From the root
there must be nothing that a step up could still leave. -/
theorem squash_squash {rooted : Bool} (front : List Text) (hroot : rooted = true → front = [])
    (done es : List Text) :
    squash true front (squash rooted done es) = squash true front (done.reverse ++ es) := by
  fun_induction squash rooted done es with
  | case1 done => rw [List.append_nil]
  | case2 es h ih =>
    -- above the root there is nothing
    rw [ih, hroot h]
    simp [squash]
  | case3 es h ih => exact ih
  | case4 es done ih =>
    rw [ih, List.reverse_cons, List.append_assoc]
    rfl
  | case5 es f done hf ih =>
    -- a name that is walked down and up again
    have hback : ∀ front, squash true front (f :: ['.', '.'] :: es) = squash true front es := by
      intro front
      simp [squash, hf]
    rw [ih, List.reverse_cons, List.append_assoc, List.singleton_append, squash_append,
      squash_append true front _ (f :: _), hback]
  | case6 done e es he ih =>
    rw [ih, List.reverse_cons, List.append_assoc]
    rfl

/-! ## Clean paths -/

theorem mem_squash {rooted : Bool} {done es : List Text} {e : Text} (h : e ∈ squash rooted done es) :
    e ∈ done ∨ e ∈ es := by
  fun_induction squash rooted done es with
  | case1 done => exact Or.inl (List.mem_reverse.1 h)
  | case2 es _ ih => exact (ih h).imp_right (List.mem_cons_of_mem _)
  | case3 es _ ih => grind
  | case4 es done ih => grind
  | case5 es f done _ ih => grind
  | case6 done e' es _ ih => grind

theorem elements_ofElements {rooted : Bool} {es : List Text} (h : ∀ e ∈ es, IsName e ∨ e = ['.', '.']) :
    elements (ofElements rooted es) = es := by
  unfold ofElements
  split
  next => exact (elements_append_slash [] _).trans (elements_join h)
  next =>
    split
    next hnil =>
      rw [List.isEmpty_iff.1 hnil]
      rfl
    next => exact elements_join h

theorem isRooted_of_no_slash {p : Text} (h : '/' ∉ p) : isRooted p = false := by
  cases p with
  | nil => rfl
  | cons c p =>
    have hc : c ≠ '/' := fun heq => h (heq ▸ List.mem_cons_self ..)
    simpa [isRooted] using hc

theorem isRooted_ofElements (rooted : Bool) {es : List Text}
    (h : ∀ e ∈ es, IsName e ∨ e = ['.', '.']) : isRooted (ofElements rooted es) = rooted := by
  unfold ofElements
  cases rooted with
  | true => rfl
  | false =>
    cases es with
    | nil => rfl
    | cons e es =>
      obtain ⟨hne, hslash⟩ : e ≠ [] ∧ '/' ∉ e := by
        rcases h e (List.mem_cons_self ..) with hname | rfl
        · exact ⟨hname.ne_nil, hname.no_slash⟩
        · decide
      cases es with
      | nil => exact isRooted_of_no_slash hslash
      | cons f es =>
        have hfirst : isRooted (e ++ "/" ++ Text.join "/" (f :: es)) = isRooted e := by
          rw [List.append_assoc]
          exact isRooted_append _ hne
        exact hfirst.trans (isRooted_of_no_slash hslash)

theorem cleaned (p : Text) : ∀ e ∈ squash (isRooted p) [] (elements p), IsName e ∨ e = ['.', '.'] :=
  fun _ he => mem_elements ((mem_squash he).resolve_left List.not_mem_nil)

theorem elements_clean (p : Text) : elements (clean p) = squash (isRooted p) [] (elements p) :=
  elements_ofElements (cleaned p)

theorem isRooted_clean (p : Text) : isRooted (clean p) = isRooted p := isRooted_ofElements _ (cleaned p)

/-- **Cleaning a path does not move it.** -/
theorem placeFrom_clean (folder : List Text) (p : Text) :
    placeFrom folder (clean p) = placeFrom folder p := by
  unfold placeFrom
  rw [isRooted_clean, elements_clean]
  exact squash_squash _ (fun hroot => if_pos hroot) [] (elements p)

/-- Elements that lead up first, and from there only down. -/
inductive UpFirst : List Text → Prop
  | down {es : List Text} (h : Names es) : UpFirst es
  | up {es : List Text} (h : UpFirst es) : UpFirst (['.', '.'] :: es)

theorem upFirst_of_append {es fs : List Text} (h : UpFirst (es ++ fs)) : UpFirst es := by
  induction es with
  | nil => exact .down (List.forall_mem_nil _)
  | cons e es ih =>
    cases h with
    | down h => exact .down (names_append.1 h).1
    | up h => exact .up (ih h)

/-- Elements that end in a step up do nothing else. -/
theorem ups_of_upFirst {es : List Text} (h : UpFirst (es ++ [['.', '.']])) :
    ∀ e ∈ es, e = ['.', '.'] := by
  induction es with
  | nil => exact List.forall_mem_nil _
  | cons e es ih =>
    cases h with
    | down h => exact absurd rfl (h ['.', '.'] (by simp)).ne_dots
    | up h => exact List.forall_mem_cons.2 ⟨rfl, ih h⟩

theorem upFirst_of_ups {es : List Text} (h : ∀ e ∈ es, e = ['.', '.']) : UpFirst es := by
  induction es with
  | nil => exact .down (List.forall_mem_nil _)
  | cons e es ih =>
    obtain ⟨rfl, hes⟩ := List.forall_mem_cons.1 h
    exact .up (ih hes)

theorem UpFirst.concat {es : List Text} (h : UpFirst es) {n : Text} (hn : IsName n) :
    UpFirst (es ++ [n]) := by
  induction h with
  | down h => exact .down (names_append.2 ⟨h, names_singleton.2 hn⟩)
  | up _ ih => exact .up ih

theorem upFirst_squash {done es : List Text} (hdone : UpFirst done.reverse)
    (hes : ∀ e ∈ es, IsName e ∨ e = ['.', '.']) : UpFirst (squash false done es) := by
  fun_induction squash false done es with
  | case1 done => exact hdone
  | case2 es h => exact absurd h (by simp)
  | case3 es _ ih => exact ih (.up hdone) fun e he => hes e (List.mem_cons_of_mem _ he)
  | case4 es done ih =>
    -- only steps up so far, and one more
    refine ih (upFirst_of_ups fun e he => ?_) fun e he => hes e (List.mem_cons_of_mem _ he)
    rw [List.reverse_cons] at hdone
    have hups := ups_of_upFirst hdone
    rw [List.mem_reverse, List.mem_cons, List.mem_cons] at he
    rcases he with rfl | rfl | he
    · rfl
    · rfl
    · exact hups e (List.mem_reverse.2 he)
  | case5 es f done _ ih =>
    rw [List.reverse_cons] at hdone
    exact ih (upFirst_of_append hdone) fun e he => hes e (List.mem_cons_of_mem _ he)
  | case6 done e es he ih =>
    refine ih ?_ fun e he => hes e (List.mem_cons_of_mem _ he)
    rw [List.reverse_cons]
    exact hdone.concat ((hes e (List.mem_cons_self ..)).resolve_right he)

theorem upFirst_clean (p : Text) : UpFirst (elements (clean p)) := by
  rw [elements_clean]
  cases isRooted p with
  | true =>
    -- no step up is left behind the root
    exact .down (names_squash (List.forall_mem_nil _) fun e he => mem_elements he)
  | false => exact upFirst_squash (.down (List.forall_mem_nil _)) fun e he => mem_elements he

theorem upFirst_rooted {es : List Text} (hes : Names es) : UpFirst (elements (rooted es)) := by
  rw [elements_rooted hes]
  exact .down hes

/-! ## The last name -/

/-- The path up to and with its last slash. -/
def ahead (p : Text) : Text := trimRight (· ≠ '/') p

/-- What stands behind the last slash. -/
def lastPart (p : Text) : Text := (p.reverse.takeWhile (· ≠ '/')).reverse

theorem ahead_append_lastPart (p : Text) : ahead p ++ lastPart p = p := by
  rw [ahead, trimRight, lastPart, ← List.reverse_append, List.takeWhile_append_dropWhile,
    List.reverse_reverse]

theorem no_slash_lastPart (p : Text) : '/' ∉ lastPart p := by
  intro hmem
  have hall := List.all_eq_true.1 (List.all_takeWhile (p := fun c => decide (c ≠ '/')) (l := p.reverse))
  exact absurd (hall _ (List.mem_reverse.1 hmem)) (by simp)

theorem ahead_append {s : Text} (p : Text) (hs : '/' ∉ s) : ahead (p ++ s) = ahead p := by
  rw [ahead, trimRight, List.reverse_append, List.dropWhile_append_of_pos]
  · rfl
  · intro c hc
    have hne : c ≠ '/' := fun heq => hs (heq ▸ List.mem_reverse.1 hc)
    simpa using hne

theorem lastPart_append {s : Text} (p : Text) (hs : '/' ∉ s) : lastPart (p ++ s) = lastPart p ++ s := by
  have hboth := ahead_append_lastPart (p ++ s)
  rw [ahead_append p hs] at hboth
  refine List.append_cancel_left (hboth.trans ?_)
  rw [← List.append_assoc, ahead_append_lastPart]

theorem lastPart_slash_append (p : Text) {s : Text} (hs : '/' ∉ s) : lastPart (p ++ '/' :: s) = s := by
  rw [List.append_cons, lastPart_append _ hs, lastPart, List.reverse_concat,
    List.takeWhile_cons_of_neg (by simp)]
  rfl

theorem not_endsWith_slash {p : Text} (h : lastPart p ≠ []) : endsWith p "/" = false := by
  rw [← Bool.not_eq_true, endsWith_iff]
  rintro ⟨r, rfl⟩
  exact h (lastPart_slash_append r (s := []) (by simp))

theorem ahead_cases (p : Text) : ahead p = [] ∨ ∃ front, ahead p = front ++ ['/'] := by
  cases hcut : p.reverse.dropWhile (fun c => decide (c ≠ '/')) with
  | nil =>
    left
    rw [ahead, trimRight, hcut]
    rfl
  | cons c rest =>
    right
    have hhead := List.head?_dropWhile_not (fun c => decide (c ≠ '/')) p.reverse
    rw [hcut] at hhead
    obtain rfl : c = '/' := by simpa using hhead
    exact ⟨rest.reverse, by rw [ahead, trimRight, hcut, List.reverse_cons]⟩

theorem elements_name {n : Text} (hn : IsName n) : elements n = [n] :=
  show elements (Text.join "/" [n]) = [n] from elements_names (names_singleton.2 hn)

theorem placeFrom_name (folder : List Text) {n : Text} (hn : IsName n) :
    placeFrom folder n = folder ++ [n] := by
  rw [placeFrom, isRooted_of_no_slash hn.no_slash, if_neg (by simp), elements_name hn,
    squash_down true _ (names_singleton.2 hn), List.reverse_reverse]

/-- What is no name is nothing, or leads to the folder itself or the one above. -/
theorem no_name_cases {n : Text} (hslash : '/' ∉ n) (hn : ¬ IsName n) :
    n = [] ∨ n = ['.'] ∨ n = ['.', '.'] := by
  by_cases hempty : n = []
  · exact Or.inl hempty
  · by_cases hdot : n = ['.']
    · exact Or.inr (Or.inl hdot)
    · by_cases hdots : n = ['.', '.']
      · exact Or.inr (Or.inr hdots)
      · exact absurd ⟨hempty, hslash, hdot, hdots⟩ hn

/-- A step up leads to the folder above. -/
theorem placeFrom_dots {folder : List Text} (hfolder : Names folder) :
    placeFrom folder ['.', '.'] = folder.dropLast := by
  show squash true folder.reverse [['.', '.']] = folder.dropLast
  rcases List.eq_nil_or_concat folder with rfl | ⟨front, f, rfl⟩
  · rfl
  · rw [List.concat_eq_append] at hfolder ⊢
    have hf := hfolder f (by simp)
    rw [List.dropLast_concat, List.reverse_concat, squash, if_pos rfl]
    show (if f = ['.', '.'] then _ else squash true front.reverse []) = front
    rw [if_neg hf.ne_dots, squash, List.reverse_reverse]

/-- Without a name there is the folder, or the folder above. -/
theorem placeFrom_no_name {folder : List Text} (hfolder : Names folder) {n : Text} (hslash : '/' ∉ n)
    (hn : ¬ IsName n) : placeFrom folder n = folder ∨ placeFrom folder n = folder.dropLast := by
  rcases no_name_cases hslash hn with rfl | rfl | rfl
  · exact Or.inl (List.reverse_reverse folder)
  · exact Or.inl (List.reverse_reverse folder)
  · exact Or.inr (placeFrom_dots hfolder)

theorem elements_eq_append_lastPart (p : Text) :
    elements p = elements (ahead p) ++ elements (lastPart p) := by
  have hboth := ahead_append_lastPart p
  rcases ahead_cases p with hnil | ⟨front, hfront⟩
  · rw [hnil] at hboth ⊢
    exact congrArg elements hboth.symm
  · rw [hfront] at hboth ⊢
    have hcut := elements_append_slash front (lastPart p)
    rw [List.append_cons, hboth] at hcut
    rw [hcut, elements_append_slash front [], show elements [] = [] from rfl, List.append_nil]

theorem isRooted_ahead (p : Text) : isRooted (ahead p) = isRooted p := by
  have hboth := ahead_append_lastPart p
  by_cases hnil : ahead p = []
  · -- no slash at all, so none in front
    have hslash := no_slash_lastPart p
    rw [hnil, List.nil_append] at hboth
    rw [hboth] at hslash
    rw [hnil, isRooted_of_no_slash hslash]
    rfl
  · rw [← isRooted_append (lastPart p) hnil, hboth]

/-- **The last name of a place** stands behind the last slash of the path. -/
theorem placeFrom_lastPart (folder : List Text) {p : Text} (h : IsName (lastPart p)) :
    placeFrom folder p = placeFrom folder (ahead p) ++ [lastPart p] := by
  unfold placeFrom
  rw [isRooted_ahead, elements_eq_append_lastPart, elements_name h, squash_append,
    squash_down true _ (names_singleton.2 h), List.reverse_reverse]

theorem dir_eq_clean_ahead (p : Text) : dir p = clean (ahead p) := rfl

theorem lastPart_ofElements (rooted : Bool) (es : List Text) {n : Text} (hn : '/' ∉ n) :
    lastPart (ofElements rooted (es ++ [n])) = n := by
  have hbehind : ofElements rooted (es ++ [n]) = n ∨
      ∃ front, ofElements rooted (es ++ [n]) = front ++ '/' :: n := by
    unfold ofElements
    by_cases hne : es = []
    · rw [hne]
      cases rooted with
      | true => exact Or.inr ⟨[], rfl⟩
      | false => exact Or.inl rfl
    · right
      rw [Text.join_concat _ hne]
      cases rooted with
      | true => exact ⟨'/' :: Text.join "/" es, by simp⟩
      | false => exact ⟨Text.join "/" es, by simp⟩
  rcases hbehind with hbare | ⟨front, hfront⟩
  · rw [hbare]
    exact lastPart_append [] hn
  · rw [hfront, lastPart_slash_append front hn]

theorem nil_join {p : Text} (hp : p ≠ []) : join [] p = clean p := by
  cases p with
  | nil => exact absurd rfl hp
  | cons c p => rfl

/-- Joining keeps the last name. -/
theorem lastPart_join (dir : Text) {es : List Text} {n : Text} (h : Names (es ++ [n])) :
    lastPart (join dir (Text.join "/" (es ++ [n]))) = n := by
  obtain ⟨hes, hn⟩ := names_append.1 h
  have hslash := (names_singleton.1 hn).no_slash
  have hclean : ∀ p front, elements p = front ++ (es ++ [n]) → lastPart (clean p) = n := by
    intro p front helements
    rw [clean, helements, squash_append, squash_down _ _ h, ← List.append_assoc]
    exact lastPart_ofElements _ _ hslash
  have hne : Text.join "/" (es ++ [n]) ≠ [] := by
    intro hnil
    have := elements_names h
    rw [hnil] at this
    exact absurd this (by simp [elements])
  by_cases hdir : dir = []
  · rw [hdir, nil_join hne]
    exact hclean _ [] (elements_names h)
  · rw [join_eq_clean hdir, if_neg hne]
    refine hclean _ (elements dir) ?_
    rw [elements_append_slash, elements_names h]

end Docweave.Path
