import Docweave.Proofs.HiddenText

/-!
# Lines of script and style blocks

The content of a script or a style is not Markdown, and the scan for indented
code and code spans leaves its lines alone: from the line that opens the
element to the first line with its closing tag, the state of the scan says
that the element is open (`raw_stays_open`), and such lines are kept
(`getElem?_hideCode_of_kept`). The scan for fences comes before, and knows
nothing of elements; a run of back quotes or tildes at the start of a line
opens a fence inside a script too.

> `raw_block_left_alone`: the lines of an element lose what stands in a fence,
> and nothing else. Without a fence among them they are unchanged.
-/

namespace Docweave.Source

open Text

/-! ## The states of the two scans -/

/-- The fence that is open below a line. -/
def fenceBelow (fence line : Text) : Text :=
  if fence.isEmpty then fenceMarker (line.dropWhile (· = ' '))
  else if closesFence (line.dropWhile (· = ' ')) fence then [] else fence

/-- The fence that is open below some lines, empty if there is none. -/
def openFence (ls : List Text) : Text := ls.foldl fenceBelow []

/-- Line `k` is part of a fence: one is open above it, or the line opens one. -/
def InFence (ls : List Text) (k : Nat) : Prop :=
  openFence (ls.take k) ≠ [] ∨ ∃ l, ls[k]? = some l ∧ fenceMarker (l.dropWhile (· = ' ')) ≠ []

/-- What the scan for indented code and code spans knows below some lines. -/
def stateBelow (ls : List Text) : LineState := ls.foldl (fun s l => (lineRole s l).2) {}

theorem fencedLines_cons (fence l : Text) (ls : List Text) :
    fencedLines fence (l :: ls) =
      (!fence.isEmpty || !(fenceMarker (l.dropWhile (· = ' '))).isEmpty) ::
        fencedLines (fenceBelow fence l) ls := by
  rw [fencedLines, fenceBelow]
  cases fence.isEmpty <;> rfl

theorem getElem?_fencedLines (fence : Text) (ls : List Text) (k : Nat) :
    (fencedLines fence ls)[k]? = ls[k]?.map fun l =>
      !((ls.take k).foldl fenceBelow fence).isEmpty ||
        !(fenceMarker (l.dropWhile (· = ' '))).isEmpty := by
  induction ls generalizing fence k with
  | nil => rfl
  | cons l ls ih =>
    rw [fencedLines_cons]
    cases k with
    | zero => rfl
    | succ k => exact ih (fenceBelow fence l) k

/-- The fenced lines are those that are part of a fence. -/
theorem fencedLines_eq_true_iff {ls : List Text} {k : Nat} (hk : k < ls.length) :
    (fencedLines [] ls)[k]? = some true ↔ InFence ls k := by
  rw [getElem?_fencedLines, InFence, List.getElem?_eq_getElem hk]
  simp [openFence]

theorem getElem?_lineRoles (s : LineState) (ls : List Text) (k : Nat) :
    (lineRoles s ls)[k]? = ls[k]?.map fun l =>
      ((lineRole ((ls.take k).foldl (fun s l => (lineRole s l).2) s) l).1, l) := by
  induction ls generalizing s k with
  | nil => rfl
  | cons l ls ih =>
    cases k with
    | zero => rfl
    | succ k => exact ih (lineRole s l).2 k

/-! ## Lines that are kept -/

theorem length_flush {para : List Text} (h : ∀ l ∈ para, '\n' ∉ l) :
    (hideLines.flush para).length = para.length := by
  rw [← (hides_flush h).length_eq, List.length_reverse]

/-- A line that is kept stays, whatever paragraphs stand above it. -/
theorem getElem?_hideLines_of_kept (para : List Text) {roles : List (LineRole × Text)}
    (hpara : ∀ l ∈ para, '\n' ∉ l) (hroles : ∀ p ∈ roles, '\n' ∉ p.2) {k : Nat} {l : Text}
    (hk : roles[k]? = some (.kept, l)) : (hideLines para roles)[para.length + k]? = some l := by
  fun_induction hideLines para roles generalizing k with
  | case1 para => exact absurd hk (by simp)
  | case2 para p roles ih =>
    cases k with
    | zero => exact absurd hk (by simp)
    | succ k =>
      have hp := hroles _ (List.mem_cons_self ..)
      have h := ih (List.forall_mem_cons.2 ⟨hp, hpara⟩)
        (fun q hq => hroles q (List.mem_cons_of_mem _ hq)) hk
      rwa [List.length_cons, Nat.add_right_comm] at h
  | case3 para p roles ih =>
    rw [List.getElem?_append_right (by rw [length_flush hpara]; omega), length_flush hpara,
      Nat.add_sub_cancel_left]
    cases k with
    | zero => exact absurd hk (by simp)
    | succ k =>
      have h := ih (by simp) (fun q hq => hroles q (List.mem_cons_of_mem _ hq)) hk
      rwa [List.length_nil, Nat.zero_add] at h
  | case4 para p roles ih =>
    rw [List.getElem?_append_right (by rw [length_flush hpara]; omega), length_flush hpara,
      Nat.add_sub_cancel_left]
    cases k with
    | zero =>
      obtain ⟨_, rfl⟩ := Prod.mk.inj (Option.some.inj hk)
      rfl
    | succ k =>
      have h := ih (by simp) (fun q hq => hroles q (List.mem_cons_of_mem _ hq)) hk
      rwa [List.length_nil, Nat.zero_add] at h

/-- A line in a state in which it is kept is not touched behind the fences. -/
theorem getElem?_hideCode_of_kept {s l : Text} {k : Nat} (hl : (lines (hideFences s))[k]? = some l)
    (hrole : (lineRole (stateBelow ((lines (hideFences s)).take k)) l).1 = .kept) :
    (lines (hideCode s))[k]? = some l := by
  have hk : (lineRoles {} (lines (hideFences s)))[k]? = some (.kept, l) := by
    rw [getElem?_lineRoles, hl, ← hrole]
    rfl
  have hkept := getElem?_hideLines_of_kept [] (by simp) (fun p hp => ?_) hk
  · rwa [List.length_nil, Nat.zero_add, ← lines_hideCode] at hkept
  · refine not_mem_of_mem_lines (t := hideFences s) ?_
    rw [← lineRoles_lines {} (lines (hideFences s))]
    exact List.mem_map_of_mem hp

/-! ## Lines that open an element -/

theorem closingTag?_head {e : RawElement} {c : Char} {t : Text}
    (h : (closingTag? e (c :: t)).isSome = true) : c = '<' := by
  by_contra hc
  have hnone : dropPrefix? "</" (c :: t) = none := by
    show (if '<' = c then _ else none) = none
    rw [if_neg fun he => hc he.symm]
  unfold closingTag? at h
  rw [hnone] at h
  exact absurd h (by simp)

/-- A closing tag has an angle bracket. -/
theorem bracket_mem_of_holdsClosingTag {e : RawElement} {t : Text}
    (h : holdsClosingTag e t = true) : '<' ∈ t := by
  induction t with
  | nil => exact absurd h (by simp [holdsClosingTag])
  | cons c t ih =>
    rw [holdsClosingTag, Bool.or_eq_true] at h
    rcases h with h | h
    · rw [closingTag?_head h]
      exact List.mem_cons_self ..
    · exact List.mem_cons_of_mem _ (ih h)

theorem holdsClosingTag_spaces (e : RawElement) (n : Nat) :
    holdsClosingTag e (spaces n) = false := by
  rw [← Bool.not_eq_true]
  intro h
  exact absurd (List.eq_of_mem_replicate (bracket_mem_of_holdsClosingTag h)) (by decide)

theorem indentWidth_go_spaces (w n : Nat) (c : Char) (t : Text) (hc : c ≠ ' ') (htab : c ≠ '\t') :
    indentWidth.go w (spaces n ++ c :: t) = w + n := by
  induction n generalizing w with
  | zero =>
    show indentWidth.go w (c :: t) = w
    unfold indentWidth.go
    split
    next heq => exact absurd (List.cons.inj heq).1 hc
    next heq => exact absurd (List.cons.inj heq).1 htab
    next => rfl
  | succ n ih =>
    show indentWidth.go (w + 1) (spaces n ++ c :: t) = _
    rw [ih]
    omega

/-- A line that opens an element: at most three spaces, and a bracket. -/
theorem rawOpening?_eq_some {l : Text} {e : RawElement} (h : rawOpening? l = some e) :
    ∃ n t, n ≤ 3 ∧ l = spaces n ++ '<' :: t := by
  unfold rawOpening? at h
  simp only at h
  split at h
  next => exact absurd h (by simp)
  next hindent =>
    split at h
    next => exact absurd h (by simp)
    next t ht =>
      refine ⟨(l.takeWhile (· = ' ')).length, t, by omega, ?_⟩
      have hfront : l.takeWhile (· = ' ') = spaces (l.takeWhile (· = ' ')).length := by
        refine List.eq_replicate_iff.2 ⟨rfl, fun c hc => ?_⟩
        exact of_decide_eq_true (List.all_eq_true.1 List.all_takeWhile c hc)
      have htake := List.prefix_iff_eq_take.1 (List.takeWhile_prefix (l := l) (· = ' '))
      have hrest : l.drop (l.takeWhile (· = ' ')).length = '<' :: t := dropPrefix?_eq_some.1 ht
      rw [← hfront, ← hrest]
      conv => rhs; lhs; rw [htake]
      exact (List.take_append_drop _ l).symm

/-- A line that opens an element is neither a fence nor indented code. -/
theorem opening_line {l : Text} {e : RawElement} (h : rawOpening? l = some e) :
    fenceMarker (l.dropWhile (· = ' ')) = [] ∧ (trim l).isEmpty = false ∧ indentWidth l < 4 := by
  obtain ⟨n, t, hn, rfl⟩ := rawOpening?_eq_some h
  refine ⟨?_, ?_, ?_⟩
  · have hspaces : ∀ c ∈ spaces n, decide (c = ' ') = true := fun c hc =>
      decide_eq_true (List.eq_of_mem_replicate hc)
    rw [List.dropWhile_append_of_pos hspaces, List.dropWhile_cons_of_neg (by decide)]
    rfl
  · obtain ⟨c, rest, htrim, _⟩ := trim_append (s := spaces n ++ '<' :: t) []
      ⟨'<', List.mem_append_right _ (List.mem_cons_self ..), by decide⟩
    rw [List.append_nil] at htrim
    rw [htrim]
    rfl
  · rw [indentWidth, indentWidth_go_spaces 0 n '<' t (by decide) (by decide)]
    omega

/-! ## The scan inside an element -/

/-- Below a line of an open element, the element stays open until its closing
tag; the line is kept. -/
theorem lineRole_of_raw {s : LineState} {e : RawElement} (h : s.raw = some e) (l : Text) :
    (lineRole s l).1 = .kept ∧
    (lineRole s l).2.raw = if holdsClosingTag e l then none else some e := by
  unfold lineRole
  simp only [h]
  cases holdsClosingTag e l <;> simp

/-- So it is below the line that opens the element. -/
theorem lineRole_of_opening {s : LineState} {l : Text} {e : RawElement} (h : s.raw = none)
    (hopen : rawOpening? l = some e) :
    (lineRole s l).1 = .kept ∧
    (lineRole s l).2.raw = if holdsClosingTag e l then none else some e := by
  obtain ⟨_, hblank, hindent⟩ := opening_line hopen
  have hcode : ((s.blankAbove || s.inIndented) && decide (indentWidth l ≥ 4)) = false := by
    rw [decide_eq_false (Nat.not_le_of_lt hindent), Bool.and_false]
  unfold lineRole
  simp only [h, hblank, hcode, hopen]
  cases holdsClosingTag e l <;> simp

/-- A line of spaces is kept, however long it is. -/
theorem lineRole_spaces (s : LineState) (n : Nat) :
    lineRole s (spaces n) = (.kept, { s with blankAbove := true }) := by
  have hblank : (trim (spaces n)).isEmpty = true := by
    have hspaces : ∀ c ∈ spaces n, isSpace c = true := fun c hc => by
      rw [List.eq_of_mem_replicate hc]
      decide
    have hdrop : (spaces n).dropWhile isSpace = [] := by
      have h : (spaces n ++ []).dropWhile isSpace = [] := List.dropWhile_append_of_pos hspaces
      rwa [List.append_nil] at h
    rw [trim, trimBoth, trimLeft, hdrop]
    rfl
  unfold lineRole
  simp only [hblank]
  cases hraw : s.raw with
  | none => simp
  | some e => simp [holdsClosingTag_spaces]

theorem stateBelow_take_succ {ls : List Text} {k : Nat} {l : Text} (hl : ls[k]? = some l) :
    stateBelow (ls.take (k + 1)) = (lineRole (stateBelow (ls.take k)) l).2 := by
  rw [stateBelow, List.take_add_one, hl, List.foldl_append]
  rfl

/-- **The element stays open** from its first line to its closing tag, and all
lines up to there are kept. -/
theorem raw_stays_open {ls : List Text} {i k : Nat} {l x : Text} {e : RawElement}
    (hl : ls[i]? = some l) (hopen : rawOpening? l = some e)
    (hraw : (stateBelow (ls.take i)).raw = none) (hik : i ≤ k) (hx : ls[k]? = some x)
    (hclose : ∀ m y, i ≤ m → m < k → ls[m]? = some y → holdsClosingTag e y = false) :
    (lineRole (stateBelow (ls.take k)) x).1 = .kept ∧
    (lineRole (stateBelow (ls.take k)) x).2.raw =
      if holdsClosingTag e x then none else some e := by
  obtain ⟨d, rfl⟩ := Nat.exists_eq_add_of_le hik
  induction d generalizing x with
  | zero =>
    obtain rfl : l = x := Option.some.inj (hl.symm.trans hx)
    exact lineRole_of_opening hraw hopen
  | succ d ih =>
    -- the element was open above the line in front, which has no closing tag
    have hlt : i + d < ls.length := by
      have := (List.getElem?_eq_some_iff.1 hx).1
      omega
    have hy : ls[i + d]? = some ls[i + d] := List.getElem?_eq_getElem hlt
    obtain ⟨_, hstate⟩ := ih (by omega) hy fun m y him hmk => hclose m y him (by omega)
    rw [hclose (i + d) _ (by omega) (by omega) hy, if_neg (by simp), ← stateBelow_take_succ hy]
      at hstate
    exact lineRole_of_raw hstate x

/-! ## Fences among the lines -/

theorem hideAll_eq_spaces {l : Text} (h : '\n' ∉ l) : hideAll l = spaces l.length := by
  refine List.eq_replicate_iff.2 ⟨List.length_map .., fun c hc => ?_⟩
  obtain ⟨d, hd, rfl⟩ := List.mem_map.1 hc
  have hne : d ≠ '\n' := by
    rintro rfl
    exact h hd
  exact if_neg hne

/-- A line of the text with its fences hidden. -/
theorem getElem?_lines_hideFences {s x : Text} {k : Nat} (hx : (lines s)[k]? = some x) :
    InFence (lines s) k ∧ (lines (hideFences s))[k]? = some (hideAll x) ∨
    ¬ InFence (lines s) k ∧ (lines (hideFences s))[k]? = some x := by
  have hk := (List.getElem?_eq_some_iff.1 hx).1
  have hb : k < (fencedLines [] (lines s)).length := by
    rw [length_fencedLines]
    exact hk
  have hline : ∀ b, (fencedLines [] (lines s))[k]? = some b →
      (lines (hideFences s))[k]? = some (fenceLine (x, b)) := by
    intro b hfenced
    have hzip : ((lines s).zip (fencedLines [] (lines s)))[k]? = some (x, b) :=
      List.getElem?_zip_eq_some.2 ⟨hx, hfenced⟩
    rw [lines_hideFences, List.getElem?_map, hzip]
    rfl
  have hiff := fencedLines_eq_true_iff hk
  cases hfenced : (fencedLines [] (lines s))[k] with
  | true =>
    have hsome := (List.getElem?_eq_getElem hb).trans (congrArg some hfenced)
    exact Or.inl ⟨hiff.1 hsome, hline true hsome⟩
  | false =>
    have hsome := (List.getElem?_eq_getElem hb).trans (congrArg some hfenced)
    refine Or.inr ⟨fun hin => ?_, hline false hsome⟩
    exact absurd (hsome.symm.trans (hiff.2 hin)) (by simp)

theorem getElem?_lines_spread {t h x y : Text} {k : Nat} (hth : Hides t h)
    (hx : (lines t)[k]? = some x) (hy : (lines h)[k]? = some y) :
    (lines (spread t h))[k]? = some (spread x y) := by
  rw [lines_spread hth, List.getElem?_zipWith, hx, hy]

theorem length_lines_spread {t h : Text} (hth : Hides t h) :
    (lines (spread t h)).length = (lines t).length := by
  rw [lines_spread hth, List.length_zipWith, ← (hides_lines hth).length_eq, Nat.min_self]

/-- The scan takes a fenced line for blank, whether its characters are counted
or its bytes. -/
theorem stateBelow_stripFences (s : Text) (i : Nat) :
    stateBelow ((lines (stripFences s)).take i) = stateBelow ((lines (hideFences s)).take i) := by
  induction i with
  | zero => rfl
  | succ i ih =>
    have hhides := hides_hideFences s
    by_cases hi : i < (lines s).length
    · have hx : (lines s)[i]? = some (lines s)[i] := List.getElem?_eq_getElem hi
      have hnewline : '\n' ∉ (lines s)[i] := not_mem_of_mem_lines (List.getElem_mem hi)
      rcases getElem?_lines_hideFences hx with ⟨_, hy⟩ | ⟨_, hy⟩
      · have hz : (lines (stripFences s))[i]? = some _ := getElem?_lines_spread hhides hx hy
        rw [spread_hideAll hnewline] at hz
        rw [hideAll_eq_spaces hnewline] at hy
        rw [stateBelow_take_succ hz, stateBelow_take_succ hy, ih, lineRole_spaces, lineRole_spaces]
      · have hz : (lines (stripFences s))[i]? = some _ := getElem?_lines_spread hhides hx hy
        rw [spread_self] at hz
        rw [stateBelow_take_succ hz, stateBelow_take_succ hy, ih]
    · have hlen := (hides_lines hhides).length_eq
      have hlen' : (lines (stripFences s)).length = (lines s).length := length_lines_spread hhides
      rw [List.take_of_length_le (by omega), List.take_of_length_le (by omega)] at ih
      rw [List.take_of_length_le (by omega), List.take_of_length_le (by omega), ih]

/-- Without a line that opens a fence, none is open. -/
theorem not_inFence_of_no_marker {ls : List Text} {i k : Nat} (h : openFence (ls.take i) = [])
    (hik : i ≤ k) (hmarker : ∀ m x, i ≤ m → m ≤ k → ls[m]? = some x →
      fenceMarker (x.dropWhile (· = ' ')) = []) : ¬ InFence ls k := by
  obtain ⟨d, rfl⟩ := Nat.exists_eq_add_of_le hik
  have hopen : openFence (ls.take (i + d)) = [] := by
    induction d with
    | zero => exact h
    | succ d ih =>
      have hprev := ih (by omega) fun m x him hmd => hmarker m x him (by omega)
      rw [← Nat.add_assoc, openFence, List.take_add_one, List.foldl_append]
      rw [openFence] at hprev
      rw [hprev]
      cases hx : ls[i + d]? with
      | none => rfl
      | some x => exact hmarker (i + d) x (by omega) (by omega) hx
  rintro (hfence | ⟨x, hx, hfence⟩)
  · exact hfence hopen
  · exact hfence (hmarker (i + d) x (by omega) (Nat.le_refl _) hx)

/-! ## The lines of an element -/

/-- A line of an open element, behind the fences and behind all of the code. -/
theorem getElem?_hideCode_of_open {s l x y : Text} {i k : Nat} {e : RawElement}
    (hl : (lines s)[i]? = some l) (hopen : rawOpening? l = some e)
    (hfence : openFence ((lines s).take i) = [])
    (hraw : (stateBelow ((lines (stripFences s)).take i)).raw = none) (hik : i ≤ k)
    (hclose : ∀ m x, i ≤ m → m < k → (lines s)[m]? = some x → holdsClosingTag e x = false)
    (hx : (lines s)[k]? = some x) (hy : (lines (hideFences s))[k]? = some y) :
    (lines (hideCode s))[k]? = some y := by
  have hli : (lines (hideFences s))[i]? = some l := by
    have hmarker := (opening_line hopen).1
    rcases getElem?_lines_hideFences hl with ⟨hin, _⟩ | ⟨_, hli⟩
    · rcases hin with hin | ⟨l', hl', hin⟩
      · exact absurd hfence hin
      · obtain rfl : l = l' := Option.some.inj (hl.symm.trans hl')
        exact absurd hmarker hin
    · exact hli
  rw [stateBelow_stripFences] at hraw
  refine getElem?_hideCode_of_kept hy (raw_stays_open hli hopen hraw hik hy ?_).1
  -- a hidden line has no closing tag at all
  intro m z him hmk hz
  have hm : m < (lines s).length := by
    have := (List.getElem?_eq_some_iff.1 hx).1
    omega
  have hw : (lines s)[m]? = some (lines s)[m] := List.getElem?_eq_getElem hm
  rcases getElem?_lines_hideFences hw with ⟨_, hhidden⟩ | ⟨_, hseen⟩
  · obtain rfl := Option.some.inj (hz.symm.trans hhidden)
    rw [hideAll_eq_spaces (not_mem_of_mem_lines (List.getElem_mem hm)), holdsClosingTag_spaces]
  · obtain rfl := Option.some.inj (hz.symm.trans hseen)
    exact hclose m _ him hmk hw

/-- A hidden line is the line itself if it has spaces only. -/
theorem spaces_byteSize_eq_iff {x : Text} : spaces (byteSize x) = x ↔ ∀ c ∈ x, c = ' ' := by
  constructor
  · intro h c hc
    rw [← h] at hc
    exact List.eq_of_mem_replicate hc
  · intro h
    induction x with
    | nil => rfl
    | cons c x ih =>
      obtain ⟨rfl, hx⟩ := List.forall_mem_cons.1 h
      rw [byteSize_cons, Nat.add_comm]
      exact congrArg (' ' :: ·) (ih hx)

/-- **A script or style loses its fences, and nothing else.** Take a line that
opens an element, where no fence and no element is open, and a line at or below
it with no closing tag between them. Stripping all code leaves of that line
what stripping the fences leaves: the line itself exactly when it is not part
of a fence, or has nothing but spaces. So if none of the lines opens a fence,
they all stay as they are. -/
theorem raw_block_left_alone {s l : Text} {i k : Nat} {e : RawElement}
    (hl : (lines s)[i]? = some l) (hopen : rawOpening? l = some e)
    (hfence : openFence ((lines s).take i) = [])
    (hraw : (stateBelow ((lines (stripFences s)).take i)).raw = none) (hik : i ≤ k)
    (hclose : ∀ m x, i ≤ m → m < k → (lines s)[m]? = some x → holdsClosingTag e x = false) :
    (lines (stripCode s))[k]? = (lines (stripFences s))[k]? ∧
    (∀ x, (lines s)[k]? = some x →
      ((lines (stripCode s))[k]? = some x ↔ ¬ InFence (lines s) k ∨ ∀ c ∈ x, c = ' ')) ∧
    ((∀ m x, i ≤ m → m ≤ k → (lines s)[m]? = some x → fenceMarker (x.dropWhile (· = ' ')) = []) →
      (lines (stripCode s))[k]? = (lines s)[k]?) := by
  by_cases hk : k < (lines s).length
  · have hx : (lines s)[k]? = some (lines s)[k] := List.getElem?_eq_getElem hk
    generalize (lines s)[k] = x at hx
    have hcode : ∀ y, (lines (hideFences s))[k]? = some y →
        (lines (stripCode s))[k]? = some (spread x y) := fun y hy =>
      getElem?_lines_spread (hides_hideCode s) hx
        (getElem?_hideCode_of_open hl hopen hfence hraw hik hclose hx hy)
    have hfences : ∀ y, (lines (hideFences s))[k]? = some y →
        (lines (stripFences s))[k]? = some (spread x y) := fun y hy =>
      getElem?_lines_spread (hides_hideFences s) hx hy
    have hnewline : '\n' ∉ x := not_mem_of_mem_lines (List.mem_of_getElem? hx)
    rcases getElem?_lines_hideFences hx with ⟨hin, hy⟩ | ⟨hin, hy⟩
    · -- the line is part of a fence, and nothing is left of it
      refine ⟨(hcode _ hy).trans (hfences _ hy).symm, ?_, fun hmarker => ?_⟩
      · rintro x' hx'
        obtain rfl : x = x' := Option.some.inj (hx.symm.trans hx')
        rw [hcode _ hy, spread_hideAll hnewline, Option.some.injEq, spaces_byteSize_eq_iff]
        exact ⟨Or.inr, fun h => h.resolve_left (not_not_intro hin)⟩
      · exact absurd hin (not_inFence_of_no_marker hfence hik hmarker)
    · have hkeep : (lines (stripCode s))[k]? = some x := by rw [hcode _ hy, spread_self]
      refine ⟨(hcode _ hy).trans (hfences _ hy).symm, ?_, fun _ => hkeep.trans hx.symm⟩
      rintro x' hx'
      obtain rfl : x = x' := Option.some.inj (hx.symm.trans hx')
      exact ⟨fun _ => Or.inl hin, fun _ => hkeep⟩
  · -- behind the last line there is nothing to compare
    have hnone : (lines s)[k]? = none := List.getElem?_eq_none (Nat.le_of_not_lt hk)
    have hcode : (lines (stripCode s))[k]? = none := by
      rw [List.getElem?_eq_none_iff, stripCode, length_lines_spread (hides_hideCode s)]
      omega
    have hfences : (lines (stripFences s))[k]? = none := by
      rw [List.getElem?_eq_none_iff, stripFences, length_lines_spread (hides_hideFences s)]
      omega
    refine ⟨hcode.trans hfences.symm, fun x hx => ?_, fun _ => hcode.trans hnone.symm⟩
    exact absurd (hnone.symm.trans hx) (by simp)

/-- A script with a template literal, a blank line and an indented call. -/
def templateScript : Text := "text\n\n<script>\nconst s = \x60x\x60\n\n    y()\n</script>\n"

theorem raw_block_left_alone_template :
    rawOpening? "<script>" = some .script ∧
    (lines (stripCode templateScript))[5]? = some "    y()".toList ∧
    (lines (stripCode templateScript))[6]? = some "</script>".toList := by
  have hclosing : ∀ x ∈ (lines templateScript).take 6, holdsClosingTag .script x = false := by
    decide +kernel
  have hmarker : ∀ x ∈ lines templateScript, fenceMarker (x.dropWhile (· = ' ')) = [] := by
    decide +kernel
  have hstays : ∀ k, 2 ≤ k → k ≤ 6 →
      (lines (stripCode templateScript))[k]? = (lines templateScript)[k]? := by
    intro k hk hk6
    refine (raw_block_left_alone (l := "<script>") (i := 2) (e := .script) (by decide +kernel)
      (by decide +kernel) (by decide +kernel) (by decide +kernel) hk ?_).2.2 ?_
    · intro m x _ hm hx
      refine hclosing x (List.mem_of_getElem? (i := m) ?_)
      rwa [List.getElem?_take_of_lt (by omega)]
    · exact fun m x _ _ hx => hmarker x (List.mem_of_getElem? hx)
  refine ⟨by decide +kernel, ?_, ?_⟩
  · exact (hstays 5 (by decide) (by decide)).trans (by decide +kernel)
  · exact (hstays 6 (by decide) (by decide)).trans (by decide +kernel)

/-- A script with a template literal that holds a fence. -/
def fencedScript : Text :=
  "<script>\nconst s = \x60\n\x60\x60\x60\nx\n\x60\x60\x60\n\x60\n</script>\n"

/-- The fence is hidden, though the script opens outside of all code and is
not closed above it. -/
theorem raw_block_loses_fences :
    (lines fencedScript)[0]? = some "<script>".toList ∧ rawOpening? "<script>" = some .script ∧
    openFence ((lines fencedScript).take 0) = [] ∧
    (stateBelow ((lines (stripFences fencedScript)).take 0)).raw = none ∧
    (stateBelow ((lines (stripFences fencedScript)).take 0)).inIndented = false ∧
    (∀ x ∈ (lines fencedScript).take 6, holdsClosingTag .script x = false) ∧
    (lines fencedScript)[3]? = some "x".toList ∧
    (lines (stripCode fencedScript))[3]? = some " ".toList := by
  decide +kernel

end Docweave.Source
