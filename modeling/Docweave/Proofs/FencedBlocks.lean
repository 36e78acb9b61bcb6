import Docweave.Proofs.CodeSpans
import Docweave.Proofs.RawBlocks
import Mathlib.Data.Nat.Find

/-!
# Fenced blocks

A fence reaches from a line that opens it to the first line behind that closes it, or to the
end of the text; what looks like an opening line inside of a fence opens nothing. The scan
keeps the open fence as its state. The file says which fences a text has and proves that the
scan strips these:

> `FencesFrom`: the fences from one line on. They are one for each opening line that is read
> outside of a fence.

> `inFence_iff`: the state of the scan says that a line is fenced exactly when the line lies in
> one of the fences.

> `fences_stripped`: the lines in the fences become spaces and every other line stays, so no
> line opens a fence any more, and stripping again does nothing.
-/

namespace Docweave.Source

open Text

/-- The fence that a line opens behind its leading spaces, empty if it opens none. -/
def opening (l : Text) : Text := fenceMarker (l.dropWhile (· = ' '))

/-- The line closes the fence behind its leading spaces. -/
def Closes (fence l : Text) : Prop := closesFence (l.dropWhile (· = ' ')) fence = true

/-- Line `j` is the first one from line `i` on that closes the fence. -/
structure ClosedAt (ls : List Text) (fence : Text) (i j : Nat) : Prop where
  closes : ∃ l, ls[j]? = some l ∧ Closes fence l
  behind : i ≤ j
  first : ∀ (k : Nat) (l : Text), i ≤ k → k < j → ls[k]? = some l → ¬ Closes fence l

/-- The fences from line `i` on, each as its first line and the line behind its last one. -/
inductive FencesFrom (ls : List Text) : Nat → List (Nat × Nat) → Prop
  | done {i : Nat} (h : ls.length ≤ i) : FencesFrom ls i []
  | plain {i : Nat} {l : Text} {fences : List (Nat × Nat)} (h : ls[i]? = some l) (none : opening l = [])
      (rest : FencesFrom ls (i + 1) fences) : FencesFrom ls i fences
  | closed {i j : Nat} {l : Text} {fences : List (Nat × Nat)} (h : ls[i]? = some l)
      (opens : opening l ≠ []) (closes : ClosedAt ls (opening l) (i + 1) j)
      (rest : FencesFrom ls (j + 1) fences) : FencesFrom ls i ((i, j + 1) :: fences)
  | unclosed {i : Nat} {l : Text} (h : ls[i]? = some l) (opens : opening l ≠ [])
      (never : ∀ (k : Nat) (x : Text), i < k → ls[k]? = some x → ¬ Closes (opening l) x) :
      FencesFrom ls i [(i, ls.length)]

section

variable {ls : List Text} {f l x : Text} {i j k : Nat} {fences other : List (Nat × Nat)}

theorem ClosedAt.unique (hi : ClosedAt ls f k i) (hj : ClosedAt ls f k j) : i = j := by
  obtain ⟨x, hx, hclosex⟩ := hi.closes
  obtain ⟨y, hy, hclosey⟩ := hj.closes
  by_contra hne
  by_cases hlt : i < j
  · exact hj.first i x hi.behind hlt hx hclosex
  · exact hi.first j y hj.behind (by omega) hy hclosey

/-- A fence that is closed somewhere has a first closing line. -/
theorem exists_closedAt (hx : ls[k]? = some x) (hik : i ≤ k) (hclose : Closes f x) :
    ∃ j, ClosedAt ls f i j := by
  classical
  have hex : ∃ j, i ≤ j ∧ ∃ l, ls[j]? = some l ∧ Closes f l := ⟨k, hik, x, hx, hclose⟩
  obtain ⟨hbehind, hcloses⟩ := Nat.find_spec hex
  refine ⟨Nat.find hex, hcloses, hbehind, fun m l him hm hl hclosel => ?_⟩
  exact Nat.find_min hex hm ⟨him, l, hl, hclosel⟩

theorem fencesFrom_bounds (h : FencesFrom ls i fences) : ∀ s ∈ fences, i ≤ s.1 ∧ s.1 < s.2 := by
  induction h with
  | done => simp
  | plain h none rest ih =>
    intro s hs
    have hbounds := ih s hs
    omega
  | @closed i j l fences h opens closes rest ih =>
    have hbehind := closes.behind
    refine List.forall_mem_cons.2 ⟨⟨Nat.le_refl i, by omega⟩, fun s hs => ?_⟩
    have hbounds := ih s hs
    omega
  | unclosed h =>
    exact List.forall_mem_singleton.2 ⟨Nat.le_refl _, (List.getElem?_eq_some_iff.1 h).1⟩

/-! ## The fences are there, and in one way -/

theorem exists_fencesFrom (ls : List Text) (i : Nat) : ∃ fences, FencesFrom ls i fences := by
  induction hm : ls.length - i using Nat.strongRecOn generalizing i with
  | ind m ih =>
    subst hm
    by_cases hi : i < ls.length
    · have hl : ls[i]? = some ls[i] := List.getElem?_eq_getElem hi
      by_cases hopen : opening ls[i] = []
      · obtain ⟨fences, hrest⟩ := ih _ (by omega) (i + 1) rfl
        exact ⟨fences, .plain hl hopen hrest⟩
      by_cases hclose : ∃ k x, i < k ∧ ls[k]? = some x ∧ Closes (opening ls[i]) x
      · obtain ⟨k, x, hik, hx, hclosex⟩ := hclose
        obtain ⟨j, hj⟩ := exists_closedAt hx hik hclosex
        have hbehind := hj.behind
        obtain ⟨fences, hrest⟩ := ih _ (by omega) (j + 1) rfl
        exact ⟨_, .closed hl hopen hj hrest⟩
      · exact ⟨_, .unclosed hl hopen fun k x hik hx hclosex => hclose ⟨k, x, hik, hx, hclosex⟩⟩
    · exact ⟨[], .done (by omega)⟩

theorem fencesFrom_unique (h : FencesFrom ls i fences) (hother : FencesFrom ls i other) : fences = other := by
  -- the two readings of a line agree on what it opens
  have same : ∀ {i : Nat} {l x : Text}, ls[i]? = some l → ls[i]? = some x → l = x :=
    fun hl hx => Option.some.inj (hl.symm.trans hx)
  induction h generalizing other with
  | done hend =>
    have hnone := List.getElem?_eq_none hend
    cases hother with
    | done => rfl
    | plain h => exact absurd (hnone.symm.trans h) (by simp)
    | closed h => exact absurd (hnone.symm.trans h) (by simp)
    | unclosed h => exact absurd (hnone.symm.trans h) (by simp)
  | plain h none rest ih =>
    cases hother with
    | done hend => exact absurd ((List.getElem?_eq_none hend).symm.trans h) (by simp)
    | plain _ _ hrest => exact ih hrest
    | closed h' opens => exact absurd (same h h' ▸ none) opens
    | unclosed h' opens => exact absurd (same h h' ▸ none) opens
  | closed h opens closes rest ih =>
    cases hother with
    | done hend => exact absurd ((List.getElem?_eq_none hend).symm.trans h) (by simp)
    | plain h' none => exact absurd (same h' h ▸ none) opens
    | closed h' _ closes' hrest =>
      obtain rfl := same h h'
      obtain rfl := closes.unique closes'
      rw [ih hrest]
    | unclosed h' _ never =>
      obtain rfl := same h h'
      obtain ⟨x, hx, hclose⟩ := closes.closes
      exact absurd hclose (never _ x closes.behind hx)
  | unclosed h opens never =>
    cases hother with
    | done hend => exact absurd ((List.getElem?_eq_none hend).symm.trans h) (by simp)
    | plain h' none => exact absurd (same h' h ▸ none) opens
    | closed h' _ closes =>
      obtain rfl := same h h'
      obtain ⟨x, hx, hclose⟩ := closes.closes
      exact absurd hclose (never _ x closes.behind hx)
    | unclosed => rfl

/-! ## The state of the scan -/

theorem openFence_take_succ (h : ls[i]? = some l) :
    openFence (ls.take (i + 1)) = fenceBelow (openFence (ls.take i)) l := by
  rw [openFence, List.take_add_one, h, List.foldl_append]
  rfl

theorem fenceBelow_nil (l : Text) : fenceBelow [] l = opening l := rfl

theorem fenceBelow_of_closes (hclose : Closes f l) : fenceBelow f l = [] := by
  cases f with
  | nil => exact absurd hclose (by simp [Closes, closesFence])
  | cons c f => exact if_pos hclose

theorem fenceBelow_of_not_closes (hf : f ≠ []) (hclose : ¬ Closes f l) : fenceBelow f l = f := by
  rw [fenceBelow, if_neg (by simpa using hf)]
  exact if_neg hclose

/-- An open fence stays open as long as no line closes it. -/
theorem openFence_stays (hopen : openFence (ls.take i) = f) (hf : f ≠ []) (hij : i ≤ j)
    (hclose : ∀ (k : Nat) (x : Text), i ≤ k → k < j → ls[k]? = some x → ¬ Closes f x) :
    openFence (ls.take j) = f := by
  obtain ⟨d, rfl⟩ := Nat.exists_eq_add_of_le hij
  induction d with
  | zero => exact hopen
  | succ d ih =>
    have hprev := ih (by omega) fun k x hik hk => hclose k x hik (by omega)
    cases hx : ls[i + d]? with
    | none =>
      have hend := List.getElem?_eq_none_iff.1 hx
      rw [List.take_of_length_le hend] at hprev
      rwa [List.take_of_length_le (by omega)]
    | some x =>
      rw [← Nat.add_assoc, openFence_take_succ hx, hprev,
        fenceBelow_of_not_closes hf (hclose _ x (by omega) (by omega) hx)]

/-- Where no fence is open, a line is fenced if it opens a fence. -/
theorem inFence_iff_opening (hopen : openFence (ls.take i) = []) (h : ls[i]? = some l) :
    InFence ls i ↔ opening l ≠ [] := by
  constructor
  · rintro (hin | ⟨x, hx, hin⟩)
    · exact absurd hopen hin
    · exact Option.some.inj (hx.symm.trans h) ▸ hin
  · exact fun hin => Or.inr ⟨l, h, hin⟩

/-- **A line is fenced exactly when it lies in a fence.** -/
theorem inFence_iff (h : FencesFrom ls i fences) (hopen : openFence (ls.take i) = []) (hik : i ≤ k)
    (hk : k < ls.length) : InFence ls k ↔ InSpan fences k := by
  induction h with
  | done hend => omega
  | @plain i l fences h none rest ih =>
    have hbelow := openFence_take_succ h
    rw [hopen, fenceBelow_nil, none] at hbelow
    by_cases hki : k = i
    · have houtside : ¬ InSpan fences k := by
        rintro ⟨s, hs, hle, -⟩
        have hbounds := fencesFrom_bounds rest s hs
        omega
      rw [hki, inFence_iff_opening hopen h, ← hki]
      exact iff_of_false (not_not_intro none) houtside
    · exact ih hbelow (by omega)
  | @closed i j l fences h opens closes rest ih =>
    have hbelow := openFence_take_succ h
    rw [hopen, fenceBelow_nil] at hbelow
    have hstays : ∀ m, i < m → m ≤ j → openFence (ls.take m) = opening l := fun m him hmj =>
      openFence_stays hbelow opens him fun n x hin hn => closes.first n x hin (by omega)
    have hbehind := closes.behind
    rw [inSpan_cons]
    by_cases hkj : k < j + 1
    · refine iff_of_true ?_ (Or.inl ⟨hik, hkj⟩)
      by_cases hki : k = i
      · rw [hki, inFence_iff_opening hopen h]
        exact opens
      · exact Or.inl (hstays k (by omega) (by omega) ▸ opens)
    · obtain ⟨x, hx, hclose⟩ := closes.closes
      have hend : openFence (ls.take (j + 1)) = [] := by
        rw [openFence_take_succ hx, hstays j (by omega) (Nat.le_refl j), fenceBelow_of_closes hclose]
      rw [ih hend (by omega)]
      exact (or_iff_right fun hin => hkj hin.2).symm
  | @unclosed i l h opens never =>
    have hbelow := openFence_take_succ h
    rw [hopen, fenceBelow_nil] at hbelow
    refine iff_of_true ?_ (inSpan_cons.2 (Or.inl ⟨hik, hk⟩))
    by_cases hki : k = i
    · rw [hki, inFence_iff_opening hopen h]
      exact opens
    · refine Or.inl ?_
      rw [openFence_stays hbelow opens (by omega : i + 1 ≤ k) fun n x hin _ => never n x hin]
      exact opens

end

/-! ## The stripped text -/

section

variable {s t l : Text} {k : Nat} {fences : List (Nat × Nat)}

/-- Each line of the stripped text: spaces in a fence, and the line itself outside. -/
theorem getElem?_lines_stripFences (h : FencesFrom (lines s) 0 fences) (k : Nat) :
    (lines (stripFences s))[k]? =
      (lines s)[k]?.map fun l => if InSpan fences k then spaces (byteSize l) else l := by
  have hhides := hides_hideFences s
  cases hl : (lines s)[k]? with
  | none =>
    have hlength : (lines (stripFences s)).length = (lines s).length := length_lines_spread hhides
    exact List.getElem?_eq_none (hlength ▸ List.getElem?_eq_none_iff.1 hl)
  | some l =>
    have hk := (List.getElem?_eq_some_iff.1 hl).1
    have hiff := inFence_iff h rfl (Nat.zero_le k) hk
    rw [Option.map_some]
    rcases getElem?_lines_hideFences hl with ⟨hin, hline⟩ | ⟨hin, hline⟩
    · have hseen : (lines (stripFences s))[k]? = some _ := getElem?_lines_spread hhides hl hline
      rw [if_pos (hiff.1 hin), hseen, spread_hideAll (not_mem_of_mem_lines (List.mem_of_getElem? hl))]
    · have hseen : (lines (stripFences s))[k]? = some _ := getElem?_lines_spread hhides hl hline
      rw [if_neg (mt hiff.2 hin), hseen, spread_self]

theorem opening_spaces (n : Nat) : opening (spaces n) = [] := by
  have hspaces : ∀ c ∈ spaces n, decide (c = ' ') = true :=
    fun c hc => decide_eq_true (List.eq_of_mem_replicate hc)
  rw [opening, List.dropWhile_eq_nil_iff.2 hspaces]
  rfl

/-- No line of the stripped text opens a fence: those that did are in one. -/
theorem opening_stripFences (hl : l ∈ lines (stripFences s)) : opening l = [] := by
  obtain ⟨fences, hfences⟩ := exists_fencesFrom (lines s) 0
  obtain ⟨k, hk⟩ := List.getElem?_of_mem hl
  rw [getElem?_lines_stripFences hfences] at hk
  obtain ⟨x, hx, rfl⟩ := Option.map_eq_some_iff.1 hk
  split
  next => exact opening_spaces _
  next hout =>
    have hiff := inFence_iff hfences rfl (Nat.zero_le k) (List.getElem?_eq_some_iff.1 hx).1
    by_contra hopen
    exact hout (hiff.1 (Or.inr ⟨x, hx, hopen⟩))

/-- A text without an opening line keeps all its lines. -/
theorem stripFences_of_no_opening (h : ∀ l ∈ lines t, opening l = []) : stripFences t = t := by
  have hlines : lines (hideFences t) = lines t := by
    refine List.ext_getElem? fun k => ?_
    cases hl : (lines t)[k]? with
    | none =>
      have hlength := (hides_lines (hides_hideFences t)).length_eq
      exact List.getElem?_eq_none (hlength ▸ List.getElem?_eq_none_iff.1 hl)
    | some l =>
      rcases getElem?_lines_hideFences hl with ⟨hin, -⟩ | ⟨-, hline⟩
      · refine absurd hin (not_inFence_of_no_marker (i := 0) rfl (Nat.zero_le k) fun m x _ _ hx => ?_)
        exact h x (List.mem_of_getElem? hx)
      · exact hline
  have hhidden : hideFences t = t := by rw [← join_lines (hideFences t), hlines, join_lines]
  rw [stripFences, hhidden, spread_self]

/-- **Fences are stripped completely, and only they.** No line of the stripped text opens a
fence, so stripping it again does nothing. The text has its fences in one way; their lines
become spaces, and every other line is unchanged. -/
theorem fences_stripped (s : Text) :
    (∀ l ∈ lines (stripFences s), fenceMarker (l.dropWhile (· = ' ')) = []) ∧
    stripFences (stripFences s) = stripFences s ∧
    ∃! fences, FencesFrom (lines s) 0 fences ∧
      ∀ k, (lines (stripFences s))[k]? =
        (lines s)[k]?.map fun l => if InSpan fences k then spaces (byteSize l) else l := by
  have hnone : ∀ l ∈ lines (stripFences s), opening l = [] := fun l hl => opening_stripFences hl
  refine ⟨hnone, stripFences_of_no_opening hnone, ?_⟩
  obtain ⟨fences, hfences⟩ := exists_fencesFrom (lines s) 0
  exact ⟨fences, ⟨hfences, getElem?_lines_stripFences hfences⟩,
    fun other hother => fencesFrom_unique hother.1 hfences⟩

-- back quotes inside of a fence of tildes open nothing, and a longer run closes it
example : stripFences "~~~x\n```\n  ~~~~ \nafter" = "    \n   \n       \nafter" := by decide

end

end Docweave.Source
