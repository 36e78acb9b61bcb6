import Docweave.Proofs.ExcerptRows
import Docweave.Proofs.SourceLines

/-!
# Where a metadata block is faulty

What the decoder says about a block names a line of it, in words: the first number
behind the word `line` counts. The number may have any value, because a message can
quote the document. It is read as an integer of 64 bits, one is added for the line
that opens the block, and what goes beyond the line that closes it is cut off there.

> `namedLine?_eq_some_iff`: which number of a message counts.

> `fault_cases`: what becomes of it. Up to the largest integer but one it names a
> line of the block; the largest one comes round to the least; beyond, it names none.

> `located_iff`: a fault names a line of the block and quotes it, or names no line,
> for every message but those with the largest integer.

> `parse_fault`: the line that bounds a fault closes the block.
-/

namespace Docweave

open Text

namespace Frontmatter

/-! ## The number in a message -/

/-- The word in front of the number. -/
def lineWord : Text := "line "

/-- The first number of a message behind the word, as it is written. -/
def FirstNumber (cause digits : Text) : Prop :=
  ∃ front rest : Text, cause = front ++ (lineWord ++ (digits ++ rest)) ∧ digits ≠ [] ∧
    (∀ c ∈ digits, isDigit c = true) ∧ (∀ c, rest.head? = some c → isDigit c = false) ∧
    ∀ (front' : Text) (c : Char) (rest' : Text), cause = front' ++ (lineWord ++ c :: rest') →
      isDigit c = true → front.length ≤ front'.length

section

variable {c : Char} {t r digits : Text}

/-- Digits that go on up to the first other character are all the digits. -/
theorem takeWhile_digits {rest : Text} (hdigits : ∀ c ∈ digits, isDigit c = true)
    (hrest : ∀ c, rest.head? = some c → isDigit c = false) : (digits ++ rest).takeWhile isDigit = digits := by
  rw [List.takeWhile_append_of_pos hdigits]
  cases rest with
  | nil => exact List.append_nil digits
  | cons c rest => rw [List.takeWhile_cons_of_neg (by simp [hrest c rfl]), List.append_nil]

/-- A number at the front of a message is its first one. -/
theorem firstNumber_here (hdigits : r.takeWhile isDigit ≠ []) :
    FirstNumber (lineWord ++ r) digits ↔ digits = r.takeWhile isDigit := by
  have hsplit : r = r.takeWhile isDigit ++ r.dropWhile isDigit := List.takeWhile_append_dropWhile.symm
  constructor
  · rintro ⟨front, rest, hcause, hne, hall, hrest, hfirst⟩
    obtain ⟨d, ds, hd⟩ := List.exists_cons_of_ne_nil hdigits
    have hdigit : isDigit d = true := by
      have hmem : d ∈ r.takeWhile isDigit := hd ▸ List.mem_cons_self ..
      exact List.all_eq_true.1 List.all_takeWhile d hmem
    have hthere : lineWord ++ r = [] ++ (lineWord ++ d :: (ds ++ r.dropWhile isDigit)) := by
      rw [List.nil_append, ← List.cons_append, ← hd, ← hsplit]
    have hhere := hfirst [] d _ hthere hdigit
    obtain rfl : front = [] := List.eq_nil_of_length_eq_zero (Nat.le_zero.1 hhere)
    rw [List.append_cancel_left hcause, takeWhile_digits hall hrest]
  · rintro rfl
    refine ⟨[], r.dropWhile isDigit, by rw [List.nil_append, ← hsplit], hdigits, ?_, ?_, fun _ _ _ _ _ => Nat.zero_le _⟩
    · exact fun c hc => List.all_eq_true.1 List.all_takeWhile c hc
    · intro c hc
      have hhead := List.head?_dropWhile_not isDigit r
      rw [hc] at hhead
      simpa using hhead

/-- Without a number at its front, a message has the first number of what is behind. -/
theorem firstNumber_behind (hno : ∀ d rest, c :: t = lineWord ++ d :: rest → isDigit d = false) :
    FirstNumber (c :: t) digits ↔ FirstNumber t digits := by
  constructor
  · rintro ⟨front, rest, hcause, hne, hall, hrest, hfirst⟩
    cases front with
    | nil =>
      obtain ⟨d, ds, rfl⟩ := List.exists_cons_of_ne_nil hne
      have hdigit := hall d (List.mem_cons_self ..)
      rw [hno d (ds ++ rest) hcause] at hdigit
      exact absurd hdigit (by simp)
    | cons x front =>
      obtain ⟨-, ht⟩ := List.cons.inj hcause
      refine ⟨front, rest, ht, hne, hall, hrest, fun front' d rest' hother hd => ?_⟩
      exact Nat.le_of_succ_le_succ (hfirst (c :: front') d rest' (by rw [hother]; rfl) hd)
  · rintro ⟨front, rest, rfl, hne, hall, hrest, hfirst⟩
    refine ⟨c :: front, rest, rfl, hne, hall, hrest, fun front' d rest' hother hd => ?_⟩
    cases front' with
    | nil =>
      rw [hno d rest' hother] at hd
      exact absurd hd (by simp)
    | cons x front' => exact Nat.succ_le_succ (hfirst front' d rest' (List.cons.inj hother).2 hd)

end

/-- **The number that counts** is the first one behind the word `line`. -/
theorem namedLine?_eq_some_iff {t : Text} {n : Nat} :
    namedLine? t = some n ↔ ∃ digits, FirstNumber t digits ∧ digitsValue digits = n := by
  induction t with
  | nil =>
    refine ⟨fun h => absurd h (by simp [namedLine?]), ?_⟩
    rintro ⟨digits, ⟨front, rest, hcause, -⟩, -⟩
    have hword : lineWord = [] := (List.append_eq_nil_iff.1 (List.append_eq_nil_iff.1 hcause.symm).2).1
    exact absurd hword (by decide)
  | cons c t ih =>
    unfold namedLine?
    rw [← lineWord]
    cases hword : dropPrefix? lineWord (c :: t) with
    | none =>
      have hno : ∀ d rest, c :: t = lineWord ++ d :: rest → isDigit d = false := by
        intro d rest heq
        rw [dropPrefix?_eq_some.2 heq] at hword
        exact absurd hword (by simp)
      simp only [firstNumber_behind hno]
      exact ih
    | some r =>
      have hcause := dropPrefix?_eq_some.1 hword
      simp only
      by_cases hdigits : r.takeWhile isDigit = []
      · have hno : ∀ d rest, c :: t = lineWord ++ d :: rest → isDigit d = false := by
          intro d rest heq
          rw [List.append_cancel_left (hcause.symm.trans heq)] at hdigits
          simpa [List.takeWhile_cons] using hdigits
        rw [if_pos (List.isEmpty_iff.2 hdigits)]
        simp only [firstNumber_behind hno]
        exact ih
      · rw [if_neg (by simpa using hdigits), hcause]
        simp only [firstNumber_here hdigits, exists_eq_left, Option.some.injEq]

/-! ## The line of a fault -/

/-- The largest integer of 64 bits. -/
def largestInteger : Nat := 9223372036854775807

/-- The least one, which comes behind the largest. -/
def leastInteger : Int := -9223372036854775808

theorem le_largestInteger_iff {n : Nat} : n ≤ largestInteger ↔ n < Nat.pow 2 63 := by
  have hpow : Nat.pow 2 63 = largestInteger + 1 := by decide +kernel
  rw [hpow, Nat.lt_succ_iff]

/-- Integers come round behind the largest one only. -/
theorem lineBehind_of_lt {n : Nat} (h : n < largestInteger) : lineBehind n = n + 1 := by
  have hlargest : largestInteger = 9223372036854775807 := rfl
  have hpow : Nat.pow 2 64 = 18446744073709551616 := by decide +kernel
  unfold lineBehind
  rw [hpow]
  exact Int.bmod_eq_of_le (by omega) (by omega)

theorem lineBehind_largest : lineBehind largestInteger = leastInteger := by decide +kernel

/-- What becomes of the number that a message names. -/
theorem fault_cases (src cause : Text) (last : Int) :
    (∃ n, namedLine? cause = some n ∧ n < largestInteger ∧
      fault src cause last = ⟨cause, min (n + 1) last, excerpt src (min (n + 1) last)⟩) ∨
    (namedLine? cause = some largestInteger ∧
      fault src cause last = ⟨cause, min leastInteger last, excerpt src (min leastInteger last)⟩) ∨
    ((∀ n, namedLine? cause = some n → largestInteger < n) ∧ fault src cause last = ⟨cause, 0, []⟩) := by
  unfold fault
  cases hnamed : namedLine? cause with
  | none => exact Or.inr (Or.inr ⟨fun n h => absurd h (by simp), rfl⟩)
  | some n =>
    simp only
    rcases Nat.lt_trichotomy n largestInteger with hlt | rfl | hgt
    · rw [if_pos (le_largestInteger_iff.1 (Nat.le_of_lt hlt)), lineBehind_of_lt hlt]
      exact Or.inl ⟨n, rfl, hlt, rfl⟩
    · rw [if_pos (le_largestInteger_iff.1 (Nat.le_refl _)), lineBehind_largest]
      exact Or.inr (Or.inl ⟨rfl, rfl⟩)
    · rw [if_neg fun h => absurd (le_largestInteger_iff.2 h) (Nat.not_le.2 hgt)]
      refine Or.inr (Or.inr ⟨fun m h => ?_, rfl⟩)
      rwa [← Option.some.inj h]

/-- The line that bounds a fault closes the block, so it is a line of the document. -/
theorem parse_fault {src : Text} {f : MetaFault} (h : parse src = .error f) :
    ∃ block rest cause, block? src = some (block, rest) ∧ f = fault src cause (block.length + 2) ∧
      block.length + 2 ≤ (lines src).length := by
  unfold parse at h
  split at h
  next => exact absurd h (by simp)
  next block rest hblock =>
    simp only at h
    split at h
    next e _ =>
      obtain ⟨opening, closing, hlines⟩ := block?_eq_some hblock
      refine ⟨block, rest, e.message, hblock, (Except.error.inj h).symm, ?_⟩
      rw [hlines, List.length_append, List.length_cons, List.length_cons]
      omega
    next => exact absurd h (by simp)

end Frontmatter

/-- A text marks a line of a document: one of its rows begins with the mark, and has the
number of the line and what stands on it. -/
def MarksLine (context src : Text) (n : Nat) : Prop :=
  ∃ line width k, (lines src)[n - 1]? = some line ∧ (lines context)[k]? = some (excerptRow width n n line) ∧
    ∀ (j : Nat) (row : Text), (lines context)[j]? = some row → (row.head? = some '>' ↔ j = k)

/-- A fault is located among the first lines of a document, up to `last`: it names none,
and quotes nothing, or names one of them and marks it in what it quotes. -/
structure MetaFault.Located (f : MetaFault) (src : Text) (last : Int) : Prop where
  line : f.line = 0 ∨ 1 ≤ f.line ∧ f.line ≤ last
  context : f.context = [] ↔ f.line = 0
  marks : f.line ≠ 0 → MarksLine f.context src f.line.toNat

section

variable {src : Text} {last n : Int}

theorem excerpt_marksLine (h1 : 1 ≤ n) (hn : n ≤ (lines src).length) :
    MarksLine (excerpt src n) src n.toNat ∧ excerpt src n ≠ [] := by
  obtain ⟨k, rfl⟩ := Int.eq_ofNat_of_zero_le (by omega : 0 ≤ n)
  obtain ⟨line, hline⟩ : ∃ line, (lines src)[k - 1]? = some line := ⟨_, List.getElem?_eq_getElem (by omega)⟩
  obtain ⟨width, row, hrow, honly⟩ := excerpt_marks (by omega) (by omega) hline
  refine ⟨⟨line, width, row, hline, hrow, honly⟩, fun hnil => ?_⟩
  rw [hnil] at hrow
  have hempty : excerptRow width k k line = [] := List.mem_singleton.1 (List.mem_of_getElem? hrow)
  exact absurd hempty (by simp [excerptRow])

/-- A line of the block is quoted and marked. -/
theorem located_line (cause : Text) (h1 : 1 ≤ n) (hn : n ≤ last) (hlast : last ≤ (lines src).length) :
    MetaFault.Located ⟨cause, n, excerpt src n⟩ src last := by
  have hin : n ≤ (lines src).length := Int.le_trans hn hlast
  obtain ⟨hmarks, hquoted⟩ := excerpt_marksLine h1 hin
  have hzero : n ≠ 0 := by omega
  exact ⟨Or.inr ⟨h1, hn⟩, ⟨fun h => absurd h hquoted, fun h => absurd h hzero⟩, fun _ => hmarks⟩

theorem located_nowhere (cause src : Text) (last : Int) : MetaFault.Located ⟨cause, 0, []⟩ src last :=
  ⟨Or.inl rfl, ⟨fun _ => rfl, fun _ => rfl⟩, fun h => absurd rfl h⟩

theorem not_located_of_neg {f : MetaFault} (h : f.line < 0) : ¬ f.Located src last := by
  intro hlocated
  rcases hlocated.line with hzero | ⟨hpos, -⟩
  · omega
  · omega

/-- **A fault is located in its block**, whatever the decoder says, unless the number in
its message is the largest integer of 64 bits. A smaller one names the line behind it, or
the last line if that comes first; the largest one comes round to the least integer, and
a larger one names no line. -/
theorem located_iff (h1 : 1 ≤ last) (hlast : last ≤ (lines src).length) (cause : Text) :
    ((Frontmatter.fault src cause last).Located src last ↔
      ¬ ∃ digits, Frontmatter.FirstNumber cause digits ∧ digitsValue digits = Frontmatter.largestInteger) ∧
    ∀ digits, Frontmatter.FirstNumber cause digits →
      (Frontmatter.fault src cause last).line =
        if digitsValue digits < Frontmatter.largestInteger then min ((digitsValue digits : Int) + 1) last
        else if digitsValue digits = Frontmatter.largestInteger then Frontmatter.leastInteger
        else 0 := by
  have hnumber : ∀ digits, Frontmatter.FirstNumber cause digits →
      Frontmatter.namedLine? cause = some (digitsValue digits) := fun digits h =>
    Frontmatter.namedLine?_eq_some_iff.2 ⟨digits, h, rfl⟩
  rw [← Frontmatter.namedLine?_eq_some_iff]
  rcases Frontmatter.fault_cases src cause last with ⟨n, hnamed, hlt, hfault⟩ | ⟨hnamed, hfault⟩ | ⟨hnamed, hfault⟩
  · rw [hfault]
    refine ⟨iff_of_true (located_line cause (by omega) (Int.min_le_right ..) hlast) ?_, fun digits hdigits => ?_⟩
    · intro hlargest
      exact absurd (Option.some.inj (hnamed.symm.trans hlargest)) (Nat.ne_of_lt hlt)
    · obtain rfl := Option.some.inj (hnamed.symm.trans (hnumber digits hdigits))
      rw [if_pos hlt]
  · -- the number comes round
    have hleast : min Frontmatter.leastInteger last = Frontmatter.leastInteger :=
      Int.min_eq_left (Int.le_trans (by decide : Frontmatter.leastInteger ≤ 1) h1)
    rw [hfault, hleast]
    have hneg : Frontmatter.leastInteger < 0 := by decide
    refine ⟨iff_of_false (not_located_of_neg hneg) (not_not_intro hnamed), fun digits hdigits => ?_⟩
    have hvalue := Option.some.inj (hnamed.symm.trans (hnumber digits hdigits))
    rw [if_neg (by omega), if_pos hvalue.symm]
  · rw [hfault]
    refine ⟨iff_of_true (located_nowhere ..) fun h => absurd (hnamed _ h) (Nat.lt_irrefl _), fun digits hdigits => ?_⟩
    have hbeyond := hnamed _ (hnumber digits hdigits)
    rw [if_neg (by omega), if_neg (by omega)]

end

/-- A document whose only value is no number. -/
def floatSource (digits : Text) : Text := "---\na: !!float line " ++ digits ++ "\n---\n"

/-- What the decoder says of it, and quotes. -/
def floatMessage (digits : Text) : Text := "yaml: cannot decode !!str \x60line " ++ digits ++ "\x60 as a !!float"

theorem located_behind_all_lines :
    (Frontmatter.fault (floatSource "9223372036854775806") (floatMessage "9223372036854775806") 3).Located
      (floatSource "9223372036854775806") 3 := by
  refine (located_iff (by decide) (by decide) _).1.2 ?_
  rw [← Frontmatter.namedLine?_eq_some_iff]
  decide +kernel

/-- The fault of a document that cannot be read. -/
def Frontmatter.fault? (src : Text) : Option MetaFault :=
  match Frontmatter.parse src with
  | .error f => some f
  | .ok _ => none

theorem Frontmatter.parse_of_fault? {src : Text} {f : MetaFault} (h : Frontmatter.fault? src = some f) :
    Frontmatter.parse src = .error f := by
  unfold Frontmatter.fault? at h
  split at h
  next e heq => rw [heq, Option.some.inj h]
  next => exact absurd h (by simp)

/-- **The line comes round** if the document has the largest integer for the decoder to
quote. -/
theorem line_comes_round :
    ∃ f, Frontmatter.parse (floatSource "9223372036854775807") = .error f ∧
      f = Frontmatter.fault (floatSource "9223372036854775807") (floatMessage "9223372036854775807") 3 ∧
      (lines (floatSource "9223372036854775807")).length = 4 ∧ f.line = Frontmatter.leastInteger ∧
      f.context = [] := by
  have hfault : Frontmatter.fault? (floatSource "9223372036854775807") =
      some ⟨floatMessage "9223372036854775807", Frontmatter.leastInteger, []⟩ := by decide +kernel
  exact ⟨_, Frontmatter.parse_of_fault? hfault, by decide +kernel, by decide +kernel, rfl, rfl⟩

end Docweave
