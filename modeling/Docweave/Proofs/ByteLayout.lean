import Docweave.Proofs.HiddenText
import Docweave.Text.Utf8

/-!
# Bytes of a text that is hidden in part

Texts are lists of characters, but the places that the outside world sees count
bytes. A hidden character leaves as many spaces as it had bytes, so hiding
keeps the place of every byte. This file says what that means and proves it:

> `SameLayout`: the same number of bytes, newlines in the same places, and at
> each place the byte that was there or a space.

> `sameLayout_spread`: a text that is hidden in part has the same layout.

A byte is looked up through the character it belongs to: `Cell` names that
character and the place of the byte in it, and `exists_cell` finds it for
every byte. Places of characters become places of bytes by the size of what
stands in front of them (`byteSize_take_le_iff`, `bytes_slice`).
-/

namespace Docweave

namespace Text

/-! ## Bytes of characters -/

theorem length_charBytes (c : Char) : (charBytes c).length = c.utf8Size := by
  have hle : ∀ (n : Nat) (hn : n < UInt32.size), c.val ≤ UInt32.ofNatLT n hn ↔ c.toNat < n + 1 := by
    intro n hn
    rw [UInt32.le_iff_toNat_le, UInt32.toNat_ofNatLT]
    exact Nat.lt_succ_iff.symm
  unfold charBytes Char.utf8Size
  simp only [hle]
  split
  next => rfl
  next =>
    split
    next => rfl
    next => split <;> rfl

/-- The bytes of ASCII stand for themselves, and for nothing else. -/
theorem mem_charBytes_iff {c : Char} {n : Nat} (hn : n < 128) : n ∈ charBytes c ↔ c.toNat = n := by
  unfold charBytes
  simp only
  (repeat' split) <;> simp only [List.mem_cons, List.not_mem_nil, or_false] <;> omega

theorem charBytes_ascii {c : Char} (hc : c.toNat < 128) : charBytes c = [c.toNat] := if_pos hc

/-- The byte of a newline belongs to no other character. -/
theorem newline_mem_charBytes {c : Char} : 10 ∈ charBytes c ↔ c = '\n' :=
  (mem_charBytes_iff (by decide)).trans (Char.toNat_inj (d := '\n'))

@[simp] theorem bytes_cons (c : Char) (t : Text) : bytes (c :: t) = charBytes c ++ bytes t := rfl

@[simp] theorem bytes_append (s t : Text) : bytes (s ++ t) = bytes s ++ bytes t :=
  List.flatMap_append

theorem length_bytes (t : Text) : (bytes t).length = byteSize t := by
  induction t with
  | nil => rfl
  | cons c t ih => rw [bytes_cons, List.length_append, length_charBytes, ih, byteSize_cons]

theorem bytes_spaces (n : Nat) : bytes (spaces n) = List.replicate n 32 := by
  induction n with
  | zero => rfl
  | succ n ih =>
    show charBytes ' ' ++ bytes (spaces n) = List.replicate (n + 1) 32
    rw [ih]
    rfl

/-- Characters of ASCII are counted alike in characters and in bytes. -/
theorem count_bytes {a : Char} (ha : a.toNat < 128) (t : Text) :
    (bytes t).count a.toNat = t.count a := by
  induction t with
  | nil => rfl
  | cons c t ih =>
    rw [bytes_cons, List.count_append, ih, List.count_cons, Nat.add_comm]
    by_cases hc : c = a
    · rw [hc, charBytes_ascii ha, List.count_singleton_self, if_pos (beq_self_eq_true a)]
    · have hnone : a.toNat ∉ charBytes c := fun h => hc (Char.toNat_inj.1 ((mem_charBytes_iff ha).1 h))
      rw [List.count_eq_zero.2 hnone, if_neg (by simpa using hc)]

/-- Newlines are counted alike in characters and in bytes. -/
theorem count_newline_bytes (t : Text) : (bytes t).count 10 = t.count '\n' :=
  count_bytes (a := '\n') (by decide) t

/-- The first bytes of a text hold the characters of ASCII that some first characters of it
hold: a character that is cut is none of them. -/
theorem exists_take_bytes (t : Text) (m : Nat) :
    ∃ p s, t = p ++ s ∧ ∀ a : Char, a.toNat < 128 → ((bytes t).take m).count a.toNat = p.count a := by
  induction t generalizing m with
  | nil => exact ⟨[], [], rfl, fun a _ => by rw [bytes, List.flatMap_nil, List.take_nil]; rfl⟩
  | cons c t ih =>
    have hlength := length_charBytes c
    by_cases hm : m < c.utf8Size
    · refine ⟨[], c :: t, rfl, fun a ha => ?_⟩
      rw [List.count_nil, bytes_cons, List.take_append_of_le_length (by omega), List.count_eq_zero]
      intro hmem
      -- a character of ASCII has one byte, and none of it is taken
      have hc := (mem_charBytes_iff ha).1 (List.mem_of_mem_take hmem)
      rw [charBytes_ascii (hc ▸ ha)] at hlength hmem
      obtain rfl : m = 0 := by
        rw [List.length_singleton] at hlength
        omega
      exact absurd hmem (by simp)
    · obtain ⟨p, s, rfl, hcount⟩ := ih (m - c.utf8Size)
      refine ⟨c :: p, s, rfl, fun a ha => ?_⟩
      have hfirst := count_bytes ha [c]
      rw [bytes_cons, bytes, List.flatMap_nil, List.append_nil] at hfirst
      rw [bytes_cons, List.take_append, List.take_of_length_le (by omega), hlength, List.count_append,
        hcount a ha, hfirst]
      show ([c] : Text).count a + p.count a = ([c] ++ p : Text).count a
      exact List.count_append.symm

/-- A byte of ASCII is found where its character stands. -/
theorem getElem?_bytes_iff {a : Char} (ha : a.toNat < 128) {t : Text} {i : Nat} :
    (bytes t)[i]? = some a.toNat ↔ ∃ s u, t = s ++ a :: u ∧ byteSize s = i := by
  constructor
  · intro h
    induction t generalizing i with
    | nil => exact absurd h (by simp [bytes])
    | cons c t ih =>
      have hlength := length_charBytes c
      by_cases hi : i < c.utf8Size
      · rw [bytes_cons, List.getElem?_append_left (by omega)] at h
        have hc := (mem_charBytes_iff ha).1 (List.mem_of_getElem? h)
        rw [charBytes_ascii (hc ▸ ha), List.length_singleton] at hlength
        exact ⟨[], t, by rw [Char.toNat_inj.1 hc]; rfl, by rw [byteSize_nil]; omega⟩
      · rw [bytes_cons, List.getElem?_append_right (by omega), hlength] at h
        obtain ⟨s, u, rfl, hs⟩ := ih h
        exact ⟨c :: s, u, rfl, by rw [byteSize_cons]; omega⟩
  · rintro ⟨s, u, rfl, rfl⟩
    rw [bytes_append, bytes_cons, charBytes_ascii ha, ← length_bytes,
      List.getElem?_append_right (Nat.le_refl _), Nat.sub_self]
    rfl

/-! ## Places in bytes -/

theorem byteSize_take_add (t : Text) (n : Nat) :
    byteSize (t.take n) + byteSize (t.drop n) = byteSize t := by
  rw [← byteSize_append, List.take_append_drop]

theorem byteSize_take_mono (t : Text) {m n : Nat} (h : m ≤ n) :
    byteSize (t.take m) ≤ byteSize (t.take n) := by
  rw [← byteSize_take_add (t.take n) m, List.take_take, Nat.min_eq_left h]
  exact Nat.le_add_right _ _

/-- A place is not behind a byte exactly when it is not behind the character
that the byte belongs to. -/
theorem byteSize_take_le_iff {t : Text} {k j : Nat} {c : Char} (hc : t[k]? = some c)
    (hj : j < c.utf8Size) (n : Nat) : byteSize (t.take n) ≤ byteSize (t.take k) + j ↔ n ≤ k := by
  constructor
  · intro h
    by_contra hlt
    have hmono := byteSize_take_mono t (Nat.succ_le_of_lt (Nat.lt_of_not_le hlt))
    rw [List.take_add_one, hc, byteSize_append] at hmono
    simp only [Option.toList_some, byteSize_cons, byteSize_nil] at hmono
    omega
  · intro h
    exact Nat.le_trans (byteSize_take_mono t h) (Nat.le_add_right _ _)

theorem byteSize_take_lt {t : Text} {m n : Nat} (h : m < n) (hn : n ≤ t.length) :
    byteSize (t.take m) < byteSize (t.take n) := by
  have hlt : m < t.length := Nat.lt_of_lt_of_le h hn
  have hiff := byteSize_take_le_iff (List.getElem?_eq_getElem hlt) (Char.utf8Size_pos _) n
  exact Nat.lt_of_not_le (mt hiff.1 (Nat.not_le_of_lt h))

theorem bytes_take (t : Text) (n : Nat) :
    (bytes t).take (byteSize (t.take n)) = bytes (t.take n) := by
  conv => lhs; rw [← List.take_append_drop n t, bytes_append]
  rw [List.take_append_drop, ← length_bytes, List.take_left]

theorem bytes_drop (t : Text) (n : Nat) :
    (bytes t).drop (byteSize (t.take n)) = bytes (t.drop n) := by
  conv => lhs; rw [← List.take_append_drop n t, bytes_append]
  rw [List.take_append_drop, ← length_bytes, List.drop_left]

end Text

namespace Source

open Text

/-- The bytes of a piece of a text are the bytes between its two places. -/
theorem bytes_slice (t : Text) {start stop : Nat} (h : start ≤ stop) :
    bytes (slice start stop t) =
      ((bytes t).take (byteSize (t.take stop))).drop (byteSize (t.take start)) := by
  have hstart : (t.take stop).take start = t.take start := by
    rw [List.take_take, Nat.min_eq_left h]
  rw [bytes_take, ← hstart, bytes_drop, slice]

/-! ## The layout of a text -/

/-- The text `u` has its bytes where `t` has them, or spaces in their places;
newlines stay. -/
structure SameLayout (t u : Text) : Prop where
  length : (bytes u).length = (bytes t).length
  newline : ∀ i : Nat, (bytes u)[i]? = some 10 ↔ (bytes t)[i]? = some 10
  byte : ∀ i : Nat, (bytes u)[i]? = (bytes t)[i]? ∨ (bytes u)[i]? = some 32

/-- Byte `i` of `t` is the byte `j` of its character `c`, the one with index
`k`; in the hidden text `h` that character is `d`. -/
structure Cell (t h : Text) (i k j : Nat) (c d : Char) : Prop where
  char : t[k]? = some c
  hidden : h[k]? = some d
  offset : i = byteSize (t.take k) + j
  inside : j < c.utf8Size
  byte : (bytes t)[i]? = (charBytes c)[j]?
  seen : (bytes (spread t h))[i]? = (bytes (shown (c, d)))[j]?

theorem bytes_shown_of_ne {c d : Char} (h : c ≠ d) :
    bytes (shown (c, d)) = List.replicate c.utf8Size 32 := by
  rw [shown, if_neg h, bytes_spaces]

theorem length_bytes_shown (c d : Char) : (bytes (shown (c, d))).length = c.utf8Size := by
  by_cases h : c = d
  · rw [shown, if_pos h, length_bytes]
    exact Nat.add_zero _
  · rw [bytes_shown_of_ne h, List.length_replicate]

/-- Every byte belongs to a character. -/
theorem exists_cell {t h : Text} (hth : Hides t h) {i : Nat} (hi : i < byteSize t) :
    ∃ k j c d, Cell t h i k j c d ∧ Hidden c d := by
  induction hth generalizing i with
  | nil => exact absurd hi (Nat.not_lt_zero i)
  | @cons c d t h hcd _ ih =>
    have hbytes := length_charBytes c
    have hshown := length_bytes_shown c d
    by_cases hlt : i < c.utf8Size
    · refine ⟨0, i, c, d, ⟨rfl, rfl, (Nat.zero_add i).symm, hlt, ?_, ?_⟩, hcd⟩
      · rw [bytes_cons, List.getElem?_append_left (by omega)]
      · rw [spread_cons, bytes_append, List.getElem?_append_left (by omega)]
    · rw [byteSize_cons] at hi
      obtain ⟨k, j, c', d', hcell, hhidden⟩ := ih (i := i - c.utf8Size) (by omega)
      refine ⟨k + 1, j, c', d', ⟨hcell.char, hcell.hidden, ?_, hcell.inside, ?_, ?_⟩, hhidden⟩
      · have := hcell.offset
        rw [List.take_succ_cons, byteSize_cons]
        omega
      · rw [bytes_cons, List.getElem?_append_right (by omega), hbytes]
        exact hcell.byte
      · rw [spread_cons, bytes_append, List.getElem?_append_right (by omega), hshown]
        exact hcell.seen

/-- What is seen of a character that is not hidden is the character. -/
theorem Cell.seen_of_eq {t h : Text} {i k j : Nat} {c d : Char} (hcell : Cell t h i k j c d)
    (heq : c = d) : (bytes (spread t h))[i]? = (bytes t)[i]? := by
  rw [hcell.seen, hcell.byte, shown, if_pos heq]
  exact congrArg (·[j]?) (List.append_nil _)

/-- What is seen of a hidden character is blank. -/
theorem Cell.seen_of_ne {t h : Text} {i k j : Nat} {c d : Char} (hcell : Cell t h i k j c d)
    (hne : c ≠ d) : (bytes (spread t h))[i]? = some 32 := by
  rw [hcell.seen, bytes_shown_of_ne hne, List.getElem?_replicate, if_pos hcell.inside]

theorem byteSize_spread {t h : Text} (hth : Hides t h) : byteSize (spread t h) = byteSize t := by
  induction hth with
  | nil => rfl
  | @cons c d t h _ _ ih =>
    rw [spread_cons, byteSize_append, ih, byteSize_cons, ← length_bytes, length_bytes_shown]

/-- **Hiding keeps the layout of a text.** -/
theorem sameLayout_spread {t h : Text} (hth : Hides t h) : SameLayout t (spread t h) := by
  have hlength : (bytes (spread t h)).length = (bytes t).length := by
    rw [length_bytes, length_bytes, byteSize_spread hth]
  have houtside : ∀ i, ¬ i < byteSize t → (bytes (spread t h))[i]? = (bytes t)[i]? := by
    intro i hi
    have hle : (bytes t).length ≤ i := by rw [length_bytes]; omega
    rw [List.getElem?_eq_none hle, List.getElem?_eq_none (hlength ▸ hle)]
  refine ⟨hlength, fun i => ?_, fun i => ?_⟩
  · by_cases hi : i < byteSize t
    · obtain ⟨k, j, c, d, hcell, hcd⟩ := exists_cell hth hi
      by_cases heq : c = d
      · rw [hcell.seen_of_eq heq]
      · -- a hidden character is no newline, so none of its bytes is one
        have hc : c ≠ '\n' := hcd.elim (fun hd => absurd hd.symm heq) And.right
        rw [hcell.seen_of_ne heq, hcell.byte]
        refine ⟨fun h => absurd h (by simp), fun h => ?_⟩
        exact absurd (newline_mem_charBytes.1 (List.mem_of_getElem? h)) hc
    · rw [houtside i hi]
  · by_cases hi : i < byteSize t
    · obtain ⟨k, j, c, d, hcell, _⟩ := exists_cell hth hi
      by_cases heq : c = d
      · exact Or.inl (hcell.seen_of_eq heq)
      · exact Or.inr (hcell.seen_of_ne heq)
    · exact Or.inl (houtside i hi)

end Source

end Docweave
