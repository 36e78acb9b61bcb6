import Docweave.Proofs.BraceGroups
import Docweave.Proofs.ByteLayout

/-!
# Braces matched by counting

Two scans pair braces, each in its own way: `Braces.ends?` sweeps over a text with one
stack for all opening braces, and `Braces.splitTrailing?` walks back from the end of a
line with a depth. Neither counts from a brace on, but both find what counting finds:

> `ClosesAt`: byte `j` is the first one behind the opening brace at byte `i` at which as
> many braces have been closed as opened from `i` on.

> `closesAt_iff`: that is the byte behind the balanced body of a group. In front of it
> more braces are open than closed (`surplus_within`), at any byte, because a byte of a
> brace belongs to no other character.

> `endOf?_eq_some_iff`: the sweep finds the end of a group for opening braces, and
> nothing for any other byte.

> `braces_matched_by_counting`: so the entries of the table are those that counting
> gives, and the group at the end of a line is the one whose entry is the end.
-/

namespace Docweave.Braces

open Text (byteSize bytes charBytes)

/-! ## Counting bytes -/

/-- The bytes from place `i` to place `j`, both included. -/
def through (i j : Nat) (bs : List Nat) : List Nat := (bs.take (j + 1)).drop i

/-- How many more braces a stretch of bytes opens than it closes. -/
def surplus (bs : List Nat) : Int := bs.count '\x7b'.toNat - bs.count '\x7d'.toNat

/-- Byte `j` is the first behind byte `i` at which the braces from `i` on are even. -/
structure ClosesAt (bs : List Nat) (i j : Nat) : Prop where
  behind : i < j
  inside : j < bs.length
  even : surplus (through i j bs) = 0
  first : ∀ k, i < k → k < j → surplus (through i k bs) ≠ 0

section

variable {s t u body r : Text} {i j m : Nat}

theorem byteSize_opening (s u : Text) : byteSize (s ++ '\x7b' :: u) = byteSize s + (byteSize u + 1) := by
  rw [Text.byteSize_append, Text.byteSize_cons, Nat.add_comm (Char.utf8Size _)]
  rfl

/-- From an opening brace on. -/
theorem through_opening (s u : Text) (m : Nat) :
    through (byteSize s) (byteSize s + m) (bytes (s ++ '\x7b' :: u)) =
      '\x7b'.toNat :: (bytes u).take m := by
  rw [through, Text.bytes_append, ← Text.length_bytes, Nat.add_assoc, List.take_length_add_append,
    List.drop_left]
  rfl

theorem surplus_cons_opening (bs : List Nat) : surplus ('\x7b'.toNat :: bs) = surplus bs + 1 := by
  rw [surplus, surplus, List.count_cons_self, List.count_cons_of_ne (by decide)]
  omega

/-- A text that closes no more than it opens leaves the brace in front of it open, at each of its bytes. -/
theorem surplus_within (h : Within 0 u) (m : Nat) : surplus ('\x7b'.toNat :: (bytes u).take m) ≠ 0 := by
  obtain ⟨p, q, hu, hcount⟩ := Text.exists_take_bytes u m
  have hle := h p q hu
  rw [surplus_cons_opening, surplus, hcount '\x7b' (by decide), hcount '\x7d' (by decide)]
  omega

/-- A balanced body closes its own groups, and the brace behind it the one in front. -/
theorem surplus_balanced (h : Balanced body) (r : Text) :
    surplus ('\x7b'.toNat :: (bytes (body ++ '\x7d' :: r)).take (byteSize body + 1)) = 0 := by
  have htake : (bytes (body ++ '\x7d' :: r)).take (byteSize body + 1) = bytes (body ++ ['\x7d']) := by
    rw [Text.bytes_append, ← Text.length_bytes, List.take_length_add_append, Text.bytes_append]
    rfl
  have htotal := h.total
  rw [surplus_cons_opening, htake, surplus, Text.count_bytes (by decide), Text.count_bytes (by decide),
    List.count_append, List.count_append, List.count_singleton_self,
    List.count_eq_zero.2 (by decide : '\x7b' ∉ ['\x7d'])]
  omega

/-- **Counting finds the group of a brace**: the byte of the brace behind its balanced body. -/
theorem closesAt_iff : ClosesAt (bytes (s ++ '\x7b' :: u)) (byteSize s) j ↔
    ∃ body r, u = body ++ '\x7d' :: r ∧ Balanced body ∧ j = byteSize s + (byteSize body + 1) := by
  constructor
  · intro h
    obtain ⟨m, rfl⟩ := Nat.exists_eq_add_of_lt h.behind
    have heven := h.even
    rw [Nat.add_assoc, through_opening] at heven
    cases hgroup : BracketSpan.group? 0 u with
    | none => exact absurd heven (surplus_within (group?_eq_none_iff.1 hgroup) _)
    | some found =>
      obtain ⟨body, r⟩ := found
      obtain ⟨rfl, hbody⟩ := group?_zero_iff.1 hgroup
      refine ⟨body, r, rfl, hbody, ?_⟩
      by_contra hne
      by_cases hlt : byteSize body < m
      · -- the group has ended before, where counting would have stopped
        have hbefore := h.first (byteSize s + (byteSize body + 1)) (by omega) (by omega)
        rw [through_opening] at hbefore
        exact hbefore (surplus_balanced hbody r)
      · -- the bytes up to here belong to the body
        have hsize := Text.length_bytes body
        rw [Text.bytes_append, List.take_append_of_le_length (by omega)] at heven
        exact surplus_within hbody.within _ heven
  · rintro ⟨body, r, rfl, hbody, rfl⟩
    refine ⟨by omega, ?_, ?_, ?_⟩
    · have hclosing : byteSize (body ++ '\x7d' :: r) = byteSize body + (byteSize r + 1) := by
        rw [Text.byteSize_append, Text.byteSize_cons, Nat.add_comm (Char.utf8Size _)]
        rfl
      rw [Text.length_bytes, byteSize_opening, hclosing]
      omega
    · rw [through_opening]
      exact surplus_balanced hbody r
    · intro k hik hkj
      obtain ⟨m, rfl⟩ := Nat.exists_eq_add_of_le (Nat.le_of_lt hik)
      have hsize := Text.length_bytes body
      rw [through_opening, Text.bytes_append, List.take_append_of_le_length (by omega)]
      exact surplus_within hbody.within m

end

/-! ## The sweep -/

section

variable {s t text body : Text} {st : List Nat} {e : Nat × Nat} {i j n : Nat}

/-- The braces that the sweep pairs are on the stack, or are opening braces of the text. -/
theorem opening_of_mem_pairs (he : e ∈ pairs i st t) :
    e.1 ∈ st ∨ ∃ s u, t = s ++ '\x7b' :: u ∧ e.1 = i + byteSize s := by
  induction t generalizing i st with
  | nil => exact absurd he (by simp [pairs])
  | cons c t ih =>
    have behind : (∃ s u, t = s ++ '\x7b' :: u ∧ e.1 = i + c.utf8Size + byteSize s) →
        ∃ s u, c :: t = s ++ '\x7b' :: u ∧ e.1 = i + byteSize s := by
      rintro ⟨s, u, rfl, hs⟩
      exact ⟨c :: s, u, rfl, by rw [Text.byteSize_cons]; omega⟩
    by_cases hopen : c = '\x7b'
    · subst hopen
      have hbelow : e ∈ pairs (i + 1) (i :: st) t := he
      rcases ih hbelow with hmem | hlater
      · rcases List.mem_cons.1 hmem with hi | hst
        · exact Or.inr ⟨[], t, rfl, hi⟩
        · exact Or.inl hst
      · exact Or.inr (behind hlater)
    by_cases hclose : c = '\x7d'
    · subst hclose
      cases st with
      | nil =>
        have hbelow : e ∈ pairs (i + 1) [] t := he
        rcases ih hbelow with hmem | hlater
        · exact absurd hmem (by simp)
        · exact Or.inr (behind hlater)
      | cons o st =>
        rcases List.mem_cons.1 he with rfl | he
        · exact Or.inl (List.mem_cons_self ..)
        · rcases ih he with hst | hlater
          · exact Or.inl (List.mem_cons_of_mem _ hst)
          · exact Or.inr (behind hlater)
    · rw [pairs_other hopen hclose] at he
      rcases ih he with hst | hlater
      · exact Or.inl hst
      · exact Or.inr (behind hlater)

/-- **The sweep finds what counting finds**, and nothing for a byte that is no opening brace. -/
theorem endOf?_eq_some_iff : endOf? t i = some n ↔
    (bytes t)[i]? = some '\x7b'.toNat ∧ ∃ j, ClosesAt (bytes t) i j ∧ n = j + 1 := by
  -- both sides speak of an opening brace at byte `i`
  have hopening : ∀ s u, t = s ++ '\x7b' :: u → byteSize s = i →
      (endOf? t i = some n ↔ ∃ j, ClosesAt (bytes t) i j ∧ n = j + 1) := by
    rintro s u rfl rfl
    rw [endOf?_opening]
    constructor
    · intro h
      obtain ⟨⟨body, r⟩, hgroup, rfl⟩ := Option.map_eq_some_iff.1 h
      obtain ⟨rfl, hbody⟩ := group?_zero_iff.1 hgroup
      exact ⟨_, closesAt_iff.2 ⟨body, r, rfl, hbody, rfl⟩, rfl⟩
    · rintro ⟨j, hcloses, rfl⟩
      obtain ⟨body, r, rfl, hbody, rfl⟩ := closesAt_iff.1 hcloses
      rw [group?_zero_iff.2 ⟨rfl, hbody⟩]
      rfl
  rw [Text.getElem?_bytes_iff (by decide)]
  constructor
  · intro h
    obtain ⟨e, hfind, -⟩ := Option.map_eq_some_iff.1 h
    have hi : e.1 = i := by simpa using List.find?_some hfind
    rcases opening_of_mem_pairs (List.mem_of_find?_eq_some hfind) with hmem | ⟨s, u, ht, hs⟩
    · exact absurd hmem (by simp)
    · have hplace : byteSize s = i := by omega
      exact ⟨⟨s, u, ht, hplace⟩, (hopening s u ht hplace).1 h⟩
  · rintro ⟨⟨s, u, ht, hplace⟩, hcloses⟩
    exact (hopening s u ht hplace).2 hcloses

/-! ## The table -/

/-- The table of a text has the entry `n` for byte `i`. -/
def EndsAt (t : Text) (i n : Nat) : Prop := ∃ ends, ends? t = some ends ∧ ends[i]? = some (some n)

theorem ends?_eq_none_iff : ends? t = none ↔ '\x7b'.toNat ∉ bytes t := by
  have hbyte := Text.count_bytes (a := '\x7b') (by decide) t
  rw [← List.count_eq_zero, hbyte, List.count_eq_zero, ← List.contains_iff_mem, Bool.not_eq_true]
  unfold ends?
  cases t.contains '\x7b' <;> simp

theorem ends?_eq_some {ends : List (Option Nat)} (h : ends? t = some ends) :
    ends = (List.range (byteSize t)).map (endOf? t) := by
  unfold ends? at h
  split at h
  next => exact (Option.some.inj h).symm
  next => exact absurd h (by simp)

theorem getElem?_ends {ends : List (Option Nat)} (h : ends? t = some ends) :
    ends[i]? = some (some n) ↔ endOf? t i = some n := by
  rw [ends?_eq_some h, List.getElem?_map]
  constructor
  · intro hentry
    obtain ⟨k, hk, hend⟩ := Option.map_eq_some_iff.1 hentry
    obtain ⟨hlt, rfl⟩ := List.getElem?_eq_some_iff.1 hk
    rwa [List.getElem_range] at hend
  · intro hend
    obtain ⟨hbyte, -⟩ := endOf?_eq_some_iff.1 hend
    obtain ⟨hlt, -⟩ := List.getElem?_eq_some_iff.1 hbyte
    rw [Text.length_bytes] at hlt
    rw [List.getElem?_range hlt, Option.map_some, hend]

theorem endsAt_iff : EndsAt t i n ↔ endOf? t i = some n := by
  constructor
  · rintro ⟨ends, hends, hentry⟩
    exact (getElem?_ends hends).1 hentry
  · intro h
    cases hends : ends? t with
    | none =>
      obtain ⟨hbyte, -⟩ := endOf?_eq_some_iff.1 h
      exact absurd (List.mem_of_getElem? hbyte) (ends?_eq_none_iff.1 hends)
    | some ends => exact ⟨ends, hends, (getElem?_ends hends).2 h⟩

/-! ## The end of a line -/

/-- A line without the gaps at its end. -/
def trimmed (line : Text) : Text := Text.trimRight Text.isGap line

/-- An entry that is the end of the text belongs to a group that ends the text. -/
theorem endsAt_end_iff : EndsAt t i (byteSize t) ↔
    ∃ text body, t = text ++ '\x7b' :: (body ++ ['\x7d']) ∧ Balanced body ∧ i = byteSize text := by
  have hclosing : Char.utf8Size '\x7d' = 1 := rfl
  rw [endsAt_iff, endOf?_eq_some_iff]
  constructor
  · rintro ⟨hbyte, j, hcloses, hsize⟩
    obtain ⟨text, u, rfl, rfl⟩ := (Text.getElem?_bytes_iff (by decide)).1 hbyte
    obtain ⟨body, r, rfl, hbody, rfl⟩ := closesAt_iff.1 hcloses
    rw [byteSize_opening, Text.byteSize_append, Text.byteSize_cons] at hsize
    cases r with
    | nil => exact ⟨text, body, rfl, hbody, rfl⟩
    | cons c r =>
      -- the group ends in front of the end
      have hpos := c.utf8Size_pos
      rw [Text.byteSize_cons] at hsize
      omega
  · rintro ⟨text, body, rfl, hbody, rfl⟩
    refine ⟨(Text.getElem?_bytes_iff (by decide)).2 ⟨text, _, rfl, rfl⟩, _,
      closesAt_iff.2 ⟨body, [], rfl, hbody, rfl⟩, ?_⟩
    rw [byteSize_opening, Text.byteSize_append, Text.byteSize_cons, Text.byteSize_nil]
    omega

/-- A line that is split ends, but for gaps, with a balanced group. -/
theorem splitTrailing?_trimmed_iff {line : Text} : splitTrailing? line = some (text, body) ↔
    trimmed line = text ++ '\x7b' :: (body ++ ['\x7d']) ∧ Balanced body := by
  rw [splitTrailing?_eq_some_iff]
  constructor
  · rintro ⟨gaps, rfl, hgaps, hbody⟩
    refine ⟨?_, hbody⟩
    have hreverse : (text ++ '\x7b' :: (body ++ '\x7d' :: gaps)).reverse =
        gaps.reverse ++ (text ++ '\x7b' :: (body ++ ['\x7d'])).reverse := by simp
    have hstop := Text.trimRight_concat (p := Text.isGap) (c := '\x7d') (text ++ '\x7b' :: body) rfl
    rw [List.append_assoc, List.cons_append] at hstop
    rw [trimmed, Text.trimRight, hreverse,
      List.dropWhile_append_of_pos fun c hc => hgaps c (List.mem_reverse.1 hc)]
    exact hstop
  · rintro ⟨htrim, hbody⟩
    obtain ⟨gaps, hline, hgaps⟩ := Text.eq_trimRight_append Text.isGap line
    rw [← trimmed, htrim] at hline
    exact ⟨gaps, by rw [hline]; simp, hgaps, hbody⟩

/-- The line is split at the entry that is its end. -/
theorem endsAt_trimmed_iff {line : Text} : EndsAt (trimmed line) i (byteSize (trimmed line)) ↔
    ∃ text body, splitTrailing? line = some (text, body) ∧ i = byteSize text := by
  rw [endsAt_end_iff]
  constructor
  · rintro ⟨text, body, htrim, hbody, hi⟩
    exact ⟨text, body, splitTrailing?_trimmed_iff.2 ⟨htrim, hbody⟩, hi⟩
  · rintro ⟨text, body, hsplit, hi⟩
    obtain ⟨htrim, hbody⟩ := splitTrailing?_trimmed_iff.1 hsplit
    exact ⟨text, body, htrim, hbody, hi⟩

/-- The parts of a line that is split, byte by byte. -/
theorem bytes_of_splitTrailing? {line : Text} (h : splitTrailing? line = some (text, body)) :
    bytes text = (bytes (trimmed line)).take (byteSize text) ∧
      bytes body = ((bytes (trimmed line)).take (byteSize (trimmed line) - 1)).drop (byteSize text + 1) := by
  have hclosing : Char.utf8Size '\x7d' = 1 := rfl
  obtain ⟨htrim, -⟩ := splitTrailing?_trimmed_iff.1 h
  have hlength : byteSize (trimmed line) - 1 = (bytes (text ++ '\x7b' :: body)).length := by
    rw [htrim, Text.length_bytes, byteSize_opening, byteSize_opening, Text.byteSize_append,
      Text.byteSize_cons, Text.byteSize_nil]
    omega
  have hbytes : bytes (trimmed line) = bytes (text ++ '\x7b' :: body) ++ bytes ['\x7d'] := by
    rw [htrim, ← Text.bytes_append, List.append_assoc, List.cons_append]
  constructor
  · rw [htrim, Text.bytes_append, ← Text.length_bytes, List.take_left]
  · rw [hlength, hbytes, List.take_left, Text.bytes_append, Text.bytes_cons, ← List.append_assoc]
    have hfront : byteSize text + 1 = (bytes text ++ charBytes '\x7b').length := by
      rw [List.length_append, Text.length_bytes]
      rfl
    rw [hfront, List.drop_left]

end

/-- **Both scans find what counting finds.** There is a table for every text with an opening
brace. It has an entry for each byte: for an opening brace one behind the first byte at
which the braces from there on are even, if there is one, and none otherwise. And a line
is split exactly when some entry of the trimmed line is its length; this is one entry, and
the line is split there: the text in front of that byte, and what stands between it and the
last one. -/
theorem braces_matched_by_counting :
    (∀ t : Text,
      (ends? t = none ↔ '\x7b'.toNat ∉ bytes t) ∧
      ∀ ends, ends? t = some ends →
        ends.length = (bytes t).length ∧
        ∀ i n, ends[i]? = some (some n) ↔
          (bytes t)[i]? = some '\x7b'.toNat ∧ ∃ j, ClosesAt (bytes t) i j ∧ n = j + 1) ∧
    ∀ line : Text,
      ((splitTrailing? line).isSome = true ↔ ∃ i, EndsAt (trimmed line) i (byteSize (trimmed line))) ∧
      (∀ i k, EndsAt (trimmed line) i (byteSize (trimmed line)) →
        EndsAt (trimmed line) k (byteSize (trimmed line)) → i = k) ∧
      ∀ text body i, splitTrailing? line = some (text, body) →
        EndsAt (trimmed line) i (byteSize (trimmed line)) →
        bytes text = (bytes (trimmed line)).take i ∧
        bytes body = ((bytes (trimmed line)).take (byteSize (trimmed line) - 1)).drop (i + 1) := by
  constructor
  · intro t
    refine ⟨ends?_eq_none_iff, fun ends hends => ⟨?_, fun i n => ?_⟩⟩
    · rw [ends?_eq_some hends, List.length_map, List.length_range, Text.length_bytes]
    · rw [getElem?_ends hends, endOf?_eq_some_iff]
  · intro line
    refine ⟨?_, fun i k hi hk => ?_, fun text body i hsplit hend => ?_⟩
    · rw [Option.isSome_iff_exists]
      constructor
      · rintro ⟨⟨text, body⟩, hsplit⟩
        exact ⟨byteSize text, endsAt_trimmed_iff.2 ⟨text, body, hsplit, rfl⟩⟩
      · rintro ⟨i, hend⟩
        obtain ⟨text, body, hsplit, -⟩ := endsAt_trimmed_iff.1 hend
        exact ⟨(text, body), hsplit⟩
    · obtain ⟨text, body, hsplit, rfl⟩ := endsAt_trimmed_iff.1 hi
      obtain ⟨text', body', hsplit', rfl⟩ := endsAt_trimmed_iff.1 hk
      obtain ⟨rfl, -⟩ := Prod.mk.inj (Option.some.inj (hsplit.symm.trans hsplit'))
      rfl
    · obtain ⟨text', body', hsplit', rfl⟩ := endsAt_trimmed_iff.1 hend
      obtain ⟨rfl, -⟩ := Prod.mk.inj (Option.some.inj (hsplit.symm.trans hsplit'))
      exact bytes_of_splitTrailing? hsplit

/-- A stray closing brace, a nested group, and an opening brace without a partner. -/
def strayBraces : Text := "\x7da\x7bé\x7b\x7d\x7d\x7b"

/-- A line with two groups, of which the last one is split off. -/
def groupedLine : Text := "a\x7bb\x7d c\x7bd\x7be\x7d\x7d \n"

theorem braces_matched_by_counting_strays :
    (ends? strayBraces =
        some [none, none, some 8, none, none, some 7, none, none, none] ∧
      (bytes strayBraces)[2]? = some '\x7b'.toNat ∧ ∃ j, ClosesAt (bytes strayBraces) 2 j ∧ 8 = j + 1) ∧
    splitTrailing? groupedLine = some (("a\x7bb\x7d c" : Text), ("d\x7be\x7d" : Text)) ∧
    EndsAt (trimmed groupedLine) 6 (byteSize (trimmed groupedLine)) ∧
    bytes "a\x7bb\x7d c" = (bytes (trimmed groupedLine)).take 6 ∧
    bytes "d\x7be\x7d" =
      ((bytes (trimmed groupedLine)).take (byteSize (trimmed groupedLine) - 1)).drop 7 := by
  have hends : ends? strayBraces =
      some [none, none, some 8, none, none, some 7, none, none, none] := by decide +kernel
  have hsplit : splitTrailing? groupedLine = some (("a\x7bb\x7d c" : Text), ("d\x7be\x7d" : Text)) := by
    decide +kernel
  obtain ⟨htable, hline⟩ := braces_matched_by_counting
  obtain ⟨-, hentries⟩ := (htable strayBraces).2 _ hends
  obtain ⟨-, -, hparts⟩ := hline groupedLine
  have hend : EndsAt (trimmed groupedLine) 6 (byteSize (trimmed groupedLine)) :=
    endsAt_trimmed_iff.2 ⟨_, _, hsplit, by decide +kernel⟩
  exact ⟨⟨hends, (hentries 2 8).1 rfl⟩, hsplit, hend, hparts _ _ 6 hsplit hend⟩

end Docweave.Braces
