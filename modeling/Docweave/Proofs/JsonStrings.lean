import Docweave.Text.JsonString

/-!
# Reading strings of JSON

A reader for what `Text.JsonString` writes: a string character by character, with
its escapes undone, and an array of strings without blanks between them.

> `readJsonItems_markupJsonChar`: a character is read as it was written.

> `readJsonStrings_markupJsonStrings`: an array of strings is read as the strings
> it was written from.
-/

namespace Docweave.Text

/-! ## The reader -/

/-- The code unit of four hexadecimal digits. -/
def codeUnit? (a b c d : Char) : Option Nat :=
  match hexValue? a, hexValue? b, hexValue? c, hexValue? d with
  | some a, some b, some c, some d => some (a * 4096 + b * 256 + c * 16 + d)
  | _, _, _, _ => none

/-- The character that a backslash and a letter stand for. -/
def escaped? (c : Char) : Option Char :=
  if c = quote || c = '\\' || c = '/' then some c
  else if c = 'n' then some '\n'
  else if c = 'r' then some '\r'
  else if c = 't' then some '\t'
  else if c = 'b' then some (Char.ofNat 8)
  else if c = 'f' then some (Char.ofNat 12)
  else none

/-- A character in front of the first of some texts. -/
def intoFirst (c : Char) : List Text → List Text
  | [] => [[c]]
  | t :: ts => (c :: t) :: ts

/-- The strings of an array, from a place inside one of them on. A code unit has to
be a character by itself. -/
def readJsonItems : Text → Option (List Text)
  | [] => none
  | c :: t =>
    if c = quote then
      match t with
      | [']'] => some [[]]
      | ',' :: '\x22' :: r => (readJsonItems r).map ([] :: ·)
      | _ => none
    else if c = '\\' then
      match t with
      | 'u' :: w :: x :: y :: z :: r =>
        match codeUnit? w x y z with
        | some n => if n.isValidChar then (readJsonItems r).map (intoFirst (Char.ofNat n)) else none
        | none => none
      | e :: r =>
        match escaped? e with
        | some d => (readJsonItems r).map (intoFirst d)
        | none => none
      | [] => none
    else if c.toNat < 0x20 then none
    else (readJsonItems t).map (intoFirst c)

/-- The strings of an array. -/
def readJsonStrings : Text → Option (List Text)
  | ['[', ']'] => some []
  | '[' :: '\x22' :: r => readJsonItems r
  | _ => none

/-! ## Characters -/

theorem hexValue?_hexDigit {n : Nat} (h : n < 16) : hexValue? (hexDigit n) = some n := by
  have hall : ∀ n, n < 16 → hexValue? (hexDigit n) = some n := by decide
  exact hall n h

/-- An escape by code unit is read as its character. -/
theorem readJsonItems_unicodeEscape {c : Char} (h : c.toNat < 65536) (rest : Text) :
    readJsonItems (unicodeEscape c.toNat ++ rest) = (readJsonItems rest).map (intoFirst c) := by
  have hdigit : ∀ k, hexValue? (hexDigit (k % 16)) = some (k % 16) := fun k =>
    hexValue?_hexDigit (Nat.mod_lt _ (by omega))
  have hunit : c.toNat / 4096 % 16 * 4096 + c.toNat / 256 % 16 * 256 + c.toNat / 16 % 16 * 16 + c.toNat % 16 =
      c.toNat := by omega
  have hvalid : c.toNat.isValidChar := c.valid
  simp only [unicodeEscape, List.cons_append, List.nil_append]
  rw [readJsonItems, if_neg (by decide), if_pos rfl]
  simp only [codeUnit?, hdigit, hunit, hvalid, if_true, Char.ofNat_toNat]

/-- An escape by a letter is read as its character. -/
theorem readJsonItems_escaped {e c : Char} (h : escaped? e = some c) (rest : Text) :
    readJsonItems ('\\' :: e :: rest) = (readJsonItems rest).map (intoFirst c) := by
  have hletter : e ≠ 'u' := by
    rintro rfl
    have hnone : escaped? 'u' = none := by decide
    rw [hnone] at h
    exact absurd h (by simp)
  rw [readJsonItems.eq_def]
  simp only [if_true]
  rw [if_neg (by decide)]
  split
  next heq => exact absurd (List.cons.inj heq).1 hletter
  next heq =>
    obtain ⟨rfl, rfl⟩ := List.cons.inj heq
    rw [h]
  next heq => exact absurd heq (by simp)

theorem readJsonItems_plain {c : Char} (hquote : c ≠ quote) (hslash : c ≠ '\\') (hcontrol : ¬ c.toNat < 0x20)
    (rest : Text) : readJsonItems (c :: rest) = (readJsonItems rest).map (intoFirst c) := by
  rw [readJsonItems.eq_def]
  simp only
  rw [if_neg hquote, if_neg hslash, if_neg hcontrol]

theorem readJsonItems_jsonChar (c : Char) (rest : Text) :
    readJsonItems (jsonChar c ++ rest) = (readJsonItems rest).map (intoFirst c) := by
  have hletter : ∀ {e d : Char}, escaped? e = some d → c = d →
      readJsonItems (['\\', e] ++ rest) = (readJsonItems rest).map (intoFirst c) := by
    rintro e d hread rfl
    exact readJsonItems_escaped hread rest
  unfold jsonChar
  split
  · next h => exact hletter (by decide) h
  split
  · next h => exact hletter (by decide) h
  split
  · next h => exact hletter (by decide) h
  split
  · next h => exact hletter (by decide) h
  split
  · next h => exact hletter (by decide) h
  split
  · next h => exact hletter (by decide) h
  split
  · next h => exact hletter (by decide) h
  next hquote hslash _ _ _ _ _ =>
    split
    next h =>
      simp only [Bool.or_eq_true, decide_eq_true_eq] at h
      exact readJsonItems_unicodeEscape (by omega) rest
    next h =>
      simp only [Bool.or_eq_true, decide_eq_true_eq] at h
      exact readJsonItems_plain hquote hslash (by omega) rest

/-- **A character is read as it was written.** -/
theorem readJsonItems_markupJsonChar (c : Char) (rest : Text) :
    readJsonItems (markupJsonChar c ++ rest) = (readJsonItems rest).map (intoFirst c) := by
  unfold markupJsonChar
  split
  next h =>
    simp only [Bool.or_eq_true, decide_eq_true_eq] at h
    refine readJsonItems_unicodeEscape ?_ rest
    rcases h with (rfl | rfl) | rfl
    · decide
    · decide
    · decide
  next => exact readJsonItems_jsonChar c rest

/-! ## Strings and arrays -/

theorem readJsonItems_string (t : Text) {rest : Text} {s : Text} {ss : List Text}
    (h : readJsonItems rest = some (s :: ss)) :
    readJsonItems (t.flatMap markupJsonChar ++ rest) = some ((t ++ s) :: ss) := by
  induction t with
  | nil => exact h
  | cons c t ih =>
    rw [List.flatMap_cons, List.append_assoc, readJsonItems_markupJsonChar, ih]
    rfl

theorem readJsonItems_join (t : Text) (ts : List Text) :
    ∃ r, join "," ((t :: ts).map markupJsonString) = quote :: r ∧ readJsonItems (r ++ [']']) = some (t :: ts) := by
  induction ts generalizing t with
  | nil =>
    have hend : readJsonItems ([quote] ++ [']']) = some [[]] := rfl
    refine ⟨t.flatMap markupJsonChar ++ [quote], rfl, ?_⟩
    rw [List.append_assoc, readJsonItems_string t hend, List.append_nil]
  | cons u ts ih =>
    obtain ⟨r, hjoin, hread⟩ := ih u
    refine ⟨t.flatMap markupJsonChar ++ quote :: ',' :: quote :: r, ?_, ?_⟩
    · rw [List.map_cons, List.map_cons, join, ← List.map_cons, hjoin, markupJsonString]
      simp
    · have hnext : readJsonItems (quote :: ',' :: quote :: (r ++ [']'])) = some ([] :: u :: ts) := by
        rw [readJsonItems.eq_def]
        simp only [if_true]
        show (readJsonItems (r ++ [']'])).map ([] :: ·) = _
        rw [hread]
        rfl
      rw [List.append_assoc]
      simp only [List.cons_append]
      rw [readJsonItems_string t hnext, List.append_nil]

/-- **An array of strings is read as the strings it was written from.** -/
theorem readJsonStrings_markupJsonStrings (ts : List Text) :
    readJsonStrings (markupJsonStrings ts) = some ts := by
  cases ts with
  | nil => rfl
  | cons t ts =>
    obtain ⟨r, hjoin, hread⟩ := readJsonItems_join t ts
    rw [markupJsonStrings, hjoin]
    exact hread

end Docweave.Text
