import Docweave.ComponentName
import Docweave.Proofs.TextLaws

/-!
# Names of components

A component is imported under the words of its file name, written together. Only
letters and digits are left of them, so an import line can be taken apart again: its
name ends at the first space.

> `alphanumeric_componentName`: a name has letters and digits only.

> `importLine_inj`: two import lines are the same only for the same name and file.
-/

namespace Docweave

open Text (isAlphanumeric isDigit isLetter upperChar fields)

/-- A text of ASCII letters and digits. -/
def Alphanumeric (t : Text) : Prop := ∀ c ∈ t, isAlphanumeric c = true

section

variable {c : Char} {t w name name' path path' : Text}

/-- Upper case keeps the class of letters. -/
theorem isLetter_upperChar (c : Char) : isLetter (upperChar c) = isLetter c := by
  unfold upperChar
  split
  next hlower =>
    have hletter : isLetter c = true := by rw [isLetter, hlower, Bool.true_or]
    simp only [Bool.and_eq_true, decide_eq_true_eq, Char.le_def, UInt32.le_iff_toNat_le] at hlower
    have hfrom : 97 ≤ c.toNat := hlower.1
    have hto : c.toNat ≤ 122 := hlower.2
    have hvalid : (c.toNat - 32).isValidChar := Or.inl (by omega)
    have hupper : (Char.ofNat (c.toNat - 32)).toNat = c.toNat - 32 := by
      rw [Char.ofNat, dif_pos hvalid]
      rfl
    have hrange : 'A' ≤ Char.ofNat (c.toNat - 32) ∧ Char.ofNat (c.toNat - 32) ≤ 'Z' := by
      rw [Char.le_def, Char.le_def, UInt32.le_iff_toNat_le, UInt32.le_iff_toNat_le]
      show 65 ≤ (Char.ofNat (c.toNat - 32)).toNat ∧ (Char.ofNat (c.toNat - 32)).toNat ≤ 90
      omega
    rw [hletter]
    simp [isLetter, hrange]
  next => rfl

theorem alphanumeric_upperChar (h : isAlphanumeric c = true) : isAlphanumeric (upperChar c) = true := by
  rw [isAlphanumeric, Bool.or_eq_true] at h ⊢
  rw [isLetter_upperChar]
  refine h.imp_right fun hdigit => ?_
  have hlow : c ≤ '9' := by
    rw [isDigit, Bool.and_eq_true, decide_eq_true_eq, decide_eq_true_eq] at hdigit
    exact hdigit.2
  have hkept : upperChar c = c := if_neg fun hlower => by
    rw [Bool.and_eq_true, decide_eq_true_eq] at hlower
    exact absurd (Char.le_trans hlower.1 hlow) (by decide)
  rw [hkept, hdigit]

/-- The words between characters of a class have none of them. -/
theorem not_of_mem_fields {p : Char → Bool} (hw : w ∈ fields p t) : ∀ c ∈ w, p c = false := by
  induction t generalizing w with
  | nil => exact absurd hw (by simp [fields])
  | cons d t ih =>
    unfold fields at hw
    split at hw
    next => exact ih hw
    next hd =>
      -- the character is a word of its own, or stands in front of the next one
      have first : ∀ w' : Text, (∀ c ∈ w', p c = false) → w = d :: w' → ∀ c ∈ w, p c = false := by
        rintro w' hw' rfl
        exact List.forall_mem_cons.2 ⟨by simpa using hd, hw'⟩
      split at hw
      next => exact first [] (by simp) (List.mem_singleton.1 hw)
      next e t' =>
        split at hw
        next =>
          rcases List.mem_cons.1 hw with hw | hw
          · exact first [] (by simp) hw
          · exact ih hw
        next =>
          split at hw
          next => exact first [] (by simp) (List.mem_singleton.1 hw)
          next v vs hfields =>
            rw [hfields] at ih
            rcases List.mem_cons.1 hw with hw | hw
            · exact first v (ih (List.mem_cons_self ..)) hw
            · exact ih (List.mem_cons_of_mem _ hw)

theorem alphanumeric_pascalCase (t : Text) : Alphanumeric (pascalCase t) := by
  intro c hc
  obtain ⟨w, hw, hcw⟩ := List.mem_flatMap.1 hc
  have hword : ∀ x ∈ w, isAlphanumeric x = true := fun x hx => by simpa using not_of_mem_fields hw x hx
  cases w with
  | nil => exact absurd hcw (by simp)
  | cons d w =>
    rcases List.mem_cons.1 hcw with rfl | hc'
    · exact alphanumeric_upperChar (hword d (List.mem_cons_self ..))
    · exact hword c (List.mem_cons_of_mem _ hc')

/-- The first word starts at the first letter or digit. -/
theorem fields_of_find? (h : t.find? isAlphanumeric = some c) :
    ∃ w ws, fields (fun c => !isAlphanumeric c) t = (c :: w) :: ws := by
  induction t with
  | nil => exact absurd h (by simp)
  | cons d t ih =>
    unfold fields
    rw [List.find?_cons] at h
    split at h
    next hd =>
      obtain rfl := Option.some.inj h
      rw [if_neg (by simp [hd])]
      split
      next => exact ⟨[], [], rfl⟩
      next =>
        split
        next => exact ⟨[], _, rfl⟩
        next =>
          split
          next => exact ⟨[], [], rfl⟩
          next v vs _ => exact ⟨v, vs, rfl⟩
    next hd =>
      rw [if_pos (by simp [hd])]
      exact ih h

theorem head?_pascalCase (t : Text) : (pascalCase t).head? = (t.find? isAlphanumeric).map upperChar := by
  unfold pascalCase
  cases hfind : t.find? isAlphanumeric with
  | some c =>
    obtain ⟨w, ws, hfields⟩ := fields_of_find? hfind
    rw [hfields]
    rfl
  | none =>
    have hnone : fields (fun c => !isAlphanumeric c) t = [] := by
      rw [List.find?_eq_none] at hfind
      induction t with
      | nil => rfl
      | cons d t ih =>
        unfold fields
        rw [if_pos (by simpa using hfind d (List.mem_cons_self ..))]
        exact ih fun c hc => hfind c (List.mem_cons_of_mem _ hc)
    rw [hnone]
    rfl

/-- **A component's name** has letters and digits only. -/
theorem alphanumeric_componentName (path : Text) : Alphanumeric (componentName path) := alphanumeric_pascalCase _

/-- The part of a file's name that its component is named after. -/
def componentStem (path : Text) : Text :=
  Text.trimSuffix documentExt (Text.trimSuffix componentExt (Path.base (Text.replaceChar '\\' '/' path)))

/-- The first character of a text is a letter. -/
def StartsWithLetter (t : Text) : Prop := t.head?.any isLetter = true

/-- **A component's name** starts with a letter if the first letter or digit of the
file's name is a letter. -/
theorem startsWithLetter_componentName :
    StartsWithLetter (componentName path) ↔ ((componentStem path).find? isAlphanumeric).any isLetter = true := by
  have hhead : (componentName path).head? = ((componentStem path).find? isAlphanumeric).map upperChar := head?_pascalCase _
  unfold StartsWithLetter
  rw [hhead, Option.any_map]
  simp only [isLetter_upperChar]

/-- Letters and digits are neither of these. -/
theorem not_mem_of_alphanumeric (h : Alphanumeric t) (hc : isAlphanumeric c = false) : c ∉ t := by
  intro hmem
  rw [h c hmem] at hc
  exact absurd hc (by simp)

/-- **Import lines** of names without spaces are told apart by name and file. -/
theorem importLine_inj (hname : ' ' ∉ name) (hname' : ' ' ∉ name')
    (h : importLine name path = importLine name' path') : name = name' ∧ path = path' := by
  have hline : name ++ ' ' :: ("from '".toList ++ path ++ ['\'']) = name' ++ ' ' :: ("from '".toList ++ path' ++ ['\'']) := by
    unfold importLine at h
    simpa using h
  have hwords := congrArg (Text.splitOn ' ') hline
  rw [Text.splitOn_append _ hname, Text.splitOn_append _ hname'] at hwords
  obtain rfl := (List.cons.inj hwords).1
  have hrest := (List.cons.inj (List.append_cancel_left hline)).2
  exact ⟨rfl, List.append_cancel_left (List.append_cancel_right hrest)⟩

end

end Docweave
