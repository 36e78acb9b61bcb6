import Docweave.Proofs.TextLaws

/-!
# Literals

Generated code holds paths between quotes, written as they are. A reader of the code
takes for the value what stands between the opening quote and the next one, so it finds
the path again if the path has no such quote in it, and otherwise something shorter.

> `readLiteral?_eq_some`: what is read, and what is left behind the closing quote.

> `readsBack_iff`: a value that is printed between quotes is read back exactly when it is
> printed as it is and does not have the quote in it.
-/

namespace Docweave

/-- The value of the literal that opens at the front of a text, up to the next quote,
and what stands behind that. -/
def readLiteral? (q : Char) : Text → Option (Text × Text)
  | [] => none
  | c :: t => if c = q then Text.cut? [q] t else none

/-- The literal behind `front` has this value, and the text goes on behind it with
`behind`. -/
def ReadsBack (t front : Text) (q : Char) (value behind : Text) : Prop :=
  ∃ rest, t = front ++ rest ∧ readLiteral? q rest = some (value, behind)

section

variable {q : Char} {t front value printed behind : Text}

theorem readLiteral?_eq_some :
    readLiteral? q t = some (value, behind) ↔ q ∉ value ∧ t = q :: (value ++ q :: behind) := by
  cases t with
  | nil => simp [readLiteral?]
  | cons c t =>
    by_cases hc : c = q
    · subst hc
      rw [readLiteral?, if_pos rfl, Text.cut?_singleton_eq_some, List.cons.injEq, eq_self, true_and]
    · rw [readLiteral?, if_neg hc, List.cons.injEq]
      simp [hc]

/-- A value that does not have the quote in it is read back. -/
theorem readLiteral?_quoted (h : q ∉ value) (behind : Text) :
    readLiteral? q (q :: (value ++ q :: behind)) = some (value, behind) :=
  readLiteral?_eq_some.2 ⟨h, rfl⟩

/-- **A printed literal** is read back for the value exactly when it is the value that is
printed, without the quote in it. -/
theorem readsBack_iff (ht : t = front ++ q :: (printed ++ q :: behind)) :
    ReadsBack t front q value behind ↔ printed = value ∧ q ∉ value := by
  subst ht
  constructor
  · rintro ⟨rest, hrest, hread⟩
    obtain ⟨hq, rfl⟩ := readLiteral?_eq_some.1 hread
    have hvalue := (List.cons.inj (List.append_cancel_left hrest)).2
    exact ⟨List.append_cancel_right hvalue, hq⟩
  · rintro ⟨rfl, hq⟩
    exact ⟨_, rfl, readLiteral?_quoted hq behind⟩

end

end Docweave
