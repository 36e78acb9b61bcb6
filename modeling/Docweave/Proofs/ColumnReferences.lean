import Docweave.Proofs.TextLaws
import Docweave.Tree.Resolve

/-!
# What the markup of a table refers to

The markup of a table refers to the variable with its column labels, and to no
other variable of that kind. The variables have a common stem, so it is enough to
look at every place where the stem stands: `columnReferences` reads the name that
goes on there. The labels, the placeholder and what the qualifier says also stand
in the markup; none of them brings the stem along unless it is written in them.

> `references_between`: a fixed part of the markup keeps what stands on its two
> sides apart.

> `lookup?_within`: an attribute is a part of the qualifier it is looked up in.

> `references_tableMarkup`: the markup of a table refers to its own variable, once.
-/

namespace Docweave

open Docweave.Text (dropPrefix? isAlphanumeric)

/-! ## References -/

/-- What the variables with column labels have in common. -/
def columnStem : Text := "__mdv_headers_"

/-- A character of the name of a variable. -/
def isVariableChar (c : Char) : Bool := c = '_' || c = '$' || isAlphanumeric c

/-- How the names of variables with column labels go on behind their stem, for all
that stand in a text. -/
def columnReferences : Text → List Text
  | [] => []
  | c :: t =>
    match dropPrefix? columnStem (c :: t) with
    | some rest => rest.takeWhile isVariableChar :: columnReferences t
    | none => columnReferences t

section

variable {t : Text} {c : Char}

theorem references_cons_of_none (h : dropPrefix? columnStem (c :: t) = none) :
    columnReferences (c :: t) = columnReferences t := by
  rw [columnReferences, h]

/-- A text has no references exactly when the stem does not stand in it. -/
theorem references_eq_nil : columnReferences t = [] ↔ ¬ columnStem <:+: t := by
  induction t with
  | nil =>
    refine ⟨fun _ hwithin => ?_, fun _ => rfl⟩
    exact absurd (List.infix_nil.1 hwithin) (by decide)
  | cons c t ih =>
    rw [columnReferences, List.infix_cons_iff]
    cases hread : dropPrefix? columnStem (c :: t) with
    | none =>
      have hfirst : ¬ columnStem <+: c :: t := by
        rintro ⟨rest, hrest⟩
        rw [Text.dropPrefix?_eq_some.2 hrest.symm] at hread
        exact absurd hread (by simp)
      simp only [ih, hfirst, false_or]
    | some rest =>
      have hfirst : columnStem <+: c :: t := ⟨rest, (Text.dropPrefix?_eq_some.1 hread).symm⟩
      simp [hfirst]

theorem references_within {s : Text} (hwithin : s <:+: t) (h : columnReferences t = []) :
    columnReferences s = [] := by
  rw [references_eq_nil] at h ⊢
  exact fun hstem => h (hstem.trans hwithin)

/-- A name cannot be read across a character that is not of names. -/
theorem dropPrefix?_across {p : Text} (hp : ∀ x ∈ p, isVariableChar x = true) (hc : isVariableChar c = false)
    (a b : Text) : dropPrefix? p (a ++ c :: b) = (dropPrefix? p a).map (· ++ c :: b) := by
  induction p generalizing a with
  | nil => rfl
  | cons x p ih =>
    cases a with
    | nil =>
      have hne : x ≠ c := by
        rintro rfl
        rw [hp x (List.mem_cons_self ..)] at hc
        exact absurd hc (by simp)
      simp only [List.nil_append, dropPrefix?, if_neg hne, Option.map_none]
    | cons y a =>
      rw [List.cons_append, dropPrefix?, dropPrefix?]
      split
      next => exact ih (fun z hz => hp z (List.mem_cons_of_mem _ hz)) a
      next => rfl

theorem isVariableChar_of_stem : ∀ x ∈ columnStem, isVariableChar x = true :=
  List.all_eq_true.1 (by decide)

/-- **References do not reach across a character that is not of names.** -/
theorem references_across (hc : isVariableChar c = false) (a b : Text) :
    columnReferences (a ++ c :: b) = columnReferences a ++ columnReferences b := by
  induction a with
  | nil =>
    have hnone : dropPrefix? columnStem (c :: b) = none :=
      dropPrefix?_across isVariableChar_of_stem hc [] b
    rw [List.nil_append, references_cons_of_none hnone]
    rfl
  | cons x a ih =>
    have hread : dropPrefix? columnStem (x :: (a ++ c :: b)) = _ :=
      dropPrefix?_across isVariableChar_of_stem hc (x :: a) b
    rw [List.cons_append, columnReferences, columnReferences, hread]
    cases dropPrefix? columnStem (x :: a) with
    | none => exact ih
    | some rest =>
      have htake : (rest ++ c :: b).takeWhile isVariableChar = rest.takeWhile isVariableChar := by
        rw [List.takeWhile_append, List.takeWhile_cons_of_neg (by simp [hc]), List.append_nil]
        split
        next hall => exact ((List.takeWhile_prefix _).eq_of_length hall).symm
        next => rfl
      rw [Option.map_some]
      simp only [htake, ih, List.cons_append]

/-- A part that is neither read together with what is around it nor refers to
anything. -/
def isFixed (l : Text) : Bool :=
  (l.head?.any fun c => !isVariableChar c) && (l.getLast?.any fun c => !isVariableChar c) &&
    (columnReferences l).isEmpty

theorem references_fixed {l : Text} (h : isFixed l = true) (b : Text) :
    columnReferences (l ++ b) = columnReferences b := by
  simp only [isFixed, Bool.and_eq_true, List.isEmpty_iff] at h
  obtain ⟨⟨-, hlast⟩, hnone⟩ := h
  cases hz : l.getLast? with
  | none =>
    rw [hz] at hlast
    exact absurd hlast (by simp)
  | some z =>
    rw [hz, Option.any_some, Bool.not_eq_true'] at hlast
    obtain ⟨front, rfl⟩ := List.getLast?_eq_some_iff.1 hz
    rw [references_across hlast, List.append_eq_nil_iff] at hnone
    rw [List.append_assoc, List.singleton_append, references_across hlast, hnone.1, List.nil_append]

/-- **A fixed part keeps its two sides apart.** -/
theorem references_between {l : Text} (h : isFixed l = true) (v b : Text) :
    columnReferences (v ++ (l ++ b)) = columnReferences v ++ columnReferences b := by
  have hrest := references_fixed h b
  simp only [isFixed, Bool.and_eq_true] at h
  obtain ⟨⟨hfirst, -⟩, -⟩ := h
  cases l with
  | nil => exact absurd hfirst (by simp)
  | cons c l =>
    rw [List.head?_cons, Option.any_some, Bool.not_eq_true'] at hfirst
    have hbehind := references_across hfirst [] (l ++ b)
    rw [List.nil_append] at hbehind
    rw [← hrest, List.cons_append, references_across hfirst, hbehind]
    rfl

end

/-- What has no references does not bring any between fixed parts. -/
theorem references_free {v l : Text} (hv : columnReferences v = []) (h : isFixed l = true) (b : Text) :
    columnReferences (v ++ (l ++ b)) = columnReferences b := by
  rw [references_between h, hv, List.nil_append]

/-- The same where the fixed part is the last. -/
theorem references_end {v l : Text} (hv : columnReferences v = []) (h : isFixed l = true) :
    columnReferences (v ++ l) = [] := by
  rw [← List.append_nil l, references_free hv h]
  rfl

/-! ## Looking up attributes -/

section

variable {t v : Text}

theorem trim_within (t : Text) : Text.trim t <:+: t := by
  have hleft : Text.trimLeft Text.isSpace t <:+ t := List.dropWhile_suffix _
  obtain ⟨tail, htail, -⟩ := Text.eq_trimRight_append Text.isSpace (Text.trimLeft Text.isSpace t)
  have hright : Text.trim t <+: Text.trimLeft Text.isSpace t := ⟨tail, htail.symm⟩
  exact hright.isInfix.trans hleft.isInfix

theorem trimPrefix_end (p t : Text) : Text.trimPrefix p t <:+ t := by
  unfold Text.trimPrefix
  cases hread : dropPrefix? p t with
  | none => exact List.suffix_refl t
  | some rest => exact ⟨p, (Text.dropPrefix?_eq_some.1 hread).symm⟩

theorem trimSuffix_start (s t : Text) : Text.trimSuffix s t <+: t := by
  unfold Text.trimSuffix
  split
  next rest hread =>
    have hrest : rest <:+ t.reverse := ⟨_, (Text.dropPrefix?_eq_some.1 hread).symm⟩
    apply List.reverse_suffix.1
    rw [List.reverse_reverse]
    exact hrest
  next => exact List.prefix_refl t

/-- The words of a qualifier are parts of it. -/
theorem words_within {w : Text} (h : w ∈ Qualifier.words t) : w <:+: t := by
  induction t using Qualifier.words.induct with
  | case1 =>
    rw [Qualifier.words] at h
    exact absurd h (by simp)
  | case2 c t hgap ih =>
    rw [Qualifier.words, dif_pos hgap] at h
    exact (ih h).trans (List.suffix_cons c t).isInfix
  | case3 c t hgap ih =>
    have hsplit := Qualifier.splitWord_append none (c :: t)
    rw [Qualifier.words, dif_neg hgap, List.mem_cons] at h
    rcases h with rfl | h
    · exact List.IsPrefix.isInfix ⟨_, hsplit⟩
    · exact (ih h).trans (List.IsSuffix.isInfix ⟨_, hsplit⟩)

theorem cut?_suffix {p a r : Text} (h : Text.cut? p t = some (a, r)) : r <:+ t :=
  ⟨a ++ p, by rw [Text.eq_of_cut? h, List.append_assoc]⟩

theorem unquote_within (v : Text) : Qualifier.unquote v <:+: v := by
  unfold Qualifier.unquote
  split
  next q r =>
    split
    next => exact (List.dropLast_prefix r).isInfix.trans (List.suffix_cons q r).isInfix
    next => exact List.infix_refl _
  next => exact List.infix_refl _

/-- **An attribute is a part of the qualifier** it is looked up in. -/
theorem lookup?_within {body name : Text} (h : Qualifier.lookup? body name = some v) : v <:+: body := by
  obtain ⟨⟨n, value⟩, hfound, rfl⟩ := Option.map_eq_some_iff.1 h
  obtain ⟨w, hw, hcut⟩ := List.mem_filterMap.1 (List.mem_of_find?_eq_some hfound)
  have hinner := (trimSuffix_start "\x7d" (Text.trimPrefix "\x7b" (Text.trim body))).isInfix.trans
    ((trimPrefix_end "\x7b" (Text.trim body)).isInfix.trans (trim_within body))
  exact (unquote_within value).trans ((cut?_suffix hcut).isInfix.trans ((words_within hw).trans hinner))

end

/-! ## The markup of a table -/

section

variable {source : Text}

theorem references_attrOr (hsource : columnReferences source = []) (name fallback : Text)
    (hfallback : columnReferences fallback = []) : columnReferences (attrOr source name fallback) = [] := by
  unfold attrOr
  split
  next v hfound =>
    split
    next => exact hfallback
    next => exact references_within (lookup?_within hfound) hsource
  next => exact hfallback

/-- A variable with column labels is one reference: the stem has more underscores
than what is left behind its first character. -/
theorem references_headersVariable (number : Nat) :
    columnReferences (headersVariable number) = [Text.ofNat number] := by
  have hdigit : ∀ c ∈ Text.ofNat number, Text.isDigit c = true := fun c hc =>
    Text.isDigit_of_mem_ofNat hc
  have hname : (Text.ofNat number).takeWhile isVariableChar = Text.ofNat number := by
    have hall : ∀ c ∈ Text.ofNat number, isVariableChar c = true := by
      intro c hc
      simp only [isVariableChar, isAlphanumeric, hdigit c hc, Bool.or_true]
    have htake : (Text.ofNat number ++ []).takeWhile isVariableChar = Text.ofNat number ++ [] :=
      List.takeWhile_append_of_pos hall
    rw [List.append_nil] at htake
    exact htake
  have hunderscore : (Text.ofNat number).count '_' = 0 := by
    rw [List.count_eq_zero]
    exact fun hc => absurd (hdigit _ hc) (by decide)
  have hrest : columnReferences ("_mdv_headers_" ++ Text.ofNat number) = [] := by
    rw [references_eq_nil]
    intro hwithin
    have hcount := hwithin.sublist.count_le '_'
    rw [List.count_append, hunderscore] at hcount
    exact absurd hcount (by decide)
  have hread : dropPrefix? columnStem (headersVariable number) = some (Text.ofNat number) :=
    Text.dropPrefix?_eq_some.2 rfl
  have hcons : headersVariable number = '_' :: ("_mdv_headers_" ++ Text.ofNat number) := rfl
  rw [hcons] at hread ⊢
  rw [columnReferences, hread, hrest]
  simp only [hname]

/-- The labels in the head of a table. -/
theorem references_head {headers : List Text} (h : ∀ x ∈ headers, columnReferences x = []) :
    columnReferences (headers.flatMap fun x => element "th" [] x) = [] := by
  induction headers with
  | nil => rfl
  | cons x headers ih =>
    have hx := h x (List.mem_cons_self ..)
    have hrest := ih fun y hy => h y (List.mem_cons_of_mem _ hy)
    have hcell : ∀ rest, element "th" [] x ++ rest = "<th>" ++ (x ++ ("</th>" ++ rest)) := by
      intro rest
      unfold element
      simp only [List.append_assoc]
      rfl
    rw [List.flatMap_cons, hcell, references_fixed (by decide), references_between (by decide), hx, hrest]
    rfl

theorem references_ofNat (n : Nat) : columnReferences (Text.ofNat n) = [] := by
  rw [references_eq_nil]
  intro hwithin
  have hstem : '_' ∈ Text.ofNat n := hwithin.subset (by decide)
  exact absurd (Text.isDigit_of_mem_ofNat hstem) (by decide)

theorem references_placeholderRow {dataSource placeholder : Text} (hdata : columnReferences dataSource = [])
    (hplaceholder : columnReferences placeholder = []) (columns : Nat) :
    columnReferences (placeholderRow dataSource placeholder columns) = [] := by
  unfold placeholderRow
  simp only [List.append_assoc]
  rw [references_fixed (by decide +kernel), references_free hdata (by decide +kernel),
    references_free hdata (by decide +kernel), references_fixed (by decide +kernel),
    references_free (references_ofNat columns) (by decide +kernel),
    references_free hplaceholder (by decide +kernel)]
  decide +kernel

/-- **What the markup of a table refers to:** its own variable, once. -/
theorem references_tableMarkup (number : Nat) {headers : List Text} {source placeholder : Text}
    (hheaders : ∀ x ∈ headers, columnReferences x = []) (hsource : columnReferences source = [])
    (hplaceholder : columnReferences placeholder = []) :
    columnReferences (tableMarkup number headers source placeholder) = [Text.ofNat number] := by
  have hdata : columnReferences ((Qualifier.lookup? source ":data-source").getD []) = [] := by
    cases hfound : Qualifier.lookup? source ":data-source" with
    | none => rfl
    | some v => exact references_within (lookup?_within hfound) hsource
  have hkey := references_attrOr hsource "row-key-prop" defaultRowKey (by decide)
  have hvalue := references_attrOr hsource "cell-value-prop" defaultCellValue (by decide)
  unfold tableMarkup
  simp only [List.append_assoc]
  generalize (Qualifier.lookup? source (":data-source" : Text)).getD [] = dataSource at *
  have hempty : columnReferences
      (if placeholder.isEmpty then [] else placeholderRow dataSource placeholder headers.length) = [] := by
    split
    next => rfl
    next => exact references_placeholderRow hdata hplaceholder _
  -- the head and the row of an element, up to the variable
  rw [references_fixed (by decide +kernel), references_free (references_head hheaders) (by decide +kernel),
    references_fixed (by decide +kernel), references_free hdata (by decide +kernel),
    references_free hdata (by decide +kernel), references_free hdata (by decide +kernel),
    references_free hkey (by decide +kernel), references_fixed (by decide +kernel),
    references_between (by decide +kernel), references_headersVariable]
  -- the cell, and the row of an empty source
  rw [references_fixed (by decide +kernel), references_fixed (by decide +kernel),
    references_fixed (by decide +kernel), references_fixed (by decide +kernel),
    references_free hvalue (by decide +kernel), references_fixed (by decide +kernel),
    references_fixed (by decide +kernel), references_fixed (by decide +kernel),
    references_fixed (by decide +kernel), references_fixed (by decide +kernel),
    references_end hempty (by decide +kernel), List.append_nil]

end

end Docweave
