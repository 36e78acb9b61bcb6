import Docweave.Proofs.WordPlaces

/-!
# The grammar of qualifiers

A qualifier is written as a list of items with gaps between them: ids, classes,
components, slots with a binding, and words that pass through. `Spells` says which
texts spell which items, and `meaning` what the items stand for as a whole. The file
proves that the reader, which goes over the text once and knows of items only what
their first characters say, finds just that.

> `scan_item`: an item in front of a gap is read whole, whatever follows.

> `scan_spelled`: the run of the reader, from that and `meaningBehind_cons`.

> `spells_item`: all items can be spelled, with any gaps between them.

> `parse_spelled`: `parse` gives the meaning of the items that its text spells, and
> what passes through takes no part in the rest.
-/

namespace Docweave.Qualifier

open Text (isGap isSpace dropPrefix? cut? Edged)

/-! ## Items -/

/-- The name of an id, class, component or slot. -/
structure Name where
  text : Text
  ne_nil : text ≠ []
  ident : text.all isIdent = true

/-- What a slot binds. -/
structure Binding where
  text : Text
  trimmed : Text.trim text = text
  single : Text.has text "::" = false
  last : text.getLast? ≠ some ':'

/-- What is written in front of a name. -/
def marks : List Text := ["#", ".", "::"]

/-- A text does not start as a named item does. -/
def Plain (t : Text) : Prop := ∀ mark ∈ marks, ∀ c r, t = mark ++ c :: r → isIdent c = false

/-- A word that passes through: its gaps stand in quotes, which it closes. -/
structure Passing where
  text : Text
  edged : Edged text
  closed : openQuote text = none
  unbroken : UnbrokenFrom none text
  plain : Plain text

/-- An item of a qualifier. -/
inductive Item
  | id (name : Name)
  | className (name : Name)
  | component (name : Name)
  | slot (name : Name) (binding : Binding)
  | word (w : Passing)

namespace Item

/-- An item as it is written. -/
def text : Item → Text
  | id name => '#' :: name.text
  | className name => '.' :: name.text
  | component name => ':' :: ':' :: name.text
  | slot name binding => ':' :: ':' :: (name.text ++ (':' :: ':' :: (binding.text ++ [':', ':'])))
  | word w => w.text

def id? : Item → Option Text
  | id name => some name.text
  | _ => none

def className? : Item → Option Text
  | className name => some name.text
  | _ => none

def component? : Item → Option Text
  | component name => some name.text
  | _ => none

def slot? : Item → Option (Text × Text)
  | slot name binding => some (name.text, binding.text)
  | _ => none

def word? : Item → Option Text
  | word w => some w.text
  | _ => none

/-- What an item adds to the items in front of it; words are kept apart. -/
def onto (a : Qualifier) : Item → Qualifier
  | id name => { a with id := name.text }
  | className name => { a with classes := a.classes ++ [name.text] }
  | component name => { a with component := name.text }
  | slot name binding => { a with slot := name.text, slotBinding := binding.text }
  | word _ => a

end Item

/-- A text spells items: behind each of them comes a gap, or the end. -/
inductive Spells : Text → List Item → Prop
  | nil : Spells [] []
  | gap {c : Char} {t : Text} {items : List Item} (hc : isGap c = true) (rest : Spells t items) : Spells (c :: t) items
  | item {t : Text} {items : List Item} (i : Item) (ends : StartsGap none t) (rest : Spells t items) :
      Spells (i.text ++ t) (i :: items)

/-- What items stand for, behind others that stand for `a`: the last of several ids,
components or slots counts, classes add up. -/
def meaningBehind (a : Qualifier) (items : List Item) : Qualifier :=
  { a with
    id := (items.filterMap Item.id?).getLast?.getD a.id
    classes := a.classes ++ items.filterMap Item.className?
    component := (items.filterMap Item.component?).getLast?.getD a.component
    slot := ((items.filterMap Item.slot?).getLast?.getD (a.slot, a.slotBinding)).1
    slotBinding := ((items.filterMap Item.slot?).getLast?.getD (a.slot, a.slotBinding)).2 }

/-- What items stand for. -/
def meaning (items : List Item) : Qualifier :=
  { meaningBehind {} items with passthrough := Text.join " " (items.filterMap Item.word?) }

section

variable {c : Char} {a : Qualifier} {ws : List Text} {t r w name : Text} {items : List Item} {boundary : Bool}

/-- What items stand for, item by item. -/
theorem meaningBehind_cons (a : Qualifier) (i : Item) (items : List Item) :
    meaningBehind a (i :: items) = meaningBehind (i.onto a) items := by
  cases i <;>
    simp [meaningBehind, Item.onto, Item.id?, Item.className?, Item.component?, Item.slot?, List.filterMap_cons,
      List.getLast?_cons]

/-! ## What the reader sees of an item -/

theorem not_ident_of_gap (hc : isGap c = true) : isIdent c = false := by
  simp only [isGap, Bool.or_eq_true, decide_eq_true_eq] at hc
  rcases hc with ((rfl | rfl) | rfl) | rfl <;> rfl

/-- A name ends where no character of a name follows. -/
theorem ident_append (hname : name.all isIdent = true) (hr : ∀ c rest, r = c :: rest → isIdent c = false) :
    ident (name ++ r) = name ∧ afterIdent (name ++ r) = r := by
  have hstop : r.takeWhile isIdent = [] ∧ r.dropWhile isIdent = r := by
    cases r with
    | nil => exact ⟨rfl, rfl⟩
    | cons c r =>
      have hc := hr c r rfl
      exact ⟨List.takeWhile_cons_of_neg (by simp [hc]), List.dropWhile_cons_of_neg (by simp [hc])⟩
  rw [List.all_eq_true] at hname
  constructor
  · rw [ident, List.takeWhile_append_of_pos hname, hstop.1, List.append_nil]
  · rw [afterIdent, List.dropWhile_append_of_pos hname, hstop.2]

theorem exists_of_ident (h : ident t ≠ []) : ∃ c r, t = c :: r ∧ isIdent c = true := by
  cases t with
  | nil => exact absurd rfl h
  | cons c r =>
    refine ⟨c, r, rfl, ?_⟩
    rw [← Bool.not_eq_false]
    exact fun hc => h (List.takeWhile_cons_of_neg (by simp [hc]))

/-- A binding ends at the next two colons. -/
theorem cut?_binding (hsingle : Text.has w "::" = false) (hlast : w.getLast? ≠ some ':') (r : Text) :
    cut? "::" (w ++ ':' :: ':' :: r) = some (w, r) := by
  induction w with
  | nil => rfl
  | cons c w ih =>
    have hfront : dropPrefix? "::" (c :: w) = none := by
      cases hd : dropPrefix? "::" (c :: w) with
      | none => rfl
      | some rest =>
        rw [Text.has, cut?, hd] at hsingle
        exact absurd hsingle (by simp)
    have hrest : Text.has w "::" = false := by
      rwa [Text.has, cut?, hfront, Option.isSome_map] at hsingle
    have hend : w.getLast? ≠ some ':' := by
      intro hw
      rw [List.getLast?_cons, hw] at hlast
      exact hlast rfl
    have hwhole : dropPrefix? "::" (c :: (w ++ ':' :: ':' :: r)) = none := by
      rw [Option.eq_none_iff_forall_ne_some]
      intro rest hd
      have hcolons : c :: (w ++ ':' :: ':' :: r) = ':' :: ':' :: rest := Text.dropPrefix?_eq_some.1 hd
      obtain ⟨rfl, htail⟩ := List.cons.inj hcolons
      cases w with
      | nil => exact hlast rfl
      | cons d w =>
        obtain ⟨rfl, -⟩ := List.cons.inj htail
        have hfound : dropPrefix? "::" (':' :: ':' :: w) = some w := Text.dropPrefix?_eq_some.2 rfl
        exact absurd (hfront.symm.trans hfound) (by simp)
    rw [List.cons_append, cut?, hwhole, ih hrest hend]
    rfl

/-- What follows a word does not make it a named item. -/
theorem plain_append (hw : Plain w) (hr : StartsGap none r) : Plain (w ++ r) := by
  have hmarks : ∀ mark ∈ marks, mark.all (fun c => !isGap c) = true := List.all_eq_true.1 (by decide)
  have hgap : ∀ c rest, r = c :: rest → isIdent c = false := fun c rest h => not_ident_of_gap (hr c rest h).2
  intro mark hmark c rest h
  rcases List.append_eq_append_iff.1 h with ⟨u, hu, hbehind⟩ | ⟨u, hu, hbehind⟩
  · cases u with
    | nil => exact hgap c rest hbehind
    | cons x u =>
      have hx := List.all_eq_true.1 (hmarks mark hmark) x (by rw [hu]; simp)
      rw [(hr x _ hbehind).2] at hx
      exact absurd hx (by simp)
  · cases u with
    | nil => exact hgap c rest hbehind.symm
    | cons x u =>
      obtain ⟨rfl, -⟩ := List.cons.inj hbehind
      exact hw mark hmark c u hu

/-! ## Reading -/

theorem scan_gap (hc : isGap c = true) : scan boundary a ws (c :: t) = scan true a ws t := by
  rw [scan, dif_pos hc]

/-- In front of a gap, and at the end, it does not matter what may begin. -/
theorem scan_boundary (hr : StartsGap none r) : scan false a ws r = scan true a ws r := by
  cases r with
  | nil => rw [scan, scan]
  | cons c r => rw [scan_gap (hr c r rfl).2, scan_gap (hr c r rfl).2]

theorem scan_id (h : ident t ≠ []) :
    scan true a ws ('#' :: t) = scan true { a with id := ident t } ws (afterIdent t) := by
  rw [scan, dif_neg (by decide), if_neg (by simp), if_pos (by simpa using h)]

theorem scan_className (h : ident t ≠ []) :
    scan true a ws ('.' :: t) = scan true { a with classes := a.classes ++ [ident t] } ws (afterIdent t) := by
  rw [scan, dif_neg (by decide), if_neg (by simp), if_neg (by simp), if_pos (by simpa using h)]

theorem scan_component (h : ident t ≠ []) (hbinds : dropPrefix? "::" (afterIdent t) = none) :
    scan true a ws (':' :: ':' :: t) = scan true { a with component := ident t } ws (afterIdent t) := by
  rw [scan, dif_neg (by decide), if_pos (by simpa using h)]
  simp only [List.tail_cons]
  split
  next b hb => exact absurd (hbinds.symm.trans hb) (by simp)
  next => rfl

theorem scan_slot (h : ident t ≠ []) (hbinds : dropPrefix? "::" (afterIdent t) = some r) :
    scan true a ws (':' :: ':' :: t) =
      scan true { a with slot := ident t, slotBinding := (splitBinding r).1 } ws (splitBinding r).2 := by
  rw [scan, dif_neg (by decide), if_pos (by simpa using h)]
  simp only [List.tail_cons]
  split
  next b hb =>
    obtain rfl := Option.some.inj (hbinds.symm.trans hb)
    rfl
  next hnone => exact absurd (hbinds.symm.trans hnone) (by simp)

theorem scan_word (hc : isGap c = false) (hplain : Plain (c :: t)) :
    scan true a ws (c :: t) = scan false a (word (c :: t) :: ws) (afterWord (c :: t)) := by
  have hunnamed : ∀ mark ∈ marks, ∀ u, c :: t = mark ++ u → (ident u).isEmpty = true := by
    intro mark hmark u hu
    rw [List.isEmpty_iff]
    by_contra hident
    obtain ⟨d, rest, rfl, hd⟩ := exists_of_ident hident
    rw [hplain mark hmark d rest hu] at hd
    exact absurd hd (by simp)
  have hcolons : c = ':' → t.head? = some ':' → (ident t.tail).isEmpty = true := by
    rintro rfl hhead
    exact hunnamed "::" (by decide) t.tail (by rw [← List.cons_head?_tail hhead]; rfl)
  have hhash : c = '#' → (ident t).isEmpty = true := by
    rintro rfl
    exact hunnamed "#" (by decide) t rfl
  have hdot : c = '.' → (ident t).isEmpty = true := by
    rintro rfl
    exact hunnamed "." (by decide) t rfl
  rw [scan, dif_neg (by simp [hc]), if_neg (by simpa using hcolons), if_neg (by simpa using hhash),
    if_neg (by simpa using hdot)]

/-- **An item in front of a gap** is read whole. -/
theorem scan_item (i : Item) (hr : StartsGap none r) (a : Qualifier) (ws : List Text) :
    scan true a ws (i.text ++ r) = scan true (i.onto a) (i.word?.toList ++ ws) r := by
  have hgap : ∀ c rest, r = c :: rest → isIdent c = false := fun c rest h => not_ident_of_gap (hr c rest h).2
  cases i with
  | id name =>
    obtain ⟨hname, hbehind⟩ := ident_append name.ident hgap
    rw [Item.text, List.cons_append, scan_id (by rw [hname]; exact name.ne_nil), hname, hbehind]
    rfl
  | className name =>
    obtain ⟨hname, hbehind⟩ := ident_append name.ident hgap
    rw [Item.text, List.cons_append, scan_className (by rw [hname]; exact name.ne_nil), hname, hbehind]
    rfl
  | component name =>
    obtain ⟨hname, hbehind⟩ := ident_append name.ident hgap
    have hbinds : dropPrefix? "::" r = none := by
      rw [Option.eq_none_iff_forall_ne_some]
      intro rest hd
      exact absurd (hr ':' (':' :: rest) (Text.dropPrefix?_eq_some.1 hd)).2 (by decide)
    rw [Item.text, List.cons_append, List.cons_append,
      scan_component (by rw [hname]; exact name.ne_nil) (by rw [hbehind]; exact hbinds), hname, hbehind]
    rfl
  | slot name binding =>
    have hcolons : ∀ c rest, ':' :: ':' :: (binding.text ++ ':' :: ':' :: r) = c :: rest → isIdent c = false := by
      intro c rest h
      rw [← (List.cons.inj h).1]
      rfl
    obtain ⟨hname, hbehind⟩ := ident_append name.ident hcolons
    have hbinds : dropPrefix? "::" (':' :: ':' :: (binding.text ++ ':' :: ':' :: r)) =
        some (binding.text ++ ':' :: ':' :: r) := Text.dropPrefix?_eq_some.2 rfl
    have hsplit : splitBinding (binding.text ++ ':' :: ':' :: r) = (binding.text, r) := by
      rw [splitBinding, cut?_binding binding.single binding.last]
      simp only [binding.trimmed]
    have htext : (Item.slot name binding).text ++ r =
        ':' :: ':' :: (name.text ++ ':' :: ':' :: (binding.text ++ ':' :: ':' :: r)) := by
      simp [Item.text]
    rw [htext, scan_slot (by rw [hname]; exact name.ne_nil) (by rw [hbehind]; exact hbinds), hname, hsplit]
    rfl
  | word w =>
    obtain ⟨c, rest, htext, hspace⟩ := w.edged.first
    have hc : isGap c = false := by
      rw [← Bool.not_eq_true]
      intro hgapc
      rw [Text.isSpace_of_isBlankAscii (Text.isBlankAscii_of_isGap hgapc)] at hspace
      exact absurd hspace (by simp)
    have hsplit : splitWord none (w.text ++ r) = (w.text, r) := by
      refine splitWord_append_of_unbroken w.unbroken ?_
      rw [show openQuoteFrom none w.text = none from w.closed]
      exact hr
    have hfront : w.text ++ r = c :: (rest ++ r) := by rw [htext, List.cons_append]
    have hword : scan true a ws (w.text ++ r) = scan false a (word (w.text ++ r) :: ws) (afterWord (w.text ++ r)) := by
      rw [hfront]
      exact scan_word hc (hfront ▸ plain_append w.plain hr)
    rw [Item.text, hword, word, afterWord, hsplit]
    exact scan_boundary hr

/-- **The run of the reader** over a text that spells items. -/
theorem scan_spelled (h : Spells t items) (a : Qualifier) (ws : List Text) :
    scan true a ws t = (meaningBehind a items, ws.reverse ++ items.filterMap Item.word?) := by
  induction h generalizing a ws with
  | nil =>
    rw [scan, List.filterMap_nil, List.append_nil]
    simp [meaningBehind]
  | gap hc rest ih => rw [scan_gap hc, ih]
  | item i ends rest ih =>
    rw [scan_item i ends, ih, meaningBehind_cons, List.reverse_append, List.append_assoc]
    cases hword : i.word? with
    | none => rw [List.filterMap_cons_none hword]; rfl
    | some w => rw [List.filterMap_cons_some hword]; rfl

/-! ## The meaning of a text -/

/-- The words that pass through are joined as they are. -/
theorem trim_words (items : List Item) :
    Text.trim (Text.join " " (items.filterMap Item.word?)) = Text.join " " (items.filterMap Item.word?) := by
  by_cases hnone : items.filterMap Item.word? = []
  · rw [hnone]
    rfl
  · refine Text.trim_of_edged (Text.edged_join " " hnone fun w hw => ?_)
    obtain ⟨i, -, hi⟩ := List.mem_filterMap.1 hw
    cases i with
    | word w' =>
      obtain rfl := Option.some.inj hi
      exact w'.edged
    | _ => exact absurd hi (by simp [Item.word?])

/-- What does not look at words does not see whether they are there. -/
theorem filterMap_named {α : Type} {f : Item → Option α} (hf : ∀ w, f (.word w) = none) (items : List Item) :
    (items.filter fun i => i.word?.isNone).filterMap f = items.filterMap f := by
  rw [List.filterMap_filter]
  refine List.filterMap_congr fun i _ => ?_
  cases i with
  | word w => exact (hf w).symm
  | _ => rfl

theorem meaning_named (items : List Item) :
    meaning (items.filter fun i => i.word?.isNone) = { meaning items with passthrough := [] } := by
  have hwords : (items.filter fun i => i.word?.isNone).filterMap Item.word? = [] := by
    rw [List.filterMap_eq_nil_iff]
    intro i hi
    exact Option.isNone_iff_eq_none.1 (List.mem_filter.1 hi).2
  have hids := filterMap_named (f := Item.id?) (fun _ => rfl) items
  have hclasses := filterMap_named (f := Item.className?) (fun _ => rfl) items
  have hcomponents := filterMap_named (f := Item.component?) (fun _ => rfl) items
  have hslots := filterMap_named (f := Item.slot?) (fun _ => rfl) items
  simp only [meaning, meaningBehind, hwords, hids, hclasses, hcomponents, hslots]
  rfl

/-- A run of gaps in front changes nothing. -/
theorem spells_gaps {gaps : Text} (hgaps : ∀ c ∈ gaps, isGap c = true) (h : Spells t items) :
    Spells (gaps ++ t) items := by
  induction gaps with
  | nil => exact h
  | cons c gaps ih =>
    obtain ⟨hc, hrest⟩ := List.forall_mem_cons.1 hgaps
    exact .gap hc (ih hrest)

/-- **All items can be spelled**, with any run of gaps between them. -/
theorem spells_item {gaps : Text} (hne : gaps ≠ []) (hgaps : ∀ c ∈ gaps, isGap c = true) (i : Item)
    (h : Spells t items) : Spells (i.text ++ (gaps ++ t)) (i :: items) := by
  refine .item i (fun c rest hstart => ⟨rfl, ?_⟩) (spells_gaps hgaps h)
  obtain ⟨d, ds, rfl⟩ := List.exists_cons_of_ne_nil hne
  rw [← (List.cons.inj hstart).1]
  exact hgaps d (List.mem_cons_self ..)

theorem spells_join (gaps : Text) (hne : gaps ≠ []) (hgaps : ∀ c ∈ gaps, isGap c = true) (items : List Item) :
    Spells (Text.join gaps (items.map Item.text)) items := by
  induction items with
  | nil => exact .nil
  | cons i items ih =>
    cases items with
    | nil =>
      have hlast : Spells (i.text ++ []) [i] := .item i (fun c rest h => absurd h (by simp)) .nil
      rwa [List.append_nil] at hlast
    | cons j items =>
      have hrest := spells_item hne hgaps i ih
      rwa [← List.append_assoc] at hrest

theorem plain_cons (hc : c ≠ '#' ∧ c ≠ '.' ∧ c ≠ ':') (t : Text) : Plain (c :: t) := by
  intro mark hmark d r h
  simp only [marks, List.mem_cons, List.not_mem_nil, or_false] at hmark
  rcases hmark with rfl | rfl | rfl
  · exact absurd (List.cons.inj h).1 hc.1
  · exact absurd (List.cons.inj h).1 hc.2.1
  · exact absurd (List.cons.inj h).1 hc.2.2

/-- **The grammar of a qualifier.** What is read from a text is what the items that it
spells stand for, and the words that pass through, quoted text and all, take no part
in the id, the classes, the component or the slot. -/
theorem parse_spelled (h : Spells t items) :
    parse t = meaning items ∧
      { parse t with passthrough := [] } = meaning (items.filter fun i => i.word?.isNone) := by
  have hparse : parse t = meaning items := by
    rw [parse, scan_spelled h]
    simp only [List.reverse_nil, List.nil_append, trim_words]
    rfl
  exact ⟨hparse, by rw [hparse, meaning_named]⟩

end

/-- A word with what looks like the other items in its quotes. -/
def quotedWord : Passing where
  text := "title=\".c #d ::E ::f::g::\""
  edged := ⟨⟨'t', _, rfl, rfl⟩, ⟨"title=\".c #d ::E ::f::g::", '"', rfl, rfl⟩⟩
  closed := rfl
  unbroken := by
    have hsplit : splitWord none "title=\".c #d ::E ::f::g::\"" = (("title=\".c #d ::E ::f::g::\"" : Text), []) := by
      decide +kernel
    exact (unbroken_of_splitWord hsplit).2.1
  plain := plain_cons (by decide) _

/-- Two ids, classes on both sides of a slot, a component and a word. -/
def mixedItems : List Item :=
  [.id ⟨"a", by decide, by decide⟩, .className ⟨"b", by decide, by decide⟩, .word quotedWord,
    .slot ⟨"item", by decide, by decide⟩ ⟨"\x7b row \x7d", by decide, by decide, by decide⟩,
    .component ⟨"Card", by decide, by decide⟩, .className ⟨"z", by decide, by decide⟩,
    .id ⟨"y", by decide, by decide⟩]

/-- All kinds of items in one qualifier. -/
theorem parse_spelled_items :
    Spells "#a .b title=\".c #d ::E ::f::g::\" ::item::\x7b row \x7d:: ::Card .z #y" mixedItems ∧
      parse "#a .b title=\".c #d ::E ::f::g::\" ::item::\x7b row \x7d:: ::Card .z #y" =
        { id := "y", classes := ["b", "z"], component := "Card", slot := "item", slotBinding := "\x7b row \x7d",
          passthrough := "title=\".c #d ::E ::f::g::\"" } := by
  have hspelled := spells_join " " (by decide) (List.all_eq_true.1 (by decide)) mixedItems
  have hbody : Text.join " " (mixedItems.map Item.text) =
      "#a .b title=\".c #d ::E ::f::g::\" ::item::\x7b row \x7d:: ::Card .z #y".toList := by
    decide +kernel
  rw [hbody] at hspelled
  refine ⟨hspelled, (parse_spelled hspelled).1.trans ?_⟩
  decide +kernel

end Docweave.Qualifier
