import Docweave.Proofs.WordPlaces

/-!
# Lists of attributes

A qualifier may list attributes: flags, and names with a value, which is quoted or
bare. `Written` says which texts a list is written as, and `firstValue?` what the list
says of a name. The file proves that looking up a name in the text finds just that,
with or without braces around it.

> `whole_quoted`, `whole_written`: no attribute is cut in two, because the gaps in it
> stand in quotes, and it closes its quotes.

> `nameValues_written`: so the names and values that are read from a text are those of
> the list, whatever stands in the quotes.

> `lookup?_written`: the value of the first attribute of a name is found.
-/

namespace Docweave.Qualifier

open Text (isGap isSpace quote apostrophe)

/-! ## Attributes -/

/-- A character without meaning to the words of a list: no gap and no quote. -/
def isPlainChar (c : Char) : Bool := !isGap c && c ≠ quote && c ≠ apostrophe

/-- The name of an attribute. -/
structure AttributeName where
  text : Text
  plain : text.all isPlainChar = true
  unassigned : '=' ∉ text

/-- The value of an attribute, in either quotes or bare. -/
inductive AttributeValue
  | quoted (q : Char) (isQuote : q = quote ∨ q = apostrophe) (text : Text) (closed : q ∉ text)
  | bare (text : Text) (plain : text.all isPlainChar = true)

/-- An attribute of a list. -/
inductive Attribute
  | flag (name : AttributeName)
  | value (name : AttributeName) (value : AttributeValue)

/-- A value as it is meant. -/
def AttributeValue.text : AttributeValue → Text
  | quoted _ _ text _ => text
  | bare text _ => text

/-- A value as it is written. -/
def AttributeValue.written : AttributeValue → Text
  | quoted q _ text _ => q :: (text ++ [q])
  | bare text _ => text

namespace Attribute

/-- An attribute as it is written. -/
def written : Attribute → Text
  | flag name => name.text
  | value name v => name.text ++ '=' :: v.written

/-- The name of an attribute and its value as written; a flag has no value. -/
def assigned? : Attribute → Option (Text × Text)
  | flag _ => none
  | value name v => some (name.text, v.written)

/-- The value that an attribute gives to a name. -/
def valueFor? (name : Text) : Attribute → Option Text
  | flag _ => none
  | value n v => if n.text = name then some v.text else none

end Attribute

/-- What a list says of a name: the value of the first attribute that gives it one. -/
def firstValue? (attributes : List Attribute) (name : Text) : Option Text :=
  attributes.findSome? (Attribute.valueFor? name)

/-- A text is a list of attributes: behind each of them comes a gap, or the end. -/
inductive Written : Text → List Attribute → Prop
  | nil : Written [] []
  | gap {c : Char} {t : Text} {as : List Attribute} (hc : isGap c = true) (rest : Written t as) : Written (c :: t) as
  | item {t : Text} {as : List Attribute} (a : Attribute) (ends : StartsGap none t) (rest : Written t as) :
      Written (a.written ++ t) (a :: as)

/-! ## Words that are not cut -/

/-- A text is part of one word, and leaves no quote open. -/
structure Whole (w : Text) : Prop where
  unbroken : UnbrokenFrom none w
  closed : openQuote w = none

section

variable {q c : Char} {v w t : Text} {as : List Attribute}

theorem unbrokenFrom_append {open? : Option Char} (hv : UnbrokenFrom open? v)
    (hw : UnbrokenFrom (openQuoteFrom open? v) w) : UnbrokenFrom open? (v ++ w) := by
  induction v generalizing open? with
  | nil => exact hw
  | cons c v ih =>
    obtain ⟨hc, hrest⟩ := unbrokenFrom_cons.1 hv
    exact unbrokenFrom_cons.2 ⟨hc, ih hrest hw⟩

theorem whole_append (hv : Whole v) (hw : Whole w) : Whole (v ++ w) where
  unbroken := by
    refine unbrokenFrom_append hv.unbroken ?_
    rw [show openQuoteFrom none v = none from hv.closed]
    exact hw.unbroken
  closed := (openQuote_append hv.closed w).trans hw.closed

theorem whole_nil : Whole [] := ⟨fun a c b h => absurd h (by simp), rfl⟩

/-- Plain characters neither end a word nor open a quote. -/
theorem whole_plain (h : w.all isPlainChar = true) : Whole w := by
  induction w with
  | nil => exact whole_nil
  | cons c w ih =>
    rw [List.all_cons, Bool.and_eq_true] at h
    obtain ⟨hc, hw⟩ := h
    simp only [isPlainChar, Bool.and_eq_true, Bool.not_eq_true', decide_eq_true_eq] at hc
    obtain ⟨⟨hgap, hquote⟩, hapostrophe⟩ := hc
    have hbehind : quoteBehind none c = none := by
      rw [quoteBehind, if_neg (by simp [hquote, hapostrophe])]
    have hfirst : Whole [c] := by
      refine ⟨unbrokenFrom_cons.2 ⟨fun hc => absurd hc (by simp [hgap]), ?_⟩, hbehind⟩
      rw [hbehind]
      exact whole_nil.unbroken
    exact whole_append hfirst (ih hw)

/-- In quotes everything but the closing quote is passed over. -/
theorem inside_quotes (h : q ∉ t) : UnbrokenFrom (some q) t ∧ openQuoteFrom (some q) t = some q := by
  induction t with
  | nil => exact ⟨fun a c b h => absurd h (by simp), rfl⟩
  | cons c t ih =>
    obtain ⟨hc, ht⟩ := not_or.1 fun hm => h (List.mem_cons.2 hm)
    have hopen : quoteBehind (some q) c = some q := if_neg fun hcq => hc hcq.symm
    obtain ⟨hunbroken, hquote⟩ := ih ht
    refine ⟨unbrokenFrom_cons.2 ⟨fun _ => by simp, ?_⟩, ?_⟩
    · rw [hopen]
      exact hunbroken
    · show openQuoteFrom (quoteBehind (some q) c) t = some q
      rw [hopen]
      exact hquote

theorem whole_quoted (hq : q = quote ∨ q = apostrophe) (h : q ∉ t) : Whole (q :: (t ++ [q])) := by
  have hopens : quoteBehind none q = some q := if_pos (by simpa using hq)
  have hcloses : quoteBehind (some q) q = none := if_pos rfl
  have hgap : isGap q = false := by rcases hq with rfl | rfl <;> rfl
  obtain ⟨hunbroken, hquote⟩ := inside_quotes h
  constructor
  · refine unbrokenFrom_cons.2 ⟨fun hc => absurd hc (by simp [hgap]), ?_⟩
    rw [hopens]
    refine unbrokenFrom_append hunbroken (unbrokenFrom_cons.2 ⟨fun hc => absurd hc (by simp [hgap]), ?_⟩)
    rw [hquote, hcloses]
    exact whole_nil.unbroken
  · show openQuoteFrom (quoteBehind none q) (t ++ [q]) = none
    rw [hopens, openQuoteFrom_append, hquote]
    exact hcloses

/-- **No attribute is cut in two.** -/
theorem whole_written (a : Attribute) : Whole a.written := by
  cases a with
  | flag name => exact whole_plain name.plain
  | value name v =>
    have hequals : Whole ['='] := whole_plain (by decide)
    refine whole_append (whole_plain name.plain) (whole_append hequals ?_)
    cases v with
    | quoted q hq text hclosed => exact whole_quoted hq hclosed
    | bare text hplain => exact whole_plain hplain

/-- Every list can be written. -/
theorem written_join (hc : isGap c = true) (as : List Attribute) :
    Written (Text.join [c] (as.map Attribute.written)) as := by
  induction as with
  | nil => exact .nil
  | cons a as ih =>
    cases as with
    | nil =>
      have hlast : Written (a.written ++ []) [a] := .item a (fun d rest h => absurd h (by simp)) .nil
      rwa [List.append_nil] at hlast
    | cons b as =>
      have hstart : StartsGap none (c :: Text.join [c] ((b :: as).map Attribute.written)) :=
        fun d rest h => ⟨rfl, (List.cons.inj h).1 ▸ hc⟩
      have hlist := Written.item a hstart (.gap hc ih)
      rwa [← List.singleton_append, ← List.append_assoc] at hlist

/-! ## Reading a list -/

/-- The quotes around a value are taken off, and nothing else. -/
theorem unquote_written (v : AttributeValue) : unquote v.written = v.text := by
  cases v with
  | quoted q hq text hclosed =>
    have hquoted : ((q = quote || q = apostrophe) && !(text ++ [q]).isEmpty &&
        (text ++ [q]).getLast? = some q) = true := by
      simpa using hq
    rw [AttributeValue.written, unquote, if_pos hquoted, List.dropLast_concat]
    rfl
  | bare text hplain =>
    cases text with
    | nil => rfl
    | cons c text =>
      rw [List.all_cons, Bool.and_eq_true] at hplain
      have hc := hplain.1
      simp only [isPlainChar, Bool.and_eq_true, decide_eq_true_eq] at hc
      rw [AttributeValue.written, unquote, if_neg (by simp [hc.1.2, hc.2])]
      rfl

theorem nameValue?_written (a : Attribute) : nameValue? a.written = a.assigned? := by
  cases a with
  | flag name =>
    rw [Attribute.assigned?, Option.eq_none_iff_forall_ne_some]
    rintro ⟨n, v⟩ h
    have hname : name.text = n ++ '=' :: v := (nameValue?_eq_some_iff.1 h).2
    exact name.unassigned (by rw [hname]; simp)
  | value name v => exact nameValue?_eq_some_iff.2 ⟨name.unassigned, rfl⟩

/-- **The names and values of a text** that is written for a list are those of the list. -/
theorem nameValues_written (h : Written t as) :
    (words t).filterMap nameValue? = as.filterMap Attribute.assigned? := by
  induction h with
  | nil =>
    rw [words]
    rfl
  | gap hc rest ih => rw [words_cons_gap hc, ih]
  | @item t as a ends rest ih =>
    have hread := nameValue?_written a
    by_cases hempty : a.written = []
    · -- a flag may have an empty name, and leaves nothing to read
      rw [hempty] at hread ⊢
      rw [List.nil_append, ih, List.filterMap_cons_none (hread.symm.trans rfl)]
    · have hends : StartsGap (openQuote a.written) t := by
        rw [(whole_written a).closed]
        exact ends
      rw [words_append hempty (whole_written a).unbroken hends, List.filterMap_cons, hread, ih,
        List.filterMap_cons]

/-- The first value of a name, from the names and values of a list. -/
theorem find?_assigned (as : List Attribute) (name : Text) :
    ((as.filterMap Attribute.assigned?).find? (·.1 = name)).map (fun p => unquote p.2) = firstValue? as name := by
  unfold firstValue?
  induction as with
  | nil => rfl
  | cons a as ih =>
    cases a with
    | flag n => exact ih
    | value n v =>
      have hassigned : (Attribute.value n v).assigned? = some (n.text, v.written) := rfl
      rw [List.filterMap_cons_some hassigned, List.findSome?_cons]
      by_cases hn : n.text = name
      · rw [List.find?_cons_of_pos (by simpa using hn), Attribute.valueFor?, if_pos hn]
        exact congrArg some (unquote_written v)
      · rw [List.find?_cons_of_neg (by simpa using hn), Attribute.valueFor?, if_neg hn]
        exact ih

/-- A text stands without braces: it does not start like a text in braces nor end like
one, and there is no white space at its ends. -/
structure Unbraced (t : Text) : Prop where
  first : ∀ c, t.head? = some c → isSpace c = false ∧ c ≠ '\x7b'
  last : ∀ c, t.getLast? = some c → isSpace c = false ∧ c ≠ '\x7d'

/-- Nothing is taken off a text without braces. -/
theorem inside_unbraced (h : Unbraced t) :
    Text.trimSuffix "\x7d" (Text.trimPrefix "\x7b" (Text.trim t)) = t := by
  rcases List.eq_nil_or_concat' t with rfl | ⟨front, d, ht⟩
  · rfl
  · have hlast := h.last d (by rw [ht]; exact List.getLast?_concat ..)
    obtain ⟨c, behind, hc⟩ := List.exists_cons_of_ne_nil (l := t) (by rw [ht]; simp)
    have hfirst := h.first c (by rw [hc]; rfl)
    have hprefix : Text.dropPrefix? "\x7b" t = none := by
      rw [Option.eq_none_iff_forall_ne_some]
      intro r hr
      have hbrace : c :: behind = '\x7b' :: r := hc ▸ Text.dropPrefix?_eq_some.1 hr
      exact hfirst.2 (List.cons.inj hbrace).1
    have hsuffix : Text.endsWith t "\x7d" = false := by
      rw [← Bool.not_eq_true]
      intro hends
      obtain ⟨r, hr⟩ := Text.endsWith_iff.1 hends
      have hbrace : front ++ [d] = r ++ ['\x7d'] := ht.symm.trans hr
      exact hlast.2 (List.cons.inj (List.append_inj_right' hbrace rfl)).1
    rw [Text.trim_of_edged ⟨⟨c, behind, hc, hfirst.1⟩, ⟨front, d, ht, hlast.1⟩⟩, Text.trimPrefix, hprefix]
    exact Text.trimSuffix_of_not_endsWith hsuffix

/-- **Attributes are read back.** In a text that is written for a list of attributes,
in braces or without, looking up a name finds the value of the first attribute that
gives it one, without its quotes, and nothing when there is none. -/
theorem lookup?_written (h : Written t as) (name : Text) :
    lookup? ('\x7b' :: (t ++ ['\x7d'])) name = firstValue? as name ∧
      (Unbraced t → lookup? t name = firstValue? as name) := by
  have hread : (((words t).filterMap nameValue?).find? (·.1 = name)).map (fun p => unquote p.2) =
      firstValue? as name := by
    rw [nameValues_written h, find?_assigned]
  constructor
  · have hbraces : Text.trim ('\x7b' :: (t ++ ['\x7d'])) = '\x7b' :: (t ++ ['\x7d']) :=
      Text.trim_of_edged ⟨⟨_, _, rfl, rfl⟩, ⟨'\x7b' :: t, '\x7d', rfl, rfl⟩⟩
    rw [lookup?, hbraces, inside_braces]
    exact hread
  · intro hunbraced
    rw [lookup?, inside_unbraced hunbraced]
    exact hread

end

/-- A flag, a value that looks like other attributes, a name with two values, and a
value that is empty. -/
def sampleAttributes : List Attribute :=
  [.flag ⟨"id", by decide, by decide⟩,
    .value ⟨":title", by decide, by decide⟩ (.quoted quote (.inl rfl) "it's \x7bid=x\x7d =" (by decide)),
    .value ⟨"id", by decide, by decide⟩ (.quoted apostrophe (.inr rfl) "say \"hi\"" (by decide)),
    .value ⟨"id", by decide, by decide⟩ (.bare "2" (by decide)),
    .value ⟨"end", by decide, by decide⟩ (.bare [] (by decide))]

def sampleText : Text := "id :title=\"it's \x7bid=x\x7d =\" id='say \"hi\"' id=2 end="

theorem lookup?_written_sample :
    Written sampleText sampleAttributes ∧ Unbraced sampleText ∧
      lookup? ('\x7b' :: (sampleText ++ ['\x7d'])) "id" = some ("say \"hi\"" : Text) ∧
      lookup? sampleText "end" = some [] ∧ lookup? sampleText "x" = none := by
  have hwritten := written_join (c := ' ') rfl sampleAttributes
  rw [show Text.join [' '] (sampleAttributes.map Attribute.written) = sampleText by decide +kernel] at hwritten
  have hfirst : sampleText.head? = some 'i' := by decide
  have hlast : sampleText.getLast? = some '=' := by decide +kernel
  have hunbraced : Unbraced sampleText := by
    constructor
    · intro c hc
      obtain rfl := Option.some.inj (hfirst.symm.trans hc)
      decide
    · intro c hc
      obtain rfl := Option.some.inj (hlast.symm.trans hc)
      decide
  refine ⟨hwritten, hunbraced, (lookup?_written hwritten "id").1.trans ?_,
    ((lookup?_written hwritten "end").2 hunbraced).trans ?_,
    ((lookup?_written hwritten "x").2 hunbraced).trans ?_⟩ <;> decide +kernel

end Docweave.Qualifier
