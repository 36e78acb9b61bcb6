import Docweave.Proofs.TextLaws
import Docweave.Tree.Build

/-!
# Entities of markup

Escaping replaces some characters by entities, and one pass from left to right puts them back.
The pass cannot be misled by text that looks like an entity: each one starts with an ampersand,
and an ampersand of the text has become an entity itself.

> `EntityTable`: characters with entities that can be told apart. An entity ends with its only
> semicolon, so none is the beginning of another one (`EntityTable.find?_entity`).

> `unescape_escapeWith`: the pass undoes the escaping, and `not_mem_escapeWith`: the characters
> that a table covers are gone.

> `readAttrs_join`: so attributes in double quotes can be read back, whatever their values are.

> `escapes_undone`: the tables of the program are such tables.
-/

namespace Docweave

namespace Text

/-! ## Tables of entities -/

/-- What stands between the first and the last character. -/
def middle (t : Text) : Text := t.tail.dropLast

/-- Characters with their entities. Each entity starts with an ampersand and ends with its only
semicolon, and the ampersand has an entity. -/
structure EntityTable where
  entries : List (Char × Text)
  shape : ∀ p ∈ entries, p.2 = '&' :: (middle p.2 ++ [';']) ∧ ';' ∉ middle p.2
  apart : ∀ p ∈ entries, ∀ q ∈ entries, p.2 = q.2 → p = q
  ampersand : (entries.lookup '&').isSome = true

/-- The entities of markup. -/
def htmlTable : EntityTable where
  entries := [('&', "&amp;"), ('<', "&lt;"), ('>', "&gt;"), (quote, "&quot;"), (apostrophe, "&#39;")]
  shape := by decide
  apart := by decide
  ampersand := rfl

/-- The entities of code. -/
def codeTable : EntityTable where
  entries := ('[', "&#91;") :: (']', "&#93;") :: ('\x7b', "&#123;") :: ('\x7d', "&#125;") :: htmlTable.entries
  shape := by decide
  apart := by decide
  ampersand := rfl

/-- The entry whose entity stands at the front of a text. -/
def EntityTable.entry? (table : EntityTable) (t : Text) : Option (Char × Text) :=
  table.entries.find? fun p => p.2.isPrefixOf t

/-- One pass from left to right, in which each entity becomes its character; `skip` characters
belong to the entity before. -/
def unescapeFrom (table : EntityTable) (skip : Nat) : Text → Text
  | [] => []
  | c :: t =>
    match skip with
    | n + 1 => unescapeFrom table n t
    | 0 =>
      match table.entry? (c :: t) with
      | some (a, e) => a :: unescapeFrom table (e.length - 1) t
      | none => c :: unescapeFrom table 0 t

/-- The text with the entities of the table replaced by their characters. -/
def unescape (table : EntityTable) (t : Text) : Text := unescapeFrom table 0 t

section

variable {table : EntityTable} {entity? : Char → Option Text} {a c : Char} {e : Text}

/-- **The entity at the front is found**: none of the others ends with the first semicolon. -/
theorem EntityTable.entry?_entity (h : (c, e) ∈ table.entries) (t : Text) :
    table.entry? (e ++ t) = some (c, e) := by
  obtain ⟨he, hsemicolon⟩ := table.shape _ h
  cases hfound : table.entry? (e ++ t) with
  | none =>
    have hnot := List.find?_eq_none.1 hfound _ h
    exact absurd (List.isPrefixOf_iff_prefix.2 (List.prefix_append e t)) hnot
  | some q =>
    unfold entry? at hfound
    have hq : q ∈ table.entries := List.mem_of_find?_eq_some hfound
    obtain ⟨hqe, hqsemicolon⟩ := table.shape _ hq
    have hprefix : q.2.isPrefixOf (e ++ t) = true :=
      List.find?_some (p := fun p : Char × Text => p.2.isPrefixOf (e ++ t)) hfound
    obtain ⟨r, hr⟩ := List.isPrefixOf_iff_prefix.1 hprefix
    simp only at he
    rw [hqe, he, List.cons_append, List.cons_append, List.append_assoc, List.append_assoc] at hr
    have hcut := congrArg (splitOn ';') (List.cons.inj hr).2
    rw [List.singleton_append, List.singleton_append, splitOn_append _ hqsemicolon,
      splitOn_append _ hsemicolon] at hcut
    have heq : q.2 = e := by rw [hqe, he, (List.cons.inj hcut).1]
    exact congrArg some (table.apart q hq (c, e) h heq)

/-- A character that is no ampersand starts no entity. -/
theorem EntityTable.entry?_plain (hc : c ≠ '&') (t : Text) : table.entry? (c :: t) = none := by
  refine List.find?_eq_none.2 fun p hp hprefix => ?_
  obtain ⟨r, hr⟩ := List.isPrefixOf_iff_prefix.1 hprefix
  rw [(table.shape p hp).1] at hr
  exact hc (List.cons.inj hr).1.symm

theorem unescapeFrom_skip (n : Nat) (t : Text) : unescapeFrom table n t = unescape table (t.drop n) := by
  induction t generalizing n with
  | nil =>
    rw [List.drop_nil]
    rfl
  | cons c t ih =>
    cases n with
    | zero => rfl
    | succ n => exact ih n

theorem unescape_entity (h : (c, e) ∈ table.entries) (t : Text) :
    unescape table (e ++ t) = c :: unescape table t := by
  have hentry := table.entry?_entity h t
  have he := (table.shape _ h).1
  simp only at he
  generalize middle e ++ [';'] = w at he
  subst he
  rw [List.cons_append] at hentry ⊢
  rw [unescape, unescapeFrom]
  simp only [hentry]
  rw [unescapeFrom_skip, List.length_cons, Nat.add_sub_cancel, List.drop_left]

theorem unescape_plain (hc : c ≠ '&') (t : Text) : unescape table (c :: t) = c :: unescape table t := by
  rw [unescape, unescapeFrom]
  simp only [table.entry?_plain hc]
  rfl

/-! ## Escaping with a table -/

theorem mem_of_lookup (h : table.entries.lookup c = some e) : (c, e) ∈ table.entries := by
  obtain ⟨l, r, heq, -⟩ := List.lookup_eq_some_iff.1 h
  rw [heq]
  exact List.mem_append_right _ (List.mem_cons_self ..)

/-- **One pass undoes the escaping.** -/
theorem unescape_escapeWith (hcode : ∀ c, entity? c = table.entries.lookup c) (t : Text) :
    unescape table (escapeWith entity? t) = t := by
  induction t with
  | nil => rfl
  | cons c t ih =>
    rw [escapeWith, List.flatMap_cons, hcode]
    cases hlookup : table.entries.lookup c with
    | some e =>
      have hrest := unescape_entity (mem_of_lookup hlookup) (escapeWith entity? t)
      rw [ih] at hrest
      exact hrest
    | none =>
      have hc : c ≠ '&' := by
        rintro rfl
        exact absurd (hlookup ▸ table.ampersand) (by simp)
      have hrest : unescape table (c :: escapeWith entity? t) = _ := unescape_plain hc _
      rw [ih] at hrest
      exact hrest

/-- The table has entities for the characters, and no entity is made of them. -/
def EntityTable.covers (table : EntityTable) (chars : Text) : Bool :=
  chars.all fun a => (table.entries.lookup a).isSome && table.entries.all fun p => !p.2.contains a

/-- The characters that a table covers are gone. -/
theorem not_mem_escapeWith (hcode : ∀ c, entity? c = table.entries.lookup c) {chars : Text}
    (hcovers : table.covers chars = true) (ha : a ∈ chars) (t : Text) : a ∉ escapeWith entity? t := by
  have hcovered := List.all_eq_true.1 hcovers a ha
  rw [Bool.and_eq_true, List.all_eq_true] at hcovered
  obtain ⟨hcoded, hentries⟩ := hcovered
  intro hmem
  obtain ⟨c, -, hc⟩ := List.mem_flatMap.1 hmem
  rw [hcode] at hc
  cases hlookup : table.entries.lookup c with
  | some e =>
    rw [hlookup] at hc
    have hgone := hentries _ (mem_of_lookup hlookup)
    rw [Bool.not_eq_true', List.contains_eq_mem, decide_eq_false_iff_not] at hgone
    exact hgone hc
  | none =>
    rw [hlookup] at hc
    obtain rfl := List.mem_singleton.1 hc
    exact absurd (hlookup ▸ hcoded) (by simp)

/-! ## The tables of the program -/

theorem lookup_entry (c a : Char) (e : Text) (rest : List (Char × Text)) :
    ((a, e) :: rest).lookup c = if c = a then some e else rest.lookup c := by
  by_cases hc : c = a
  · rw [hc, List.lookup_cons_self, if_pos rfl]
  · rw [List.lookup_cons, beq_false_of_ne hc, if_neg hc]

theorem htmlEntity?_eq_lookup (c : Char) : htmlEntity? c = htmlTable.entries.lookup c := by
  simp only [htmlEntity?, htmlTable, lookup_entry, List.lookup_nil]

theorem codeEntity?_eq_lookup (c : Char) : codeEntity? c = codeTable.entries.lookup c := by
  simp only [codeEntity?, codeTable, lookup_entry, htmlEntity?_eq_lookup]

theorem unescape_escapeHtml (t : Text) : unescape htmlTable (escapeHtml t) = t :=
  unescape_escapeWith htmlEntity?_eq_lookup t

theorem unescape_escapeCode (t : Text) : unescape codeTable (escapeCode t) = t :=
  unescape_escapeWith codeEntity?_eq_lookup t

/-- The characters that could end a tag or an attribute. -/
def markupDelimiters : Text := ['<', '>', quote, apostrophe]

/-- Besides these, code shows no brackets and no braces. -/
def codeDelimiters : Text := markupDelimiters ++ ['[', ']', '\x7b', '\x7d']

theorem not_mem_escapeHtml (ha : a ∈ markupDelimiters) (t : Text) : a ∉ escapeHtml t :=
  not_mem_escapeWith htmlEntity?_eq_lookup (by decide) ha t

theorem not_mem_escapeCode (ha : a ∈ codeDelimiters) (t : Text) : a ∉ escapeCode t :=
  not_mem_escapeWith codeEntity?_eq_lookup (by decide) ha t

end

end Text

/-! ## Attributes -/

open Text

/-- What stands around the name of an attribute: the space in front and the equals sign behind. -/
def besideName (c : Char) : Bool := c = ' ' || c = '='

/-- The attributes in the pieces of a text between its quotes, names and values in turn. -/
def attrPieces : List Text → List (Text × Text)
  | name :: value :: rest => (trimBoth besideName name, unescape htmlTable value) :: attrPieces rest
  | _ => []

/-- The attributes in a text, read by cutting it at its quotes. -/
def readAttrs (t : Text) : List (Text × Text) := attrPieces (splitOn quote t)

/-- A name that can be told from what stands around it. -/
def PlainName (name : Text) : Prop := quote ∉ name ∧ '=' ∉ name ∧ ' ' ∉ name

instance (name : Text) : Decidable (PlainName name) :=
  inferInstanceAs (Decidable (quote ∉ name ∧ '=' ∉ name ∧ ' ' ∉ name))

section

variable {name front : Text} {attrs : List (Text × Text)}

/-- The attribute at the front is read, behind the space that follows another one. -/
theorem readAttrs_quoted (hname : PlainName name) (hfront : ∀ c ∈ front, c = ' ') (value t : Text) :
    readAttrs (front ++ (Qualifier.quoted name (escapeHtml value) ++ t)) = (name, value) :: readAttrs t := by
  obtain ⟨hquote, hequals, hspace⟩ := hname
  have hsplit : front ++ (Qualifier.quoted name (escapeHtml value) ++ t) =
      front ++ (name ++ ['=']) ++ quote :: (escapeHtml value ++ quote :: t) := by
    simp [Qualifier.quoted]
  have hpiece : quote ∉ front ++ (name ++ ['=']) := by
    simp only [List.mem_append, List.mem_singleton, not_or]
    exact ⟨fun hc => absurd (hfront _ hc) (by decide), hquote, by decide⟩
  have htrim : trimBoth besideName (front ++ (name ++ ['='])) = name := by
    refine trimBoth_between (fun c hc => ?_) (fun c hc => ?_) (fun c hc => ?_)
    · rw [hfront c hc]
      rfl
    · have hne : c ≠ ' ' ∧ c ≠ '=' := ⟨fun h => hspace (h ▸ hc), fun h => hequals (h ▸ hc)⟩
      simp [besideName, hne]
    · rw [List.mem_singleton.1 hc]
      rfl
  rw [readAttrs, hsplit, splitOn_append _ hpiece, splitOn_append _ (not_mem_escapeHtml (by decide) value),
    attrPieces, htrim, unescape_escapeHtml]
  rfl

/-- **Attributes are read back** from the text in which they are joined by spaces. -/
theorem readAttrs_join (h : ∀ p ∈ attrs, PlainName p.1) (hfront : ∀ c ∈ front, c = ' ') :
    readAttrs (front ++ join " " (attrs.map fun (k, v) => Qualifier.quoted k (escapeHtml v))) = attrs := by
  induction attrs generalizing front with
  | nil => 
    have hquote : quote ∉ front := fun hc => absurd (hfront _ hc) (by decide)
    show readAttrs (front ++ []) = []
    rw [List.append_nil, readAttrs, splitOn_of_not_mem hquote]
    rfl
  | cons p attrs ih =>
    obtain ⟨k, v⟩ := p
    obtain ⟨hk, hattrs⟩ := List.forall_mem_cons.1 h
    cases attrs with
    | nil =>
      have hread := readAttrs_quoted hk hfront v []
      rw [List.append_nil] at hread
      exact hread
    | cons q attrs =>
      show readAttrs (front ++ (Qualifier.quoted k (escapeHtml v) ++ " " ++ join " " _)) = _
      rw [List.append_assoc, readAttrs_quoted hk hfront v]
      exact congrArg ((k, v) :: ·) (ih hattrs fun c hc => List.mem_singleton.1 hc)

/-- The attributes of a token are read back in the order of their names. -/
theorem readAttrs_tokenAttrs {r : Token} (h : ∀ p ∈ r.attrs, PlainName p.1) :
    readAttrs (tokenAttrs r) = r.attrs.mergeSort fun a b => le a.1 b.1 := by
  have hnone : ∀ c ∈ ([] : Text), c = ' ' := by simp
  exact readAttrs_join (fun p hp => h p (List.mem_mergeSort.1 hp)) hnone

/-- **Escaping loses nothing and cannot be broken out of.** One pass from left to right undoes it,
and no delimiter is left. So the attributes of a token can be read back from its markup, in the
order of their names, whatever their values are. -/
theorem escapes_undone :
    (∀ t, unescape htmlTable (escapeHtml t) = t) ∧
    (∀ t, unescape codeTable (escapeCode t) = t) ∧
    (∀ t, ∀ c ∈ markupDelimiters, c ∉ escapeHtml t) ∧
    (∀ t, ∀ c ∈ codeDelimiters, c ∉ escapeCode t) ∧
    ∀ r : Token, (∀ p ∈ r.attrs, PlainName p.1) →
      (readAttrs (tokenAttrs r)).Perm r.attrs ∧
      (readAttrs (tokenAttrs r)).Pairwise fun a b => le a.1 b.1 = true := by
  refine ⟨unescape_escapeHtml, unescape_escapeCode, fun t c hc => not_mem_escapeHtml hc t,
    fun t c hc => not_mem_escapeCode hc t, fun r hr => ?_⟩
  rw [readAttrs_tokenAttrs hr]
  exact ⟨List.mergeSort_perm _ _, mergeSort_sorted Prod.fst _⟩

/-- A link whose title looks escaped already and whose target has all kinds of delimiters. -/
def titledLink : Token where
  kind := .opens .link
  attrs := [("title", "&lt;b&gt; &amp;#39;"), ("href", "?a=\x22x y\x22&b='<z>'")]

theorem escapes_undone_titledLink : (∀ p ∈ titledLink.attrs, PlainName p.1) ∧
    (readAttrs (tokenAttrs titledLink)).Perm titledLink.attrs ∧
    (readAttrs (tokenAttrs titledLink)).Pairwise fun a b => le a.1 b.1 = true :=
  ⟨by decide, escapes_undone.2.2.2.2 titledLink (by decide)⟩

end

end Docweave
