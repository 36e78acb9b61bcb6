import Docweave.Proofs.SpreadSearch

/-!
# Blocks cut out of a document

The script block and the style blocks are found in the text with its code
stripped, and cut out of the document at the places found there. Places count
bytes here, in the stripped text and in the document alike: stripping keeps
every byte in its place, so a place in the one is the same place in the other.

> `sections_keep_layout`: stripping and cutting keep the layout of a document,
> what is cut out is the document's own text, and what remains is blank where
> a block was and unchanged everywhere else.

The two kinds of blocks are searched for independently of one another. Two
style blocks never overlap; the script block overlaps a style block as soon as
one of them begins inside the other:

> `blocks_apart_iff`: the blocks are apart exactly when no style element begins
> inside the script block, and the script block begins inside no style block.
-/

namespace Docweave.Source

open Text

/-! ## The blocks of a document -/

/-- The script block that is found in the stripped text. -/
def matchedScript (body : Text) : Option ElementSpan :=
  (findElement? .script 0 (stripCode body)).map (ElementSpan.inBytes (stripCode body))

/-- The style blocks that are found in the stripped text. -/
def matchedStyles (body : Text) : List ElementSpan :=
  (findElements .style 0 0 (stripCode body)).map (ElementSpan.inBytes (stripCode body))

/-- All blocks that are cut out of a document. -/
def matchedBlocks (body : Text) : List ElementSpan :=
  (matchedScript body).toList ++ matchedStyles body

/-- The block takes up byte `i`. -/
def ElementSpan.Holds (s : ElementSpan) (i : Nat) : Prop := s.start ≤ i ∧ i < s.stop

instance (s : ElementSpan) (i : Nat) : Decidable (s.Holds i) := inferInstanceAs (Decidable (_ ∧ _))

/-- The blocks as the characters of the document that they take up. -/
def blockSpans (body : Text) : List ElementSpan :=
  (findElement? .script 0 (hideCode body)).toList ++ findElements .style 0 0 (hideCode body)

theorem matchedScript_eq (body : Text) :
    matchedScript body =
      (findElement? .script 0 (hideCode body)).map (ElementSpan.inBytes body) :=
  findElement?_inBytes .script (hides_hideCode body)

theorem matchedStyles_eq (body : Text) :
    matchedStyles body = (findElements .style 0 0 (hideCode body)).map (ElementSpan.inBytes body) :=
  findElements_inBytes .style (hides_hideCode body)

theorem matchedBlocks_eq (body : Text) :
    matchedBlocks body = (blockSpans body).map (ElementSpan.inBytes body) := by
  rw [matchedBlocks, matchedScript_eq, matchedStyles_eq, blockSpans, List.map_append,
    Option.toList_map]

theorem sections_body (body : Text) :
    (sections body).body = spread body (hideElements (blockSpans body) body) := by
  unfold sections blockSpans
  simp only
  split
  next h => rw [h]
  next h => rw [h]

theorem sections_styles (body : Text) :
    (sections body).styles =
      (findElements .style 0 0 (hideCode body)).map fun s => slice s.start s.stop body := by
  unfold sections
  simp only
  split <;> rfl

/-- The places of a block are those of an element of the hidden text. -/
theorem ordered_of_mem_blockSpans {body : Text} {s : ElementSpan} (h : s ∈ blockSpans body) :
    s.Ordered ∧ s.stop ≤ body.length := by
  have hlength := (hides_hideCode body).length_eq
  have hinside : ∀ {e : RawElement} {k : Nat}, k < (hideCode body).length →
      elementAt? e (0 + k) ((hideCode body).drop k) = some s →
      s.Ordered ∧ s.stop ≤ body.length := by
    intro e k hk hat
    obtain ⟨hordered, _, hstop⟩ := elementAt?_ordered hat
    rw [List.length_drop] at hstop
    exact ⟨hordered, by omega⟩
  rcases List.mem_append.1 h with h | h
  · obtain ⟨k, hk, hat⟩ := findElement?_found (Option.mem_toList.1 h)
    exact hinside hk hat
  · obtain ⟨k, _, hk, hat⟩ := mem_findElements h
    exact hinside hk hat

/-! ## What is left of the document -/

/-- A byte belongs to a block exactly when its character does. -/
theorem holds_inBytes {body h : Text} {i k j : Nat} {c d : Char} (hcell : Cell body h i k j c d)
    (s : ElementSpan) : (s.inBytes body).Holds i ↔ s.start ≤ k ∧ k < s.stop := by
  have hstart := byteSize_take_le_iff hcell.char hcell.inside s.start
  have hstop := byteSize_take_le_iff hcell.char hcell.inside s.stop
  rw [hcell.offset]
  show byteSize (body.take s.start) ≤ _ ∧ _ < byteSize (body.take s.stop) ↔ _
  omega

theorem getElem?_hideElements {body : Text} {spans : List ElementSpan} {k : Nat} {c : Char}
    (hc : body[k]? = some c) :
    (hideElements spans body)[k]? = some (if inSpans spans k then hide c else c) := by
  rw [hideElements, List.getElem?_map, List.getElem?_zipIdx, hc]
  simp only [Option.map_some, Nat.zero_add]

theorem inSpans_iff {spans : List ElementSpan} {k : Nat} :
    inSpans spans k = true ↔ ∃ s ∈ spans, s.start ≤ k ∧ k < s.stop := by
  simp only [inSpans, List.any_eq_true, Bool.and_eq_true, decide_eq_true_eq]

/-- A byte outside of all blocks stays. -/
theorem bytes_body_outside {body : Text} {i : Nat} (h : ∀ s ∈ matchedBlocks body, ¬ s.Holds i) :
    (bytes (sections body).body)[i]? = (bytes body)[i]? := by
  have hhides := hides_hideElements (blockSpans body) body
  rw [sections_body]
  by_cases hi : i < byteSize body
  · obtain ⟨k, j, c, d, hcell, _⟩ := exists_cell hhides hi
    refine hcell.seen_of_eq ?_
    have hd := hcell.hidden.symm.trans (getElem?_hideElements hcell.char)
    have hout : ¬ inSpans (blockSpans body) k = true := by
      intro hin
      obtain ⟨s, hs, hk⟩ := inSpans_iff.1 hin
      refine h (s.inBytes body) ?_ ((holds_inBytes hcell s).2 hk)
      rw [matchedBlocks_eq]
      exact List.mem_map_of_mem hs
    rw [if_neg hout] at hd
    exact (Option.some.inj hd).symm
  · have hle : (bytes body).length ≤ i := by
      rw [length_bytes]
      omega
    rw [List.getElem?_eq_none hle, List.getElem?_eq_none]
    rwa [(sameLayout_spread hhides).length]

/-- A byte of a block is blank: a space, or a newline that stays. -/
theorem bytes_body_inside {body : Text} {i : Nat} {s : ElementSpan} (hs : s ∈ matchedBlocks body)
    (h : s.Holds i) :
    (bytes (sections body).body)[i]? = some 32 ∨ (bytes (sections body).body)[i]? = some 10 := by
  rw [matchedBlocks_eq] at hs
  obtain ⟨r, hr, rfl⟩ := List.mem_map.1 hs
  have hhides := hides_hideElements (blockSpans body) body
  have hi : i < byteSize body := by
    refine Nat.lt_of_lt_of_le h.2 ?_
    rw [← byteSize_take_add body r.stop]
    exact Nat.le_add_right _ _
  rw [sections_body]
  obtain ⟨k, j, c, d, hcell, _⟩ := exists_cell hhides hi
  have hd := hcell.hidden.symm.trans (getElem?_hideElements hcell.char)
  rw [if_pos (inSpans_iff.2 ⟨r, hr, (holds_inBytes hcell r).1 h⟩), Option.some.injEq] at hd
  by_cases heq : c = d
  · -- what is hidden as itself is a newline or a space
    have hj : (charBytes c)[j]? = some 32 ∨ (charBytes c)[j]? = some 10 := by
      have hinside := hcell.inside
      rw [hd, hide] at heq
      split at heq
      next hc =>
        subst hc
        obtain rfl : j = 0 := Nat.lt_one_iff.1 hinside
        exact Or.inr rfl
      next =>
        subst heq
        obtain rfl : j = 0 := Nat.lt_one_iff.1 hinside
        exact Or.inl rfl
    rwa [hcell.seen_of_eq heq, hcell.byte]
  · exact Or.inl (hcell.seen_of_ne heq)

/-! ## What is cut out -/

theorem bytes_styles (body : Text) :
    (sections body).styles.map bytes =
      (matchedStyles body).map fun s => ((bytes body).take s.stop).drop s.start := by
  rw [sections_styles, matchedStyles_eq, List.map_map, List.map_map]
  refine List.map_congr_left fun s hs => ?_
  have hordered := (ordered_of_mem_blockSpans (List.mem_append_right _ hs)).1
  exact bytes_slice body (Nat.le_of_lt hordered.start_lt_stop)

/-- Without a script block there is no script. -/
theorem script_of_none {body : Text} (h : matchedScript body = none) :
    (sections body).script = [] ∧ (sections body).scriptLine = 0 := by
  rw [matchedScript_eq, Option.map_eq_none_iff] at h
  unfold sections
  constructor <;> simp only [h]

/-- The script is the text between the tags of its block. -/
theorem script_of_some {body : Text} {s : ElementSpan} (h : matchedScript body = some s) :
    bytes (sections body).script = ((bytes body).take s.innerStop).drop s.innerStart ∧
    (sections body).scriptLine = ((bytes body).take s.innerStart).count 10 + 1 := by
  rw [matchedScript_eq] at h
  obtain ⟨r, hr, rfl⟩ := Option.map_eq_some_iff.1 h
  have hmem : r ∈ blockSpans body := List.mem_append_left _ (Option.mem_toList.2 hr)
  have hordered := (ordered_of_mem_blockSpans hmem).1
  unfold sections
  simp only [hr]
  refine ⟨bytes_slice body hordered.inner, congrArg (· + 1) ?_⟩
  show _ = ((bytes body).take (byteSize (body.take r.innerStart))).count 10
  rw [bytes_take, count_newline_bytes, List.count_eq_length_filter]
  rfl

/-- Counted in bytes, the places of a block are in the same order. -/
theorem ElementSpan.Ordered.inBytes {s : ElementSpan} {t : Text} (h : s.Ordered)
    (hstop : s.stop ≤ t.length) : (s.inBytes t).Ordered := by
  have hinner : s.innerStop ≤ t.length := Nat.le_trans (Nat.le_of_lt h.closing) hstop
  have htag : s.innerStart ≤ t.length := Nat.le_trans h.inner hinner
  have hattrs : s.attrsStart ≤ t.length :=
    Nat.le_trans h.attrs (Nat.le_trans (Nat.le_of_lt h.tag) htag)
  exact ⟨byteSize_take_lt h.name hattrs, byteSize_take_mono t h.attrs,
    byteSize_take_lt h.tag htag, byteSize_take_mono t h.inner, byteSize_take_lt h.closing hstop⟩

theorem ordered_of_mem_matchedBlocks {body : Text} {s : ElementSpan} (h : s ∈ matchedBlocks body) :
    s.Ordered ∧ s.stop ≤ (bytes body).length := by
  rw [matchedBlocks_eq] at h
  obtain ⟨r, hr, rfl⟩ := List.mem_map.1 h
  obtain ⟨hordered, hstop⟩ := ordered_of_mem_blockSpans hr
  refine ⟨hordered.inBytes hstop, ?_⟩
  rw [length_bytes, ← byteSize_take_add body r.stop]
  exact Nat.le_add_right _ _

/-- **Cutting the blocks out of a document keeps its layout.** Of every document
the text with its fences stripped, the text with all its code stripped, and
what is left without its blocks have the bytes of the document in their places,
or spaces. The script and the styles are the document's own bytes at the places
where their blocks are found in the stripped text; the script starts on the
line that is given for it. What is left is blank in every block, and the
document everywhere else. -/
theorem sections_keep_layout (body : Text) :
    SameLayout body (stripFences body) ∧ SameLayout body (stripCode body) ∧
    SameLayout body (sections body).body ∧
    (∀ s ∈ matchedBlocks body, s.Ordered ∧ s.stop ≤ (bytes body).length) ∧
    (matchedScript body = none → (sections body).script = [] ∧ (sections body).scriptLine = 0) ∧
    (∀ s, matchedScript body = some s →
      bytes (sections body).script = ((bytes body).take s.innerStop).drop s.innerStart ∧
      (sections body).scriptLine = ((bytes body).take s.innerStart).count 10 + 1) ∧
    (sections body).styles.map bytes =
      (matchedStyles body).map (fun s => ((bytes body).take s.stop).drop s.start) ∧
    (∀ i, (∃ s ∈ matchedBlocks body, s.Holds i) →
      (bytes (sections body).body)[i]? = some 32 ∨ (bytes (sections body).body)[i]? = some 10) ∧
    ∀ i, (∀ s ∈ matchedBlocks body, ¬ s.Holds i) →
      (bytes (sections body).body)[i]? = (bytes body)[i]? := by
  refine ⟨sameLayout_spread (hides_hideFences body), sameLayout_spread (hides_hideCode body), ?_,
    fun s hs => ordered_of_mem_matchedBlocks hs, script_of_none, fun s hs => script_of_some hs,
    bytes_styles body, ?_, fun i hi => bytes_body_outside hi⟩
  · rw [sections_body]
    exact sameLayout_spread (hides_hideElements (blockSpans body) body)
  · rintro i ⟨s, hs, hi⟩
    exact bytes_body_inside hs hi

/-- A code span with letters of two bytes above a script with a template. -/
def accentedScript : Text := "é \x60<script>é\x60\n<script>\nlet é = \x60a\x60\n</script>\nü"

theorem sections_keep_layout_accents :
    matchedBlocks accentedScript = [⟨16, 23, 23, 24, 38, 47⟩] ∧
    bytes (sections accentedScript).script = ((bytes accentedScript).take 38).drop 24 ∧
    (sections accentedScript).scriptLine = 2 ∧
    (bytes (sections accentedScript).body)[5]? = (bytes accentedScript)[5]? ∧
    ((bytes (sections accentedScript).body)[24]? = some 32 ∨
      (bytes (sections accentedScript).body)[24]? = some 10) := by
  have hscript : matchedScript accentedScript = some ⟨16, 23, 23, 24, 38, 47⟩ := by decide +kernel
  have hblocks : matchedBlocks accentedScript = [⟨16, 23, 23, 24, 38, 47⟩] := by decide +kernel
  obtain ⟨_, _, _, _, _, hcut, _, hinside, houtside⟩ := sections_keep_layout accentedScript
  obtain ⟨hbytes, hline⟩ := hcut _ hscript
  refine ⟨hblocks, hbytes, hline.trans (by decide +kernel), houtside 5 ?_, hinside 24 ?_⟩
  · rw [hblocks]
    decide
  · rw [hblocks]
    decide

/-! ## Blocks that overlap -/

/-- Two blocks have no byte in common. -/
def ElementSpan.Apart (a b : ElementSpan) : Prop := a.stop ≤ b.start ∨ b.stop ≤ a.start

instance (a b : ElementSpan) : Decidable (a.Apart b) := inferInstanceAs (Decidable (_ ∨ _))

/-- An element begins at byte `i` of the text. -/
def BeginsAt (e : RawElement) (t : Text) (i : Nat) : Prop :=
  ∃ k s, elementAt? e k (t.drop k) = some s ∧ byteSize (t.take k) = i

theorem ElementSpan.Apart.not_holds {a b : ElementSpan} (h : a.Apart b) {i : Nat} (ha : a.Holds i) :
    ¬ b.Holds i := by
  unfold Apart at h
  unfold Holds at ha ⊢
  omega

/-- Of blocks that are apart at most one takes up a byte. -/
theorem countP_holds_le_one {blocks : List ElementSpan} (h : blocks.Pairwise ElementSpan.Apart)
    (i : Nat) : blocks.countP (fun s => s.Holds i) ≤ 1 := by
  induction h with
  | nil => exact Nat.zero_le 1
  | @cons a blocks ha _ ih =>
    rw [List.countP_cons]
    by_cases hi : a.Holds i
    · have hrest : blocks.countP (fun s => s.Holds i) = 0 := by
        refine List.countP_eq_zero.2 fun b hb => ?_
        simpa using (ha b hb).not_holds hi
      refine Nat.le_of_eq ?_
      rw [hrest, if_pos (decide_eq_true hi)]
    · rw [if_neg (by simpa using hi)]
      exact ih

/-- Every style block begins with a style element. -/
theorem beginsAt_of_mem_matchedStyles {body : Text} {s : ElementSpan}
    (h : s ∈ matchedStyles body) : BeginsAt .style (stripCode body) s.start := by
  obtain ⟨r, hr, rfl⟩ := List.mem_map.1 h
  obtain ⟨k, _, _, hat⟩ := mem_findElements hr
  rw [Nat.zero_add] at hat
  obtain ⟨_, rfl, _⟩ := elementAt?_ordered hat
  exact ⟨r.start, r, hat, rfl⟩

/-- Where a style element begins there is a style block. -/
theorem exists_matchedStyles_of_beginsAt {body : Text} {i : Nat}
    (h : BeginsAt .style (stripCode body) i) : ∃ s ∈ matchedStyles body, s.Holds i := by
  obtain ⟨k, s, hat, rfl⟩ := h
  have hat₀ : elementAt? .style (0 + k) ((stripCode body).drop k) = some s := by
    rw [Nat.zero_add]
    exact hat
  obtain ⟨r, hr, hstart, hstop⟩ := exists_findElements_of_elementAt? (Nat.zero_le k) hat₀
  rw [Nat.zero_add] at hstart hstop
  obtain ⟨j, _, hj, hat'⟩ := mem_findElements hr
  obtain ⟨_, _, hend⟩ := elementAt?_ordered hat'
  rw [List.length_drop] at hend
  exact ⟨_, List.mem_map_of_mem hr, byteSize_take_mono _ hstart,
    byteSize_take_lt hstop (by omega)⟩

theorem matchedStyles_pairwise (body : Text) :
    (matchedStyles body).Pairwise ElementSpan.Apart := by
  refine List.pairwise_map.2 ((findElements_pairwise .style 0 0 (stripCode body)).imp ?_)
  exact fun hab => Or.inl (byteSize_take_mono _ hab)

/-- The script block and a style block overlap when one of them begins in the
other, and only then. -/
theorem script_apart_iff {body : Text} {script : ElementSpan}
    (h : matchedScript body = some script) :
    (∀ style ∈ matchedStyles body, script.Apart style) ↔
      (∀ i, BeginsAt .style (stripCode body) i → ¬ script.Holds i) ∧
      ∀ style ∈ matchedStyles body, ¬ style.Holds script.start := by
  have hmem : script ∈ matchedBlocks body := List.mem_append_left _ (Option.mem_toList.2 h)
  have hstart : script.Holds script.start :=
    ⟨Nat.le_refl _, (ordered_of_mem_matchedBlocks hmem).1.start_lt_stop⟩
  constructor
  · intro hapart
    refine ⟨fun i hi hin => ?_, fun style hs => (hapart style hs).not_holds hstart⟩
    obtain ⟨style, hs, hholds⟩ := exists_matchedStyles_of_beginsAt hi
    exact (hapart style hs).not_holds hin hholds
  · rintro ⟨hstyle, hscript⟩ style hs
    have h₁ := hstyle style.start (beginsAt_of_mem_matchedStyles hs)
    have h₂ := hscript style hs
    unfold ElementSpan.Holds at h₁ h₂
    unfold ElementSpan.Apart
    omega

/-- **When the blocks of a document are apart.** Style blocks never overlap. All
blocks are apart exactly when neither kind begins inside the other: no style
element begins inside the script block, and the script block begins inside no
style block. Then every byte of the document is in one block at most, and
stays in what is left of the document only if it is in none. -/
theorem blocks_apart_iff (body : Text) :
    (matchedStyles body).Pairwise ElementSpan.Apart ∧
    ((matchedBlocks body).Pairwise ElementSpan.Apart ↔
      ∀ script, matchedScript body = some script →
        (∀ i, BeginsAt .style (stripCode body) i → ¬ script.Holds i) ∧
        ∀ style ∈ matchedStyles body, ¬ style.Holds script.start) ∧
    ((matchedBlocks body).Pairwise ElementSpan.Apart → ∀ i,
      (matchedBlocks body).countP (fun s => s.Holds i) = 0 ∧
        (bytes (sections body).body)[i]? = (bytes body)[i]? ∨
      (matchedBlocks body).countP (fun s => s.Holds i) = 1 ∧
        ((bytes (sections body).body)[i]? = some 32 ∨
          (bytes (sections body).body)[i]? = some 10)) := by
  refine ⟨matchedStyles_pairwise body, ?_, fun hapart i => ?_⟩
  · rw [matchedBlocks, List.pairwise_append]
    constructor
    · rintro ⟨_, _, hcross⟩ script hscript
      exact (script_apart_iff hscript).1 (hcross script (Option.mem_toList.2 hscript))
    · intro hbegin
      refine ⟨?_, matchedStyles_pairwise body, fun script hs => ?_⟩
      · cases matchedScript body with
        | none => exact .nil
        | some script => exact List.pairwise_singleton _ _
      · have hscript := Option.mem_toList.1 hs
        exact (script_apart_iff hscript).2 (hbegin script hscript)
  · have hcount := countP_holds_le_one hapart i
    rcases Nat.eq_zero_or_pos ((matchedBlocks body).countP fun s => s.Holds i) with hzero | hpos
    · refine Or.inl ⟨hzero, bytes_body_outside fun s hs => ?_⟩
      simpa using List.countP_eq_zero.1 hzero s hs
    · obtain ⟨s, hs, hi⟩ := List.countP_pos_iff.1 hpos
      exact Or.inr ⟨by omega, bytes_body_inside hs (of_decide_eq_true hi)⟩

/-- A script and a style side by side on one line. -/
def scriptBesideStyle : Text := "<script>a</script><style>b</style>\n"

theorem blocks_apart_iff_beside :
    (matchedBlocks scriptBesideStyle).Pairwise ElementSpan.Apart ∧
    (∀ i, BeginsAt .style (stripCode scriptBesideStyle) i →
      ¬ ElementSpan.Holds ⟨0, 7, 7, 8, 9, 18⟩ i) ∧
    (matchedBlocks scriptBesideStyle).countP (fun s => s.Holds 20) = 1 := by
  have hapart : (matchedBlocks scriptBesideStyle).Pairwise ElementSpan.Apart := by decide +kernel
  have hscript : matchedScript scriptBesideStyle = some ⟨0, 7, 7, 8, 9, 18⟩ := by decide +kernel
  obtain ⟨_, hiff, hbytes⟩ := blocks_apart_iff scriptBesideStyle
  refine ⟨hapart, (hiff.1 hapart _ hscript).1, ?_⟩
  rcases hbytes hapart 20 with ⟨hzero, _⟩ | ⟨hone, _⟩
  · exact absurd hzero (by decide +kernel)
  · exact hone

/-- A style element in a string of the script. -/
def styleInScript : Text := "<script>const s = '<style>a</style>'</script>\n"

/-- The string is taken for a style block, and its bytes are cut out twice. -/
theorem style_cut_out_of_script :
    matchedBlocks styleInScript = [⟨0, 7, 7, 8, 36, 45⟩, ⟨19, 25, 25, 26, 27, 35⟩] ∧
    ¬ (matchedBlocks styleInScript).Pairwise ElementSpan.Apart ∧
    (matchedBlocks styleInScript).countP (fun s => s.Holds 20) = 2 ∧
    (sections styleInScript).script = "const s = '<style>a</style>'" ∧
    (sections styleInScript).styles = ["<style>a</style>".toList] := by
  decide +kernel

end Docweave.Source
