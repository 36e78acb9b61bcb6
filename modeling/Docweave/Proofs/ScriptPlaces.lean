import Docweave.Proofs.ExtractedBlocks
import Docweave.Script.Plain

/-!
# Where the issues of a script point

A parser is given the script of a document, and says of a problem on which line
and at which column it is. The document has other lines in front of the script,
and on the script's first line at least its opening tag. `checkWith` moves the
lines and leaves the columns alone.

> `place_append`: what a piece in front does to the place of a byte. Lines are
> moved by its newlines; columns are moved on the first line only, by what
> stands behind the last of them.

> `script_in_source`: what stands in front of the script in a document has as
> many newlines as lines are added, and ends in the bracket of the opening tag.

> `issues_point_into_script`: the line of an issue is right, and the column is
> right exactly when the parser does not speak of the first line.
-/

namespace Docweave

namespace Text

/-! ## Places of bytes -/

/-- How many bytes stand behind the last newline. -/
def lastColumn (bs : List Nat) : Nat := (bs.reverse.takeWhile (· ≠ 10)).length

/-- The line, from one, and the column of byte `i`. -/
def place (bs : List Nat) (i : Nat) : Nat × Nat :=
  ((bs.take i).count 10 + 1, lastColumn (bs.take i))

theorem takeWhile_reverse_of_not_mem {bs : List Nat} (h : 10 ∉ bs) :
    ∀ b ∈ bs.reverse, decide (b ≠ 10) = true := by
  intro b hb
  refine decide_eq_true ?_
  rintro rfl
  exact h (List.mem_reverse.1 hb)

/-- Without a newline the columns go on. -/
theorem lastColumn_append {bs : List Nat} (as : List Nat) (h : 10 ∉ bs) :
    lastColumn (as ++ bs) = lastColumn as + bs.length := by
  rw [lastColumn, List.reverse_append,
    List.takeWhile_append_of_pos (takeWhile_reverse_of_not_mem h), List.length_append,
    List.length_reverse, Nat.add_comm]
  rfl

theorem lastColumn_of_not_mem {bs : List Nat} (h : 10 ∉ bs) : lastColumn bs = bs.length :=
  (lastColumn_append [] h).trans (Nat.zero_add _)

/-- Behind a newline the columns start again. -/
theorem lastColumn_append_of_mem {bs : List Nat} (as : List Nat) (h : 10 ∈ bs) :
    lastColumn (as ++ bs) = lastColumn bs := by
  have hstop : (bs.reverse.takeWhile (· ≠ 10)).length ≠ bs.reverse.length := by
    intro hlen
    have heq := (List.takeWhile_prefix (· ≠ 10)).eq_of_length hlen
    rw [← List.mem_reverse, ← heq] at h
    exact absurd (List.all_eq_true.1 List.all_takeWhile 10 h) (by decide)
  rw [lastColumn, List.reverse_append, List.takeWhile_append, if_neg hstop]
  rfl

/-- **Bytes behind a piece** have their lines moved by its newlines, and their
columns on the first line. -/
theorem place_append (as bs : List Nat) (i : Nat) :
    place (as ++ bs) (as.length + i) =
      (as.count 10 + (place bs i).1,
        if (place bs i).1 = 1 then lastColumn as + (place bs i).2 else (place bs i).2) := by
  have htake : (as ++ bs).take (as.length + i) = as ++ bs.take i := List.take_length_add_append i
  have hline : (place (as ++ bs) (as.length + i)).1 = as.count 10 + (place bs i).1 := by
    rw [place, htake, List.count_append]
    exact Nat.add_assoc ..
  refine Prod.ext hline ?_
  by_cases h : 10 ∈ bs.take i
  · have hcount := List.count_pos_iff.2 h
    have hlater : (place bs i).1 ≠ 1 := Nat.ne_of_gt (Nat.lt_add_of_pos_left hcount)
    rw [if_neg hlater, place, htake]
    exact lastColumn_append_of_mem as h
  · have hfirst : (place bs i).1 = 1 := congrArg (· + 1) (List.count_eq_zero.2 h)
    rw [if_pos hfirst, place, htake]
    show lastColumn (as ++ bs.take i) = lastColumn as + lastColumn (bs.take i)
    rw [lastColumn_append as h, lastColumn_of_not_mem h]

theorem place_append_left {as : List Nat} (bs : List Nat) {i : Nat} (h : i ≤ as.length) :
    place (as ++ bs) i = place as i := by
  rw [place, List.take_append_of_le_length h]
  rfl

/-- A byte further on has another place. -/
theorem place_ne_of_lt {bs : List Nat} {i j : Nat} (hij : i < j) (hj : j ≤ bs.length) :
    place bs i ≠ place bs j := by
  intro h
  obtain ⟨hline, hcolumn⟩ := Prod.mk.inj h
  have hsplit : bs.take j = bs.take i ++ (bs.take j).drop i := by
    have htake : bs.take i = (bs.take j).take i := by
      rw [List.take_take, Nat.min_eq_left (Nat.le_of_lt hij)]
    rw [htake, List.take_append_drop]
  have hlength : ((bs.take j).drop i).length = j - i := by
    rw [List.length_drop, List.length_take_of_le hj]
  rw [hsplit, List.count_append] at hline
  have hnewline : 10 ∉ (bs.take j).drop i := List.count_eq_zero.1 (by omega)
  rw [hsplit, lastColumn_append _ hnewline] at hcolumn
  omega

/-- The line and the column name byte `k`, and no other. -/
def Names (bs : List Nat) (spot : Nat × Nat) (k : Nat) : Prop :=
  ∀ j < bs.length, place bs j = spot ↔ j = k

/-- Two bytes do not have the same line and column. -/
theorem place_inj {bs : List Nat} {i j : Nat} (hi : i ≤ bs.length) (hj : j ≤ bs.length) :
    place bs i = place bs j ↔ i = j := by
  refine ⟨fun h => ?_, fun h => congrArg (place bs) h⟩
  rcases Nat.lt_trichotomy i j with hij | hij | hij
  · exact absurd h (place_ne_of_lt hij hj)
  · exact hij
  · exact absurd h.symm (place_ne_of_lt hij hi)

end Text

namespace Script

open Text

/-! ## The script in the document -/

/-- The byte of the document at which the script starts, of the block `s` in
the body. -/
def scriptStart (src : Text) (fm : Frontmatter) (s : Source.ElementSpan) : Nat :=
  (bytes src).length - (bytes fm.body).length + s.innerStart

theorem exists_matchedScript {body : Text} (h : (Source.sections body).script ≠ []) :
    ∃ s, Source.matchedScript body = some s := by
  refine Option.ne_none_iff_exists'.1 fun hnone => h ?_
  exact (Source.script_of_none hnone).1

/-- The byte in front of the script closes its opening tag. -/
theorem script_behind_bracket {body : Text} {s : Source.ElementSpan}
    (h : Source.matchedScript body = some s) :
    ∃ front, (bytes body).take s.innerStart = front ++ [62] := by
  rw [Source.matchedScript_eq] at h
  obtain ⟨r, hr, rfl⟩ := Option.map_eq_some_iff.1 h
  obtain ⟨k, _, hat⟩ := Source.findElement?_found hr
  rw [Nat.zero_add] at hat
  obtain ⟨hordered, hstart, _⟩ := Source.elementAt?_ordered hat
  obtain ⟨hinner, hbracket⟩ := Source.elementAt?_bracket hat
  have hk : k ≤ r.attrsStop := by
    have := hordered.name
    have := hordered.attrs
    omega
  rw [List.getElem?_drop, Nat.add_sub_cancel' hk] at hbracket
  -- a bracket is seen only where the document has one
  have hc : body[r.attrsStop]? = some '>' :=
    (Source.hides_hideCode body).seen hbracket (by decide)
  refine ⟨bytes (body.take r.attrsStop), ?_⟩
  show (bytes body).take (byteSize (body.take r.innerStart)) = _
  rw [bytes_take, hinner, List.take_add_one, hc, bytes_append]
  rfl

/-- **The script in its document.** In front of it are as many newlines as
lines are added to an issue, and the bracket of its opening tag. -/
theorem script_in_source {src : Text} {fm : Frontmatter} {s : Source.ElementSpan}
    (hparse : Frontmatter.parse src = .ok fm) (hblock : Source.matchedScript fm.body = some s) :
    ∃ before behind, bytes src = before ++ (bytes (Source.sections fm.body).script ++ behind) ∧
      before.length = scriptStart src fm s ∧
      before.count 10 = fm.bodyLine + (Source.sections fm.body).scriptLine - 1 ∧
      0 < lastColumn before := by
  obtain ⟨hordered, hstop⟩ := Source.ordered_of_mem_matchedBlocks
    (List.mem_append_left _ (Option.mem_toList.2 hblock))
  have hbody : fm.body ≠ [] := by
    intro hnil
    rw [hnil] at hstop
    exact absurd hordered.start_lt_stop (Nat.not_lt.2 (Nat.le_trans hstop (Nat.zero_le _)))
  obtain ⟨front, hsrc, hlines⟩ := source_of_frontmatter hparse hbody
  obtain ⟨hscript, hline⟩ := Source.script_of_some hblock
  obtain ⟨tag, htag⟩ := script_behind_bracket hblock
  refine ⟨bytes front ++ (bytes fm.body).take s.innerStart, (bytes fm.body).drop s.innerStop,
    ?_, ?_, ?_, ?_⟩
  · have hcut : (bytes fm.body).drop s.innerStart =
        bytes (Source.sections fm.body).script ++ (bytes fm.body).drop s.innerStop := by
      have hlength : s.innerStart ≤ ((bytes fm.body).take s.innerStop).length := by
        rw [List.length_take_of_le (Nat.le_trans (Nat.le_of_lt hordered.closing) hstop)]
        exact hordered.inner
      rw [hscript, ← List.drop_append_of_le_length hlength, List.take_append_drop]
    rw [← hcut, List.append_assoc, List.take_append_drop, ← bytes_append, ← hsrc]
  · have hlength := congrArg (fun t => (bytes t).length) hsrc
    simp only [bytes_append, List.length_append] at hlength
    have hinner : s.innerStart ≤ (bytes fm.body).length :=
      Nat.le_trans hordered.inner (Nat.le_trans (Nat.le_of_lt hordered.closing) hstop)
    rw [List.length_append, List.length_take_of_le hinner, scriptStart]
    omega
  · rw [List.count_append, count_newline_bytes, hlines, hline]
    rfl
  · rw [htag, ← List.append_assoc, lastColumn_append _ (by decide)]
    exact Nat.succ_pos _

/-! ## Issues -/

/-- What a parser finds in the script of a document body. -/
def findings (parser : Parser) (body : Text) : List Finding :=
  parser (.ofAttrs (Source.sections body).scriptAttrs) (Source.sections body).script

/-- The bytes of the script of a document body. -/
def scriptBytes (body : Text) : List Nat := bytes (Source.sections body).script

/-- A script that a parser finds fault with does not pass. -/
theorem checkWith_of_findings {parser : Parser} {src : Text}
    {fm : Frontmatter} (hparse : Frontmatter.parse src = .ok fm)
    (hscript : trim (Source.sections fm.body).script ≠ []) (hfound : findings parser fm.body ≠ []) :
    checkWith parser src = .error (.issues ((findings parser fm.body).map
      (Finding.issue (fm.bodyLine + (Source.sections fm.body).scriptLine - 1)))) := by
  unfold findings at hfound ⊢
  unfold checkWith
  rw [hparse]
  -- by `hfound` the findings are not the empty list
  simp only
  rw [if_neg (by simpa using hscript)]

/-- A byte of the script, and the issue that a finding at this byte becomes. -/
theorem place_of_issue {before script behind : List Nat} {i offset : Nat} {f : Finding}
    (hoffset : before.count 10 = offset) (hcolumn : 0 < lastColumn before) (hi : i < script.length)
    (hlocation : f.location = some (place script i)) :
    place (before ++ (script ++ behind)) (before.length + i) =
      ((f.issue offset).line,
        if (place script i).1 = 1 then
          (place (before ++ (script ++ behind)) before.length).2 + (f.issue offset).column
        else (f.issue offset).column) ∧
    (Names (before ++ (script ++ behind)) ((f.issue offset).line, (f.issue offset).column)
      (before.length + i) ↔ 2 ≤ (place script i).1) := by
  have hissue : f.issue offset = ⟨offset + (place script i).1, (place script i).2, f.text⟩ := by
    rw [Finding.issue, hlocation]
  have hstart : (place (before ++ (script ++ behind)) before.length).2 = lastColumn before := by
    have h := place_append before (script ++ behind) 0
    exact congrArg Prod.snd h
  have hplace := place_append before (script ++ behind) i
  rw [place_append_left behind (Nat.le_of_lt hi), hoffset] at hplace
  have hk : before.length + i < (before ++ (script ++ behind)).length := by
    rw [List.length_append, List.length_append]
    omega
  rw [hissue, hstart]
  refine ⟨hplace, fun hnames => ?_, fun hline j hj => ?_⟩
  · -- on the first line the column of the byte is too large
    by_contra hlt
    have hfirst : (place script i).1 = 1 := by
      have : 1 ≤ (place script i).1 := Nat.succ_pos _
      omega
    rw [if_pos hfirst, (hnames _ hk).2 rfl] at hplace
    have := congrArg Prod.snd hplace
    simp only at this
    omega
  · rw [if_neg (by omega)] at hplace
    rw [← hplace]
    exact place_inj (Nat.le_of_lt hj) (Nat.le_of_lt hk)

/-- **Issues and the bytes they are about.** For every parser: if the script of
a document is not blank, each finding of the parser is an issue of the document,
with the same words, and there is no other. Where a finding is at a byte of the
script, the issue names the line of that byte in the document. Its column is
that of the byte, less what the first line of the script has in front of it; so
line and column name the byte, and no other, exactly when the finding is not on
the first line. -/
theorem issues_point_into_script {parser : Parser} {src : Text}
    {fm : Frontmatter} {f : Finding} {n : Nat} (hparse : Frontmatter.parse src = .ok fm)
    (hscript : trim (Source.sections fm.body).script ≠ [])
    (hfound : (findings parser fm.body)[n]? = some f) :
    ∃ s issues issue, Source.matchedScript fm.body = some s ∧
      checkWith parser src = .error (.issues issues) ∧
      issues.length = (findings parser fm.body).length ∧
      issues[n]? = some issue ∧ issue.text = f.text ∧
      ∀ i < (scriptBytes fm.body).length, f.location = some (place (scriptBytes fm.body) i) →
        (bytes src)[scriptStart src fm s + i]? = (scriptBytes fm.body)[i]? ∧
        place (bytes src) (scriptStart src fm s + i) =
          (issue.line,
            if (place (scriptBytes fm.body) i).1 = 1 then
              (place (bytes src) (scriptStart src fm s)).2 + issue.column
            else issue.column) ∧
        (Names (bytes src) (issue.line, issue.column) (scriptStart src fm s + i) ↔
          2 ≤ (place (scriptBytes fm.body) i).1) := by
  have hblank : (Source.sections fm.body).script ≠ [] := by
    intro hnil
    rw [hnil] at hscript
    exact hscript rfl
  obtain ⟨s, hblock⟩ := exists_matchedScript hblank
  obtain ⟨before, behind, hsrc, hlength, hlines, hcolumn⟩ := script_in_source hparse hblock
  have hcheck := checkWith_of_findings hparse hscript
    (List.ne_nil_of_mem (List.mem_of_getElem? hfound))
  refine ⟨s, _, _, hblock, hcheck, List.length_map .., by rw [List.getElem?_map, hfound]; rfl,
    ?_, fun i hi hlocation => ?_⟩
  · rw [Finding.issue]
    split <;> rfl
  · rw [← hlength, hsrc]
    refine ⟨?_, place_of_issue hlines hcolumn hi hlocation⟩
    rw [List.getElem?_append_right (Nat.le_add_right _ _), Nat.add_sub_cancel_left]
    exact List.getElem?_append_left hi

/-- Metadata and a script with a value missing on its second line. -/
def missingBelow : List Text := ["<script>", "let a = ;", "</script>", ""]

def missingBelowMetadata : Text := "---\ntitle: a\n---\n" ++ join "\n" missingBelow

theorem issues_point_into_script_metadata :
    ∃ issues issue, checkWith plainParser missingBelowMetadata = .error (.issues issues) ∧ issues.length = 1 ∧
      issues[0]? = some issue ∧ (issue.line, issue.column) = (5, 8) ∧
      Names (bytes missingBelowMetadata) (5, 8) 34 := by
  have hblock : Frontmatter.block? missingBelowMetadata
      = some (lines "title: a", missingBelow) := by decide +kernel
  obtain ⟨metadata, hfm⟩ := parse_of_block? hblock (by decide +kernel)
  have hfindings : findings plainParser (join "\n" missingBelow)
      = [⟨"Unexpected \";\"", some (2, 8)⟩] := by decide +kernel
  have hfound : (findings plainParser (join "\n" missingBelow))[0]?
      = some ⟨"Unexpected \";\"", some (2, 8)⟩ := by rw [hfindings]; rfl
  have hblank : trim (Source.sections (join "\n" missingBelow)).script ≠ [] := by decide +kernel
  obtain ⟨s, issues, issue, hmatched, hcheck, hlength, hissue, _, hplace⟩ :=
    issues_point_into_script hfm hblank hfound
  have hspan : Source.matchedScript (join "\n" missingBelow) = some ⟨0, 7, 7, 8, 19, 28⟩ := by
    decide +kernel
  obtain rfl := Option.some.inj (hmatched.symm.trans hspan)
  have hstart : (bytes missingBelowMetadata).length - (bytes (join "\n" missingBelow)).length + 8
      = 25 := by decide +kernel
  -- the semicolon is byte 9 of the script, and byte 34 of the document
  have hline : place (scriptBytes (join "\n" missingBelow)) 9 = (2, 8) := by decide +kernel
  have hinside : 9 < (scriptBytes (join "\n" missingBelow)).length := by decide +kernel
  have hsrc : place (bytes missingBelowMetadata) 34 = (5, 8) := by decide +kernel
  obtain ⟨_, hspot, hnames⟩ := hplace 9 hinside (congrArg some hline.symm)
  rw [hline, scriptStart, hstart] at hspot hnames
  have hissued : (issue.line, issue.column) = (5, 8) := hspot.symm.trans hsrc
  refine ⟨issues, issue, hcheck, hlength.trans (congrArg List.length hfindings), hissue,
    hissued, ?_⟩
  rw [← hissued]
  exact hnames.2 (Nat.le_refl 2)

/-- A script on one line with its tags, with a value missing. -/
def missingBehindTag : Text := "<script>let a = ;</script>\n"

/-- The semicolon is byte 16 of its line, and the issue names byte 8, where the
script starts. -/
theorem issue_off_behind_tag :
    findings plainParser missingBehindTag = [⟨"Unexpected \";\"", some (1, 8)⟩] ∧
    place (scriptBytes missingBehindTag) 8 = (1, 8) ∧
    (scriptBytes missingBehindTag)[8]? = some 59 ∧
    checkWith plainParser missingBehindTag = .error (.issues [⟨1, 8, "Unexpected \";\""⟩]) ∧
    place (bytes missingBehindTag) 16 = (1, 16) ∧ (bytes missingBehindTag)[16]? = some 59 ∧
    place (bytes missingBehindTag) 8 = (1, 8) ∧ (bytes missingBehindTag)[8]? = some 108 := by
  have hfm : Frontmatter.parse missingBehindTag = .ok { body := missingBehindTag } := by rfl
  have hfindings : findings plainParser missingBehindTag = [⟨"Unexpected \";\"", some (1, 8)⟩] := by
    decide +kernel
  have hline : (Source.sections missingBehindTag).scriptLine = 1 := by decide +kernel
  have hcheck : checkWith plainParser missingBehindTag = _ :=
    checkWith_of_findings hfm (by decide +kernel) (by rw [hfindings]; exact List.cons_ne_nil _ _)
  rw [hfindings, hline] at hcheck
  exact ⟨hfindings, by decide +kernel, by decide +kernel, hcheck, by decide +kernel⟩

end Script

end Docweave
