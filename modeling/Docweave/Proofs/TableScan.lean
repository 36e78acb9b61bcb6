import Docweave.Proofs.Markers
import Docweave.Proofs.TextLaws

/-!
# The search for a data source

`dynamicTable?` looks ahead from behind the opening token of a table. It goes
to the token that closes the table, and one paragraph further when no cell
names a data source. Three facts about it carry all that is said of tables:

> `dynamicTable?_cases`: the stream it leaves is the one behind the table, or
> behind a paragraph that names the source and follows the table at once.

> `dynamicTable?_append`: more tokens behind the stream change nothing, when
> the table is closed in the stream and the paragraph behind, if any, is a
> container marker.

> `documentScan_dynamicTable?`: in the stream of a document what is skipped
> holds no code and no marker, and what is left is well nested.
-/

namespace Docweave

/-- The token does not end a table. -/
def beforeTableEnd (t : Token) : Bool := t.kind ≠ .closes .table

/-- A header cell is two tokens. -/
theorem headerCell?_eq_some {ts : List Token} {text : Text} (h : headerCell? ts = some text) :
    ∃ o i rest, ts = o :: i :: rest ∧ i.kind = .inline := by
  unfold headerCell? at h
  split at h
  next o i rest =>
    split at h
    next hk =>
      simp only [Bool.and_eq_true, decide_eq_true_eq] at hk
      exact ⟨o, i, rest, rfl, hk.2⟩
    next => exact absurd h (by simp)
  next => exact absurd h (by simp)

/-- The scan stops at the first token that ends a table. The token it skips
behind a header cell is the text of the cell. -/
theorem scanTable_snd (s : TableScan) (ts : List Token) :
    (scanTable s ts).2 = ts.dropWhile beforeTableEnd := by
  fun_induction scanTable s ts with
  | case1 => rfl
  | case2 s t ts hk => rw [List.dropWhile_cons_of_neg (by simp [beforeTableEnd, hk])]
  | case3 s t ts hk text hcell ih =>
    obtain ⟨o, i, rest, heq, hi⟩ := headerCell?_eq_some hcell
    obtain ⟨rfl, rfl⟩ := List.cons.inj heq
    rw [ih, List.dropWhile_cons_of_pos (by simp [beforeTableEnd, hk]),
      List.dropWhile_cons_of_pos (by simp [beforeTableEnd, hi])]
    rfl
  | case4 s t ts hk hcell ih =>
    rw [ih, List.dropWhile_cons_of_pos (by simp [beforeTableEnd, hk])]

/-- What the search returns: a table node, and the stream behind the table or
behind the paragraph that names the source. -/
theorem dynamicTable?_cases {ts rest : List Token} {n : Node}
    (h : dynamicTable? ts = some (n, rest)) :
    (∃ headers source placeholder, n = .table headers source placeholder []) ∧
    (rest = (ts.dropWhile beforeTableEnd).drop 1 ∨
     ∃ o i c, (ts.dropWhile beforeTableEnd).drop 1 = o :: i :: c :: rest ∧
       markerParagraph? (o :: i :: c :: rest) = some i ∧ isDataSourceLine i.content = true) := by
  unfold dynamicTable? at h
  simp only [scanTable_snd] at h
  split at h
  next =>
    simp only [Option.some.injEq, Prod.mk.injEq] at h
    obtain ⟨rfl, rfl⟩ := h
    exact ⟨⟨_, _, _, rfl⟩, Or.inl rfl⟩
  next =>
    split at h
    next i hm =>
      split at h
      next hd =>
        simp only [Option.some.injEq, Prod.mk.injEq] at h
        obtain ⟨rfl, rfl⟩ := h
        obtain ⟨o, c, rest, heq, _⟩ := markerParagraph?_eq_some hm
        refine ⟨⟨_, _, _, rfl⟩, Or.inr ⟨o, i, c, ?_⟩⟩
        rw [heq] at hm ⊢
        exact ⟨rfl, hm, hd⟩
      next => exact absurd h (by simp)
    next => exact absurd h (by simp)

/-- The search skips a front part of the stream. -/
theorem dynamicTable?_suffix {ts rest : List Token} {n : Node}
    (h : dynamicTable? ts = some (n, rest)) : rest <:+ ts := by
  have hdrop : (ts.dropWhile beforeTableEnd).drop 1 <:+ ts :=
    (List.drop_suffix 1 _).trans (List.dropWhile_suffix _)
  rcases (dynamicTable?_cases h).2 with rfl | ⟨o, i, c, heq, _⟩
  · exact hdrop
  · rw [heq] at hdrop
    exact List.IsSuffix.trans ⟨[o, i, c], rfl⟩ hdrop

/-! ## More tokens behind -/

/-- A table that is closed in a stream shows its header cells there. -/
theorem headerCell?_append {t : Token} {ts : List Token} (more : List Token) (h : ts ≠ []) :
    headerCell? (t :: (ts ++ more)) = headerCell? (t :: ts) := by
  cases ts with
  | nil => exact absurd rfl h
  | cons => rfl

/-- The first body cell is seen in full, or the end of the table stands where
one of its tokens would. -/
theorem firstBodyCell?_append {t : Token} {ts : List Token} (more : List Token)
    (h : ∃ c ∈ ts, c.kind = .closes .table) :
    firstBodyCell? (t :: (ts ++ more)) = firstBodyCell? (t :: ts) := by
  obtain ⟨c, hc, hk⟩ := h
  match ts, hc with
  | [a], hc =>
    rw [List.mem_singleton.1 hc] at hk
    match more with
    | [] => rfl
    | [_] => rfl
    | _ :: _ :: _ => simp [firstBodyCell?, hk]
  | [a, b], hc =>
    match more with
    | [] => rfl
    | _ :: _ =>
      rcases List.mem_cons.1 hc with rfl | hb
      · simp [firstBodyCell?, hk]
      · rw [List.mem_singleton.1 hb] at hk
        simp [firstBodyCell?, hk]
  | _ :: _ :: _ :: _, _ => rfl

/-- The scan of a table that is closed in a stream does not look further. -/
theorem scanTable_append {s : TableScan} {ts : List Token} (more : List Token)
    (h : ∃ c ∈ ts, c.kind = .closes .table) :
    scanTable s (ts ++ more) = ((scanTable s ts).1, (scanTable s ts).2 ++ more) := by
  fun_induction scanTable s ts with
  | case1 =>
    obtain ⟨c, hc, _⟩ := h
    exact absurd hc (by simp)
  | case2 s t ts hk => rw [List.cons_append, scanTable, if_pos hk]
  | case3 s t ts hk text hcell ih =>
    obtain ⟨o, i, rest, heq, hi⟩ := headerCell?_eq_some hcell
    obtain ⟨rfl, rfl⟩ := List.cons.inj heq
    have hend : ∃ c ∈ rest, c.kind = .closes .table := by
      obtain ⟨c, hc, hck⟩ := h
      rcases List.mem_cons.1 hc with rfl | hc'
      · exact absurd hck hk
      · rcases List.mem_cons.1 hc' with rfl | hc''
        · rw [hi] at hck; exact absurd hck (by simp)
        · exact ⟨c, hc'', hck⟩
    rw [List.cons_append, scanTable, if_neg hk, headerCell?_append more (by simp), hcell]
    exact ih hend
  | case4 s t ts hk hcell ih =>
    have hend : ∃ c ∈ ts, c.kind = .closes .table := by
      obtain ⟨c, hc, hck⟩ := h
      rcases List.mem_cons.1 hc with rfl | hc'
      · exact absurd hck hk
      · exact ⟨c, hc', hck⟩
    have hne : ts ≠ [] := by
      rintro rfl
      obtain ⟨c, hc, _⟩ := hend
      exact absurd hc (by simp)
    have hsee : s.see (t :: (ts ++ more)) = s.see (t :: ts) := by
      unfold TableScan.see
      rw [firstBodyCell?_append more hend]
    rw [List.cons_append, scanTable, if_neg hk, headerCell?_append more hne, hcell]
    simp only
    rw [hsee]
    exact ih hend

/-- A container marker is no line that names a data source. -/
theorem isDataSourceLine_of_bracket {content : Text} {c : Char} (hc : content.head? = some c)
    (hb : c = '[' ∨ c = ']') : isDataSourceLine content = false := by
  cases content with
  | nil => exact absurd hc (by simp)
  | cons d rest =>
    obtain rfl : d = c := by simpa using hc
    have hs : Text.isSpace d = false ∧ d ≠ '\x7b' := by
      rcases hb with rfl | rfl <;> decide
    have hstart : Text.startsWith (d :: Text.trimRight Text.isSpace rest) "\x7b" = false := by
      show (Text.dropPrefix? ['\x7b'] (d :: Text.trimRight Text.isSpace rest)).isSome = false
      rw [Text.dropPrefix?, if_neg fun h => hs.2 h.symm]
      rfl
    unfold isDataSourceLine
    rw [Text.trim_cons rest hs.1]
    simp only [hstart, Bool.false_and]

/-- A stream is at its end or starts with a container marker. -/
def StartsMarker (ts : List Token) : Prop :=
  ts = [] ∨ opensContainer ts = true ∨ ∃ q, closesContainer? ts = some q

theorem startsParagraph_of_marker {ts : List Token} (h : StartsMarker ts) : StartsParagraph ts := by
  rcases h with rfl | ho | ⟨q, hq⟩
  · intro t ht
    exact absurd ht (by simp)
  · exact startsParagraph_of_opens ho
  · exact startsParagraph_of_closes hq

/-- The paragraph at the front of such a stream names no data source. -/
theorem isDataSourceLine_of_marker {ts : List Token} {i : Token} (h : StartsMarker ts)
    (hm : markerParagraph? ts = some i) : isDataSourceLine i.content = false := by
  rcases h with rfl | ho | ⟨q, hq⟩
  · exact absurd hm (by simp [markerParagraph?])
  · unfold opensContainer at ho
    rw [hm] at ho
    have hc : i.content = ['['] := by simpa using ho
    exact isDataSourceLine_of_bracket (by rw [hc]; rfl) (Or.inl rfl)
  · rw [closesContainer?, hm, Option.bind_some] at hq
    exact isDataSourceLine_of_bracket (head?_of_closingQualifier? hq) (Or.inr rfl)

/-- **The search stays in its part of the stream.** What follows a stream in
which the table is closed plays no part, when it is a container marker. -/
theorem dynamicTable?_append {ts more : List Token} (h : ∃ c ∈ ts, c.kind = .closes .table)
    (hmore : StartsMarker more) :
    dynamicTable? (ts ++ more) = (dynamicTable? ts).map fun (n, rest) => (n, rest ++ more) := by
  have hne : (scanTable {} ts).2 ≠ [] := by
    rw [scanTable_snd]
    intro hnil
    obtain ⟨c, hc, hk⟩ := h
    rw [← List.takeWhile_append_dropWhile (p := beforeTableEnd) (l := ts), hnil,
      List.append_nil] at hc
    have hbefore := List.all_eq_true.1 List.all_takeWhile c hc
    simp [beforeTableEnd, hk] at hbefore
  unfold dynamicTable?
  rw [scanTable_append more h]
  generalize scanTable {} ts = r at hne ⊢
  obtain ⟨s, rest⟩ := r
  cases rest with
  | nil => exact absurd rfl hne
  | cons e behind =>
    simp only [List.cons_append, List.drop_succ_cons, List.drop_zero]
    split
    next => rfl
    next =>
      cases behind with
      | nil =>
        -- the paragraph behind the table is the marker itself, which names no data source
        rw [List.nil_append]
        cases hm : markerParagraph? more with
        | none => rfl
        | some i =>
          simp only
          rw [isDataSourceLine_of_marker hmore hm]
          rfl
      | cons b behind =>
        rw [markerParagraph?_append_paragraph (by simp) (startsParagraph_of_marker hmore)]
        cases hm : markerParagraph? (b :: behind) with
        | none => rfl
        | some i =>
          obtain ⟨o, c, rest, heq, _⟩ := markerParagraph?_eq_some hm
          simp only
          rw [heq]
          split
          next => rfl
          next => rfl

/-! ## Tables of documents -/

/-- Up to the end of a table a document holds no code and no marker, and
behind it nothing is open that was not open around the table. -/
theorem documentScan_table_end (st : List Element) {ts : List Token}
    (h : documentScan (st ++ [.table]) ts = some []) (hst : .table ∉ st) :
    ∃ c behind, ts.dropWhile beforeTableEnd = c :: behind ∧ c.kind = .closes .table ∧
      documentScan [] behind = some [] ∧
      ∀ x ∈ ts.takeWhile beforeTableEnd,
        x.isCode = false ∧ ¬(x.kind = .opens .paragraph ∧ x.level = 0) := by
  induction ts generalizing st with
  | nil =>
    rw [documentScan_nil, Option.some.injEq] at h
    exact absurd h (by simp)
  | cons t ts ih =>
    obtain ⟨mid, hstep, hrest⟩ := documentScan_cons_some h
    have hcases := nestStep_cases (nestStep_of_documentStep hstep)
    by_cases hk : t.kind = .closes .table
    · refine ⟨t, ts, ?_, hk, ?_, ?_⟩
      · rw [List.dropWhile_cons_of_neg (by simp [beforeTableEnd, hk])]
      · rcases hcases with ⟨e, he, _⟩ | ⟨e, he, _, hmid⟩ | ⟨_, hn, _⟩
        · rw [hk] at he; exact absurd he (by simp)
        · obtain rfl : .table = e := by simpa [hk] using he
          cases st with
          | nil =>
            obtain rfl : [] = mid := by simpa using hmid
            exact hrest
          | cons f st =>
            obtain rfl : f = .table := (List.cons.inj hmid).1
            exact absurd (List.mem_cons_self ..) hst
        · exact absurd hk (hn _)
      · rw [List.takeWhile_cons_of_neg (by simp [beforeTableEnd, hk])]
        simp
    · -- still inside: the table stays at the bottom of what is open
      obtain ⟨hcode, hnotable⟩ := documentStep_in_table hstep (by simp)
      have hpos : beforeTableEnd t = true := by simp [beforeTableEnd, hk]
      have hmid : ∃ st', mid = st' ++ [.table] ∧ .table ∉ st' := by
        rcases hcases with ⟨e, he, _, hm⟩ | ⟨e, he, _, hm⟩ | ⟨_, _, _, hm⟩
        · refine ⟨e :: st, hm, ?_⟩
          intro hmem
          rcases List.mem_cons.1 hmem with rfl | hmem'
          · exact hnotable he
          · exact hst hmem'
        · cases st with
          | nil =>
            obtain ⟨rfl, _⟩ : .table = e ∧ _ := by simpa using hm
            exact absurd he hk
          | cons f st =>
            refine ⟨st, (List.cons.inj hm).2.symm, ?_⟩
            intro hmem
            exact hst (List.mem_cons_of_mem _ hmem)
        · exact ⟨st, hm, hst⟩
      obtain ⟨st', rfl, hst'⟩ := hmid
      obtain ⟨c, behind, hdrop, hck, hscan, hquiet⟩ := ih st' hrest hst'
      refine ⟨c, behind, ?_, hck, hscan, ?_⟩
      · rw [List.dropWhile_cons_of_pos hpos]
        exact hdrop
      · rw [List.takeWhile_cons_of_pos hpos]
        intro x hx
        rcases List.mem_cons.1 hx with rfl | hx'
        · refine ⟨hcode, ?_⟩
          rintro ⟨hp, hl⟩
          rcases hcases with ⟨e, _, hlev, _⟩ | ⟨e, he, _⟩ | ⟨hn, _⟩
          · rw [hl] at hlev
            exact absurd hlev (by simp)
          · rw [hp] at he; exact absurd he (by simp)
          · exact hn _ hp
        · exact hquiet x hx'

/-- The check passes over tokens at which no marker can start. -/
theorem checkMarkers_append_quiet {src : Text} {offset : Int} {opened : List Nat}
    {xs ys : List Token} (h : ∀ x ∈ xs, ¬(x.kind = .opens .paragraph ∧ x.level = 0)) :
    checkMarkers src offset opened (xs ++ ys) = checkMarkers src offset opened ys := by
  induction xs with
  | nil => rfl
  | cons x xs ih =>
    rw [List.cons_append, checkMarkers_of_no_window
      (markerParagraph?_cons_eq_none _ (h x (List.mem_cons_self ..)))]
    exact ih fun y hy => h y (List.mem_cons_of_mem _ hy)

/-- **A table of a document is skipped whole.** Behind the search the stream
is well nested, the check of the markers has not moved, and no code is lost. -/
theorem documentScan_dynamicTable? {ts rest : List Token} {n : Node}
    (h : documentScan [.table] ts = some []) (hd : dynamicTable? ts = some (n, rest)) :
    documentScan [] rest = some [] ∧
    (∀ src offset opened,
      checkMarkers src offset opened ts = checkMarkers src offset opened rest) ∧
    ts.filter Token.isCode = rest.filter Token.isCode := by
  obtain ⟨c, behind, hdrop, hck, hscan, hquiet⟩ := documentScan_table_end [] h (by simp)
  have hts : ts = ts.takeWhile beforeTableEnd ++ c :: behind := by
    rw [← hdrop, List.takeWhile_append_dropWhile]
  have hcode : (ts.takeWhile beforeTableEnd).filter Token.isCode = [] :=
    List.filter_eq_nil_iff.2 fun x hx => by simp [(hquiet x hx).1]
  have hcheck : ∀ src offset opened,
      checkMarkers src offset opened ts = checkMarkers src offset opened behind := by
    intro src offset opened
    rw [hts, checkMarkers_append_quiet fun x hx => (hquiet x hx).2,
      checkMarkers_of_no_window (markerParagraph?_cons_eq_none _ (by simp [hck]))]
  have hfilter : ts.filter Token.isCode = behind.filter Token.isCode := by
    rw [hts, List.filter_append, hcode, List.nil_append,
      List.filter_cons_of_neg (by simp [Token.isCode, hck])]
  rcases (dynamicTable?_cases hd).2 with hrest | ⟨o, i, c', hbehind, hm, hsource⟩
  · rw [hdrop] at hrest
    obtain rfl : rest = behind := hrest
    exact ⟨hscan, hcheck, hfilter⟩
  · rw [hdrop] at hbehind
    obtain rfl : behind = [o, i, c'] ++ rest := hbehind
    obtain ⟨o', c'', rest', heq, ho, hl, hi, hc⟩ := markerParagraph?_eq_some hm
    obtain ⟨rfl, rfl, -⟩ : o = o' ∧ c' = c'' ∧ rest = rest' := by simpa using heq
    refine ⟨?_, ?_, ?_⟩
    · obtain ⟨mid, hmid, hrest⟩ := documentScan_append_some hscan
      obtain ⟨_, rfl⟩ := nestScan_paragraph (nestScan_of_documentScan hmid) ho hl hi hc
      exact hrest
    · -- the paragraph is no marker, and none starts inside it
      intro src offset opened
      have hopens : opensContainer (o :: i :: c' :: rest) = false := by
        cases hb : opensContainer (o :: i :: c' :: rest) with
        | false => rfl
        | true =>
          rw [isDataSourceLine_of_marker (Or.inr (Or.inl hb)) hm] at hsource
          exact absurd hsource (by simp)
      have hcloses : closesContainer? (o :: i :: c' :: rest) = none := by
        cases hb : closesContainer? (o :: i :: c' :: rest) with
        | none => rfl
        | some q =>
          rw [isDataSourceLine_of_marker (Or.inr (Or.inr ⟨q, hb⟩)) hm] at hsource
          exact absurd hsource (by simp)
      rw [hcheck]
      calc checkMarkers src offset opened (o :: i :: c' :: rest)
          = checkMarkers src offset opened ([i, c'] ++ rest) := checkMarkers_of_plain hopens hcloses
        _ = checkMarkers src offset opened rest := checkMarkers_append_quiet (by simp [hi, hc])
    · rw [hfilter, List.filter_append]
      simp [Token.isCode, ho, hi, hc]

end Docweave
