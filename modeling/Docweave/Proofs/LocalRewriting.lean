import Docweave.Proofs.BracketPieces

/-!
# Rewriting line by line

A construct ends on the line it starts on, up to its qualifier, which may go on over
further lines until its braces are closed. So a text can be cut behind a newline
where no brace is open, and its parts rewritten on their own: nothing behind the cut
changes what becomes of the text in front of it, and closing braces in front of it
that close nothing do not reach behind it. The sweep that pairs braces splits at the
same places.

> `stackBehind_closed`: no brace is open behind a text that closes its braces.

> `endOf?_append`, `rewriting_local`: the sweep and the rewriting at a cut.
-/

namespace Docweave

open BracketSpan (group?)

/-- Every opening brace of a text has its balancing partner in the text. -/
def BracesClosed (t : Text) : Prop :=
  ∀ u r, t = u ++ '\x7b' :: r →
    ∃ body behind, r = body ++ '\x7d' :: behind ∧ body.count '\x7d' = body.count '\x7b'

section

variable {a s t u r : Text} {ps : List BracketPiece} {last : BracketPiece}

theorem bracesClosed_suffix (h : BracesClosed (u ++ t)) : BracesClosed t := by
  intro v r ht
  exact h (u ++ v) r (by rw [ht, List.append_assoc])

/-- A brace with a partner has a group. -/
theorem group?_of_closed (h : BracesClosed (u ++ '\x7b' :: r)) : ∃ body behind, group? 0 r = some (body, behind) := by
  obtain ⟨body, behind, rfl, hcount⟩ := h u r rfl
  cases hgroup : group? 0 (body ++ '\x7d' :: behind) with
  | some found => exact ⟨found.1, found.2, rfl⟩
  | none =>
    have hle := group?_eq_none_iff.1 hgroup (body ++ ['\x7d']) behind (by simp)
    rw [List.count_append, List.count_append, List.count_singleton_self,
      List.count_cons_of_ne (by decide), List.count_nil] at hle
    omega

theorem bracesClosed_cons_iff {c : Char} :
    BracesClosed (c :: t) ↔ (c = '\x7b' → (group? 0 t).isSome = true) ∧ BracesClosed t := by
  constructor
  · refine fun h => ⟨?_, bracesClosed_suffix (u := [c]) h⟩
    rintro rfl
    obtain ⟨body, behind, hgroup⟩ := group?_of_closed (u := []) h
    rw [hgroup]
    rfl
  · rintro ⟨hfirst, hrest⟩ u r ht
    cases u with
    | nil =>
      obtain ⟨rfl, rfl⟩ := List.cons.inj ht
      obtain ⟨⟨body, behind⟩, hgroup⟩ := Option.isSome_iff_exists.1 (hfirst rfl)
      obtain ⟨rfl, hbody⟩ := group?_zero_iff.1 hgroup
      exact ⟨body, behind, rfl, hbody.total⟩
    | cons x u =>
      obtain ⟨rfl, htail⟩ := List.cons.inj ht
      exact hrest u r htail

instance decidableBracesClosed : (t : Text) → Decidable (BracesClosed t)
  | [] => isTrue fun u r h => absurd h (by simp)
  | _ :: t =>
    haveI := decidableBracesClosed t
    decidable_of_iff _ bracesClosed_cons_iff.symm

theorem staysOpen_of_closed (h : BracesClosed a) (s : Text) : StaysOpen a s := by
  rintro u r rfl hnone
  obtain ⟨body, behind, hgroup⟩ := group?_of_closed h
  exact absurd (hnone.symm.trans hgroup) (by simp)

/-! ## The sweep -/

/-- No brace is open behind a text that closes its braces. -/
theorem stackBehind_closed (h : BracesClosed a) (i : Nat) : Braces.stackBehind i [] a = [] := by
  -- on the length: behind an opening brace the argument goes on behind its group
  induction hn : a.length using Nat.strongRecOn generalizing a i with
  | _ n ih =>
  subst hn
  cases a with
  | nil => rfl
  | cons c a =>
    have htail : BracesClosed a := bracesClosed_suffix (u := [c]) h
    have hshort : a.length < (c :: a).length := Nat.lt_succ_self _
    by_cases hopen : c = '\x7b'
    · subst hopen
      obtain ⟨body, behind, hgroup⟩ := group?_of_closed (u := []) h
      obtain ⟨rfl, hbody⟩ := group?_zero_iff.1 hgroup
      rw [Braces.stackBehind_open, Braces.stackBehind_append, Braces.stackBehind_balanced hbody,
        Braces.stackBehind_close, List.tail_cons]
      refine ih behind.length ?_ (bracesClosed_suffix (u := body ++ ['\x7d']) (by simpa using htail)) _ rfl
      rw [List.length_append, List.length_cons] at hshort
      omega
    by_cases hclose : c = '\x7d'
    · subst hclose
      rw [Braces.stackBehind_close]
      exact ih _ hshort htail _ rfl
    · rw [Braces.stackBehind_other hopen hclose]
      exact ih _ hshort htail _ rfl

/-- **The sweep splits** behind a text that closes its braces. -/
theorem endOf?_append (h : BracesClosed a) (b : Text) (i : Nat) :
    Braces.endOf? (a ++ b) i =
      if i < Text.byteSize a then Braces.endOf? a i
      else (Braces.endOf? b (i - Text.byteSize a)).map (· + Text.byteSize a) := by
  have hsweep : Braces.pairs 0 [] (a ++ b) =
      Braces.pairs 0 [] a ++ (Braces.pairs 0 [] b).map fun e => (e.1 + Text.byteSize a, e.2 + Text.byteSize a) := by
    rw [Braces.pairs_append, stackBehind_closed h, ← Braces.pairs_shift, List.map_nil]
  unfold Braces.endOf?
  rw [hsweep, List.find?_append, List.find?_map]
  split
  next hi =>
    have hbehind : (Braces.pairs 0 [] b).find? ((fun e => decide (e.1 = i)) ∘
        fun e => (e.1 + Text.byteSize a, e.2 + Text.byteSize a)) = none := by
      rw [List.find?_eq_none]
      intro e _
      simp only [Function.comp_apply, decide_eq_true_eq]
      omega
    rw [hbehind, Option.map_none, Option.or_none]
  next hi =>
    have hfront : (Braces.pairs 0 [] a).find? (fun e => decide (e.1 = i)) = none := by
      rw [List.find?_eq_none]
      intro e he
      have hlt := Braces.pairs_lt (by simp) he
      simp only [decide_eq_true_eq]
      omega
    have hsame : ((fun e : Nat × Nat => decide (e.1 = i)) ∘
        fun e : Nat × Nat => (e.1 + Text.byteSize a, e.2 + Text.byteSize a)) =
          fun e => decide (e.1 = i - Text.byteSize a) := by
      funext e
      simp only [Function.comp_apply, decide_eq_decide]
      omega
    rw [hfront, Option.none_or, hsame, Option.map_map, Option.map_map]
    rfl

/-! ## The rewriting -/

/-- The last character of a construct is a bracket or a brace. -/
theorem getLast?_text (b : BracketSpan) : b.text.getLast? = some ']' ∨ b.text.getLast? = some '\x7d' := by
  unfold BracketSpan.text BracketSpan.brackets
  cases hq : b.qualifier with
  | none =>
    left
    rw [BracketSpan.braces, List.append_nil, ← List.cons_append, ← List.append_assoc, List.getLast?_concat]
  | some body =>
    right
    rw [BracketSpan.braces, ← List.cons_append, ← List.append_assoc, ← List.cons_append, ← List.append_assoc,
      List.getLast?_concat]

/-- At the end of a line stands its newline, as a piece of its own. -/
theorem last_eq_newline (hread : bracketPieces a = ps ++ [last]) (hline : a.getLast? = some '\n') :
    last = .char '\n' := by
  have hlast : last.written.getLast? = some '\n' := by
    have hwritten := written_bracketPieces a
    rw [hread, writtenPieces_concat] at hwritten
    rw [← hwritten, List.getLast?_append_of_ne_nil _ (written_ne_nil last)] at hline
    exact hline
  have hfront := frontPiece_last hread
  cases last with
  | char c => exact congrArg _ (Option.some.inj hlast)
  | bare c =>
    obtain rfl : c = '\n' := Option.some.inj hlast
    cases hfront with
    | bare hstarts _ => exact absurd hstarts (by decide)
  | literal b =>
    rw [BracketPiece.written, List.getLast?_cons_of_ne_nil (text_ne_nil b)] at hlast
    rcases getLast?_text b with h | h <;> exact absurd (h.symm.trans hlast) (by decide)
  | construct b =>
    rcases getLast?_text b with h | h <;> exact absurd (h.symm.trans hlast) (by decide)

/-- The pieces of a text that is cut behind a newline. -/
theorem bracketPieces_append (hclosed : BracesClosed a) (hline : a.getLast? = some '\n') (b : Text) :
    bracketPieces (a ++ b) = bracketPieces a ++ bracketPieces b := by
  rcases List.eq_nil_or_concat' (bracketPieces a) with hnil | ⟨ps, last, hread⟩
  · have hempty := written_bracketPieces a
    rw [hnil] at hempty
    rw [← hempty] at hline
    exact absurd hline (by decide)
  · obtain rfl := last_eq_newline hread hline
    have hstop : HasStop (BracketPiece.char '\n').written := ⟨'\n', List.mem_singleton.2 rfl, Or.inr rfl⟩
    have hcopied : FrontPiece ('\n' :: b) (.char '\n') b :=
      .char (match?_of_not_starts rfl) fun h => absurd h (by decide)
    rw [bracketPieces_append_last hread hstop (staysOpen_of_closed hclosed b), hread, List.append_assoc]
    exact congrArg _ (bracketPieces_front hcopied)

/-- **Rewriting is local.** Behind a newline at which no brace is open a text can be
cut: its parts are rewritten each on their own, and the braces of each are paired as
if the other part were not there. -/
theorem rewriting_local (hclosed : BracesClosed a) (hline : a.getLast? = some '\n') (b : Text) :
    rewriteBrackets (a ++ b) = rewriteBrackets a ++ rewriteBrackets b ∧
      ∀ i, Braces.endOf? (a ++ b) i =
        if i < Text.byteSize a then Braces.endOf? a i
        else (Braces.endOf? b (i - Text.byteSize a)).map (· + Text.byteSize a) := by
  refine ⟨?_, endOf?_append hclosed b⟩
  rw [rewriteBrackets_eq_shown, rewriteBrackets_eq_shown, rewriteBrackets_eq_shown,
    bracketPieces_append hclosed hline, List.flatMap_append]

end

/-- A cut behind a stray closing brace, a closed qualifier and an open bracket, and in
front of a closing bracket and an open brace. -/
theorem rewriting_local_cut :
    BracesClosed "\\[ \x7d [a]\x7b.x :y=\"\x7b z \x7d\"\x7d [b\n" ∧
      ("\\[ \x7d [a]\x7b.x :y=\"\x7b z \x7d\"\x7d [b\n" : Text).getLast? = some '\n' ∧
      rewriteBrackets ("\\[ \x7d [a]\x7b.x :y=\"\x7b z \x7d\"\x7d [b\n" ++ "c]\x7b.d\x7d [e]\x7b.f :[g]") =
        "[ \x7d <span class=\"x\" :y=\"\x7b z \x7d\">a</span> [b\n" ++
          "c]\x7b.d\x7d [e]\x7b.f \x7b\x7b g \x7d\x7d" := by
  have hclosed : BracesClosed "\\[ \x7d [a]\x7b.x :y=\"\x7b z \x7d\"\x7d [b\n" := by decide +kernel
  have hline : ("\\[ \x7d [a]\x7b.x :y=\"\x7b z \x7d\"\x7d [b\n" : Text).getLast? = some '\n' := by decide +kernel
  refine ⟨hclosed, hline, (rewriting_local hclosed hline _).1.trans ?_⟩
  decide +kernel

end Docweave
