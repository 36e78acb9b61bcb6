import Docweave.Token.Stream
import Docweave.Tree.Brackets

/-!
# Backslashes in front of constructs

A backslash in front of punctuation is resolved in two turns: `unescapeText`
resolves all pairs but those that guard a bracket, and `rewriteBrackets` looks
at what is left. The second turn does not see what the first has resolved: a
backslash that stands for itself looks like a guard when a construct follows it.

> `rewriteBrackets_copy`, `rewriteBrackets_escaped`, `rewriteBrackets_lone`: what
> one step of the second turn does with a character, with a construct behind a
> backslash, and with a bracket there that starts none.

> `unescapeText_pairs`, `rewriteBrackets_backslashes`: what the two turns make of
> a run of backslashes.

> `backslashes_in_front_of_construct`: what both together make of a run with a
> construct behind it, for every length of the run.
-/

namespace Docweave

open BracketSpan (starts opening? content? group? match? withQualifier)

/-! ## One step of the rewriting -/

section

variable {c : Char} {t rest : Text} {b : BracketSpan}

/-- A construct starts with its bracket or its colon. -/
theorem eq_of_starts (h : starts t = true) : ∃ r, t = '[' :: r ∨ t = ':' :: '[' :: r := by
  unfold starts at h
  split at h
  next r => exact ⟨r, Or.inl rfl⟩
  next r => exact ⟨r, Or.inr rfl⟩
  next => exact absurd h (by simp)

theorem opening?_eq_none_iff : opening? t = none ↔ starts t = false := by
  unfold opening? starts
  split
  next => simp
  next => simp
  next => split <;> simp_all

theorem match?_of_not_starts (h : starts t = false) : match? t = none := by
  rw [match?, opening?_eq_none_iff.2 h]

theorem starts_of_match? (h : match? t = some (b, rest)) : starts t = true := by
  cases hs : starts t with
  | true => rfl
  | false => exact absurd ((match?_of_not_starts hs).symm.trans h) (by simp)

/-- A character that neither starts a construct nor guards one is copied. -/
theorem rewriteBrackets_copy (hc : starts (c :: t) = false) (ht : c = '\\' → starts t = false) :
    rewriteBrackets (c :: t) = c :: rewriteBrackets t := by
  have hguard : ¬(decide (c = '\\') && starts t) = true := by
    rw [Bool.and_eq_true, decide_eq_true_eq]
    rintro ⟨hback, hstarts⟩
    rw [ht hback] at hstarts
    exact absurd hstarts (by simp)
  rw [rewriteBrackets, if_neg hguard]
  split
  next b rest hfound => exact absurd ((match?_of_not_starts hc).symm.trans hfound) (by simp)
  next => rfl

/-- A construct behind a backslash is written out. -/
theorem rewriteBrackets_escaped (h : match? t = some (b, rest)) :
    rewriteBrackets ('\\' :: t) = Text.escapeHtml (t.take (t.length - rest.length)) ++ rewriteBrackets rest := by
  rw [rewriteBrackets, if_pos (by simp [starts_of_match? h])]
  split
  next b' rest' hfound =>
    obtain ⟨rfl, rfl⟩ : b = b' ∧ rest = rest' := by simpa using h.symm.trans hfound
    rfl
  next hnone => exact absurd (h.symm.trans hnone) (by simp)

/-- A bracket behind a backslash that is no construct loses the backslash. -/
theorem rewriteBrackets_lone (h : match? ('[' :: t) = none) :
    rewriteBrackets ('\\' :: '[' :: t) = '[' :: rewriteBrackets t := by
  rw [rewriteBrackets, if_pos (by simp [starts])]
  split
  next b rest hfound => exact absurd (h.symm.trans hfound) (by simp)
  next => rfl

end

/-! ## Runs of backslashes -/

section

variable {c t : Text} {b : BracketSpan}

/-- Without a backslash nothing is escaped. -/
theorem unescapeText_of_not_mem (h : '\\' ∉ t) : unescapeText t = t := by
  fun_induction unescapeText t with
  | case1 => rfl
  | case2 | case3 | case4 => exact absurd (List.mem_cons_self ..) h
  | case5 c t _ ih => rw [ih fun hmem => h (List.mem_cons_of_mem _ hmem)]

/-- Two backslashes are one. -/
theorem unescapeText_pairs (k : Nat) (t : Text) :
    unescapeText (List.replicate (2 * k) '\\' ++ t) = List.replicate k '\\' ++ unescapeText t := by
  induction k with
  | zero => rfl
  | succ k ih =>
    rw [Nat.mul_succ, List.replicate_succ, List.replicate_succ, List.replicate_succ, List.cons_append,
      List.cons_append, List.cons_append, ← ih, unescapeText, if_neg (by decide), if_neg (by simp)]

/-- A backslash that guards a construct stays. -/
theorem unescapeText_guard (h : starts t = true) : unescapeText ('\\' :: t) = '\\' :: unescapeText t := by
  obtain ⟨r, rfl | rfl⟩ := eq_of_starts h
  · rw [unescapeText, if_neg (by decide), if_pos (by simp)]
  · rw [unescapeText, if_neg (by decide), if_pos (by simp)]

/-- Backslashes in front of one more are copied. -/
theorem rewriteBrackets_backslashes (k : Nat) (t : Text) :
    rewriteBrackets (List.replicate k '\\' ++ '\\' :: t) =
      List.replicate k '\\' ++ rewriteBrackets ('\\' :: t) := by
  induction k with
  | zero => rfl
  | succ k ih =>
    have hnext : starts (List.replicate k '\\' ++ '\\' :: t) = false := by
      cases k with
      | zero => rfl
      | succ k => rfl
    rw [List.replicate_succ, List.cons_append, List.cons_append,
      rewriteBrackets_copy rfl fun _ => hnext, ih]

/-- A whole text that is one construct is written out behind a backslash. -/
theorem rewriteBrackets_escaped_whole (h : match? c = some (b, [])) :
    rewriteBrackets ('\\' :: c) = Text.escapeHtml c := by
  rw [rewriteBrackets_escaped h, List.length_nil, Nat.sub_zero, List.take_length, rewriteBrackets,
    List.append_nil]

/-- What is written out of a construct does not start with a backslash. -/
theorem escapeHtml_ne_backslash (h : starts c = true) (t : Text) : Text.escapeHtml c ≠ '\\' :: t := by
  obtain ⟨r, rfl | rfl⟩ := eq_of_starts h
  · exact fun heq => absurd (List.cons.inj heq).1 (by decide)
  · exact fun heq => absurd (List.cons.inj heq).1 (by decide)

/-- At least one backslash: half of the others stay, and the construct is
written out. -/
theorem rewriteBrackets_behind_backslashes (hback : '\\' ∉ c) (hc : match? c = some (b, [])) (n : Nat) :
    rewriteBrackets (unescapeText (List.replicate (n + 1) '\\' ++ c)) =
      List.replicate (n / 2) '\\' ++ Text.escapeHtml c := by
  have hwhole := rewriteBrackets_escaped_whole hc
  have hguard : unescapeText ('\\' :: c) = '\\' :: c := by
    rw [unescapeText_guard (starts_of_match? hc), unescapeText_of_not_mem hback]
  obtain ⟨k, rfl | rfl⟩ : ∃ k, n = 2 * k ∨ n = 2 * k + 1 := ⟨n / 2, by omega⟩
  · -- the last backslash has no partner, and guards the construct
    have hrun : List.replicate (2 * k + 1) '\\' ++ c = List.replicate (2 * k) '\\' ++ '\\' :: c := by
      rw [List.replicate_succ', List.append_assoc, List.singleton_append]
    rw [hrun, unescapeText_pairs, hguard, rewriteBrackets_backslashes, hwhole]
    congr 2
    omega
  · -- the last pair leaves a backslash, which is taken for a guard
    have hrun : List.replicate (2 * k + 1 + 1) '\\' ++ c = List.replicate (2 * (k + 1)) '\\' ++ c := rfl
    rw [hrun, unescapeText_pairs, unescapeText_of_not_mem hback, List.replicate_succ', List.append_assoc,
      List.singleton_append, rewriteBrackets_backslashes, hwhole]
    congr 2
    omega

/-- **Backslashes in front of a construct.** An odd run writes the construct
out behind half of the others. An even run should leave half of itself in front
of the rewritten construct; it does so exactly when it is empty. A longer one
loses a backslash more, and writes the construct out as well. -/
theorem backslashes_in_front_of_construct (hback : '\\' ∉ c) (hc : match? c = some (b, [])) (n : Nat) :
    (n % 2 = 1 →
        rewriteBrackets (unescapeText (List.replicate n '\\' ++ c)) =
          List.replicate ((n - 1) / 2) '\\' ++ Text.escapeHtml c) ∧
      (n % 2 = 0 →
        (rewriteBrackets (unescapeText (List.replicate n '\\' ++ c)) =
            List.replicate (n / 2) '\\' ++ rewriteBrackets c ↔ n = 0) ∧
          (n ≠ 0 → rewriteBrackets (unescapeText (List.replicate n '\\' ++ c)) =
            List.replicate (n / 2 - 1) '\\' ++ Text.escapeHtml c)) := by
  cases n with
  | zero =>
    have hnone : rewriteBrackets (unescapeText (List.replicate 0 '\\' ++ c)) =
        List.replicate (0 / 2) '\\' ++ rewriteBrackets c :=
      congrArg rewriteBrackets (unescapeText_of_not_mem hback)
    refine ⟨fun hodd => absurd hodd (by decide), fun _ => ⟨⟨fun _ => rfl, fun _ => hnone⟩, ?_⟩⟩
    exact fun h => absurd rfl h
  | succ n =>
    have hrun := rewriteBrackets_behind_backslashes hback hc n
    refine ⟨fun _ => hrun, fun heven => ?_⟩
    have hhalf : (n + 1) / 2 = n / 2 + 1 := by omega
    rw [hrun, hhalf, Nat.add_sub_cancel]
    refine ⟨⟨fun heq => ?_, fun h => absurd h (Nat.succ_ne_zero n)⟩, fun _ => rfl⟩
    rw [List.replicate_succ', List.append_assoc] at heq
    exact absurd (List.append_cancel_left heq) (escapeHtml_ne_backslash (starts_of_match? hc) _)

end

/-- Three backslashes and two, in front of a construct with a sigil. -/
theorem backslashes_in_front_of_construct_sigil :
    '\\' ∉ (":[x]" : Text) ∧ match? (":[x]" : Text) = some (⟨true, "x", none⟩, []) ∧
      rewriteBrackets (unescapeText (List.replicate 3 '\\' ++ ":[x]")) =
        List.replicate 1 '\\' ++ Text.escapeHtml ":[x]" ∧
      rewriteBrackets (unescapeText (List.replicate 2 '\\' ++ ":[x]")) =
        List.replicate 0 '\\' ++ Text.escapeHtml ":[x]" := by
  have hback : '\\' ∉ (":[x]" : Text) := by decide +kernel
  have hc : match? (":[x]" : Text) = some (⟨true, "x", none⟩, []) := by decide +kernel
  have hrun := backslashes_in_front_of_construct hback hc
  exact ⟨hback, hc, (hrun 3).1 rfl, ((hrun 2).2 rfl).2 (by decide)⟩

/-- Two backslashes stand for one, and yet the construct behind them is not
rewritten. -/
theorem construct_lost_behind_backslash :
    '\\' ∉ ("[x]\x7b.a\x7d" : Text) ∧
      match? ("[x]\x7b.a\x7d" : Text) = some (⟨false, "x", some ".a"⟩, []) ∧
      rewriteBrackets (unescapeText ("\\\\" ++ "[x]\x7b.a\x7d")) = "[x]\x7b.a\x7d" ∧
      ("\\" ++ rewriteBrackets "[x]\x7b.a\x7d" : Text) = "\\<span class=\"a\">x</span>" := by
  decide +kernel

end Docweave
