import Docweave.Proofs.TextLaws
import Docweave.Tree.Brackets

/-!
# Groups of braces

Three scans look for the partner of a brace. `group?` reads on from an opening
brace, `Braces.pairs` sweeps over the whole text with a stack, and
`Braces.splitTrailing?` walks back from the end of a line. All of them are told
here by counting: `Within d` says of a text that at no place of it more than `d`
groups have been closed beyond those that it has opened itself.

> `group?_eq_some_iff`, `group?_eq_none_iff`: a group ends at the first place
> where one more is closed than has been opened, and at none if there is none.

> `splitTrailing?_eq_some`: the group at the end of a line is balanced, with
> nothing but gaps behind it.

> `endOf?_opening`: the sweep pairs an opening brace with the end of its group,
> whatever stands in front of it.
-/

namespace Docweave

open BracketSpan (group?)

/-- At no place of a text have more than `d` groups been closed beyond those that
it has opened. -/
def Within (d : Nat) (t : Text) : Prop := ∀ p s, t = p ++ s → p.count '\x7d' ≤ p.count '\x7b' + d

/-- A text closes all groups that it opens, and no other. -/
structure Balanced (t : Text) : Prop where
  within : Within 0 t
  total : t.count '\x7d' = t.count '\x7b'

section

variable {c : Char} {d : Nat} {s t a r : Text}

/-! ## Counting -/

theorem within_nil : Within d [] := by
  intro p s h
  rw [(List.append_eq_nil_iff.1 h.symm).1]
  exact Nat.zero_le _

theorem within_cons_iff :
    Within d (c :: t) ↔ ∀ p s, t = p ++ s → (c :: p).count '\x7d' ≤ (c :: p).count '\x7b' + d := by
  constructor
  · intro h p s ht
    exact h (c :: p) s (by rw [ht, List.cons_append])
  · intro h p s ht
    cases p with
    | nil => exact Nat.zero_le _
    | cons x p =>
      obtain ⟨rfl, htail⟩ := List.cons.inj ht
      exact h p s htail

theorem within_open : Within d ('\x7b' :: t) ↔ Within (d + 1) t := by
  rw [within_cons_iff]
  refine forall₃_congr fun p s _ => ?_
  rw [List.count_cons_of_ne (by decide), List.count_cons_self]
  omega

theorem within_close_succ : Within (d + 1) ('\x7d' :: t) ↔ Within d t := by
  rw [within_cons_iff]
  refine forall₃_congr fun p s _ => ?_
  rw [List.count_cons_self, List.count_cons_of_ne (by decide)]
  omega

theorem not_within_close : ¬ Within 0 ('\x7d' :: t) := fun h =>
  absurd (h ['\x7d'] t rfl) (by decide)

theorem within_other (hopen : c ≠ '\x7b') (hclose : c ≠ '\x7d') : Within d (c :: t) ↔ Within d t := by
  rw [within_cons_iff]
  refine forall₃_congr fun p s _ => ?_
  rw [List.count_cons_of_ne hclose, List.count_cons_of_ne hopen]

/-- A part in front stays within, and what is behind it goes on from its count. -/
theorem within_append (hs : Within d s) :
    Within d (s ++ t) ↔ ∀ p u, t = p ++ u → (s ++ p).count '\x7d' ≤ (s ++ p).count '\x7b' + d := by
  constructor
  · intro h p u ht
    exact h (s ++ p) u (by rw [ht, List.append_assoc])
  · intro h p u hsplit
    rcases List.append_eq_append_iff.1 hsplit with ⟨w, rfl, hw⟩ | ⟨w, rfl, -⟩
    · exact h w u hw
    · exact hs p w rfl

/-! ## Reading on from a brace -/

theorem group?_close_zero (t : Text) : group? 0 ('\x7d' :: t) = some ([], t) := rfl

theorem group?_close_succ (d : Nat) (t : Text) :
    group? (d + 1) ('\x7d' :: t) = (group? d t).map fun (b, r) => ('\x7d' :: b, r) := rfl

theorem group?_open (d : Nat) (t : Text) :
    group? d ('\x7b' :: t) = (group? (d + 1) t).map fun (b, r) => ('\x7b' :: b, r) := rfl

theorem group?_other (hopen : c ≠ '\x7b') (hclose : c ≠ '\x7d') (d : Nat) (t : Text) :
    group? d (c :: t) = (group? d t).map fun (b, r) => (c :: b, r) := by
  conv => lhs; unfold group?
  rw [if_neg hclose, if_neg hopen]

/-- **The end of a group** is the first place where one more is closed. -/
theorem group?_eq_some_iff :
    group? d t = some (a, r) ↔ t = a ++ '\x7d' :: r ∧ Within d a ∧ a.count '\x7d' = a.count '\x7b' + d := by
  induction t generalizing d a with
  | nil => simp [group?]
  | cons c t ih =>
    -- the group goes on behind the character, in `d'` open ones
    have behind : ∀ d', (∀ a', Within d (c :: a') ↔ Within d' a') →
        (∀ a', (c :: a').count '\x7d' = (c :: a').count '\x7b' + d ↔ a'.count '\x7d' = a'.count '\x7b' + d') →
        (c = '\x7d' → d ≠ 0) →
        ((group? d' t).map (fun (x : Text × Text) => (c :: x.1, x.2)) = some (a, r) ↔
          c :: t = a ++ '\x7d' :: r ∧ Within d a ∧ a.count '\x7d' = a.count '\x7b' + d) := by
      intro d' hwithin htotal hclose
      rw [Option.map_eq_some_iff]
      constructor
      · rintro ⟨⟨a', r'⟩, hrest, heq⟩
        obtain ⟨rfl, rfl⟩ := Prod.mk.inj heq
        obtain ⟨rfl, ha, hcount⟩ := ih.1 hrest
        exact ⟨rfl, (hwithin a').2 ha, (htotal a').2 hcount⟩
      · rintro ⟨ht, ha, hcount⟩
        cases a with
        | nil =>
          obtain ⟨rfl, -⟩ := List.cons.inj ht
          exact absurd hcount.symm (by simpa using hclose rfl)
        | cons x a =>
          obtain ⟨rfl, rfl⟩ := List.cons.inj ht
          exact ⟨(a, r), ih.2 ⟨rfl, (hwithin a).1 ha, (htotal a).1 hcount⟩, rfl⟩
    by_cases hclose : c = '\x7d'
    · subst hclose
      cases d with
      | zero =>
        rw [group?_close_zero]
        constructor
        · intro h
          obtain ⟨rfl, rfl⟩ := Prod.mk.inj (Option.some.inj h)
          exact ⟨rfl, within_nil, rfl⟩
        · rintro ⟨ht, ha, -⟩
          cases a with
          | nil =>
            obtain ⟨-, rfl⟩ := List.cons.inj ht
            rfl
          | cons x a =>
            obtain ⟨rfl, -⟩ := List.cons.inj ht
            exact absurd ha not_within_close
      | succ d =>
        rw [group?_close_succ]
        refine behind d (fun a' => within_close_succ) (fun a' => ?_) (fun _ => Nat.succ_ne_zero d)
        rw [List.count_cons_self, List.count_cons_of_ne (by decide)]
        omega
    by_cases hopen : c = '\x7b'
    · subst hopen
      rw [group?_open]
      refine behind (d + 1) (fun a' => within_open) (fun a' => ?_) (fun h => absurd h (by decide))
      rw [List.count_cons_of_ne (by decide), List.count_cons_self]
      omega
    · rw [group?_other hopen hclose]
      refine behind d (fun a' => within_other hopen hclose) (fun a' => ?_) (fun h => absurd h hclose)
      rw [List.count_cons_of_ne hclose, List.count_cons_of_ne hopen]

/-- **A group without an end** never closes one more than it opens. -/
theorem group?_eq_none_iff : group? d t = none ↔ Within d t := by
  induction t generalizing d with
  | nil => simp [group?, within_nil]
  | cons c t ih =>
    by_cases hclose : c = '\x7d'
    · subst hclose
      cases d with
      | zero => simp [group?_close_zero, not_within_close]
      | succ d => rw [group?_close_succ, Option.map_eq_none_iff, ih, within_close_succ]
    by_cases hopen : c = '\x7b'
    · subst hopen
      rw [group?_open, Option.map_eq_none_iff, ih, within_open]
    · rw [group?_other hopen hclose, Option.map_eq_none_iff, ih, within_other hopen hclose]

/-- The group that a brace opens has a balanced body. -/
theorem group?_zero_iff : group? 0 t = some (a, r) ↔ t = a ++ '\x7d' :: r ∧ Balanced a := by
  rw [group?_eq_some_iff]
  exact and_congr_right fun _ => ⟨fun h => ⟨h.1, h.2⟩, fun h => ⟨h.within, h.total⟩⟩

/-- More text behind a group changes nothing in it. -/
theorem group?_append (h : group? d t = some (a, r)) (s : Text) : group? d (t ++ s) = some (a, r ++ s) := by
  obtain ⟨rfl, hrest⟩ := group?_eq_some_iff.1 h
  exact group?_eq_some_iff.2 ⟨by rw [List.append_assoc, List.cons_append], hrest⟩

/-- A balanced group behind a text, and no closing brace behind that, closes
nothing in the text. -/
theorem within_append_group (ht : Within d t) (hbody : Balanced a) (hs : '\x7d' ∉ s) :
    Within d (t ++ '\x7b' :: (a ++ '\x7d' :: s)) := by
  rw [within_append ht]
  intro p u hp
  have htotal := ht t [] (List.append_nil t).symm
  have hcount := hbody.total
  rw [List.count_append, List.count_append]
  cases p with
  | nil =>
    rw [List.count_nil, List.count_nil]
    omega
  | cons x p =>
    obtain ⟨rfl, htail⟩ := List.cons.inj hp
    rw [List.count_cons_of_ne (by decide), List.count_cons_self]
    rcases List.append_eq_append_iff.1 htail with ⟨w, rfl, hw⟩ | ⟨w, rfl, -⟩
    · -- the part reaches behind the body
      rw [List.count_append, List.count_append]
      cases w with
      | nil =>
        rw [List.count_nil, List.count_nil]
        omega
      | cons y w =>
        obtain ⟨rfl, rfl⟩ := List.cons.inj hw
        have hnone : w.count '\x7d' = 0 := List.count_eq_zero.2 fun h => hs (List.mem_append_left _ h)
        rw [List.count_cons_self, List.count_cons_of_ne (by decide), hnone]
        omega
    · have hin := hbody.within p w rfl
      omega

end

/-! ## Walking back from the end -/

namespace Braces

section

variable {c : Char} {d i j n : Nat} {st l : List Nat} {e : Nat × Nat} {s t a b r acc front body : Text}

/-- One more character keeps a text within when it does so as a whole. -/
theorem within_concat (h : Within 0 t) (hc : (t ++ [c]).count '\x7d' ≤ (t ++ [c]).count '\x7b') :
    Within 0 (t ++ [c]) := by
  rw [within_append h]
  intro p u hp
  cases p with
  | nil => simpa using h t [] (List.append_nil t).symm
  | cons x p =>
    obtain ⟨rfl, hnil⟩ := List.cons.inj hp
    rw [(List.append_eq_nil_iff.1 hnil.symm).1]
    exact hc

/-- What has been walked over, up to the brace that opens the outermost group. -/
theorem openerBack?_eq_some (h : openerBack? (d + 1) acc t = some (front, body)) :
    ∃ mid, t.reverse = front.reverse ++ '\x7b' :: mid ∧ body = mid ++ acc ∧ Within 0 mid ∧
      mid.count '\x7b' = mid.count '\x7d' + d := by
  induction t generalizing d acc with
  | nil => exact absurd h (by simp [openerBack?])
  | cons c t ih =>
    -- the walk goes on in front of the character, with `d'` groups open besides the outermost
    have goesOn : ∀ d', openerBack? (d' + 1) (c :: acc) t = some (front, body) →
        (∀ mid : Text, mid.count '\x7b' = mid.count '\x7d' + d' →
          (mid ++ [c]).count '\x7b' = (mid ++ [c]).count '\x7d' + d) →
        ∃ mid, (c :: t).reverse = front.reverse ++ '\x7b' :: mid ∧ body = mid ++ acc ∧ Within 0 mid ∧
          mid.count '\x7b' = mid.count '\x7d' + d := by
      intro d' hback hcount
      obtain ⟨mid, ht, hbody, hwithin, hmid⟩ := ih hback
      have htotal := hcount mid hmid
      refine ⟨mid ++ [c], ?_, ?_, within_concat hwithin (by omega), htotal⟩
      · rw [List.reverse_cons, ht, List.append_assoc, List.cons_append]
      · rw [hbody, List.append_assoc, List.singleton_append]
    unfold openerBack? at h
    split at h
    next hc =>
      refine goesOn (d + 1) h fun mid hmid => ?_
      have hcount : (['\x7d'] : Text).count '\x7b' = 0 ∧ (['\x7d'] : Text).count '\x7d' = 1 := ⟨rfl, rfl⟩
      rw [hc, List.count_append, List.count_append]
      omega
    next hclose =>
      split at h
      next hc =>
        cases d with
        | zero =>
          obtain ⟨rfl, rfl⟩ := Prod.mk.inj (Option.some.inj h)
          exact ⟨[], by rw [List.reverse_cons, hc], rfl, within_nil, rfl⟩
        | succ d =>
          refine goesOn d h fun mid hmid => ?_
          have hcount : (['\x7b'] : Text).count '\x7b' = 1 ∧ (['\x7b'] : Text).count '\x7d' = 0 := ⟨rfl, rfl⟩
          rw [hc, List.count_append, List.count_append]
          omega
      next hopen =>
        refine goesOn d h fun mid hmid => ?_
        rw [List.count_append, List.count_append, List.count_cons_of_ne hclose, List.count_cons_of_ne hopen]
        exact hmid

/-- **The group at the end of a line** is balanced, and only gaps stand behind it. -/
theorem splitTrailing?_eq_some {line text : Text} (h : splitTrailing? line = some (text, body)) :
    ∃ gaps, line = text ++ '\x7b' :: (body ++ '\x7d' :: gaps) ∧ (∀ c ∈ gaps, Text.isGap c = true) ∧
      Balanced body := by
  unfold splitTrailing? at h
  split at h
  next t hdrop =>
    obtain ⟨⟨front, b⟩, hback, heq⟩ := Option.map_eq_some_iff.1 h
    obtain ⟨rfl, rfl⟩ := Prod.mk.inj heq
    obtain ⟨mid, ht, hbody, hwithin, hcount⟩ := openerBack?_eq_some hback
    obtain rfl : b = mid := hbody.trans (List.append_nil mid)
    refine ⟨(line.reverse.takeWhile Text.isGap).reverse, ?_, ?_, hwithin, hcount.symm⟩
    · have hline : line.reverse = line.reverse.takeWhile Text.isGap ++ '\x7d' :: t := by
        rw [← hdrop, List.takeWhile_append_dropWhile]
      calc line = (line.reverse.takeWhile Text.isGap ++ '\x7d' :: t).reverse := by
            rw [← hline, List.reverse_reverse]
        _ = t.reverse ++ '\x7d' :: (line.reverse.takeWhile Text.isGap).reverse := by simp
        _ = front.reverse ++ '\x7b' :: (b ++ '\x7d' :: (line.reverse.takeWhile Text.isGap).reverse) := by
            rw [ht, List.append_assoc, List.cons_append]
    · intro c hc
      exact List.all_eq_true.1 List.all_takeWhile c (List.mem_reverse.1 hc)
  next => exact absurd h (by simp)

theorem openerBack?_close (d : Nat) (acc t : Text) :
    openerBack? d acc ('\x7d' :: t) = openerBack? (d + 1) ('\x7d' :: acc) t := rfl

theorem openerBack?_open (d : Nat) (acc t : Text) :
    openerBack? (d + 2) acc ('\x7b' :: t) = openerBack? (d + 1) ('\x7b' :: acc) t := rfl

theorem openerBack?_other (hopen : c ≠ '\x7b') (hclose : c ≠ '\x7d') (d : Nat) (acc t : Text) :
    openerBack? d acc (c :: t) = openerBack? d (c :: acc) t := by
  rw [openerBack?.eq_def]
  exact (if_neg hclose).trans (if_neg hopen)

/-- A walk back over a part that opens `d` groups more than it closes stops at the brace
in front of it. -/
theorem openerBack?_of_within {back : Text} (hback : Within 0 back.reverse)
    (hcount : back.count '\x7b' = back.count '\x7d' + d) :
    openerBack? (d + 1) acc (back ++ '\x7b' :: front) = some (front, back.reverse ++ acc) := by
  induction back generalizing d acc with
  | nil =>
    obtain rfl : d = 0 := by simpa using hcount.symm
    rfl
  | cons c back ih =>
    rw [List.reverse_cons] at hback
    have hbefore : Within 0 back.reverse := fun p s h => hback p (s ++ [c]) (by rw [h, List.append_assoc])
    have htotal := hbefore back.reverse [] (List.append_nil _).symm
    rw [List.count_reverse, List.count_reverse] at htotal
    rw [List.cons_append, List.reverse_cons, List.append_assoc, List.singleton_append]
    by_cases hclose : c = '\x7d'
    · subst hclose
      rw [List.count_cons_self, List.count_cons_of_ne (by decide)] at hcount
      rw [openerBack?_close]
      exact ih hbefore (by omega)
    · by_cases hopen : c = '\x7b'
      · subst hopen
        rw [List.count_cons_self, List.count_cons_of_ne hclose] at hcount
        -- the outermost group is not the one that this brace opens, or the part in front closes too much
        cases d with
        | zero => omega
        | succ d =>
          rw [openerBack?_open]
          exact ih hbefore (by omega)
      · rw [List.count_cons_of_ne hclose, List.count_cons_of_ne hopen] at hcount
        rw [openerBack?_other hopen hclose]
        exact ih hbefore hcount

theorem splitTrailing?_eq_some_iff {line text : Text} : splitTrailing? line = some (text, body) ↔
    ∃ gaps, line = text ++ '\x7b' :: (body ++ '\x7d' :: gaps) ∧ (∀ c ∈ gaps, Text.isGap c = true) ∧
      Balanced body := by
  constructor
  · exact splitTrailing?_eq_some
  · rintro ⟨gaps, rfl, hgaps, hbody⟩
    have hreverse : (text ++ '\x7b' :: (body ++ '\x7d' :: gaps)).reverse =
        gaps.reverse ++ '\x7d' :: (body.reverse ++ '\x7b' :: text.reverse) := by simp
    have hgaps' : ∀ c ∈ gaps.reverse, Text.isGap c = true := fun c hc => hgaps c (List.mem_reverse.1 hc)
    have hwithin : Within 0 body.reverse.reverse := by rw [List.reverse_reverse]; exact hbody.within
    have hcount : body.reverse.count '\x7b' = body.reverse.count '\x7d' + 0 := by
      rw [List.count_reverse, List.count_reverse]
      exact hbody.total.symm
    have hback : openerBack? 1 [] (body.reverse ++ '\x7b' :: text.reverse) =
        some (text.reverse, body.reverse.reverse ++ []) := openerBack?_of_within hwithin hcount
    rw [splitTrailing?, hreverse, List.dropWhile_append_of_pos hgaps', List.dropWhile_cons_of_neg (by decide)]
    simp only [hback, Option.map_some, List.reverse_reverse, List.append_nil]

/-! ## The sweep -/

/-- The offsets of the braces that are open behind a text, innermost first. -/
def stackBehind (i : Nat) (stack : List Nat) : Text → List Nat
  | [] => stack
  | c :: t =>
    if c = '\x7b' then stackBehind (i + c.utf8Size) (i :: stack) t
    else if c = '\x7d' then stackBehind (i + c.utf8Size) stack.tail t
    else stackBehind (i + c.utf8Size) stack t

theorem pairs_open (i : Nat) (st : List Nat) (t : Text) :
    pairs i st ('\x7b' :: t) = pairs (i + 1) (i :: st) t := rfl

theorem pairs_close_nil (i : Nat) (t : Text) : pairs i [] ('\x7d' :: t) = pairs (i + 1) [] t := rfl

theorem pairs_close_cons (i o : Nat) (st : List Nat) (t : Text) :
    pairs i (o :: st) ('\x7d' :: t) = (o, i + 1) :: pairs (i + 1) st t := rfl

theorem pairs_other (hopen : c ≠ '\x7b') (hclose : c ≠ '\x7d') (i : Nat) (st : List Nat) (t : Text) :
    pairs i st (c :: t) = pairs (i + c.utf8Size) st t := by
  rw [pairs.eq_def]
  simp only
  rw [if_neg hopen, if_neg hclose]

theorem stackBehind_open (i : Nat) (st : List Nat) (t : Text) :
    stackBehind i st ('\x7b' :: t) = stackBehind (i + 1) (i :: st) t := rfl

theorem stackBehind_close (i : Nat) (st : List Nat) (t : Text) :
    stackBehind i st ('\x7d' :: t) = stackBehind (i + 1) st.tail t := rfl

theorem stackBehind_other (hopen : c ≠ '\x7b') (hclose : c ≠ '\x7d') (i : Nat) (st : List Nat) (t : Text) :
    stackBehind i st (c :: t) = stackBehind (i + c.utf8Size) st t := by
  rw [stackBehind, if_neg hopen, if_neg hclose]

/-- The sweep goes on behind a text with the braces that are open there. -/
theorem pairs_append (i : Nat) (st : List Nat) (a b : Text) :
    pairs i st (a ++ b) = pairs i st a ++ pairs (i + Text.byteSize a) (stackBehind i st a) b := by
  induction a generalizing i st with
  | nil => rfl
  | cons c a ih =>
    rw [List.cons_append, Text.byteSize_cons, ← Nat.add_assoc]
    by_cases hopen : c = '\x7b'
    · subst hopen
      rw [pairs_open, pairs_open, stackBehind_open]
      exact ih (i + 1) (i :: st)
    by_cases hclose : c = '\x7d'
    · subst hclose
      rw [stackBehind_close]
      cases st with
      | nil =>
        rw [pairs_close_nil, pairs_close_nil]
        exact ih (i + 1) []
      | cons o st =>
        rw [pairs_close_cons, pairs_close_cons, List.cons_append]
        exact congrArg _ (ih (i + 1) st)
    · rw [pairs_other hopen hclose, pairs_other hopen hclose, stackBehind_other hopen hclose, ih]

theorem stackBehind_append (i : Nat) (st : List Nat) (a b : Text) :
    stackBehind i st (a ++ b) = stackBehind (i + Text.byteSize a) (stackBehind i st a) b := by
  induction a generalizing i st with
  | nil => rfl
  | cons c a ih =>
    rw [List.cons_append, Text.byteSize_cons, ← Nat.add_assoc]
    by_cases hopen : c = '\x7b'
    · subst hopen
      exact ih (i + 1) (i :: st)
    by_cases hclose : c = '\x7d'
    · subst hclose
      exact ih (i + 1) st.tail
    · rw [stackBehind_other hopen hclose, stackBehind_other hopen hclose, ih]

/-- A text that closes at most the groups `l` leaves the stack below them. -/
theorem stackBehind_of_within (h : Within l.length t) (i : Nat) (st : List Nat) :
    ∃ es, stackBehind i (l ++ st) t = es ++ st ∧ es.length + t.count '\x7d' = l.length + t.count '\x7b' := by
  induction t generalizing i l with
  | nil => exact ⟨l, rfl, rfl⟩
  | cons c t ih =>
    by_cases hopen : c = '\x7b'
    · subst hopen
      obtain ⟨es, hstack, hlen⟩ := ih (l := i :: l) (within_open.1 h) (i + 1)
      refine ⟨es, hstack, ?_⟩
      rw [List.count_cons_of_ne (by decide), List.count_cons_self, hlen, List.length_cons]
      omega
    by_cases hclose : c = '\x7d'
    · subst hclose
      cases l with
      | nil => exact absurd h not_within_close
      | cons o l =>
        obtain ⟨es, hstack, hlen⟩ := ih (l := l) (within_close_succ.1 h) (i + 1)
        refine ⟨es, hstack, ?_⟩
        rw [List.count_cons_self, List.count_cons_of_ne (by decide), List.length_cons]
        omega
    · obtain ⟨es, hstack, hlen⟩ := ih (l := l) ((within_other hopen hclose).1 h) (i + c.utf8Size)
      refine ⟨es, by rw [stackBehind_other hopen hclose, hstack], ?_⟩
      rwa [List.count_cons_of_ne hclose, List.count_cons_of_ne hopen]

/-- A balanced text leaves the stack as it is. -/
theorem stackBehind_balanced (h : Balanced t) (i : Nat) (st : List Nat) : stackBehind i st t = st := by
  obtain ⟨es, hstack, hlen⟩ := stackBehind_of_within (l := []) h.within i st
  have hnil : es = [] := List.length_eq_zero_iff.1 (by
    have htotal := h.total
    rw [List.length_nil] at hlen
    omega)
  rw [hnil] at hstack
  exact hstack

/-- A text that closes at most the groups `l` pairs no brace below them. -/
theorem pairs_of_within (h : Within l.length t) (he : e ∈ pairs i (l ++ st) t) :
    e.1 ∈ l ∨ i ≤ e.1 := by
  induction t generalizing i l with
  | nil => exact absurd he (by simp [pairs])
  | cons c t ih =>
    by_cases hopen : c = '\x7b'
    · subst hopen
      rcases ih (l := i :: l) (within_open.1 h) he with hmem | hle
      · rcases List.mem_cons.1 hmem with heq | hl
        · exact Or.inr (Nat.le_of_eq heq.symm)
        · exact Or.inl hl
      · exact Or.inr (by omega)
    by_cases hclose : c = '\x7d'
    · subst hclose
      cases l with
      | nil => exact absurd h not_within_close
      | cons o l =>
        rcases List.mem_cons.1 he with rfl | he
        · exact Or.inl (List.mem_cons_self ..)
        · rcases ih (l := l) (within_close_succ.1 h) he with hl | hle
          · exact Or.inl (List.mem_cons_of_mem _ hl)
          · exact Or.inr (by omega)
    · rw [pairs_other hopen hclose] at he
      rcases ih ((within_other hopen hclose).1 h) he with hl | hle
      · exact Or.inl hl
      · exact Or.inr (by omega)

/-- The braces that are paired are those of the stack and those of the text. -/
theorem pairs_lt (hst : ∀ o ∈ st, o < i) (he : e ∈ pairs i st t) : e.1 < i + Text.byteSize t := by
  induction t generalizing i st with
  | nil => exact absurd he (by simp [pairs])
  | cons c t ih =>
    have hsize := c.utf8Size_pos
    have hlater : ∀ o ∈ st, o < i + c.utf8Size := fun o ho => Nat.lt_add_right _ (hst o ho)
    rw [Text.byteSize_cons, ← Nat.add_assoc]
    by_cases hopen : c = '\x7b'
    · subst hopen
      exact ih (List.forall_mem_cons.2 ⟨Nat.lt_succ_self i, hlater⟩) he
    by_cases hclose : c = '\x7d'
    · subst hclose
      cases st with
      | nil => exact ih (by simp) he
      | cons o st =>
        obtain ⟨ho, hst⟩ := List.forall_mem_cons.1 hlater
        rcases List.mem_cons.1 he with rfl | he
        · exact Nat.lt_add_right _ ho
        · exact ih hst he
    · rw [pairs_other hopen hclose] at he
      exact ih hlater he

/-- The sweep of a text further on pairs the same braces, further on. -/
theorem pairs_shift (n i : Nat) (st : List Nat) (t : Text) :
    pairs (i + n) (st.map (· + n)) t = (pairs i st t).map fun e => (e.1 + n, e.2 + n) := by
  induction t generalizing i st with
  | nil => rfl
  | cons c t ih =>
    by_cases hopen : c = '\x7b'
    · subst hopen
      rw [pairs_open, pairs_open, ← ih, Nat.add_right_comm]
      rfl
    by_cases hclose : c = '\x7d'
    · subst hclose
      cases st with
      | nil =>
        rw [List.map_nil, pairs_close_nil, pairs_close_nil, ← ih, Nat.add_right_comm]
        rfl
      | cons o st =>
        rw [List.map_cons, pairs_close_cons, pairs_close_cons, List.map_cons, ← ih, Nat.add_right_comm]
    · rw [pairs_other hopen hclose, pairs_other hopen hclose, ← ih, Nat.add_right_comm]

/-- **The sweep finds the group of a brace**, whatever stands in front of it. -/
theorem endOf?_opening (s t : Text) :
    endOf? (s ++ '\x7b' :: t) (Text.byteSize s) =
      (group? 0 t).map fun (body, _) => Text.byteSize s + Text.byteSize body + 2 := by
  have hfront : (pairs 0 [] s).find? (·.1 = Text.byteSize s) = none := by
    rw [List.find?_eq_none]
    intro e he
    have hlt := pairs_lt (by simp) he
    simpa using by omega
  rw [endOf?, pairs_append, pairs_open, List.find?_append, hfront, Option.none_or, Nat.zero_add]
  cases hgroup : group? 0 t with
  | none =>
    have hwithin := group?_eq_none_iff.1 hgroup
    have hnone : (pairs (Text.byteSize s + 1) (Text.byteSize s :: stackBehind 0 [] s) t).find?
        (·.1 = Text.byteSize s) = none := by
      rw [List.find?_eq_none]
      intro e he
      rcases pairs_of_within (l := []) hwithin he with hmem | hle
      · exact absurd hmem (by simp)
      · simpa using by omega
    rw [hnone]
    rfl
  | some found =>
    obtain ⟨body, r⟩ := found
    obtain ⟨rfl, hbody⟩ := group?_zero_iff.1 hgroup
    have hnone : (pairs (Text.byteSize s + 1) (Text.byteSize s :: stackBehind 0 [] s) body).find?
        (·.1 = Text.byteSize s) = none := by
      rw [List.find?_eq_none]
      intro e he
      rcases pairs_of_within (l := []) hbody.within he with hmem | hle
      · exact absurd hmem (by simp)
      · simpa using by omega
    rw [pairs_append, stackBehind_balanced hbody, pairs_close_cons, List.find?_append, hnone, Option.none_or,
      List.find?_cons_of_pos (by simp)]
    simp only [Option.map_some]
    congr 1
    omega

end

end Braces

end Docweave
