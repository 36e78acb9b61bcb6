import Mathlib.Data.List.TakeWhile
import Docweave.Editor.Uri
import Docweave.Proofs.RootedPaths

/-!
# URIs of paths

The URI of a path is the path as it stands behind a scheme; nothing in it is escaped.
A URI is read with rules, however: control characters are refused, a hash sign and a
question mark end the path, and a percent sign starts an escape. So a path comes back
from its URI only if it has none of these characters. Otherwise the URI is refused, or
a shorter path comes back.

> `unescape_of_not_mem`, `length_unescape`: taking the escapes out of a text leaves it
> as it is, or makes it shorter.

> `toPath_ofPath_eq_ok`: how the URI of a path is read.

> `toPath_ofPath_iff`: which paths come back.
-/

namespace Docweave

open Docweave.Text

/-! ## Escapes -/

theorem Text.length_ofBytes_le (bs : List Nat) : (ofBytes bs).length ≤ bs.length := by
  have hwithin : ∀ n bs, (ofBytesWithin n bs).length ≤ n := by
    intro n bs
    fun_induction ofBytesWithin n bs with
    | case1 => exact Nat.le_refl 0
    | case2 => exact Nat.zero_le _
    | case3 n b r len more hgood first ih => exact Nat.succ_le_succ ih
    | case4 n b r len more hbad ih => exact Nat.succ_le_succ ih
  exact hwithin _ bs

namespace Uri

/-- A text without percent signs stays in front of what follows it. -/
theorem unescape_append {t : Text} (h : '%' ∉ t) (u : Text) :
    unescape (t ++ u) = (unescape u).map (t ++ ·) := by
  induction t with
  | nil =>
    rw [List.nil_append]
    cases unescape u with
    | error e => rfl
    | ok rest => rfl
  | cons c t ih =>
    obtain ⟨hc, ht⟩ := not_or.1 fun hmem => h (List.mem_cons.2 hmem)
    have hrest : unescapeFrom [] (t ++ u) = (unescape u).map (t ++ ·) := ih ht
    rw [List.cons_append, unescape, unescapeFrom.eq_def]
    simp only
    rw [if_neg fun heq => hc heq.symm, hrest]
    cases unescape u with
    | error e => rfl
    | ok rest => rfl

/-- Without a percent sign there are no escapes. -/
theorem unescape_of_not_mem {t : Text} (h : '%' ∉ t) : unescape t = .ok t := by
  have happend := unescape_append h []
  rwa [List.append_nil, show unescape [] = .ok [] from rfl, Except.map, List.append_nil] at happend

/-- An escape is longer than the byte that it stands for. -/
theorem length_unescapeFrom {pending : List Nat} {t u : Text} (h : unescapeFrom pending t = .ok u) :
    u.length ≤ pending.length + t.length ∧ ('%' ∈ t → u.length < pending.length + t.length) := by
  fun_induction unescapeFrom pending t generalizing u with
  | case1 pending =>
    have hbytes := length_ofBytes_le pending.reverse
    rw [List.length_reverse] at hbytes
    rw [← Except.ok.inj h]
    exact ⟨hbytes, fun hmem => absurd hmem (by simp)⟩
  | case2 pending a b r byte hbyte ih =>
    have hrest := (ih h).1
    simp only [List.length_cons] at hrest ⊢
    exact ⟨by omega, fun _ => by omega⟩
  | case3 => exact absurd h (by simp)
  | case4 => exact absurd h (by simp)
  | case5 pending c t hc e he ih => exact absurd h (by simp)
  | case6 pending c t hc rest hrest ih =>
    rw [← Except.ok.inj h]
    have hbytes := length_ofBytes_le pending.reverse
    obtain ⟨hle, hlt⟩ := ih hrest
    simp only [List.length_reverse] at hbytes
    simp only [List.length_append, List.length_cons, List.length_nil, Nat.zero_add] at hle hlt ⊢
    refine ⟨by omega, fun hmem => ?_⟩
    have := hlt ((List.mem_cons.1 hmem).resolve_left fun heq => hc heq.symm)
    omega

/-- Taking escapes out makes a text shorter. -/
theorem length_unescape {t u : Text} (h : unescape t = .ok u) :
    u.length ≤ t.length ∧ ('%' ∈ t → u.length < t.length) := by
  have hboth := length_unescapeFrom h
  simpa using hboth

/-! ## Reading the URI of a path -/

/-- The character is refused in a URI. -/
def isControl (c : Char) : Bool := c.toNat < 0x20 || c.toNat = 0x7F

/-- The character stands for itself in the URI of a path. -/
def isPlain (c : Char) : Bool := c ≠ '%' && c ≠ '?' && c ≠ '#' && !isControl c

/-- The part of a path that its URI names: a hash sign starts a fragment, a question mark
a query. -/
def namedPart (p : Text) : Text := (p.takeWhile (· ≠ '#')).takeWhile (· ≠ '?')

theorem splitScheme_file (p : Text) : splitScheme ("file://" ++ p) = .ok ("file", "//" ++ p) := rfl

/-- A URI of a path without a fragment names what stands in front of a question mark. -/
theorem parseBare_file (p : Text) :
    parseBare ("file://" ++ '/' :: p) =
      if p.any isControl then .error .controlCharacter
      else (unescape ('/' :: p.takeWhile (· ≠ '?'))).map (Parsed.mk "file") := by
  have hcontrol : (("file://" ++ '/' :: p : Text).any fun c => c.toNat < 0x20 || c.toNat = 0x7F) =
      p.any isControl := rfl
  have hauthority : checkAuthority [] = .ok () := rfl
  unfold parseBare
  rw [hcontrol, if_neg (by simp : ¬ ("file://" ++ '/' :: p : Text) = ['*']), splitScheme_file]
  split
  next => rfl
  next =>
    show (checkAuthority [] >>= fun _ => unescape ('/' :: p.takeWhile (· ≠ '?')) >>= fun path =>
      pure (Parsed.mk "file" path)) = _
    rw [hauthority]
    cases unescape ('/' :: p.takeWhile (· ≠ '?')) with
    | error c => rfl
    | ok path => rfl

/-- **The URI of a path** is read as the named part without escapes, unless there are control
characters in front of the fragment or the escapes of the fragment are bad. -/
theorem toPath_ofPath_eq_ok {p q : Text} (hp : Path.isRooted p = true) :
    toPath (ofPath p) = .ok q ↔
      (p.takeWhile (· ≠ '#')).any isControl = false ∧ unescape (namedPart p) = .ok q ∧
        (unescape (p.drop ((p.takeWhile (· ≠ '#')).length + 1))).isOk = true := by
  obtain ⟨r, rfl⟩ : ∃ r, p = '/' :: r := by
    cases p with
    | nil => exact absurd hp (by decide)
    | cons c r => exact ⟨r, by rw [show c = '/' by simpa [Path.isRooted] using hp]⟩
  have hbare : (ofPath ('/' :: r)).takeWhile (· ≠ '#') = "file://" ++ '/' :: r.takeWhile (· ≠ '#') := rfl
  have hbehind : (ofPath ('/' :: r)).drop (("file://" ++ '/' :: r.takeWhile (· ≠ '#') : Text).length + 1) =
      r.drop ((r.takeWhile (· ≠ '#')).length + 1) := by
    have hlength : ("file://" ++ '/' :: r.takeWhile (· ≠ '#') : Text).length + 1 =
        8 + ((r.takeWhile (· ≠ '#')).length + 1) := by
      simp only [List.length_append, List.length_cons]
      rw [show ("file://" : Text).length = 7 from rfl]
      omega
    rw [hlength, ← List.drop_drop]
    rfl
  have hfront : ('/' :: r).takeWhile (· ≠ '#') = '/' :: r.takeWhile (· ≠ '#') := rfl
  have hslash : ('/' :: r.takeWhile (· ≠ '#')).any isControl = (r.takeWhile (· ≠ '#')).any isControl := rfl
  have hnamed : namedPart ('/' :: r) = '/' :: (r.takeWhile (· ≠ '#')).takeWhile (· ≠ '?') := rfl
  rw [hfront, hnamed, hslash, List.length_cons, List.drop_succ_cons]
  unfold toPath parse
  simp only [hbare, hbehind, parseBare_file]
  cases (r.takeWhile (· ≠ '#')).any isControl with
  | true => simp
  | false =>
    cases unescape ('/' :: (r.takeWhile (· ≠ '#')).takeWhile (· ≠ '?')) with
    | error c => simp [Except.map]
    | ok path =>
      cases unescape (r.drop ((r.takeWhile (· ≠ '#')).length + 1)) with
      | error c => simp [Except.map, Except.isOk, Except.toBool]
      | ok fragment =>
        show (Except.ok path : Except Fault Text) = .ok q ↔ _
        rw [Except.ok.injEq, Except.ok.injEq]
        exact ⟨fun h => ⟨rfl, h, rfl⟩, fun h => h.2.1⟩

/-- Without a hash sign a path has no fragment. -/
theorem takeWhile_hash {p : Text} (h : ∀ c ∈ p, c ≠ '#') : p.takeWhile (· ≠ '#') = p :=
  List.takeWhile_eq_self_iff.2 fun c hc => by simpa using h c hc

theorem namedPart_isPrefix (p : Text) : namedPart p <+: p :=
  (List.takeWhile_prefix _).trans (List.takeWhile_prefix _)

/-- Only a path without hash and question mark is named as a whole. -/
theorem namedPart_eq_self {p : Text} : namedPart p = p ↔ ∀ c ∈ p, c ≠ '?' ∧ c ≠ '#' := by
  constructor
  · intro h c hc
    rw [← h] at hc
    have hquery := List.mem_takeWhile_imp hc
    have hhash := List.mem_takeWhile_imp ((List.takeWhile_prefix _).subset hc)
    exact ⟨by simpa using hquery, by simpa using hhash⟩
  · intro h
    have hquery : p.takeWhile (· ≠ '?') = p :=
      List.takeWhile_eq_self_iff.2 fun c hc => by simpa using (h c hc).1
    rw [namedPart, takeWhile_hash fun c hc => (h c hc).2, hquery]

/-- Whatever is cut off or decoded makes a path shorter, so one of the same length has been
left as it is. -/
theorem untouched_or_shorter {p q : Text} (hp : Path.isRooted p = true)
    (h : toPath (ofPath p) = .ok q) :
    (namedPart p = p ∧ '%' ∉ p ∧ q = p) ∨ q.length < p.length := by
  obtain ⟨-, hnamed, -⟩ := (toPath_ofPath_eq_ok hp).1 h
  obtain ⟨hle, hlt⟩ := length_unescape hnamed
  rcases Nat.lt_or_ge (namedPart p).length p.length with hcut | hwhole
  · exact .inr (Nat.lt_of_le_of_lt hle hcut)
  have hself : namedPart p = p := (namedPart_isPrefix p).eq_of_length_le hwhole
  rw [hself] at hnamed hlt
  by_cases hpercent : '%' ∈ p
  · exact .inr (hlt hpercent)
  · exact .inl ⟨hself, hpercent, Except.ok.inj (hnamed.symm.trans (unescape_of_not_mem hpercent))⟩

/-- **Which paths come back.** A path comes back from its URI exactly if each of its
characters stands for itself. What comes back of any other path is shorter, if the URI is
not refused. -/
theorem toPath_ofPath_iff {p : Text} (hp : Path.isRooted p = true) :
    (toPath (ofPath p) = .ok p ↔ ∀ c ∈ p, isPlain c = true) ∧
      ∀ q, toPath (ofPath p) = .ok q → q = p ∨ q.length < p.length := by
  refine ⟨⟨fun hback c hc => ?_, fun hplain => ?_⟩, fun q hq =>
    (untouched_or_shorter hp hq).imp_left (·.2.2)⟩
  · obtain ⟨hself, hpercent, -⟩ := (untouched_or_shorter hp hback).resolve_right (Nat.lt_irrefl _)
    have hchars := namedPart_eq_self.1 hself
    have hcontrol := ((toPath_ofPath_eq_ok hp).1 hback).1
    rw [takeWhile_hash fun c hc => (hchars c hc).2] at hcontrol
    have hne : c ≠ '%' := fun heq => hpercent (heq ▸ hc)
    simp [isPlain, hne, hchars c hc, List.any_eq_false.1 hcontrol c hc]
  · have hchars : ∀ c ∈ p, c ≠ '%' ∧ c ≠ '?' ∧ c ≠ '#' ∧ isControl c = false := fun c hc => by
      simpa [isPlain, and_assoc] using hplain c hc
    have hpercent : '%' ∉ p := fun hmem => (hchars _ hmem).1 rfl
    have hself : namedPart p = p :=
      namedPart_eq_self.2 fun c hc => ⟨(hchars c hc).2.1, (hchars c hc).2.2.1⟩
    have hcontrol : p.any isControl = false :=
      List.any_eq_false.2 fun c hc => by simp [(hchars c hc).2.2.2]
    rw [toPath_ofPath_eq_ok hp, takeWhile_hash fun c hc => (hchars c hc).2.2.1, hself,
      unescape_of_not_mem hpercent, List.drop_eq_nil_of_le (Nat.le_succ _)]
    exact ⟨hcontrol, rfl, rfl⟩

/-- Blanks, colons, at signs and letters of any script stand for themselves. -/
theorem toPath_ofPath_page :
    Path.isRooted "/docs/über: a+b @ [c] 1;2.v.md" = true ∧
      toPath (ofPath "/docs/über: a+b @ [c] 1;2.v.md") = .ok "/docs/über: a+b @ [c] 1;2.v.md" := by
  have hrooted : Path.isRooted "/docs/über: a+b @ [c] 1;2.v.md" = true := rfl
  exact ⟨hrooted, (toPath_ofPath_iff hrooted).1.2 (List.all_eq_true.1 rfl)⟩

/-- A question mark in a file name cuts the path, and a percent sign that starts no escape is
refused. -/
theorem file_names_read_as_uris :
    Path.IsCleanRooted "/docs/what?.v.md" ∧ toPath (ofPath "/docs/what?.v.md") = .ok "/docs/what" ∧
      Path.IsCleanRooted "/docs/100%.v.md" ∧ ∀ q, toPath (ofPath "/docs/100%.v.md") ≠ .ok q := by
  refine ⟨by decide, ?_, by decide, fun q hq => ?_⟩
  · have hread : unescape "/docs/what" = .ok "/docs/what" := unescape_of_not_mem (by decide)
    exact (toPath_ofPath_eq_ok rfl).2 ⟨rfl, hread, rfl⟩
  · have hescape : unescape "%.v.md" = .error (.escape "%.v.md") := by rfl
    have hread : unescape ("/docs/100" ++ "%.v.md") = .ok q := ((toPath_ofPath_eq_ok rfl).1 hq).2.1
    rw [unescape_append (by decide), hescape] at hread
    exact absurd hread (by simp [Except.map])

end Uri

end Docweave
