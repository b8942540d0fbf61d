import KafkaScript.Proofs.Text.Location
import KafkaScript.Text.Cursor

/-!
# Cursors walk

One step of a cursor passes a piece of the text ahead (`advance_spec`): a
character, or a carriage return with its line feed. The position moves by the
walk over that piece and the index by its size, so a cursor always stands
between two characters of its text (`isSlice_rest_advanceN`). Sent to an offset
at which the text may be cut, it stops exactly there (`seek_eq`).
-/

namespace KafkaScript

open Text (Seam)

namespace Cursor

/-- A step passes the next character, and the one after it as well if the two are
a line ending. -/
theorem advance_cons {c : Cursor} {ch : Char} {t : Text} (h : c.rest = ch :: t) :
    (Seam [ch] t ∧ c.advance = ⟨t, c.index + ch.utf8Size, c.pos.next ch⟩) ∨
      ∃ u, ch = '\r' ∧ t = '\n' :: u ∧
        c.advance = ⟨u, c.index + 2, (c.pos.next '\r').next '\n'⟩ := by
  rcases c with ⟨rest, index, pos⟩
  unfold advance
  simp only at h ⊢
  split
  · contradiction
  · next u =>
    obtain ⟨rfl, rfl⟩ : '\r' = ch ∧ '\n' :: u = t := by simpa using h
    exact .inr ⟨u, rfl, rfl, rfl⟩
  · next u =>
    obtain ⟨rfl, rfl⟩ : '\n' = ch ∧ u = t := by simpa using h
    exact .inl ⟨.of_getLast (by simp) u, rfl⟩
  · next d u hcr hlf =>
    obtain ⟨rfl, rfl⟩ : d = ch ∧ u = t := by simpa using h
    refine .inl ⟨.of_not_lineEnding hcr, ?_⟩
    rw [Position.next, if_neg hlf]

private theorem eq_nil_of_singleton {ch : Char} (x y : Text) (h : [ch] = x ++ y) (hx : x ≠ []) :
    y = [] := by
  have hlen := congrArg List.length h
  have := List.length_pos_iff.mpr hx
  simp only [List.length_append, List.length_singleton] at hlen
  exact List.length_eq_zero_iff.mp (by omega)

/-- A step that is not at the end passes the shortest piece of the text ahead
that can be cut off. -/
theorem advance_spec {c : Cursor} (h : c.rest ≠ []) : ∃ s, c.rest = s ++ c.advance.rest ∧
    Seam s c.advance.rest ∧ (∀ x y, s = x ++ y → x ≠ [] → Seam x y → y = []) ∧ s ≠ [] ∧
      c.advance.index = c.index + Text.utf8Size s ∧ c.advance.pos = c.pos.walk s := by
  obtain ⟨ch, t, hrest⟩ := List.exists_cons_of_ne_nil h
  rcases advance_cons hrest with ⟨hs, hadv⟩ | ⟨u, rfl, rfl, hadv⟩
  · rw [hadv]
    exact ⟨[ch], hrest, hs, fun x y hxy hx _ => eq_nil_of_singleton x y hxy hx, by simp, rfl, rfl⟩
  · rw [hadv]
    refine ⟨['\r', '\n'], hrest, .of_getLast (by simp) u, ?_, by simp, rfl, rfl⟩
    rintro (_ | ⟨a, _ | ⟨b, x⟩⟩) y hxy hx hs
    · contradiction
    · -- between the two characters there is no seam
      obtain ⟨rfl, rfl⟩ : '\r' = a ∧ ['\n'] = y := by simpa using hxy
      exact absurd rfl (hs rfl)
    · simp_all

/-- At the end a step stays where it is. -/
theorem advance_of_rest_nil {c : Cursor} (h : c.rest = []) : c.advance = c := by
  unfold advance
  rw [h]

/-- A step moves a cursor from one place between two characters to another. -/
theorem isSlice_rest_advance {t : Text} {c : Cursor} (h : t.IsSlice c.index t.utf8Size c.rest) :
    t.IsSlice c.advance.index t.utf8Size c.advance.rest := by
  by_cases hc : c.rest = []
  · rwa [advance_of_rest_nil hc]
  · obtain ⟨s, hs, -, -, -, hi, -⟩ := advance_spec hc
    obtain ⟨a, b, ht, ha, hab⟩ := h
    refine ⟨a ++ s, b, by simp [ht, hs], by simp [hi, ha], ?_⟩
    rw [List.append_assoc, ← hs, hab]

/-- However far a cursor has gone over a text, it stands between two characters. -/
theorem isSlice_rest_advanceN {t : Text} (n : Nat) {c : Cursor}
    (h : t.IsSlice c.index t.utf8Size c.rest) :
    t.IsSlice (advanceN n c).index t.utf8Size (advanceN n c).rest := by
  induction n generalizing c with
  | zero => exact h
  | succ n ih =>
    rw [advanceN]
    split
    · exact h
    · exact ih (isSlice_rest_advance h)

/-- Sent to an offset at which the text ahead may be cut, a cursor stops there. -/
theorem seek_eq {a b : Text} (hs : Seam a b) {c : Cursor} (hrest : c.rest = a ++ b) :
    c.seek (c.index + Text.utf8Size a) = .ok ⟨b, c.index + Text.utf8Size a, c.pos.walk a⟩ := by
  induction hn : a.length using Nat.strongRecOn generalizing a c with
  | ind n ih =>
    rw [seek]
    rcases a with _ | ⟨ch, a⟩
    · cases c
      simpa using hrest
    · have hne : c.rest ≠ [] := by simp [hrest]
      obtain ⟨s, happ, -, hshort, hs0, hi, hp⟩ := advance_spec hne
      -- the step stays within what is to be passed, since no shorter cut is possible
      have ⟨u, hu, hub⟩ : ∃ u, ch :: a = s ++ u ∧ c.advance.rest = u ++ b := by
        rcases List.append_eq_append_iff.mp (hrest.symm.trans happ) with ⟨u, hu, hb⟩ | h
        · have : u = [] := hshort _ u hu (by simp) (Text.Seam.of_append_right (hb ▸ hs))
          exact ⟨[], by simp [hu, this], by simp [hb, this]⟩
        · exact h
      have hsu : Seam u b := Text.Seam.of_append_left (hu ▸ hs)
      have hlen : u.length < n := by
        have := List.length_pos_iff.mpr hs0
        rw [← hn, hu, List.length_append]
        omega
      have hpos : 0 < Text.utf8Size (ch :: a) := Nat.add_pos_left ch.utf8Size_pos _
      have hsize : Text.utf8Size (ch :: a) = Text.utf8Size s + Text.utf8Size u := by
        rw [hu, Text.utf8Size_append]
      have hrec := ih u.length hlen hsu hub rfl
      rw [hi, hp, Nat.add_assoc, ← hsize, ← Position.walk_append, ← hu] at hrec
      rw [if_pos (by omega), dif_neg hne, hrec]

end Cursor

end KafkaScript
