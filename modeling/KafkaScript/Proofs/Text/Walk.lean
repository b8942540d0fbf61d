import Mathlib.Order.Defs.LinearOrder
import KafkaScript.Text.Position

/-!
# Walking over a text

A text that begins at a position ends at another one: a line feed goes to the
start of the next line and every other character one step to the right. A
carriage return before a line feed needs no rule of its own, since the line feed
forgets the character it was read at. Walks compose (`walk_append`), only go
forward (`le_walk`), and do not depend on the line they begin on
(`walk_down`).

What a carriage return does restrict is where a text may be cut: a `Seam` has
no line ending across it.
-/

namespace KafkaScript

namespace Position

instance : LinearOrder Position where
  le_refl p := .inr ⟨rfl, Nat.le_refl _⟩
  le_trans p q r hpq hqr := by
    rw [le_iff] at *
    omega
  le_antisymm p q hpq hqp := by
    rw [le_iff] at *
    cases p
    cases q
    simp only [mk.injEq] at *
    omega
  lt_iff_le_not_ge p q := by
    rw [lt_iff, le_iff, le_iff]
    omega
  le_total p q := by
    rw [le_iff, le_iff]
    omega
  toDecidableLE p q := inferInstance

theorem zero_le (p : Position) : zero ≤ p := by
  rw [le_iff]
  simp only [zero]
  omega

/-- The position right after a character that stands at `p`. -/
def next (p : Position) (c : Char) : Position :=
  if c = '\n' then ⟨p.line + 1, 0⟩ else ⟨p.line, p.character + 1⟩

/-- The position at the end of a text that begins at `p`. -/
def walk (p : Position) (t : Text) : Position :=
  t.foldl next p

/-- The same place `n` lines further down. -/
def down (n : Nat) (p : Position) : Position :=
  ⟨p.line + n, p.character⟩

@[simp] theorem walk_nil (p : Position) : p.walk [] = p := rfl

theorem walk_cons (p : Position) (c : Char) (t : Text) : p.walk (c :: t) = (p.next c).walk t := rfl

/-- A walk over two texts is a walk over the first and then over the second. -/
theorem walk_append (p : Position) (s t : Text) : p.walk (s ++ t) = (p.walk s).walk t :=
  List.foldl_append

theorem lt_next (p : Position) (c : Char) : p < p.next c := by
  unfold next
  rw [lt_iff]
  split <;> simp

theorem le_walk (p : Position) (t : Text) : p ≤ p.walk t := by
  induction t generalizing p with
  | nil => exact le_refl p
  | cons c t ih => exact le_trans (le_of_lt (lt_next p c)) (ih (p.next c))

/-- A longer part of a text ends no earlier than a shorter one. -/
theorem walk_le_walk_append (p : Position) (s t : Text) : p.walk s ≤ p.walk (s ++ t) := by
  rw [walk_append]
  exact le_walk _ t

theorem walk_le_walk_of_prefix {s t : Text} (h : s <+: t) (p : Position) : p.walk s ≤ p.walk t := by
  obtain ⟨u, rfl⟩ := h
  exact walk_le_walk_append p s u

/-- Without a line feed a walk stays on its line. -/
theorem walk_eq_of_not_mem {t : Text} (h : '\n' ∉ t) (p : Position) :
    p.walk t = ⟨p.line, p.character + t.length⟩ := by
  induction t generalizing p with
  | nil => rfl
  | cons c t ih =>
    simp only [List.mem_cons, not_or] at h
    have hc : c ≠ '\n' := fun heq => h.1 heq.symm
    rw [walk_cons, ih h.2, next, if_neg hc, List.length_cons]
    simp only [mk.injEq, true_and]
    omega

/-- A walk over a text that ends in a line feed ends at the start of a line. -/
theorem walk_append_lineFeed {t : Text} (h : '\n' ∉ t) (p : Position) :
    p.walk (t ++ ['\n']) = ⟨p.line + 1, 0⟩ := by
  rw [walk_append, walk_eq_of_not_mem h]
  rfl

@[simp] theorem down_line (n : Nat) (p : Position) : (p.down n).line = p.line + n := rfl

@[simp] theorem down_character (n : Nat) (p : Position) :
    (p.down n).character = p.character := rfl

theorem next_down (n : Nat) (p : Position) (c : Char) :
    (p.down n).next c = (p.next c).down n := by
  unfold next
  split
  · simp only [down, mk.injEq, and_true]
    omega
  · rfl

/-- Where a text begins does not matter for how far a walk over it goes. -/
theorem walk_down (n : Nat) (p : Position) (t : Text) :
    (p.down n).walk t = (p.walk t).down n := by
  induction t generalizing p with
  | nil => rfl
  | cons c t ih => rw [walk_cons, next_down, ih, walk_cons]

end Position

namespace Text

/-- Between the two texts there is no line ending that a cut would tear apart. -/
def Seam (s t : Text) : Prop :=
  s.getLast? = some '\r' → t.head? ≠ some '\n'

@[simp] theorem seam_nil_left (t : Text) : Seam [] t := by
  simp [Seam]

@[simp] theorem seam_nil_right (s : Text) : Seam s [] := by
  simp [Seam]

/-- What begins with anything but a line feed can be cut off. -/
theorem Seam.of_head {t : Text} (h : t.head? ≠ some '\n') (s : Text) : Seam s t :=
  fun _ => h

/-- What ends in anything but a carriage return can be cut off. -/
theorem Seam.of_getLast {s : Text} (h : s.getLast? ≠ some '\r') (t : Text) : Seam s t :=
  fun hs => absurd hs h

theorem Seam.of_not_lineEnding {c : Char} {t : Text}
    (h : ∀ u, c = '\r' → t = '\n' :: u → False) : Seam [c] t := by
  intro hc ht
  obtain ⟨u, rfl⟩ := List.head?_eq_some_iff.mp ht
  exact h u (by simpa using hc) rfl

/-- A seam concerns the last character before it only. -/
theorem seam_append_left {s t u : Text} (h : t ≠ []) : Seam (s ++ t) u ↔ Seam t u := by
  cases t with
  | nil => exact absurd rfl h
  | cons c t => simp [Seam, List.getLast?_append]

theorem Seam.of_append_left {s t u : Text} (h : Seam (s ++ t) u) : Seam t u := by
  cases t with
  | nil => exact seam_nil_left u
  | cons c t => exact (seam_append_left (by simp)).mp h

/-- A seam concerns the first character after it only. -/
theorem seam_append_right {s t u : Text} (h : t ≠ []) : Seam s (t ++ u) ↔ Seam s t := by
  cases t with
  | nil => exact absurd rfl h
  | cons c t => simp [Seam]

theorem Seam.of_append_right {s t u : Text} (h : Seam s (t ++ u)) : Seam s t := by
  cases t with
  | nil => exact seam_nil_right s
  | cons c t => exact (seam_append_right (by simp)).mp h

/-- What ends in a line feed can be put in front. -/
theorem Seam.append_left {s t u : Text} (h : Seam t u) (hs : s.getLast? = some '\n') :
    Seam (s ++ t) u := by
  cases t with
  | nil => exact of_getLast (by simp [hs]) u
  | cons c t => exact (seam_append_left (by simp)).mpr h

/-- Where a piece of a text may be cut, the whole text may be. -/
theorem Seam.extend {a s t b : Text} (hst : Seam s t) (hleft : Seam a (s ++ t ++ b))
    (hright : Seam (a ++ (s ++ t)) b) : Seam (a ++ s) (t ++ b) := by
  rcases s with _ | ⟨c, s⟩
  · simpa using hleft
  · rcases t with _ | ⟨d, t⟩
    · simpa using hright
    · exact (seam_append_left (by simp)).mpr ((seam_append_right (by simp)).mpr hst)

end Text

end KafkaScript
