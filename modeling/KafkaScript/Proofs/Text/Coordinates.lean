import KafkaScript.Proofs.Text.Numeral
import KafkaScript.Proofs.Text.Parts
import KafkaScript.Text.PositionReader

/-!
# Positions that are written down

A text is read as a position if it writes one (`Position.read_eq_ok_iff`): two
numerals, each with white space around it or none, on the two sides of the first
colon. A position is displayed as such a text (`Position.isWritten_display`), so it
comes back from its display as long as both of its numbers fit in 64 bits, and
only then.
-/

namespace KafkaScript

/-- The text writes the position: what stands before its first colon is a numeral of
the line, what stands behind it is one of the character, and both numbers fit in 64
bits. -/
def Position.IsWritten (t : Text) (p : Position) : Prop :=
  ∃ line character : Text, t = line ++ ':' :: character ∧ ':' ∉ line ∧
    Decimal.Denotes line.trim p.line ∧ Decimal.Denotes character.trim p.character ∧ p.Addressable

variable {t : Text} {n : Nat} {p : Position}

theorem readCoordinate_eq_ok_iff :
    readCoordinate t = .ok n ↔ Decimal.Denotes t.trim n ∧ n ≤ maxUInt64 :=
  Decimal.read_eq_ok_iff

/-- No digit is a colon. -/
theorem Decimal.colon_not_mem_print (n : Nat) : ':' ∉ Decimal.print n := fun h =>
  absurd (Decimal.isDigit_of_mem_print h) (by decide)

namespace Position

/-- Around a first colon the two sides are read, and both must be numbers. -/
theorem read_append_cons {line : Text} (h : ':' ∉ line) (character : Text) :
    read (line ++ ':' :: character) = .ok p ↔
      readCoordinate line = .ok p.line ∧ readCoordinate character = .ok p.character := by
  rw [read, Text.splitFirst_append_cons h]
  dsimp only
  cases readCoordinate line with
  | error reason => simp
  | ok l =>
    cases readCoordinate character with
    | error reason => simp
    | ok c =>
      obtain ⟨l', c'⟩ := p
      simp

theorem read_eq_ok_iff : read t = .ok p ↔ IsWritten t p := by
  constructor
  · intro h
    cases hcut : t.splitFirst ':' with
    | none => simp [read, hcut] at h
    | some cut =>
      obtain ⟨rfl, hcolon⟩ := Text.eq_append_of_splitFirst hcut
      obtain ⟨hline, hcharacter⟩ := (read_append_cons hcolon cut.2).mp h
      obtain ⟨hl, hlimit⟩ := readCoordinate_eq_ok_iff.mp hline
      obtain ⟨hc, hlimit'⟩ := readCoordinate_eq_ok_iff.mp hcharacter
      exact ⟨cut.1, cut.2, rfl, hcolon, hl, hc, hlimit, hlimit'⟩
  · rintro ⟨line, character, rfl, hcolon, hl, hc, hlimit, hlimit'⟩
    rw [read_append_cons hcolon]
    exact ⟨readCoordinate_eq_ok_iff.mpr ⟨hl, hlimit⟩, readCoordinate_eq_ok_iff.mpr ⟨hc, hlimit'⟩⟩

/-- A display is a text that writes the position, unless a number of it is too large. -/
theorem isWritten_display : IsWritten p.display p ↔ p.Addressable := by
  constructor
  · rintro ⟨-, -, -, -, -, -, h⟩
    exact h
  · intro h
    refine ⟨_, _, rfl, Decimal.colon_not_mem_print p.line, ?_, ?_, h⟩
    · rw [Decimal.trim_print]
      exact Decimal.denotes_print p.line
    · rw [Decimal.trim_print]
      exact Decimal.denotes_print p.character

/-- A position of 64 bits is read back from its display, and of all texts those are
read as it that write it. -/
theorem readsWritten (p : Position) :
    (read p.display = .ok p ↔ p.Addressable) ∧ ∀ t, read t = .ok p ↔ IsWritten t p :=
  ⟨read_eq_ok_iff.trans isWritten_display, fun _ => read_eq_ok_iff⟩

example : read "\u2003+0018446744073709551615\u0085:\t007 ".toList = .ok ⟨maxUInt64, 7⟩ := by cbv

end Position

end KafkaScript
