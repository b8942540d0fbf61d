import KafkaScript.Proofs.Text.Trim
import KafkaScript.Text.Decimal

/-!
# Numerals

A number is read off digits, which a plus sign may stand in front of. Zeros in
front are digits like any others. Reading finds the number that the digits denote
if it is within the limit, and no number otherwise (`read_eq_ok_iff`), although it
gives up at the first digit that leads past the limit: more digits never lead back
(`le_ofDigitChars`).
-/

namespace KafkaScript.Decimal

/-- The text is a numeral of `n`. -/
def Denotes (t : Text) (n : Nat) : Prop :=
  ∃ digits : Text, (t = digits ∨ t = '+' :: digits) ∧ digits ≠ [] ∧
    (∀ c ∈ digits, c.isDigit = true) ∧ Nat.ofDigitChars 10 digits 0 = n

variable {limit acc n : Nat} {t : Text} {c : Char}

/-! ## Reading -/

theorem digitValue?_eq (c : Char) :
    digitValue? c = if c.isDigit then some (c.toNat - '0'.toNat) else none := by
  have hdigit : ('0' ≤ c ∧ c ≤ '9') ↔ c.isDigit = true := by
    simp [Char.isDigit, Char.le_def]
  simp only [digitValue?, hdigit]

theorem le_ofDigitChars (acc : Nat) (t : Text) : acc ≤ Nat.ofDigitChars 10 t acc := by
  rw [Nat.ofDigitChars_eq_ofDigitChars_zero]
  have := Nat.le_mul_of_pos_left acc (Nat.pow_pos (n := t.length) (show 0 < 10 by decide))
  omega

theorem readDigits_eq_ok_iff (hacc : acc ≤ limit) :
    readDigits limit acc t = .ok n ↔
      (∀ c ∈ t, c.isDigit = true) ∧ Nat.ofDigitChars 10 t acc = n ∧ n ≤ limit := by
  induction t generalizing acc with
  | nil =>
    simp only [readDigits, Except.ok.injEq, List.not_mem_nil, false_implies, implies_true,
      Nat.ofDigitChars_nil, true_and]
    omega
  | cons c t ih =>
    rw [readDigits, digitValue?_eq, Nat.ofDigitChars_cons, Nat.mul_comm 10 acc]
    by_cases hc : c.isDigit = true
    · simp only [hc, if_true, List.forall_mem_cons, true_and]
      split
      · next hlarge =>
        have := le_ofDigitChars (acc * 10 + (c.toNat - '0'.toNat)) t
        simp only [reduceCtorEq, false_iff, not_and]
        omega
      · next hsmall => exact ih (Nat.not_lt.mp hsmall)
    · simp [hc]

theorem denotes_of_readDigits {digits : Text} (hsign : t = digits ∨ t = '+' :: digits)
    (hne : digits ≠ []) (h : readDigits limit 0 digits = .ok n) : Denotes t n ∧ n ≤ limit := by
  obtain ⟨hdigits, hn, hle⟩ := (readDigits_eq_ok_iff (Nat.zero_le limit)).mp h
  exact ⟨⟨digits, hsign, hne, hdigits, hn⟩, hle⟩

theorem read_plus (h : t ≠ []) : read limit ('+' :: t) = readDigits limit 0 t := by
  cases t with
  | nil => contradiction
  | cons c t => rfl

/-- A number is read where the text denotes one within the limit, and nowhere else. -/
theorem read_eq_ok_iff : read limit t = .ok n ↔ Denotes t n ∧ n ≤ limit := by
  constructor
  · intro h
    unfold read at h
    split at h
    · contradiction
    · next c => exact denotes_of_readDigits (.inl rfl) (List.cons_ne_nil c []) h
    · next digits hne => exact denotes_of_readDigits (.inr rfl) hne h
    · next hne _ _ => exact denotes_of_readDigits (.inl rfl) hne h
  · rintro ⟨⟨digits, hsign, hne, hdigits, hn⟩, hle⟩
    have hread := (readDigits_eq_ok_iff (Nat.zero_le limit)).mpr ⟨hdigits, hn, hle⟩
    rcases hsign with rfl | rfl
    · rw [← hread]
      unfold read
      split
      · contradiction
      · rfl
      · -- a plus sign is no digit
        exact absurd (hdigits '+' List.mem_cons_self) (by decide)
      · rfl
    · rw [read_plus hne, hread]

/-! ## Writing -/

theorem print_eq_toDigits (n : Nat) : print n = Nat.toDigits 10 n := by
  induction n using Nat.strongRecOn with
  | ind n ih =>
    have hdigit : ∀ d < 10, digitChar d = d.digitChar := by decide
    rw [print, Nat.toDigits_eq_if (by decide)]
    split
    · next hn => rw [hdigit n hn]
    · next hn => rw [ih (n / 10) (by omega), hdigit (n % 10) (Nat.mod_lt n (by decide))]

theorem isDigit_of_mem_print (h : c ∈ print n) : c.isDigit = true := by
  rw [print_eq_toDigits] at h
  exact Nat.isDigit_of_mem_toDigits (by decide) (by decide) h

theorem isBlank_of_isDigit (h : c.isDigit = true) : Text.isBlank c = false := by
  simp only [Char.isDigit, Bool.and_eq_true, decide_eq_true_eq, ge_iff_le,
    UInt32.le_iff_toNat_le] at h
  have hbounds : 48 ≤ c.toNat ∧ c.toNat ≤ 57 := h
  simp only [Text.isBlank, Bool.or_eq_false_iff, Bool.and_eq_false_imp, decide_eq_true_eq,
    decide_eq_false_iff_not, beq_eq_false_iff_ne]
  omega

theorem trim_print (n : Nat) : Text.trim (print n) = print n :=
  Text.trim_eq_self
    (fun _ hc => isBlank_of_isDigit (isDigit_of_mem_print (List.mem_of_head? hc)))
    (fun _ hc => isBlank_of_isDigit (isDigit_of_mem_print (List.mem_of_getLast? hc)))

theorem denotes_print (n : Nat) : Denotes (print n) n := by
  refine ⟨print n, .inl rfl, ?_, fun c => isDigit_of_mem_print, ?_⟩
  · rw [print_eq_toDigits]
    exact Nat.toDigits_ne_nil
  · rw [print_eq_toDigits]
    exact Nat.ofDigitChars_ten_toDigits

end KafkaScript.Decimal
