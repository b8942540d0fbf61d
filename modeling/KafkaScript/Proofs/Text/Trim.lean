import Mathlib.Data.List.DropRight
import KafkaScript.Proofs.Text.Location
import KafkaScript.Text.Blank

/-!
# Trimming

A text is a blank run, the trimmed text and another blank run
(`leading_trim_trailing`). A trimmed text that is not empty begins and ends with
characters that are not blank, hence with none that a line ending is made of, so
the text may be cut on both sides of it.
-/

namespace KafkaScript.Text

/-- The blank run that is left behind the trimmed text. -/
def trailingBlanks (t : Text) : Text :=
  t.trimStart.rtakeWhile isBlank

theorem trim_eq_rdropWhile (t : Text) : t.trim = t.trimStart.rdropWhile isBlank := rfl

/-- Trimming removes the two blank runs and nothing else. -/
theorem leading_trim_trailing (t : Text) : t.leadingBlanks ++ t.trim ++ t.trailingBlanks = t := by
  have htrim : t.trim ++ t.trailingBlanks = t.trimStart := List.rdropWhile_append_rtakeWhile
  rw [List.append_assoc, htrim, leadingBlanks_append_trimStart]

theorem trimStart_eq_nil_iff {t : Text} : t.trimStart = [] ↔ ∀ c ∈ t, isBlank c = true :=
  List.dropWhile_eq_nil_iff

theorem trim_eq_nil_iff {t : Text} : t.trim = [] ↔ ∀ c ∈ t, isBlank c = true := by
  rw [trim_eq_rdropWhile, List.rdropWhile_eq_nil_iff]
  constructor
  · intro h c hc
    rw [← leadingBlanks_append_trimStart t] at hc
    rcases List.mem_append.mp hc with hc | hc
    · exact List.mem_takeWhile_imp hc
    · exact h c hc
  · exact fun h c hc => h c ((List.dropWhile_suffix isBlank).subset hc)

theorem trim_eq_nil_iff_trimStart {t : Text} : t.trim = [] ↔ t.trimStart = [] := by
  rw [trim_eq_nil_iff, trimStart_eq_nil_iff]

/-- A trimmed text begins with no blank. -/
theorem isBlank_head_trim {t : Text} {c : Char} (h : t.trim.head? = some c) : isBlank c = false := by
  have hstart : t.trimStart.head? = some c := by
    obtain ⟨u, hu⟩ := List.head?_eq_some_iff.mp h
    obtain ⟨v, hv⟩ := List.rdropWhile_prefix isBlank t.trimStart
    rw [← trim_eq_rdropWhile, hu] at hv
    simp [← hv]
  have := List.head?_dropWhile_not isBlank t
  rw [show List.dropWhile isBlank t = t.trimStart from rfl, hstart] at this
  simpa using this

/-- A trimmed text ends with no blank. -/
theorem isBlank_getLast_trim {t : Text} {c : Char} (h : t.trim.getLast? = some c) :
    isBlank c = false := by
  have hne : t.trim ≠ [] := by
    intro hnil
    simp [hnil] at h
  rw [List.getLast?_eq_some_getLast hne, Option.some.injEq] at h
  have hlast : ¬ isBlank (t.trim.getLast hne) := List.rdropWhile_last_not isBlank t.trimStart hne
  simpa [h] using hlast

/-- A blank text is all in front of what trimming leaves of it. -/
theorem trailingBlanks_eq_nil {t : Text} (h : t.trim = []) : t.trailingBlanks = [] := by
  rw [trailingBlanks, trim_eq_nil_iff_trimStart.mp h]
  rfl

/-- A piece that begins and ends with no blank lies within the trimmed text. -/
theorem prefix_of_trim {t x s y : Text} (h : t = x ++ s ++ y) (hne : s ≠ [])
    (hhead : ∀ c, s.head? = some c → isBlank c = false)
    (hlast : ∀ c, s.getLast? = some c → isBlank c = false) :
    t.leadingBlanks <+: x ∧ x ++ s <+: t.leadingBlanks ++ t.trim := by
  constructor
  · obtain ⟨c, s, rfl⟩ := List.exists_cons_of_ne_nil hne
    have hc := hhead c rfl
    rw [h, List.append_assoc, List.cons_append, leadingBlanks, List.takeWhile_append]
    split
    · rw [List.takeWhile_cons_of_neg (by simp [hc])]
      exact ⟨[], by simp⟩
    · exact List.takeWhile_prefix _
  · have hcut := t.leading_trim_trailing
    rcases List.append_eq_append_iff.mp (hcut.trans h) with ⟨u, hu, htrail⟩ | ⟨u, hu, -⟩
    · -- what is left of the piece would be among the blanks behind the trimmed text
      rcases u.eq_nil_or_concat with rfl | ⟨u, c, rfl⟩
      · exact ⟨[], by simpa using hu⟩
      · have hblank : isBlank c = true := by
          have hmem : c ∈ t.trailingBlanks := by simp [htrail]
          exact List.mem_rtakeWhile_imp hmem
        have hc : isBlank c = false := by
          apply hlast c
          have hend := congrArg List.getLast? hu
          rw [List.getLast?_append_of_ne_nil _ hne] at hend
          simpa using hend
        rw [hblank] at hc
        contradiction
    · exact ⟨u, hu.symm⟩

/-- Nothing is taken from a text that begins and ends with no blank. -/
theorem trim_eq_self {t : Text} (hhead : ∀ c, t.head? = some c → isBlank c = false)
    (hlast : ∀ c, t.getLast? = some c → isBlank c = false) : t.trim = t := by
  by_cases hne : t = []
  · rw [hne]
    rfl
  obtain ⟨hlead, hback⟩ := prefix_of_trim (t := t) (x := []) (y := []) (by simp) hne hhead hlast
  have hcut := t.leading_trim_trailing
  rw [List.prefix_nil.mp hlead, List.nil_append] at hback hcut
  have hle : t.trim.length ≤ t.length := List.IsPrefix.length_le ⟨t.trailingBlanks, hcut⟩
  exact (hback.eq_of_length_le hle).symm

theorem trim_trim (t : Text) : t.trim.trim = t.trim :=
  trim_eq_self (fun _ => isBlank_head_trim) (fun _ => isBlank_getLast_trim)

theorem mem_of_mem_trim {t : Text} {c : Char} (h : c ∈ t.trim) : c ∈ t := by
  rw [← t.leading_trim_trailing]
  exact List.mem_append_left _ (List.mem_append_right _ h)

/-! ## Text put in front -/

/-- Trimming the end of a text does not go past what is not blank. -/
theorem trimEnd_append (x : Text) {s : Text} (h : s.trimEnd ≠ []) :
    (x ++ s).trimEnd = x ++ s.trimEnd := by
  unfold trimEnd at h ⊢
  have hne : ¬ (s.reverse.dropWhile isBlank).isEmpty = true := by simpa using h
  rw [List.reverse_append, List.dropWhile_append, if_neg hne, List.reverse_append,
    List.reverse_reverse]

theorem leadingBlanks_append_trim {t : Text} (h : t.trim ≠ []) :
    t.leadingBlanks ++ t.trim = t.trimEnd := by
  conv_rhs => rw [← t.leadingBlanks_append_trimStart]
  exact (trimEnd_append t.leadingBlanks h).symm

theorem trim_append_ne_nil (x : Text) {s : Text} (h : s.trim ≠ []) : (x ++ s).trim ≠ [] := by
  rw [ne_eq, trim_eq_nil_iff] at h ⊢
  exact fun hall => h fun c hc => hall c (List.mem_append_right x hc)

/-- What is put in front of a text does not move the end of the trimmed text. -/
theorem leading_trim_append (x : Text) {s : Text} (h : s.trim ≠ []) :
    (x ++ s).leadingBlanks ++ (x ++ s).trim = x ++ (s.leadingBlanks ++ s.trim) := by
  have hs := leadingBlanks_append_trim h
  have hne : s.trimEnd ≠ [] := by
    rw [← hs]
    exact List.append_ne_nil_of_right_ne_nil _ h
  rw [leadingBlanks_append_trim (trim_append_ne_nil x h), trimEnd_append x hne, hs]

/-- What trimming leaves of a text is the end of what it leaves of a longer one. -/
theorem trim_suffix_trim_append (x : Text) {s : Text} (h : s.trim ≠ []) :
    s.trim <:+ (x ++ s).trim := by
  have hcut : x ++ s = x ++ s.leadingBlanks ++ s.trim ++ s.trailingBlanks := by
    rw [List.append_assoc x, List.append_assoc, s.leading_trim_trailing]
  obtain ⟨⟨u, hu⟩, -⟩ := prefix_of_trim hcut h (fun _ => isBlank_head_trim)
    (fun _ => isBlank_getLast_trim)
  have hend := leading_trim_append x h
  rw [← List.append_assoc x, ← hu, List.append_assoc] at hend
  exact ⟨u, (List.append_cancel_left hend).symm⟩

/-! ## Blanks at the end -/

theorem trimEnd_trimEnd (t : Text) : t.trimEnd.trimEnd = t.trimEnd :=
  List.rdropWhile_idempotent isBlank t

theorem trimEnd_eq_nil_iff {t : Text} : t.trimEnd = [] ↔ ∀ c ∈ t, isBlank c = true :=
  List.rdropWhile_eq_nil_iff

theorem trimEnd_append_of_blank {s : Text} (h : ∀ c ∈ s, isBlank c = true) (t : Text) :
    (t ++ s).trimEnd = t.trimEnd := by
  have hreverse : ∀ c ∈ s.reverse, isBlank c = true := fun c hc => h c (List.mem_reverse.mp hc)
  rw [trimEnd, List.reverse_append, List.dropWhile_append_of_pos hreverse]
  rfl

/-- From a character on that is not blank, the end is trimmed on its own. -/
theorem trimEnd_append_cons {c : Char} (hc : isBlank c = false) (s t : Text) :
    (s ++ c :: t).trimEnd = s ++ c :: t.trimEnd := by
  have hcons : trimEnd (c :: t) = c :: t.trimEnd := by
    rw [← List.singleton_append]
    by_cases ht : t.trimEnd = []
    · rw [trimEnd_append_of_blank (trimEnd_eq_nil_iff.mp ht), ht]
      simp [trimEnd, hc]
    · exact trimEnd_append [c] ht
  have hne : trimEnd (c :: t) ≠ [] := by
    rw [hcons]
    exact List.cons_ne_nil c _
  rw [trimEnd_append s hne, hcons]

theorem trimEnd_append_of_getLast? {s : Text} {c : Char} (h : s.getLast? = some c)
    (hc : isBlank c = false) (t : Text) : (s ++ t).trimEnd = s ++ t.trimEnd := by
  obtain ⟨front, rfl⟩ := List.getLast?_eq_some_iff.mp h
  rw [List.append_assoc, List.append_assoc]
  exact trimEnd_append_cons hc front t

theorem trimStart_trimEnd (t : Text) : t.trimEnd.trimStart = t.trim := by
  by_cases h : t.trim = []
  · have hstart : t.trimStart = [] := trim_eq_nil_iff_trimStart.mp h
    rw [trimEnd_eq_nil_iff.mpr (trimStart_eq_nil_iff.mp hstart), h]
    rfl
  · have hlead : ∀ c ∈ t.leadingBlanks, isBlank c = true := fun c hc => List.mem_takeWhile_imp hc
    obtain ⟨c, s, hs⟩ := List.exists_cons_of_ne_nil h
    have hc : isBlank c = false := isBlank_head_trim (by rw [hs]; rfl)
    rw [← leadingBlanks_append_trim h, trimStart, List.dropWhile_append_of_pos hlead, hs,
      List.dropWhile_cons_of_neg (by simp [hc])]

theorem trim_trimEnd (t : Text) : t.trimEnd.trim = t.trim := by
  rw [trim, trimStart_trimEnd, trim, trimEnd_trimEnd]

/-- A text that does not end in a blank begins another one whether or not the end of
that one is trimmed. -/
theorem prefix_trimEnd_iff {s t : Text} (hs : s.trimEnd = s) : s <+: t.trimEnd ↔ s <+: t := by
  constructor
  · exact fun h => h.trans (List.rdropWhile_prefix isBlank t)
  · rintro ⟨u, rfl⟩
    by_cases hu : trimEnd u = []
    · have hend : trimEnd (s ++ u) = s := by
        rw [trimEnd_append_of_blank (trimEnd_eq_nil_iff.mp hu), hs]
      exact hend.symm ▸ List.prefix_refl _
    · rw [trimEnd_append s hu]
      exact List.prefix_append s _

/-! ## Where the text may be cut -/

/-- The text may be cut before the trimmed text. -/
theorem seam_leadingBlanks (t : Text) : Seam t.leadingBlanks (t.trim ++ t.trailingBlanks) := by
  by_cases h : t.trim = []
  · simp [h, trailingBlanks_eq_nil h]
  · refine (seam_append_right h).mpr (.of_head ?_ _)
    intro hlf
    exact absurd (isBlank_head_trim hlf) (by decide)

/-- The text may be cut after the trimmed text. -/
theorem seam_trailingBlanks (t : Text) : Seam (t.leadingBlanks ++ t.trim) t.trailingBlanks := by
  by_cases h : t.trim = []
  · simp [trailingBlanks_eq_nil h]
  · refine (seam_append_left h).mpr (.of_getLast ?_ _)
    intro hcr
    exact absurd (isBlank_getLast_trim hcr) (by decide)

/-- The trimmed text stands where a walk over the blank run in front of it
ends. -/
theorem HoldsAt.trim {t s : Text} {r : Range} (h : t.HoldsAt r s) :
    t.HoldsAt ⟨r.start.walk s.leadingBlanks, r.start.walk (s.leadingBlanks ++ s.trim)⟩ s.trim :=
  h.part s.leading_trim_trailing.symm s.seam_leadingBlanks s.seam_trailingBlanks

/-- What trimming at the start takes away is the size of the blank run there. -/
theorem utf8Size_sub_trimStart (t : Text) :
    t.utf8Size - t.trimStart.utf8Size = t.leadingBlanks.utf8Size := by
  have := congrArg utf8Size (leadingBlanks_append_trimStart t)
  rw [utf8Size_append] at this
  omega

end KafkaScript.Text
