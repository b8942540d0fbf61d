import KafkaScript.Text.Basic

/-!
# The parts of a text

The parts between the separators are the only texts without a separator that
make up the whole when they are joined again (`splitAll_eq_iff`). Two texts with
a separator between them have the parts of both (`splitAll_append_cons`).
-/

namespace KafkaScript.Text

variable {sep : Char} {t : Text}

/-! ## The first separator -/

theorem splitFirst_append_cons {a : Text} (h : sep ∉ a) (b : Text) :
    splitFirst sep (a ++ sep :: b) = some (a, b) := by
  induction a with
  | nil => simp [splitFirst]
  | cons c a ih =>
    rw [List.mem_cons, not_or] at h
    rw [List.cons_append, splitFirst, if_neg (Ne.symm h.1), ih h.2]
    rfl

/-- Cutting at a separator loses nothing, and it is the first one. -/
theorem eq_append_of_splitFirst {a b : Text} (h : splitFirst sep t = some (a, b)) :
    t = a ++ sep :: b ∧ sep ∉ a := by
  induction t generalizing a with
  | nil => simp [splitFirst] at h
  | cons c t ih =>
    rw [splitFirst] at h
    split at h
    · next hc =>
      obtain ⟨rfl, rfl⟩ : [] = a ∧ t = b := by simpa using h
      simp [hc]
    · next hc =>
      obtain ⟨⟨a', b'⟩, h', he⟩ := Option.map_eq_some_iff.1 h
      obtain ⟨rfl, rfl⟩ : c :: a' = a ∧ b' = b := by simpa using he
      obtain ⟨rfl, hn⟩ := ih h'
      exact ⟨rfl, by simpa using ⟨fun heq => hc heq.symm, hn⟩⟩

theorem splitFirst_eq_none_iff : splitFirst sep t = none ↔ sep ∉ t := by
  constructor
  · intro h hmem
    obtain ⟨a, b, rfl, ha⟩ := List.eq_append_cons_of_mem hmem
    rw [splitFirst_append_cons ha] at h
    contradiction
  · intro h
    rw [Option.eq_none_iff_forall_ne_some]
    rintro ⟨a, b⟩ hcut
    obtain ⟨rfl, -⟩ := eq_append_of_splitFirst hcut
    simp at h

/-! ## All separators -/

theorem splitAll_eq_splitOn (sep : Char) (t : Text) : t.splitAll sep = t.splitOn sep := by
  induction t with
  | nil => rfl
  | cons c t ih =>
    rw [splitAll, List.splitOn_cons_eq_if_modifyHead, ih]
    simp only [beq_iff_eq]
    split
    · rfl
    · cases hparts : t.splitOn sep with
      | nil => exact absurd hparts (List.splitOn_ne_nil sep t)
      | cons part parts => rfl

theorem join_eq_intercalate (sep : Text) (parts : List Text) :
    join sep parts = sep.intercalate parts := by
  fun_induction join sep parts with
  | case1 => rfl
  | case2 t => simp
  | case3 t ts hts ih =>
    cases ts with
    | nil => exact absurd rfl hts
    | cons u ts => rw [ih, List.intercalate_cons_cons, List.append_assoc]

theorem join_splitAll (sep : Char) (t : Text) : join [sep] (t.splitAll sep) = t := by
  rw [join_eq_intercalate, splitAll_eq_splitOn, List.intercalate_splitOn]

theorem splitAll_join {parts : List Text} (hne : parts ≠ []) (h : ∀ part ∈ parts, sep ∉ part) :
    (join [sep] parts).splitAll sep = parts := by
  rw [splitAll_eq_splitOn, join_eq_intercalate, List.splitOn_intercalate sep h hne]

theorem splitAll_of_not_mem (h : sep ∉ t) : t.splitAll sep = [t] :=
  splitAll_join (List.cons_ne_nil t []) (List.forall_mem_singleton.mpr h)

theorem not_mem_of_mem_splitAll : ∀ part ∈ t.splitAll sep, sep ∉ part := by
  induction t with
  | nil => simp [splitAll]
  | cons c t ih =>
    intro part hpart
    rw [splitAll] at hpart
    split at hpart
    · rcases List.mem_cons.mp hpart with rfl | hpart
      · exact List.not_mem_nil
      · exact ih part hpart
    · next hc =>
      cases hsplit : splitAll sep t with
      | nil => exact absurd hsplit (splitAll_ne_nil sep t)
      | cons first rest =>
        simp only [hsplit] at hpart ih
        rcases List.mem_cons.mp hpart with rfl | hpart
        · have hfirst := ih first List.mem_cons_self
          simp [hfirst, Ne.symm hc]
        · exact ih part (List.mem_cons_of_mem _ hpart)

theorem splitAll_append_cons (t u : Text) :
    (t ++ sep :: u).splitAll sep = t.splitAll sep ++ u.splitAll sep := by
  simp only [splitAll_eq_splitOn, List.splitOn_append_cons_self]

/-- The text is one of those that make up `t` with `sep` between them, none of
which holds a `sep` itself. -/
def IsPart (sep : Char) (t part : Text) : Prop :=
  ∃ parts : List Text, (∀ s ∈ parts, sep ∉ s) ∧ join [sep] parts = t ∧ part ∈ parts

theorem mem_splitAll_iff {part : Text} : part ∈ t.splitAll sep ↔ IsPart sep t part := by
  constructor
  · exact fun h => ⟨t.splitAll sep, not_mem_of_mem_splitAll, join_splitAll sep t, h⟩
  · rintro ⟨parts, hparts, rfl, h⟩
    rwa [splitAll_join (List.ne_nil_of_mem h) hparts]

end KafkaScript.Text
