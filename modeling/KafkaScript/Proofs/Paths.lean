import Mathlib.Data.List.Basic
import Mathlib.Data.List.Lex
import Mathlib.Data.List.Sort
import Mathlib.Data.List.TakeWhile
import KafkaScript.Proofs.Files

/-!
# Paths of what is in a directory

An entry of a directory has the path of the directory with its name after it, and the names that
lead further down follow one after the other (`Path.below`). Paths below the same directory are
ordered as the names are that lead there, first name first (`Path.comparePaths_below_eq_lt_iff`).
A path that can be looked up has only paths above it that can be looked up as well
(`Path.isUsable_of_join`).
-/

namespace KafkaScript

/-! ## Extensions -/

namespace Path

/-- A file name has an extension if that follows its last dot, and something stands
before this dot. -/
def HasExtension (name extension : Text) : Prop :=
  ∃ stem, stem ≠ [] ∧ '.' ∉ extension ∧ name = stem ++ '.' :: extension

theorem takeWhile_reverse {stem extension : Text} (h : '.' ∉ extension) :
    (stem ++ '.' :: extension).reverse.takeWhile (· != '.') = extension.reverse := by
  have hreverse : (stem ++ '.' :: extension).reverse = extension.reverse ++ '.' :: stem.reverse := by
    simp
  rw [hreverse, List.takeWhile_append_of_pos, List.takeWhile_cons_of_neg (by simp), List.append_nil]
  intro c hc
  have hne : c ≠ '.' := fun heq => h (heq ▸ List.mem_reverse.mp hc)
  simpa using hne

/-- What follows the last dot is the extension, unless nothing stands before it. -/
theorem extension?_append_cons {stem extension : Text} (h : '.' ∉ extension)
    (hname : stem ++ '.' :: extension ≠ ['.', '.']) :
    extension? (stem ++ '.' :: extension) = if stem = [] then none else some extension := by
  have hlength : (stem ++ '.' :: extension).length - extension.reverse.length = stem.length + 1 := by
    rw [List.length_append, List.length_cons, List.length_reverse]
    omega
  have hfront : stem.length + 1 ≤ 1 ↔ stem = [] := by
    rw [← List.length_eq_zero_iff]
    omega
  rw [extension?]
  simp only [takeWhile_reverse h, hlength, hname, false_or, hfront, List.reverse_reverse]

theorem extension?_eq_none {name : Text} (h : '.' ∉ name) : extension? name = none := by
  have htake : name.reverse.takeWhile (· != '.') = name.reverse := by
    apply List.takeWhile_eq_self_iff.mpr
    intro c hc
    have hne : c ≠ '.' := fun heq => h (heq ▸ List.mem_reverse.mp hc)
    simpa using hne
  rw [extension?]
  simp [htake]

theorem extension?_eq_some_iff {name extension : Text} (hname : name ≠ ['.', '.']) :
    extension? name = some extension ↔ HasExtension name extension := by
  constructor
  · intro h
    by_cases hdot : '.' ∈ name
    · -- cut at the last dot
      obtain ⟨back, front, hcut, hback⟩ := List.eq_append_cons_of_mem (List.mem_reverse.mpr hdot)
      have heq : name = front.reverse ++ '.' :: back.reverse := by
        rw [← List.reverse_reverse name, hcut]
        simp
      have hback' : '.' ∉ back.reverse := fun hmem => hback (List.mem_reverse.mp hmem)
      rw [heq] at hname
      rw [heq, extension?_append_cons hback' hname] at h
      obtain ⟨hstem, heq'⟩ := Option.ite_none_left_eq_some.mp h
      obtain rfl := Option.some.inj heq'
      exact ⟨front.reverse, hstem, hback', heq⟩
    · rw [extension?_eq_none hdot] at h
      contradiction
  · rintro ⟨stem, hstem, hextension, rfl⟩
    rw [extension?_append_cons hextension hname, if_neg hstem]

/-! ## Paths below a directory -/

/-- What an entry of a directory is called: a name that does not stand for a directory
itself. -/
structure IsEntryName (t : Text) : Prop extends IsName t where
  ne_current : t ≠ ['.']
  ne_parent : t ≠ ['.', '.']

instance (t : Text) : Decidable (IsEntryName t) :=
  decidable_of_iff ((t ≠ [] ∧ separator ∉ t) ∧ t ≠ ['.'] ∧ t ≠ ['.', '.'])
    ⟨fun ⟨⟨hne, hseparator⟩, hcurrent, hparent⟩ => ⟨⟨hne, hseparator⟩, hcurrent, hparent⟩,
      fun h => ⟨⟨h.ne_nil, h.separator⟩, h.ne_current, h.ne_parent⟩⟩

theorem IsEntryName.ofSegment? {t : Text} (h : IsEntryName t) :
    PathPart.ofSegment? t = some (.name t) := by
  rw [PathPart.ofSegment?, if_neg (not_or.mpr ⟨h.ne_nil, h.ne_current⟩), if_neg h.ne_parent]

/-- The path of what some names lead to from a directory. -/
def below (base : Text) (names : List Text) : Text :=
  names.foldl join base

/-- A part without a slash comes last. -/
theorem parts_append_cons (base : Text) {t : Text} (h : separator ∉ t) :
    parts (base ++ separator :: t) = parts (base ++ [separator]) ++ (PathPart.ofSegment? t).toList := by
  have habsolute : isAbsolute (base ++ separator :: t) = isAbsolute (base ++ [separator]) := by
    rw [isAbsolute, isAbsolute, List.head?_append, List.head?_append]
    rfl
  have hhead : ∀ u : Text, ((base ++ separator :: u).splitAll separator).head? =
      (base.splitAll separator).head? := by
    intro u
    rw [Text.splitAll_append_cons, List.head?_append_of_ne_nil _ (Text.splitAll_ne_nil _ _)]
  have hnamed : ∀ u : Text, separator ∉ u →
      ((base ++ separator :: u).splitAll separator).filterMap PathPart.ofSegment? =
        (base.splitAll separator).filterMap PathPart.ofSegment? ++ (PathPart.ofSegment? u).toList := by
    intro u hu
    rw [Text.splitAll_append_cons, Text.splitAll_of_not_mem hu, List.filterMap_append]
    cases hsegment : PathPart.ofSegment? u <;> simp [hsegment]
  have hempty : PathPart.ofSegment? [] = none := rfl
  simp only [parts, habsolute, hhead, hnamed t h, hnamed [] List.not_mem_nil, hempty,
    Option.toList_none, List.append_nil]
  split
  · rfl
  · split <;> rfl

/-- A slash at the end means nothing. -/
theorem parts_append_separator {base : Text} (h : base ≠ []) :
    parts (base ++ [separator]) = parts base := by
  have habsolute : isAbsolute (base ++ [separator]) = isAbsolute base := by
    rw [isAbsolute, isAbsolute, List.head?_append_of_ne_nil _ h]
  have hsegments : (base ++ [separator]).splitAll separator = base.splitAll separator ++ [[]] :=
    Text.splitAll_append_cons base []
  have hhead : (base.splitAll separator ++ [[]]).head? = (base.splitAll separator).head? :=
    List.head?_append_of_ne_nil _ (Text.splitAll_ne_nil _ _)
  have hnamed : (base.splitAll separator ++ [[]]).filterMap PathPart.ofSegment? =
      (base.splitAll separator).filterMap PathPart.ofSegment? := by
    rw [List.filterMap_append]
    exact List.append_nil _
  simp only [parts, habsolute, hsegments, hhead, hnamed]

/-- The name stands behind a slash, which the base may have brought with it. -/
theorem exists_join {base name : Text} (hbase : base ≠ []) (hname : IsEntryName name) :
    ∃ front, join base name = front ++ separator :: name ∧
      (base = front ∨ base = front ++ [separator]) := by
  have habsolute : isAbsolute name = false := by
    cases name with
    | nil => rfl
    | cons c rest =>
      have hc : c ≠ separator := fun heq => hname.separator (heq ▸ List.mem_cons_self)
      simpa [isAbsolute] using hc
  rw [join, habsolute, List.isEmpty_eq_false_iff.mpr hbase, Bool.or_self, if_neg Bool.false_ne_true]
  split
  · next hlast =>
    obtain ⟨front, rfl⟩ := List.getLast?_eq_some_iff.mp (beq_iff_eq.mp hlast)
    exact ⟨front, List.append_assoc _ _ _, .inr rfl⟩
  · exact ⟨base, rfl, .inl rfl⟩

theorem join_ne_nil {base name : Text} (hbase : base ≠ []) (hname : IsEntryName name) :
    join base name ≠ [] := by
  obtain ⟨front, hjoin, -⟩ := exists_join hbase hname
  simp [hjoin]

theorem parts_join {base name : Text} (hbase : base ≠ []) (hname : IsEntryName name) :
    parts (join base name) = parts base ++ [.name name] := by
  have hpart : (PathPart.ofSegment? name).toList = [.name name] := by rw [hname.ofSegment?]; rfl
  obtain ⟨front, hjoin, hfront⟩ := exists_join hbase hname
  rw [hjoin, parts_append_cons front hname.separator, hpart]
  rcases hfront with rfl | rfl
  · rw [parts_append_separator hbase]
  · rfl

@[simp] theorem below_nil (base : Text) : below base [] = base := rfl

theorem below_concat (base : Text) (names : List Text) (name : Text) :
    below base (names ++ [name]) = join (below base names) name :=
  List.foldl_concat join base name names

theorem parts_below {base : Text} (hbase : base ≠ []) {names : List Text}
    (hnames : ∀ name ∈ names, IsEntryName name) :
    parts (below base names) = parts base ++ names.map .name := by
  induction names generalizing base with
  | nil => simp [below]
  | cons name names ih =>
    obtain ⟨hname, hnames⟩ := List.forall_mem_cons.mp hnames
    rw [below, List.foldl_cons, ← below, ih (join_ne_nil hbase hname) hnames, parts_join hbase hname]
    simp

theorem below_ne_nil {base : Text} (hbase : base ≠ []) {names : List Text}
    (hnames : ∀ name ∈ names, IsEntryName name) : below base names ≠ [] := by
  induction names generalizing base with
  | nil => exact hbase
  | cons name names ih =>
    obtain ⟨hname, hnames⟩ := List.forall_mem_cons.mp hnames
    exact ih (join_ne_nil hbase hname) hnames

/-! ## Paths that can be looked up -/

theorem isUsable_iff {p : Text} : isUsable p = true ↔ p ≠ [] ∧ '\x00' ∉ p ∧ p.utf8Size ≤ maxBytes ∧
    ∀ segment ∈ p.splitAll separator, segment.utf8Size ≤ maxNameBytes := by
  simp [isUsable, and_assoc]

/-- The path of a directory can be looked up if that of an entry can. -/
theorem isUsable_of_join {base name : Text} (hbase : base ≠ []) (hname : IsEntryName name)
    (h : isUsable (join base name) = true) : isUsable base = true := by
  obtain ⟨front, hjoin, hfront⟩ := exists_join hbase hname
  rw [hjoin, isUsable_iff, Text.splitAll_append_cons] at h
  obtain ⟨-, hnull, hsize, hsegments⟩ := h
  have hbefore : ∀ segment ∈ front.splitAll separator, segment.utf8Size ≤ maxNameBytes :=
    fun segment hmem => hsegments segment (List.mem_append_left _ hmem)
  rw [Text.utf8Size_append, Text.utf8Size_cons] at hsize
  refine isUsable_iff.mpr ⟨hbase, ?_⟩
  rcases hfront with rfl | rfl
  · exact ⟨fun hmem => hnull (List.mem_append_left _ hmem), by omega, hbefore⟩
  · refine ⟨fun hmem => hnull ?_, ?_, ?_⟩
    · rw [List.append_cons]
      exact List.mem_append_left _ hmem
    · rw [Text.utf8Size_append, Text.utf8Size_cons, Text.utf8Size_nil]
      omega
    · -- behind the slash at its end the base has an empty segment
      rw [Text.splitAll_append_cons]
      intro segment hmem
      rcases List.mem_append.mp hmem with hmem | hmem
      · exact hbefore segment hmem
      · obtain rfl := List.mem_singleton.mp hmem
        exact Nat.zero_le _

/-! ## The order of paths -/

section Lexicographic

variable {α : Type} {cmp : α → α → Ordering}

theorem compareLex_append (hrefl : ∀ a, cmp a a = .eq) (front l m : List α) :
    List.compareLex cmp (front ++ l) (front ++ m) = List.compareLex cmp l m := by
  induction front with
  | nil => rfl
  | cons a front ih => simp [List.compareLex_cons_cons, hrefl, ih]

theorem compareLex_map {β : Type} (f : β → α) (l m : List β) :
    List.compareLex cmp (l.map f) (m.map f) = List.compareLex (fun a b => cmp (f a) (f b)) l m := by
  induction l generalizing m with
  | nil => cases m <;> rfl
  | cons a l ih =>
    cases m with
    | nil => rfl
    | cons b m => simp only [List.map_cons, List.compareLex_cons_cons, ih]

/-- Comparing item by item is the order of lists, if items are compared by their order. -/
theorem compareLex_eq_lt_iff [LT α] (hlt : ∀ a b, cmp a b = .lt ↔ a < b)
    (heq : ∀ a b, cmp a b = .eq ↔ a = b) (l m : List α) :
    List.compareLex cmp l m = .lt ↔ l < m := by
  induction l generalizing m with
  | nil => cases m <;> simp [List.compareLex]
  | cons a l ih =>
    cases m with
    | nil => simp [List.compareLex]
    | cons b m =>
      rw [List.compareLex_cons_cons, Ordering.then_eq_lt, hlt, heq, ih, List.cons_lt_cons_iff]

theorem compareLex_eq_eq_iff (heq : ∀ a b, cmp a b = .eq ↔ a = b) (l m : List α) :
    List.compareLex cmp l m = .eq ↔ l = m := by
  induction l generalizing m with
  | nil => cases m <;> simp [List.compareLex]
  | cons a l ih =>
    cases m with
    | nil => simp [List.compareLex]
    | cons b m => rw [List.compareLex_cons_cons, Ordering.then_eq_eq, heq, ih, List.cons.injEq]

end Lexicographic

theorem compareNumbers_eq_lt_iff (m n : Nat) : PathPart.compareNumbers m n = .lt ↔ m < n := by
  rw [PathPart.compareNumbers]
  split
  · simpa
  · split <;> simp_all

theorem compareNumbers_eq_eq_iff (m n : Nat) : PathPart.compareNumbers m n = .eq ↔ m = n := by
  rw [PathPart.compareNumbers]
  split
  · simp
    omega
  · split <;> simp_all

/-- Names are compared character by character. -/
theorem compareParts_name (s t : Text) : PathPart.compareParts (.name s) (.name t) =
    List.compareLex (fun c d => PathPart.compareNumbers c.toNat d.toNat) s t := by
  rw [PathPart.compareParts, PathPart.sortKey, PathPart.sortKey, List.compareLex_cons_cons,
    (compareNumbers_eq_eq_iff 3 3).mpr rfl, compareLex_map]
  rfl

theorem compareParts_name_eq_lt_iff (s t : Text) :
    PathPart.compareParts (.name s) (.name t) = .lt ↔ s < t := by
  rw [compareParts_name, compareLex_eq_lt_iff]
  · exact fun c d => compareNumbers_eq_lt_iff c.toNat d.toNat
  · exact fun c d => (compareNumbers_eq_eq_iff c.toNat d.toNat).trans Char.toNat_inj

theorem compareParts_name_eq_eq_iff (s t : Text) :
    PathPart.compareParts (.name s) (.name t) = .eq ↔ s = t := by
  rw [compareParts_name]
  exact compareLex_eq_eq_iff
    (fun c d => (compareNumbers_eq_eq_iff c.toNat d.toNat).trans Char.toNat_inj) s t

theorem compareParts_self (p : PathPart) : PathPart.compareParts p p = .eq :=
  (compareLex_eq_eq_iff compareNumbers_eq_eq_iff _ _).mpr rfl

section Below

variable {base : Text} {ns ms : List Text}

theorem comparePaths_below (hbase : base ≠ []) (hns : ∀ n ∈ ns, IsEntryName n)
    (hms : ∀ n ∈ ms, IsEntryName n) : comparePaths (below base ns) (below base ms) =
      List.compareLex (fun s t => PathPart.compareParts (.name s) (.name t)) ns ms := by
  rw [comparePaths, parts_below hbase hns, parts_below hbase hms,
    compareLex_append compareParts_self, compareLex_map]

/-- Of two paths below a directory, that one comes first whose names do. -/
theorem comparePaths_below_eq_lt_iff (hbase : base ≠ []) (hns : ∀ n ∈ ns, IsEntryName n)
    (hms : ∀ n ∈ ms, IsEntryName n) :
    comparePaths (below base ns) (below base ms) = .lt ↔ ns < ms := by
  rw [comparePaths_below hbase hns hms,
    compareLex_eq_lt_iff compareParts_name_eq_lt_iff compareParts_name_eq_eq_iff]

theorem comparePaths_below_eq_eq_iff (hbase : base ≠ []) (hns : ∀ n ∈ ns, IsEntryName n)
    (hms : ∀ n ∈ ms, IsEntryName n) :
    comparePaths (below base ns) (below base ms) = .eq ↔ ns = ms := by
  rw [comparePaths_below hbase hns hms, compareLex_eq_eq_iff compareParts_name_eq_eq_iff]

end Below

instance : Std.TransCmp PathPart.compareNumbers where
  eq_swap {m n} := by
    rcases Nat.lt_trichotomy m n with h | h | h <;>
      simp [PathPart.compareNumbers, h, Nat.not_lt_of_gt, Nat.ne_of_gt]
  isLE_trans {m n k} hmn hnk := by
    rw [Ordering.isLE_iff_eq_lt_or_eq_eq, compareNumbers_eq_lt_iff, compareNumbers_eq_eq_iff] at *
    omega

/-- What is compared by keys is ordered if the keys are. -/
theorem transCmp_of_key {α β : Type} {cmp : β → β → Ordering} [Std.TransCmp cmp] (f : α → β) :
    Std.TransCmp fun a b => cmp (f a) (f b) where
  eq_swap := Std.OrientedCmp.eq_swap
  isLE_trans := Std.TransCmp.isLE_trans

instance : Std.TransCmp PathPart.compareParts :=
  transCmp_of_key PathPart.sortKey

instance : Std.TransCmp comparePaths :=
  transCmp_of_key parts

theorem eq_of_below_eq {base : Text} {ns ms : List Text} (hbase : base ≠ [])
    (hns : ∀ n ∈ ns, IsEntryName n) (hms : ∀ n ∈ ms, IsEntryName n)
    (h : below base ns = below base ms) : ns = ms := by
  refine (comparePaths_below_eq_eq_iff hbase hns hms).mp ?_
  rw [h]
  exact Std.ReflCmp.compare_self

theorem pairwise_sort (ps : List Text) :
    (sort ps).Pairwise fun p q => (comparePaths p q).isLE = true := by
  apply List.pairwise_mergeSort
  · exact fun _ _ _ => Std.TransCmp.isLE_trans
  · intro p q
    have hswap : comparePaths q p = (comparePaths p q).swap := Std.OrientedCmp.eq_swap
    rw [hswap]
    cases comparePaths p q <;> rfl

end Path

end KafkaScript
