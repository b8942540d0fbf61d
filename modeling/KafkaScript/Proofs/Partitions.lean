import Mathlib.Data.Finset.Sort
import Mathlib.Order.Interval.Finset.Nat
import KafkaScript.Command
import KafkaScript.Proofs.Text.Numeral
import KafkaScript.Proofs.Text.Parts

/-!
# Lists of partitions

A list of partitions is a set: it stands for the numbers that its parts name, in
whatever order they are given and however often (`mem_parsePartitions_iff`), and
its numbers come out in strictly ascending order. Strictly ascending lists with
the same members are equal, so what two lists make up together and what a list is
when it is written out again both follow from the members alone.

Nothing overflows on the way. `parsePartitions?` does the same with arithmetic
that gives up outside of 32 bits, and never has to (`parsePartitions?_eq`): a
difference is taken only where the range runs forwards, and a successor only
below the end of a range.
-/

namespace KafkaScript

variable {t part first last : Text} {p a b : Nat}

/-! ## The numbers of a part -/

/-- The text is a numeral of a number of 32 bits. -/
def IsPartition (t : Text) (p : Nat) : Prop :=
  Decimal.Denotes t p ∧ p ≤ maxUInt32

/-- A part names a partition: it is the number of it, or a range that is not too
wide and has the number in it. -/
inductive NamesPartition (part : Text) (p : Nat) : Prop where
  | single (no_dash : '-' ∉ part) (number : IsPartition part p)
  | range {first last : Text} {a b : Nat} (cut : part = first ++ '-' :: last)
      (no_dash : '-' ∉ first) (start : IsPartition first.trim a) (stop : IsPartition last.trim b)
      (forwards : a ≤ b) (narrow : (Finset.Icc a b).card ≤ maxPartitionSpan)
      (within : p ∈ Finset.Icc a b)

theorem readPartition?_eq_some_iff : readPartition? t = some p ↔ IsPartition t p := by
  unfold readPartition? IsPartition
  rw [← Decimal.read_eq_ok_iff]
  cases Decimal.read maxUInt32 t with
  | error e => simp [Except.toOption]
  | ok n => simp [Except.toOption]

theorem partitionsOfPart_of_not_mem (h : '-' ∉ part) :
    partitionsOfPart part = (readPartition? part).toList := by
  rw [partitionsOfPart, Text.splitFirst_eq_none_iff.mpr h]

theorem mem_partitionsOfPart_range (h : '-' ∉ first) :
    p ∈ partitionsOfPart (first ++ '-' :: last) ↔
      ∃ a b, IsPartition first.trim a ∧ IsPartition last.trim b ∧ a ≤ b ∧
        (Finset.Icc a b).card ≤ maxPartitionSpan ∧ p ∈ Finset.Icc a b := by
  simp only [← readPartition?_eq_some_iff, Nat.card_Icc, Finset.mem_Icc]
  rw [partitionsOfPart, Text.splitFirst_append_cons h]
  dsimp only
  split
  · next a b ha hb =>
    simp only [ha, hb, Option.some.injEq, exists_and_left, exists_eq_left']
    split
    · rw [List.mem_range'_1]
      omega
    · simp only [List.not_mem_nil, false_iff]
      omega
  · next hnone =>
    simp only [List.not_mem_nil, false_iff]
    rintro ⟨a, b, ha, hb, -⟩
    exact hnone a b ha hb

theorem mem_partitionsOfPart_iff : p ∈ partitionsOfPart part ↔ NamesPartition part p := by
  constructor
  · intro h
    by_cases hdash : '-' ∈ part
    · obtain ⟨first, last, rfl, hfirst⟩ := List.eq_append_cons_of_mem hdash
      obtain ⟨a, b, ha, hb, hle, hcard, hp⟩ := (mem_partitionsOfPart_range hfirst).mp h
      exact .range rfl hfirst ha hb hle hcard hp
    · rw [partitionsOfPart_of_not_mem hdash, Option.mem_toList] at h
      exact .single hdash (readPartition?_eq_some_iff.mp h)
  · intro h
    cases h with
    | single hdash hp =>
      rw [partitionsOfPart_of_not_mem hdash, Option.mem_toList]
      exact readPartition?_eq_some_iff.mpr hp
    | range hcut hdash ha hb hle hcard hp =>
      subst hcut
      exact (mem_partitionsOfPart_range hdash).mpr ⟨_, _, ha, hb, hle, hcard, hp⟩

theorem not_namesPartition_nil : ¬ NamesPartition [] p := by
  rw [← mem_partitionsOfPart_iff]
  exact List.not_mem_nil

theorem NamesPartition.le (h : NamesPartition part p) : p ≤ maxUInt32 := by
  cases h with
  | single _ hp => exact hp.2
  | range _ _ _ hb _ _ hp => exact (Finset.mem_Icc.mp hp).2.trans hb.2

/-- A part that is a number without anything around it names that number alone. -/
theorem namesPartition_print (h : a ≤ maxUInt32) :
    NamesPartition (Decimal.print a).trim p ↔ p = a := by
  have hdash : '-' ∉ Decimal.print a := fun hmem =>
    absurd (Decimal.isDigit_of_mem_print hmem) (by decide)
  have hread := readPartition?_eq_some_iff.mpr ⟨Decimal.denotes_print a, h⟩
  rw [Decimal.trim_print, ← mem_partitionsOfPart_iff, partitionsOfPart_of_not_mem hdash, hread]
  simp

/-! ## Order -/

theorem mem_dropRepeats {l : List Nat} : p ∈ dropRepeats l ↔ p ∈ l := by
  fun_induction dropRepeats l with
  | case1 a rest ih => simp [ih]
  | case2 a b rest hab ih => simp [ih]
  | case3 l hl => rfl

theorem pairwise_dropRepeats {l : List Nat} (h : l.Pairwise (· ≤ ·)) :
    (dropRepeats l).Pairwise (· < ·) := by
  fun_induction dropRepeats l with
  | case1 a rest ih => exact ih h.of_cons
  | case2 a b rest hab ih =>
    obtain ⟨ha, htail⟩ := List.pairwise_cons.mp h
    refine List.pairwise_cons.mpr ⟨fun x hx => ?_, ih htail⟩
    have hle : a ≤ b := ha b List.mem_cons_self
    rcases List.mem_cons.mp (mem_dropRepeats.mp hx) with rfl | hrest
    · omega
    · have := (List.pairwise_cons.mp htail).1 x hrest
      omega
  | case3 l hl =>
    -- no two elements are left to compare
    cases l with
    | nil => exact .nil
    | cons a rest =>
      cases rest with
      | nil => exact List.pairwise_singleton _ a
      | cons b rest => exact (hl a b rest rfl).elim

theorem pairwise_parsePartitions (t : Text) : (parsePartitions t).Pairwise (· < ·) :=
  pairwise_dropRepeats List.sortedLE_mergeSort.pairwise

theorem mem_parsePartitions_iff :
    p ∈ parsePartitions t ↔ ∃ part ∈ t.splitAll ',', NamesPartition part.trim p := by
  simp only [parsePartitions, mem_dropRepeats, List.mem_mergeSort, List.mem_flatMap,
    List.mem_filter, List.mem_map, ← mem_partitionsOfPart_iff]
  constructor
  · rintro ⟨_, ⟨⟨part, hpart, rfl⟩, -⟩, hp⟩
    exact ⟨part, hpart, hp⟩
  · rintro ⟨part, hpart, hp⟩
    refine ⟨part.trim, ⟨⟨part, hpart, rfl⟩, ?_⟩, hp⟩
    -- a part that is left out for being empty names nothing
    cases hempty : part.trim with
    | nil =>
      rw [hempty, mem_partitionsOfPart_iff] at hp
      exact (not_namesPartition_nil hp).elim
    | cons c rest => rfl

example : parsePartitions "4, 1, 1-3, +02, 9-7".toList = [1, 2, 3, 4] := by cbv

/-- A list of partitions is told by its members. -/
theorem parsePartitions_eq_of_mem {l : List Nat} (hl : l.Pairwise (· < ·))
    (h : ∀ p, p ∈ parsePartitions t ↔ p ∈ l) : parsePartitions t = l :=
  (pairwise_parsePartitions t).eq_of_mem_iff hl h

/-! ## Written out again -/

/-- Numbers with commas between them are read as these numbers. -/
theorem mem_parsePartitions_join {l : List Nat} (hl : ∀ a ∈ l, a ≤ maxUInt32) :
    p ∈ parsePartitions (Text.join [','] (l.map Decimal.print)) ↔ p ∈ l := by
  rw [mem_parsePartitions_iff]
  by_cases hne : l = []
  · subst hne
    -- nothing between no commas is one empty part
    simp only [List.not_mem_nil, iff_false]
    rintro ⟨part, hpart, hp⟩
    obtain rfl : part = [] := List.mem_singleton.mp hpart
    exact not_namesPartition_nil hp
  · have hcomma : ∀ part ∈ l.map Decimal.print, ',' ∉ part := by
      intro part hpart hmem
      obtain ⟨a, -, rfl⟩ := List.mem_map.mp hpart
      exact absurd (Decimal.isDigit_of_mem_print hmem) (by decide)
    rw [Text.splitAll_join (by simpa using hne) hcomma]
    constructor
    · rintro ⟨_, hpart, hp⟩
      obtain ⟨a, ha, rfl⟩ := List.mem_map.mp hpart
      rwa [(namesPartition_print (hl a ha)).mp hp]
    · intro hp
      exact ⟨Decimal.print p, List.mem_map_of_mem hp, (namesPartition_print (hl p hp)).mpr rfl⟩

/-! ## Arithmetic of 32 bits -/

/-- The number, if it has 32 bits. -/
def uint32? (n : Int) : Option Nat :=
  if 0 ≤ n ∧ n ≤ maxUInt32 then some n.toNat else none

/-- The number and the `n` numbers after it. -/
def countUp? (a : Nat) : Nat → Option (List Nat)
  | 0 => some [a]
  | n + 1 => do
    let next ← uint32? (a + 1)
    let rest ← countUp? next n
    return a :: rest

/-- The numbers from `a` to `b`, unless they are too many or run backwards. -/
def partitionsBetween? (a b : Nat) : Option (List Nat) :=
  if a ≤ b then do
    let steps ← uint32? (b - a)
    if steps < maxPartitionSpan then countUp? a steps else some []
  else some []

/-- The numbers of one part of a partition list. -/
def partitionsOfPart? (part : Text) : Option (List Nat) :=
  match part.splitFirst '-' with
  | none => some (readPartition? part).toList
  | some (first, last) =>
    match readPartition? first.trim, readPartition? last.trim with
    | some a, some b => partitionsBetween? a b
    | _, _ => some []

/-- Reads partition numbers and ranges with commas between them. -/
def parsePartitions? (t : Text) : Option (List Nat) := do
  let parts := ((t.splitAll ',').map Text.trim).filter fun part => !part.isEmpty
  let numbers ← parts.mapM partitionsOfPart?
  return dropRepeats (numbers.flatten.mergeSort (· ≤ ·))

theorem uint32?_natCast (h : a ≤ maxUInt32) : uint32? a = some a := by
  rw [uint32?, if_pos ⟨Int.natCast_nonneg a, Int.ofNat_le.mpr h⟩, Int.toNat_natCast]

/-- Counting stays within 32 bits if its last number does. -/
theorem countUp?_eq {n : Nat} (h : a + n ≤ maxUInt32) :
    countUp? a n = some (List.range' a (n + 1)) := by
  induction n generalizing a with
  | zero => rfl
  | succ n ih =>
    have hnext : uint32? (a + 1) = some (a + 1) := uint32?_natCast (a := a + 1) (by omega)
    rw [countUp?, hnext, Option.bind_eq_bind, Option.bind_some, ih (by omega)]
    rfl

theorem partitionsBetween?_eq (hb : b ≤ maxUInt32) :
    partitionsBetween? a b =
      some (if a ≤ b ∧ b - a < maxPartitionSpan then List.range' a (b + 1 - a) else []) := by
  unfold partitionsBetween?
  by_cases hle : a ≤ b
  · have hsteps : uint32? (b - a) = some (b - a) := by
      rw [← Int.natCast_sub hle]
      exact uint32?_natCast (by omega)
    have hcount := countUp?_eq (a := a) (n := b - a) (by omega)
    simp only [hle, hsteps, hcount, if_true, true_and, Option.bind_eq_bind, Option.bind_some,
      Nat.sub_add_comm hle]
    split <;> rfl
  · simp [hle]

theorem partitionsOfPart?_eq (part : Text) :
    partitionsOfPart? part = some (partitionsOfPart part) := by
  unfold partitionsOfPart? partitionsOfPart
  cases part.splitFirst '-' with
  | none => rfl
  | some cut =>
    dsimp only
    cases readPartition? cut.1.trim with
    | none => rfl
    | some a =>
      cases hb : readPartition? cut.2.trim with
      | none => rfl
      | some b => exact partitionsBetween?_eq (readPartition?_eq_some_iff.mp hb).2

/-- No step of the arithmetic leaves the 32 bits. -/
theorem parsePartitions?_eq (t : Text) : parsePartitions? t = some (parsePartitions t) := by
  have hparts : partitionsOfPart? = fun part => pure (partitionsOfPart part) :=
    funext partitionsOfPart?_eq
  rw [parsePartitions?, hparts, List.mapM_pure]
  simp [parsePartitions, List.flatMap_def]

/-! ## Lists as sets -/

/-- Two lists with a comma between them stand for the numbers of both. -/
theorem parsePartitions_append (t u : Text) : parsePartitions (t ++ ',' :: u) =
    ((parsePartitions t).toFinset ∪ (parsePartitions u).toFinset).sort (· ≤ ·) := by
  apply parsePartitions_eq_of_mem (Finset.sortedLT_sort _).pairwise
  intro p
  simp only [Finset.mem_sort, Finset.mem_union, List.mem_toFinset, mem_parsePartitions_iff,
    Text.splitAll_append_cons, List.mem_append, or_and_right, exists_or]

/-- What has been read is read again when it is written out. -/
theorem parsePartitions_join (t : Text) :
    parsePartitions (Text.join [','] ((parsePartitions t).map Decimal.print)) =
      parsePartitions t := by
  apply parsePartitions_eq_of_mem (pairwise_parsePartitions t)
  intro p
  refine mem_parsePartitions_join fun a ha => ?_
  obtain ⟨part, -, hp⟩ := mem_parsePartitions_iff.mp ha
  exact hp.le

/-- What is asked of reading a text as a list of partitions. -/
structure ReadsPartitions (t : Text) : Prop where
  /-- Nothing overflows. -/
  checked : parsePartitions? t = some (parsePartitions t)
  ascending : (parsePartitions t).Pairwise (· < ·)
  mem_iff : ∀ p, p ∈ parsePartitions t ↔ ∃ part, Text.IsPart ',' t part ∧ NamesPartition part.trim p
  append : ∀ u, parsePartitions (t ++ ',' :: u) =
    ((parsePartitions t).toFinset ∪ (parsePartitions u).toFinset).sort (· ≤ ·)
  again : parsePartitions (Text.join [','] ((parsePartitions t).map Decimal.print)) =
    parsePartitions t

/-- Every text is read as a list of partitions. -/
theorem readsPartitions (t : Text) : ReadsPartitions t where
  checked := parsePartitions?_eq t
  ascending := pairwise_parsePartitions t
  mem_iff := fun p => by
    rw [mem_parsePartitions_iff]
    simp only [Text.mem_splitAll_iff]
  append := parsePartitions_append t
  again := parsePartitions_join t

end KafkaScript
