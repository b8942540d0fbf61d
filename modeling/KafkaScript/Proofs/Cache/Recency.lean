import Mathlib.Data.List.Nodup
import KafkaScript.Proofs.Cache.Entries

/-!
# The order of use

`Cache.recency` lists the addresses of a cache by their last use, the latest use
first, as maintenance would account for the uses noted so far. Each note moves one
address to the front (`Cache.toFront`), so of the notes of an address only the last
one matters (`Cache.foldl_toFront_congr`).

A cache without an interval is `Steady` between two operations. Maintenance then
changes neither its entries nor their order (`Cache.Steady.same_maintain`), so it
does not matter when it comes about.
-/

namespace KafkaScript

theorem CacheOptions.capacity_pos (o : CacheOptions) : 0 < o.capacity :=
  Nat.le_max_right _ _

namespace Cache

/-! ## Moving to the front -/

/-- The addresses with one of them first, if it is among them. -/
def toFront (uris : List Text) (uri : Text) : List Text :=
  uris.filter (· == uri) ++ uris.filter (· != uri)

theorem filter_eq_of_not_mem {uris : List Text} {u : Text} (h : u ∉ uris) :
    uris.filter (· == u) = [] := by
  rw [List.filter_eq_nil_iff]
  intro x hx heq
  exact h (eq_of_beq heq ▸ hx)

theorem filter_ne_of_not_mem {uris : List Text} {u : Text} (h : u ∉ uris) :
    uris.filter (· != u) = uris := by
  rw [List.filter_eq_self]
  intro x hx
  rw [bne_iff_ne]
  rintro rfl
  exact h hx

theorem toFront_of_not_mem {uris : List Text} {u : Text} (h : u ∉ uris) :
    toFront uris u = uris := by
  rw [toFront, filter_eq_of_not_mem h, filter_ne_of_not_mem h, List.nil_append]

theorem toFront_perm (uris : List Text) (u : Text) : (toFront uris u).Perm uris :=
  List.filter_append_perm _ _

theorem filter_ne_toFront (uris : List Text) (u v : Text) :
    (toFront uris v).filter (· != u) = toFront (uris.filter (· != u)) v := by
  simp only [toFront, List.filter_append, List.filter_filter, Bool.and_comm]

theorem foldl_toFront_perm (notes uris : List Text) : (notes.foldl toFront uris).Perm uris := by
  induction notes generalizing uris with
  | nil => exact .refl _
  | cons v notes ih => exact (ih (toFront uris v)).trans (toFront_perm uris v)

/-- What is noted moves one address, and leaves the order of the others to the
other notes. -/
theorem filter_ne_foldl_toFront (notes uris : List Text) (u : Text) :
    (notes.foldl toFront uris).filter (· != u) = notes.foldl toFront (uris.filter (· != u)) := by
  induction notes generalizing uris with
  | nil => rfl
  | cons v notes ih => rw [List.foldl_cons, ih, filter_ne_toFront, List.foldl_cons]

theorem foldl_toFront_of_not_mem {uris : List Text} {u : Text} (h : u ∉ uris)
    (notes : List Text) :
    notes.foldl toFront uris = (notes.filter (· != u)).foldl toFront uris := by
  induction notes generalizing uris with
  | nil => rfl
  | cons v notes ih =>
    have hmem : u ∉ toFront uris v := fun hu => h ((toFront_perm uris v).subset hu)
    rw [List.foldl_cons, ih hmem, List.filter_cons]
    by_cases hv : v = u
    · subst hv
      simp [toFront_of_not_mem h]
    · simp [hv]

/-- The last note decides where its address stands. -/
theorem foldl_toFront_concat (notes uris : List Text) (u : Text) :
    (notes ++ [u]).foldl toFront uris =
      uris.filter (· == u) ++ (notes.filter (· != u)).foldl toFront (uris.filter (· != u)) := by
  have hmem : u ∉ uris.filter (· != u) := by simp
  rw [List.foldl_append, List.foldl_cons, List.foldl_nil, toFront, filter_ne_foldl_toFront,
    foldl_toFront_of_not_mem hmem, List.filter_beq, List.filter_beq,
    (foldl_toFront_perm notes uris).count_eq]

/-- Notes of an address before its last one do not matter. -/
theorem foldl_toFront_congr {notes notes' uris : List Text} {u : Text}
    (h : notes.filter (· != u) = notes'.filter (· != u)) :
    (notes ++ [u]).foldl toFront uris = (notes' ++ [u]).foldl toFront uris := by
  rw [foldl_toFront_concat, h, ← foldl_toFront_concat]

/-- An address that is noted last stands in front. -/
theorem foldl_toFront_last {uris : List Text} {u : Text} (hnodup : uris.Nodup) (h : u ∈ uris)
    (notes : List Text) : (notes ++ [u]).foldl toFront uris =
      u :: (notes.foldl toFront uris).filter (· != u) := by
  have hperm := foldl_toFront_perm notes uris
  have hfront : (notes.foldl toFront uris).filter (· == u) = [u] := by
    rw [List.filter_beq, (hperm.nodup_iff.mpr hnodup).count, if_pos (hperm.mem_iff.mpr h)]
    rfl
  rw [List.foldl_append, List.foldl_cons, List.foldl_nil, toFront, hfront, List.singleton_append]

/-- So does one that has come in. -/
theorem foldl_toFront_new {uris : List Text} {u : Text} (h : u ∉ uris) (notes : List Text) :
    (notes ++ [u]).foldl toFront (u :: uris) = u :: notes.foldl toFront uris := by
  have hfront : (u :: uris).filter (· == u) = [u] := by
    rw [List.filter_cons_of_pos (by simp), filter_eq_of_not_mem h]
  have hothers : (u :: uris).filter (· != u) = uris := by
    rw [List.filter_cons_of_neg (by simp), filter_ne_of_not_mem h]
  rw [foldl_toFront_concat, hfront, hothers, ← foldl_toFront_of_not_mem h, List.singleton_append]

/-! ## Recency -/

variable {α : Type} {c next : Cache α} {uri : Text}

/-- The addresses of a cache by their last use, the latest first. -/
def recency (c : Cache α) : List Text :=
  c.settle.entries.map (·.uri)

theorem map_uri_promote (entries : List (CacheEntry α)) (uri : Text) :
    (promote entries uri).map (·.uri) = toFront (entries.map (·.uri)) uri := by
  rw [promote, others, List.map_append, toFront, List.filter_map, List.filter_map]
  rfl

theorem map_uri_foldl_promote (notes : List Text) (entries : List (CacheEntry α)) :
    (notes.foldl promote entries).map (·.uri) = notes.foldl toFront (entries.map (·.uri)) := by
  induction notes generalizing entries with
  | nil => rfl
  | cons uri notes ih => rw [List.foldl_cons, ih, map_uri_promote, List.foldl_cons]

theorem recency_eq (c : Cache α) :
    c.recency = (c.requested ++ c.stored).foldl toFront (c.entries.map (·.uri)) :=
  map_uri_foldl_promote _ _

theorem recency_perm (c : Cache α) : c.recency.Perm (c.entries.map (·.uri)) := by
  rw [recency_eq]
  exact foldl_toFront_perm _ _

/-! ## Caches without an interval -/

/-- A cache without an interval: no entry has lapsed, and no address has two. -/
structure Orderly (c : Cache α) : Prop where
  interval : c.options.interval = none
  sweeping : c.sweeping = false
  nodup : (c.entries.map (·.uri)).Nodup
  live : ∀ e ∈ c.entries, e.lapsed = false
  serials : ∀ e ∈ c.entries, e.stored.serial < c.reads

/-- Such a cache between two operations. It keeps to its bound, and for each
store that is noted a request is. -/
structure Steady (c : Cache α) : Prop extends Orderly c where
  bounded : c.entries.length ≤ c.options.capacity
  notes : c.stored.length ≤ c.requested.length

theorem Orderly.nodup_recency (h : c.Orderly) : c.recency.Nodup :=
  (recency_perm c).nodup_iff.mpr h.nodup

theorem Orderly.entries_maintain (h : c.Orderly) :
    c.maintain.1.entries = c.settle.entries.take c.options.capacity := by
  rw [Cache.entries_maintain, List.filter_eq_self.mpr]
  intro e he
  rw [h.live e (mem_settle.mp he)]
  rfl

theorem Orderly.recency_maintain (h : c.Orderly) :
    c.maintain.1.recency = c.recency.take c.options.capacity := by
  show c.maintain.1.entries.map _ = _
  rw [h.entries_maintain, List.map_take]
  rfl

theorem Orderly.maintain (h : c.Orderly) : c.maintain.1.Steady where
  interval := h.interval
  sweeping := h.sweeping
  nodup := by
    rw [h.entries_maintain, List.map_take]
    exact h.nodup_recency.take
  live := fun e he => h.live e (entries_maintain_subset c he)
  serials := fun e he => h.serials e (entries_maintain_subset c he)
  bounded := by
    rw [h.entries_maintain]
    exact List.length_take_le _ _
  notes := Nat.le_refl _

/-- The entry of an address is the only one there is. -/
theorem Orderly.live?_eq_some (h : c.Orderly) {e : CacheEntry α} :
    c.live? uri = some e ↔ e ∈ c.entries ∧ e.uri = uri := by
  constructor
  · intro hlive
    obtain ⟨hmem, huri, -⟩ := mem_live? hlive
    exact ⟨hmem, huri⟩
  · rintro ⟨hmem, rfl⟩
    have hentry : c.entry? e.uri = some e := by
      obtain ⟨e', hfind⟩ : ∃ e', c.entry? e.uri = some e' := by
        apply Option.isSome_iff_exists.mp
        exact List.find?_isSome.mpr ⟨e, hmem, beq_self_eq_true _⟩
      have huri : e'.uri = e.uri := by simpa using List.find?_some hfind
      have heq := List.inj_on_of_nodup_map h.nodup (List.mem_of_find?_eq_some hfind) hmem huri
      rw [hfind, heq]
    rw [live?, hentry, Option.filter_some, h.live e hmem]
    rfl

theorem Orderly.live?_eq_entry? (h : c.Orderly) (uri : Text) : c.live? uri = c.entry? uri := by
  rw [live?]
  cases hfind : c.entry? uri with
  | none => rfl
  | some e =>
    rw [Option.filter_some, h.live e (List.mem_of_find?_eq_some hfind)]
    rfl

theorem Orderly.contains_iff (h : c.Orderly) : c.contains uri = true ↔ uri ∈ c.recency := by
  rw [(recency_perm c).mem_iff, List.mem_map, contains, Option.isSome_iff_exists]
  exact exists_congr fun e => h.live?_eq_some

/-! ## Making ready -/

theorem ready_of_due {outstanding : List Text}
    (h : maxNotes ≤ outstanding.length ∨ maxIdle ≤ c.idle) : c.ready outstanding = c.maintain := by
  rw [ready, if_pos]
  rwa [Bool.or_eq_true, decide_eq_true_eq, decide_eq_true_eq]

theorem ready_of_quiet {outstanding : List Text} (hroom : outstanding.length < maxNotes)
    (hrecent : c.idle < maxIdle) : c.ready outstanding = (c, []) := by
  rw [ready, if_neg]
  rw [Bool.or_eq_true, decide_eq_true_eq, decide_eq_true_eq]
  omega

/-- A note of any kind can be taken without maintenance. -/
structure Ready (c : Cache α) : Prop extends Steady c where
  room : c.requested.length < maxNotes
  recent : c.idle < maxIdle

theorem Steady.length_recency (h : c.Steady) : c.recency.length ≤ c.options.capacity := by
  rw [(recency_perm c).length_eq, List.length_map]
  exact h.bounded

theorem Steady.recency_maintain (h : c.Steady) : c.maintain.1.recency = c.recency := by
  rw [h.toOrderly.recency_maintain, List.take_of_length_le h.length_recency]

theorem Steady.mem_maintain (h : c.Steady) {e : CacheEntry α} :
    e ∈ c.maintain.1.entries ↔ e ∈ c.entries := by
  have hlength := h.length_recency
  rw [recency, List.length_map] at hlength
  rw [h.toOrderly.entries_maintain, List.take_of_length_le hlength, mem_settle]

/-- Two caches with the same entries in the same order of use. -/
structure Same (c next : Cache α) : Prop where
  options : next.options = c.options
  reads : next.reads = c.reads
  mem : ∀ e, e ∈ next.entries ↔ e ∈ c.entries
  recency : next.recency = c.recency

theorem Steady.same_maintain (h : c.Steady) : c.Same c.maintain.1 where
  options := rfl
  reads := rfl
  mem := fun _ => h.mem_maintain
  recency := h.recency_maintain

theorem Steady.ready (h : c.Steady) :
    (c.ready c.requested).1.Ready ∧ c.Same (c.ready c.requested).1 := by
  by_cases hdue : maxNotes ≤ c.requested.length ∨ maxIdle ≤ c.idle
  · rw [ready_of_due hdue]
    exact ⟨⟨h.toOrderly.maintain, Nat.zero_lt_succ _, Nat.zero_lt_succ _⟩, h.same_maintain⟩
  · rw [not_or, Nat.not_le, Nat.not_le] at hdue
    rw [ready_of_quiet hdue.1 hdue.2]
    exact ⟨⟨h, hdue.1, hdue.2⟩, rfl, rfl, fun _ => Iff.rfl, rfl⟩

theorem noteStore_of_quiet (hroom : c.stored.length < maxNotes) (hrecent : c.idle < maxIdle)
    (uri : Text) : (c.noteStore uri).1 = { c with stored := c.stored ++ [uri] } := by
  rw [noteStore, ready_of_quiet hroom hrecent]

end Cache

end KafkaScript
