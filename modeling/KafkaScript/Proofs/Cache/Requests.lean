import KafkaScript.Proofs.Cache.Recency

/-!
# What a request does to a cache

In a cache without an interval, a request brings its address to the front of the
order of use, and what was used least recently goes if there is no room
(`Cache.Uses`). The entry of the address is then that of the document asked for,
and no other has come in (`Cache.Got`). There is one exception: a request that is
answered counts before the stores noted since the last maintenance, so it may end
up behind another address that was stored before it (`Cache.overtakes`).
-/

namespace KafkaScript

namespace Cache

variable {α : Type} {c next : Cache α} {uri : Text}

/-- What a request for a document leaves behind, with the model that it returns. -/
structure Got (c next : Cache α) (doc : Document) (stored : Stored α) : Prop where
  steady : next.Steady
  options : next.options = c.options
  entry : ⟨doc.uri, doc.version, doc.language, stored, false⟩ ∈ next.entries
  others : ∀ e ∈ next.entries, e.uri ≠ doc.uri → e ∈ c.entries

/-- An address has come to the front, and what was used least recently had to go. -/
def Uses (c next : Cache α) (uri : Text) : Prop :=
  next.recency = (uri :: c.recency.filter (· != uri)).take c.options.capacity

theorem Same.got {d : Cache α} {doc : Document} {stored : Stored α} (h : c.Same d)
    (hgot : d.Got next doc stored) : c.Got next doc stored where
  steady := hgot.steady
  options := hgot.options.trans h.options
  entry := hgot.entry
  others := fun e he hne => (h.mem e).mp (hgot.others e he hne)

theorem Same.uses {d : Cache α} (h : c.Same d) (huses : d.Uses next uri) : c.Uses next uri := by
  rw [Uses, ← h.recency, ← h.options]
  exact huses

theorem Same.contains (h : c.Same next) (hc : c.Orderly) (hnext : next.Orderly) :
    next.contains uri = c.contains uri := by
  rw [Bool.eq_iff_iff, hnext.contains_iff, hc.contains_iff, h.recency]

section Requests

variable {doc : Document}

/-- Where an address that is there comes to the front, nothing has to go. -/
theorem Steady.uses_iff_of_mem (h : c.Steady) (hmem : uri ∈ c.recency) :
    c.Uses next uri ↔ next.recency = uri :: c.recency.filter (· != uri) := by
  have heq := foldl_toFront_last h.nodup_recency hmem []
  rw [Uses, List.take_of_length_le]
  rw [← List.foldl_nil (f := toFront) (b := c.recency), ← heq, (foldl_toFront_perm _ _).length_eq]
  exact h.length_recency

/-! ### Requests that are answered -/

/-- The cache with a request noted. -/
def requesting (c : Cache α) (uri : Text) : Cache α :=
  { c with requested := c.requested ++ [uri] }

theorem Ready.requesting (h : c.Ready) (uri : Text) : (c.requesting uri).Steady where
  toOrderly := ⟨h.interval, h.sweeping, h.nodup, h.live, h.serials⟩
  bounded := h.bounded
  notes := by
    rw [Cache.requesting, List.length_append]
    exact Nat.le_add_right_of_le h.notes

theorem Ready.got_answered (h : c.Ready) {e : CacheEntry α} (hlive : c.live? doc.uri = some e)
    (hanswers : answers e doc = true) : c.Got (c.requesting doc.uri) doc e.stored := by
  obtain ⟨hmem, huri, hlapsed⟩ := mem_live? hlive
  obtain ⟨hversion, hlanguage⟩ : e.version = doc.version ∧ e.language = doc.language := by
    simpa [answers] using hanswers
  refine ⟨h.requesting doc.uri, rfl, ?_, fun old hold _ => hold⟩
  rw [← huri, ← hversion, ← hlanguage, ← hlapsed]
  exact hmem

/-- The request counts in its order, unless the last store noted is of another address. -/
theorem Ready.uses_answered (h : c.Ready) (hcontains : c.contains uri = true)
    (horder : ∀ v ∈ c.stored.getLast?, v = uri) : c.Uses (c.requesting uri) uri := by
  have hmem := h.contains_iff.mp hcontains
  have hentries := (recency_perm c).mem_iff.mp hmem
  apply (h.uses_iff_of_mem hmem).mpr
  rw [recency_eq, recency_eq c]
  show ((c.requested ++ [uri]) ++ c.stored).foldl toFront (c.entries.map (·.uri)) = _
  rcases c.stored.eq_nil_or_concat' with hnil | ⟨front, last, hlast⟩
  · rw [hnil, List.append_nil, List.append_nil]
    exact foldl_toFront_last h.nodup hentries _
  · -- a store of this address follows, so the request may as well follow it
    obtain rfl : last = uri := horder last (by rw [hlast, List.getLast?_concat]; rfl)
    have hnotes : (c.requested ++ [last] ++ front).filter (· != last) =
        (c.requested ++ (front ++ [last])).filter (· != last) := by simp
    rw [hlast, ← List.append_assoc, foldl_toFront_congr hnotes]
    exact foldl_toFront_last h.nodup hentries _

/-! ### Requests that read their document -/

/-- The entries with one of them in the place of that with its address. -/
def replaced (entries : List (CacheEntry α)) (new : CacheEntry α) : List (CacheEntry α) :=
  entries.map fun old => if old.uri == new.uri then new else old

theorem map_uri_replaced (entries : List (CacheEntry α)) (new : CacheEntry α) :
    (replaced entries new).map (·.uri) = entries.map (·.uri) := by
  rw [replaced, List.map_map]
  apply List.map_congr_left
  intro old _
  by_cases h : old.uri = new.uri <;> simp [h]

theorem mem_replaced {entries : List (CacheEntry α)} {new e : CacheEntry α}
    (h : e ∈ replaced entries new) : e = new ∨ e ∈ entries ∧ e.uri ≠ new.uri := by
  obtain ⟨old, hold, rfl⟩ := List.mem_map.mp h
  by_cases huri : old.uri = new.uri
  · left
    simp [huri]
  · right
    simpa [huri] using hold

/-- The cache with an entry for a model and its store noted, before any maintenance. -/
def storing (c : Cache α) (doc : Document) (model : α) : Cache α :=
  { c with
    entries := if c.contains doc.uri then replaced c.entries (c.entryOf doc model)
      else c.entryOf doc model :: c.entries
    stored := c.stored ++ [doc.uri]
    reads := c.reads + 1 }

theorem Orderly.put_eq (h : c.Orderly) (new : CacheEntry α) :
    c.put new = { c with
      entries := if c.contains new.uri then replaced c.entries new else new :: c.entries } := by
  rw [put, Cache.contains, h.live?_eq_entry?]
  split <;> rfl

/-- A store comes after fewer stores than maintenance waits for, so the only
maintenance is that for a new address. -/
theorem Orderly.loaded_eq (h : c.Orderly) (hroom : c.stored.length < maxNotes)
    (hrecent : c.idle < maxIdle) (doc : Document) (model : α) :
    c.loaded doc model = if c.contains doc.uri then c.storing doc model
      else (c.storing doc model).maintain.1 := by
  have hinserted : c.inserted doc model = { c with
      entries := if c.contains doc.uri then replaced c.entries (c.entryOf doc model)
        else c.entryOf doc model :: c.entries
      reads := c.reads + 1 } := by
    rw [inserted, h.put_eq]
    rfl
  have hnoted : ((c.inserted doc model).noteStore doc.uri).1 = c.storing doc model := by
    rw [hinserted, noteStore_of_quiet]
    · rfl
    · exact hroom
    · exact hrecent
  rw [loaded, hnoted]

section Storing

variable (h : c.Orderly) (doc : Document) (model : α)
include h

theorem Orderly.not_mem_of_new (hnew : c.contains uri = false) :
    uri ∉ c.entries.map (·.uri) := by
  rw [← (recency_perm c).mem_iff, ← h.contains_iff, hnew]
  exact Bool.false_ne_true

theorem Orderly.mem_storing {e : CacheEntry α} (he : e ∈ (c.storing doc model).entries) :
    e = c.entryOf doc model ∨ e ∈ c.entries ∧ e.uri ≠ doc.uri := by
  cases hcontains : c.contains doc.uri with
  | true =>
    rw [storing, hcontains] at he
    exact mem_replaced he
  | false =>
    rw [storing, hcontains] at he
    refine (List.mem_cons.mp he).imp_right ?_
    intro hold
    refine ⟨hold, ?_⟩
    intro heq
    exact h.not_mem_of_new hcontains (List.mem_map.mpr ⟨e, hold, heq⟩)

theorem Orderly.storing : (c.storing doc model).Orderly where
  interval := h.interval
  sweeping := h.sweeping
  nodup := by
    cases hcontains : c.contains doc.uri with
    | true =>
      rw [Cache.storing, hcontains]
      show ((replaced _ _).map _).Nodup
      rw [map_uri_replaced]
      exact h.nodup
    | false =>
      rw [Cache.storing, hcontains]
      exact List.nodup_cons.mpr ⟨h.not_mem_of_new hcontains, h.nodup⟩
  live := by
    intro e he
    rcases h.mem_storing doc model he with rfl | ⟨hold, -⟩
    · rfl
    · exact h.live e hold
  serials := by
    intro e he
    rcases h.mem_storing doc model he with rfl | ⟨hold, -⟩
    · exact Nat.lt_succ_self _
    · exact Nat.lt_succ_of_lt (h.serials e hold)

/-- The address that was stored is in front. -/
theorem Orderly.recency_storing :
    (c.storing doc model).recency = doc.uri :: c.recency.filter (· != doc.uri) := by
  rw [recency_eq, recency_eq c]
  show (c.requested ++ (c.stored ++ [doc.uri])).foldl toFront _ = _
  rw [← List.append_assoc]
  cases hcontains : c.contains doc.uri with
  | true =>
    have hmem := (recency_perm c).mem_iff.mp (h.contains_iff.mp hcontains)
    rw [Cache.storing, hcontains, if_pos rfl, map_uri_replaced]
    exact foldl_toFront_last h.nodup hmem _
  | false =>
    have hfresh := h.not_mem_of_new hcontains
    rw [Cache.storing, hcontains, if_neg Bool.false_ne_true, List.map_cons,
      filter_ne_foldl_toFront, filter_ne_of_not_mem hfresh]
    exact foldl_toFront_new hfresh _

/-- Of what is stored the entry of the address is new, whatever goes. -/
theorem Orderly.got_of_storing (hsteady : next.Steady) (hoptions : next.options = c.options)
    (hsubset : next.entries ⊆ (c.storing doc model).entries) (hfront : doc.uri ∈ next.recency) :
    c.Got next doc ⟨c.reads, model⟩ where
  steady := hsteady
  options := hoptions
  entry := by
    obtain ⟨e, he, huri⟩ := List.mem_map.mp ((recency_perm next).mem_iff.mp hfront)
    rcases h.mem_storing doc model (hsubset he) with rfl | ⟨-, hne⟩
    · exact he
    · exact absurd huri hne
  others := by
    intro e he hne
    rcases h.mem_storing doc model (hsubset he) with rfl | ⟨hold, -⟩
    · exact absurd rfl hne
    · exact hold

end Storing

/-- The request before a store of the same address does not matter. -/
theorem filter_recency_requesting (c : Cache α) (uri : Text) :
    (c.requesting uri).recency.filter (· != uri) = c.recency.filter (· != uri) := by
  have hmem : uri ∉ (c.entries.map (·.uri)).filter (· != uri) := by simp
  have hnotes : (c.requested ++ [uri] ++ c.stored).filter (· != uri) =
      (c.requested ++ c.stored).filter (· != uri) := by simp
  rw [recency_eq, recency_eq c, filter_ne_foldl_toFront, filter_ne_foldl_toFront]
  show (c.requested ++ [uri] ++ c.stored).foldl toFront ((c.entries.map _).filter _) = _
  rw [foldl_toFront_of_not_mem hmem (c.requested ++ [uri] ++ c.stored), hnotes,
    ← foldl_toFront_of_not_mem hmem]

/-- The model of an address that is there replaces the one before it. -/
theorem Ready.got_replaced (h : c.Ready) (hcontains : c.contains doc.uri = true) (model : α) :
    c.Got ((c.requesting doc.uri).loaded doc model) doc ⟨c.reads, model⟩ ∧
      c.Uses ((c.requesting doc.uri).loaded doc model) doc.uri := by
  have horderly := (h.requesting doc.uri).toOrderly
  have hroom := Nat.lt_of_le_of_lt h.notes h.room
  have hthere : (c.requesting doc.uri).contains doc.uri = true := hcontains
  have hentries : ((c.requesting doc.uri).storing doc model).entries =
      replaced c.entries (c.entryOf doc model) := if_pos hcontains
  have hfront := horderly.recency_storing doc model
  rw [filter_recency_requesting] at hfront
  have hsteady : ((c.requesting doc.uri).storing doc model).Steady := by
    refine ⟨horderly.storing doc model, ?_, ?_⟩
    · rw [hentries, replaced, List.length_map]
      exact h.bounded
    · show (c.stored ++ [doc.uri]).length ≤ (c.requested ++ [doc.uri]).length
      rw [List.length_append, List.length_append]
      exact Nat.add_le_add_right h.notes _
  have hgot := horderly.got_of_storing doc model hsteady rfl (List.Subset.refl _)
    (hfront ▸ List.mem_cons_self)
  rw [horderly.loaded_eq hroom h.recent, if_pos hthere]
  exact ⟨⟨hgot.steady, hgot.options, hgot.entry, hgot.others⟩,
    (h.uses_iff_of_mem (h.contains_iff.mp hcontains)).mpr hfront⟩

/-- A new address comes in, and the one used least recently may have to go. -/
theorem Ready.got_added (h : c.Ready) (hnew : c.contains doc.uri = false) (model : α) :
    c.Got (c.loaded doc model) doc ⟨c.reads, model⟩ ∧ c.Uses (c.loaded doc model) doc.uri := by
  have hroom := Nat.lt_of_le_of_lt h.notes h.room
  have horderly := h.storing doc model
  have huses : c.Uses (c.storing doc model).maintain.1 doc.uri := by
    rw [Uses, horderly.recency_maintain, h.recency_storing]
    rfl
  rw [h.loaded_eq hroom h.recent, hnew, if_neg Bool.false_ne_true]
  refine ⟨h.got_of_storing doc model horderly.maintain rfl (entries_maintain_subset _) ?_, huses⟩
  -- there is at least one place, so what is in front is not evicted
  obtain ⟨k, hk⟩ := Nat.exists_eq_add_one.mpr c.options.capacity_pos
  rw [huses, hk, List.take_succ_cons]
  exact List.mem_cons_self

end Requests

/-! ## Outcomes -/

/-- Whether the document is answered from the cache, and the request will be
accounted for before a store that was noted earlier: the last one since
maintenance, of another address. -/
def overtakes (c : Cache α) (doc : Document) : Bool :=
  (c.live? doc.uri).any (fun e => answers e doc) &&
    (c.ready c.requested).1.stored.getLast?.any (· != doc.uri)

section Outcomes

variable {doc : Document} {read : Reader α}

theorem Steady.get_of_answered (h : c.Steady) {e : CacheEntry α} (hlive : c.live? doc.uri = some e)
    (hanswers : answers e doc = true) :
    ∃ log next, c.get read doc = .ok (e.stored, log, next) ∧ next.reads = c.reads ∧
      c.Got next doc e.stored ∧ (c.overtakes doc = false → c.Uses next doc.uri) := by
  obtain ⟨hready, hsame⟩ := h.ready
  obtain ⟨log, hget⟩ := Cache.get_of_answered read hlive hanswers
  obtain ⟨hmem, huri, -⟩ := mem_live? hlive
  have hlive' : (c.ready c.requested).1.live? doc.uri = some e :=
    hready.live?_eq_some.mpr ⟨(hsame.mem e).mpr hmem, huri⟩
  have hcontains : (c.ready c.requested).1.contains doc.uri = true := by
    rw [Cache.contains, hlive']
    rfl
  refine ⟨log, _, hget, hsame.reads, hsame.got (hready.got_answered hlive' hanswers), ?_⟩
  intro hovertakes
  rw [overtakes, hlive, Option.any_some, hanswers, Bool.true_and, Option.any_eq_false] at hovertakes
  apply hsame.uses
  apply hready.uses_answered hcontains
  intro v hv
  simpa using hovertakes v hv

theorem Steady.loaded (h : c.Steady) (doc : Document) (model : α) :
    c.Got ((c.lookedUp doc.uri).loaded doc model) doc ⟨c.reads, model⟩ ∧
      c.Uses ((c.lookedUp doc.uri).loaded doc model) doc.uri := by
  obtain ⟨hready, hsame⟩ := h.ready
  have hcontains : (c.ready c.requested).1.contains doc.uri = c.contains doc.uri :=
    hsame.contains h.toOrderly hready.toOrderly
  rw [lookedUp, ← hsame.reads]
  cases hthere : c.contains doc.uri with
  | true =>
    obtain ⟨hgot, huses⟩ := hready.got_replaced (hcontains.trans hthere) model
    exact ⟨hsame.got hgot, hsame.uses huses⟩
  | false =>
    obtain ⟨hgot, huses⟩ := hready.got_added (hcontains.trans hthere) model
    exact ⟨hsame.got hgot, hsame.uses huses⟩

theorem Steady.get_of_unanswered (h : c.Steady) (hno : ¬ c.Answered doc) {model : α}
    {readLog : List LogEntry} (hread : read doc = .ok (model, readLog)) :
    ∃ log next, c.get read doc = .ok (⟨c.reads, model⟩, log, next) ∧ next.reads = c.reads + 1 ∧
      c.Got next doc ⟨c.reads, model⟩ ∧ c.Uses next doc.uri := by
  obtain ⟨front, hget⟩ := Cache.get_of_unanswered read hno
  obtain ⟨log, hload⟩ := load_eq read (c.lookedUp doc.uri) hread
  rw [hload, reads_lookedUp] at hget
  have hreads := reads_loaded (c.lookedUp doc.uri) doc model
  rw [reads_lookedUp] at hreads
  exact ⟨front ++ log, _, hget, hreads, h.loaded doc model⟩

/-- Either way the request is answered. -/
theorem Steady.get (h : c.Steady) (hread : ∃ result, read doc = .ok result) :
    ∃ stored log next, c.get read doc = .ok (stored, log, next) ∧ c.Got next doc stored ∧
      c.reads ≤ next.reads ∧ (c.overtakes doc = false → c.Uses next doc.uri) := by
  by_cases hanswered : c.Answered doc
  · obtain ⟨e, hlive, hanswers⟩ := hanswered
    obtain ⟨log, next, hget, hreads, hgot, huses⟩ := h.get_of_answered hlive hanswers
    exact ⟨_, log, next, hget, hgot, Nat.le_of_eq hreads.symm, huses⟩
  · obtain ⟨⟨model, readLog⟩, hmodel⟩ := hread
    obtain ⟨log, next, hget, hreads, hgot, huses⟩ := h.get_of_unanswered hanswered hmodel
    exact ⟨_, log, next, hget, hgot, Nat.le_of_lt (by omega), fun _ => huses⟩

/-- What a request that succeeded has done, whether or not it read the document. -/
theorem Steady.got_of_get (h : c.Steady) {stored : Stored α} {log : List LogEntry}
    (hget : c.get read doc = .ok (stored, log, next)) :
    c.Got next doc stored ∧ (c.overtakes doc = false → c.Uses next doc.uri) := by
  rcases get_cases hget with ⟨⟨e, hlive, hanswers, -⟩, -⟩ | ⟨log', hload⟩
  · obtain ⟨_, _, heq, -, hgot, huses⟩ := h.get_of_answered hlive hanswers
    rw [heq] at hget
    cases hget
    exact ⟨hgot, huses⟩
  · obtain ⟨readLog, -, hserial, rfl⟩ := load_cases hload
    obtain ⟨hgot, huses⟩ := h.loaded doc stored.model
    rw [reads_lookedUp] at hserial
    rw [← hserial] at hgot
    exact ⟨hgot, fun _ => huses⟩

end Outcomes

end Cache

end KafkaScript
