import KafkaScript.Cache

/-!
# What the operations of a cache do to its entries

No operation but a request puts an entry into a cache. What the others do to the
entries is at most to lose them, to let them lapse and to change their order
(`Cache.Decays`), and so is maintenance, whenever it comes about. A request is
answered from an entry that is there (`Cache.get_of_answered`), or it reads the
document (`Cache.get_of_unanswered`); then what comes into the cache is the entry
of that document (`Cache.mem_loaded`).
-/

namespace KafkaScript

namespace Cache

variable {α : Type} {c next : Cache α} {uri : Text} {doc : Document}

/-! ## Decay -/

/-- Each entry of the second cache is one of the first, lapsed or not. In all else
the two may differ. -/
def Decays (c next : Cache α) : Prop :=
  ∀ e ∈ next.entries, ∃ old ∈ c.entries, e = { old with lapsed := e.lapsed }

theorem Decays.of_subset (h : next.entries ⊆ c.entries) : c.Decays next := by
  intro e he
  exact ⟨e, h he, rfl⟩

theorem Decays.trans {c d next : Cache α} (hcd : c.Decays d) (hnext : d.Decays next) :
    c.Decays next := by
  intro e he
  obtain ⟨mid, hmid, heq⟩ := hnext e he
  obtain ⟨old, hold, heqmid⟩ := hcd mid hmid
  refine ⟨old, hold, ?_⟩
  rw [heq, heqmid]

/-- A new cache has no entries. -/
theorem entries_create {options : CacheOptions} (h : create options = .ok c) : c.entries = [] := by
  unfold create at h
  split at h
  · cases h
  · cases h
    rfl

/-! ## Maintenance -/

@[simp] theorem mem_promote {entries : List (CacheEntry α)} {e : CacheEntry α} :
    e ∈ promote entries uri ↔ e ∈ entries := by
  rw [promote, others, List.mem_append, List.mem_filter, List.mem_filter, ← and_or_left]
  by_cases h : e.uri = uri <;> simp [h]

theorem mem_foldl_promote {entries : List (CacheEntry α)} {e : CacheEntry α} (uris : List Text) :
    e ∈ uris.foldl promote entries ↔ e ∈ entries := by
  induction uris generalizing entries with
  | nil => exact Iff.rfl
  | cons uri uris ih => rw [List.foldl_cons, ih, mem_promote]

@[simp] theorem mem_settle {e : CacheEntry α} : e ∈ c.settle.entries ↔ e ∈ c.entries :=
  mem_foldl_promote _

theorem entries_maintain (c : Cache α) :
    c.maintain.1.entries =
      (c.settle.entries.filter fun e => !e.lapsed).take c.options.capacity := by
  show ((c.settle.entries.partition (·.lapsed)).2).take _ = _
  rw [List.partition_eq_filter_filter]
  rfl

theorem entries_maintain_subset (c : Cache α) : c.maintain.1.entries ⊆ c.entries := by
  intro e he
  rw [entries_maintain] at he
  exact mem_settle.mp (List.mem_filter.mp (List.mem_of_mem_take he)).1

theorem entries_ready_subset (c : Cache α) (outstanding : List Text) :
    (c.ready outstanding).1.entries ⊆ c.entries := by
  unfold ready
  split
  · exact entries_maintain_subset c
  · exact List.Subset.refl _

theorem entries_noteRequest_subset (c : Cache α) (uri : Text) :
    (c.noteRequest uri).1.entries ⊆ c.entries :=
  entries_ready_subset c c.requested

theorem entries_noteStore_subset (c : Cache α) (uri : Text) :
    (c.noteStore uri).1.entries ⊆ c.entries :=
  entries_ready_subset c c.stored

/-! ## Requests -/

theorem mem_live? {e : CacheEntry α} (h : c.live? uri = some e) :
    e ∈ c.entries ∧ e.uri = uri ∧ e.lapsed = false := by
  obtain ⟨hentry, hlapsed⟩ := Option.filter_eq_some_iff.mp h
  refine ⟨List.mem_of_find?_eq_some hentry, ?_, ?_⟩
  · simpa using List.find?_some hentry
  · simpa using hlapsed

/-- The document is answered from the cache. -/
def Answered (c : Cache α) (doc : Document) : Prop :=
  ∃ e ∈ c.live? doc.uri, answers e doc = true

/-- The cache once it has been looked up in for an address. -/
def lookedUp (c : Cache α) (uri : Text) : Cache α :=
  if c.contains uri then (c.noteRequest uri).1 else (c.ready c.requested).1

/-- The entry for a model that was read from a document. -/
def entryOf (c : Cache α) (doc : Document) (model : α) : CacheEntry α :=
  ⟨doc.uri, doc.version, doc.language, ⟨c.reads, model⟩, false⟩

/-- The cache with that entry. -/
def inserted (c : Cache α) (doc : Document) (model : α) : Cache α :=
  { c.put (c.entryOf doc model) with reads := c.reads + 1 }

/-- The cache once it has stored the model that was read from a document. -/
def loaded (c : Cache α) (doc : Document) (model : α) : Cache α :=
  let noted := ((c.inserted doc model).noteStore doc.uri).1
  if c.contains doc.uri then noted else noted.maintain.1

theorem load_eq (read : Reader α) (c : Cache α) {doc : Document} {model : α}
    {readLog : List LogEntry} (h : read doc = .ok (model, readLog)) :
    ∃ log, c.load read doc = .ok (⟨c.reads, model⟩, log, c.loaded doc model) := by
  rw [load, h, loaded]
  cases hnew : c.contains doc.uri <;> exact ⟨_, rfl⟩

theorem load_cases {read : Reader α} {stored : Stored α} {log : List LogEntry}
    (h : c.load read doc = .ok (stored, log, next)) :
    ∃ readLog, read doc = .ok (stored.model, readLog) ∧ stored.serial = c.reads ∧
      next = c.loaded doc stored.model := by
  cases hread : read doc with
  | error fault =>
    rw [load, hread] at h
    cases h
  | ok result =>
    obtain ⟨model, readLog⟩ := result
    obtain ⟨log', hload⟩ := load_eq read c hread
    rw [hload] at h
    cases h
    exact ⟨readLog, rfl, rfl, rfl⟩

theorem get_of_answered (read : Reader α) {e : CacheEntry α} (h : c.live? doc.uri = some e)
    (hanswers : answers e doc = true) :
    ∃ log, c.get read doc = .ok (e.stored, log, (c.noteRequest doc.uri).1) := by
  rw [get, h]
  simp only [hanswers, if_true]
  exact ⟨_, rfl⟩

/-- Otherwise the outcome is that of reading the document after the look-up, with
what the look-up reported in front. -/
theorem get_of_unanswered (read : Reader α) (h : ¬ c.Answered doc) :
    ∃ front, c.get read doc =
      (c.lookedUp doc.uri).load read doc >>= fun r => .ok (r.1, front ++ r.2.1, r.2.2) := by
  rw [get]
  cases hlive : c.live? doc.uri with
  | none =>
    rw [lookedUp, contains, hlive, Option.isSome_none, if_neg Bool.false_ne_true]
    exact ⟨_, rfl⟩
  | some e =>
    have hanswers : answers e doc = false := by
      apply eq_false_of_ne_true
      intro hanswers
      exact h ⟨e, hlive, hanswers⟩
    rw [lookedUp, contains, hlive, Option.isSome_some, if_pos rfl]
    simp only [hanswers, Bool.false_eq_true, if_false]
    exact ⟨_, rfl⟩

theorem get_cases {read : Reader α} {stored : Stored α} {log : List LogEntry}
    (h : c.get read doc = .ok (stored, log, next)) :
    (∃ e, c.live? doc.uri = some e ∧ answers e doc = true ∧ stored = e.stored) ∧
        next = (c.noteRequest doc.uri).1 ∨
      ∃ log', (c.lookedUp doc.uri).load read doc = .ok (stored, log', next) := by
  by_cases hanswered : c.Answered doc
  · obtain ⟨e, hlive, hanswers⟩ := hanswered
    obtain ⟨log', hget⟩ := get_of_answered read hlive hanswers
    rw [hget] at h
    cases h
    exact .inl ⟨⟨e, hlive, hanswers, rfl⟩, rfl⟩
  · obtain ⟨front, hget⟩ := get_of_unanswered read hanswered
    rw [hget] at h
    cases hload : (c.lookedUp doc.uri).load read doc with
    | error fault =>
      rw [hload] at h
      cases h
    | ok result =>
      rw [hload] at h
      cases h
      exact .inr ⟨_, rfl⟩

/-! ## What comes in -/

theorem mem_put {new e : CacheEntry α} (h : e ∈ (c.put new).entries) : e = new ∨ e ∈ c.entries := by
  unfold put at h
  split at h
  · obtain ⟨old, hold, rfl⟩ := List.mem_map.mp h
    split
    · exact .inl rfl
    · exact .inr hold
  · exact List.mem_cons.mp h

theorem mem_loaded {model : α} {e : CacheEntry α} (h : e ∈ (c.loaded doc model).entries) :
    e = c.entryOf doc model ∨ e ∈ c.entries := by
  have hinserted : e ∈ (c.inserted doc model).entries := by
    unfold loaded at h
    split at h
    · exact entries_noteStore_subset _ _ h
    · exact entries_noteStore_subset _ _ (entries_maintain_subset _ h)
  exact mem_put hinserted

theorem decays_lookedUp (c : Cache α) (uri : Text) : c.Decays (c.lookedUp uri) := by
  apply Decays.of_subset
  unfold lookedUp
  split
  · exact entries_noteRequest_subset c uri
  · exact entries_ready_subset c _

/-! ## How many models were read -/

theorem reads_ready (c : Cache α) (outstanding : List Text) :
    (c.ready outstanding).1.reads = c.reads := by
  unfold ready
  split <;> rfl

theorem reads_lookedUp (c : Cache α) (uri : Text) : (c.lookedUp uri).reads = c.reads := by
  unfold lookedUp
  split <;> exact reads_ready c _

theorem reads_loaded (c : Cache α) (doc : Document) (model : α) :
    (c.loaded doc model).reads = c.reads + 1 := by
  have hnoted : ((c.inserted doc model).noteStore doc.uri).1.reads = c.reads + 1 :=
    reads_ready (c.inserted doc model) _
  unfold loaded
  split <;> exact hnoted

/-- A request reads its document just if it cannot be answered from the cache. -/
theorem reads_get {read : Reader α} {stored : Stored α} {log : List LogEntry}
    (h : c.get read doc = .ok (stored, log, next)) :
    c.Answered doc ∧ next.reads = c.reads ∨ ¬ c.Answered doc ∧ next.reads = c.reads + 1 := by
  by_cases hanswered : c.Answered doc
  · obtain ⟨e, hlive, hanswers⟩ := id hanswered
    obtain ⟨log', hget⟩ := get_of_answered read hlive hanswers
    rw [hget] at h
    cases h
    exact .inl ⟨hanswered, reads_ready c c.requested⟩
  · obtain ⟨front, hget⟩ := get_of_unanswered read hanswered
    rw [hget] at h
    cases hload : (c.lookedUp doc.uri).load read doc with
    | error fault =>
      rw [hload] at h
      cases h
    | ok result =>
      obtain ⟨readLog, -, -, hnext⟩ := load_cases hload
      rw [hload] at h
      cases h
      right
      rw [hnext, reads_loaded, reads_lookedUp]
      exact ⟨hanswered, rfl⟩

/-! ## Answers -/

/-- If every document can be read, every request is answered. -/
theorem exists_get {read : Reader α} (hread : ∀ doc, ∃ result, read doc = .ok result)
    (c : Cache α) (doc : Document) : ∃ stored log next, c.get read doc = .ok (stored, log, next) := by
  by_cases hanswered : c.Answered doc
  · obtain ⟨e, hlive, hanswers⟩ := hanswered
    obtain ⟨log, hget⟩ := get_of_answered read hlive hanswers
    exact ⟨_, log, _, hget⟩
  · obtain ⟨front, hget⟩ := get_of_unanswered read hanswered
    obtain ⟨⟨model, readLog⟩, hmodel⟩ := hread doc
    obtain ⟨log, hload⟩ := load_eq read (c.lookedUp doc.uri) hmodel
    rw [hload] at hget
    exact ⟨_, front ++ log, _, hget⟩

/-! ## All other operations -/

theorem decays_remove (c : Cache α) (uri : Text) : c.Decays (c.remove uri).2.2 := by
  apply Decays.of_subset
  unfold remove
  split
  · exact List.Subset.refl _
  · intro e he
    exact (List.mem_filter.mp (entries_maintain_subset _ he)).1

theorem decays_sweep (c : Cache α) : c.Decays c.sweep.2.2 := by
  apply Decays.of_subset
  unfold sweep
  split
  · exact List.Subset.refl _
  · exact entries_maintain_subset c

theorem decays_dispose (c : Cache α) : c.Decays c.dispose.2 := by
  intro e he
  cases he

theorem decays_size (c : Cache α) : c.Decays c.size.2.2 :=
  .of_subset (entries_maintain_subset c)

theorem decays_lapse (idle : Text → Bool) (c : Cache α) : c.Decays (c.lapse idle) := by
  unfold lapse
  split
  · exact .of_subset (List.Subset.refl _)
  · intro e he
    obtain ⟨old, hold, rfl⟩ := List.mem_map.mp he
    exact ⟨old, hold, rfl⟩

theorem decays_backgroundSweep (c : Cache α) : c.Decays c.backgroundSweep := by
  apply Decays.of_subset
  unfold backgroundSweep
  split
  · exact entries_maintain_subset c
  · exact List.Subset.refl _

theorem decays_wait (milliseconds : Nat) (c : Cache α) : c.Decays (c.wait milliseconds) := by
  unfold wait
  split
  · have hlapse := decays_lapse (fun _ => true) { c with idle := c.idle + milliseconds }
    exact hlapse.trans (decays_backgroundSweep _)
  · exact .of_subset (List.Subset.refl _)

theorem exists_apply {read : Reader α} (hread : ∀ doc, ∃ result, read doc = .ok result)
    (c : Cache α) (op : CacheOp) : ∃ answer log next, c.apply read op = .ok (answer, log, next) := by
  cases op with
  | get doc =>
    obtain ⟨stored, log, next, hget⟩ := exists_get hread c doc
    exact ⟨.model stored, log, next, by rw [apply, hget]; rfl⟩
  | remove uri => exact ⟨_, _, _, rfl⟩
  | documentRemoved doc => exact ⟨_, _, _, rfl⟩
  | sweep => exact ⟨_, _, _, rfl⟩
  | dispose => exact ⟨_, _, _, rfl⟩
  | size => exact ⟨_, _, _, rfl⟩
  | contains uri => exact ⟨_, _, _, rfl⟩
  | lapse idle => exact ⟨_, _, _, rfl⟩
  | backgroundSweep => exact ⟨_, _, _, rfl⟩
  | wait milliseconds => exact ⟨_, _, _, rfl⟩

/-- Whatever is asked of a cache, it is a request, or the cache merely decays. -/
theorem apply_cases {read : Reader α} {op : CacheOp} {answer : CacheAnswer α}
    {log : List LogEntry} (h : c.apply read op = .ok (answer, log, next)) :
    (∃ doc stored, op = .get doc ∧ answer = .model stored ∧
        c.get read doc = .ok (stored, log, next)) ∨
      (∀ doc, op ≠ .get doc) ∧ c.Decays next := by
  cases op with
  | get doc =>
    left
    cases hget : c.get read doc with
    | error fault =>
      rw [apply, hget] at h
      cases h
    | ok result =>
      rw [apply, hget] at h
      cases h
      exact ⟨doc, result.1, rfl, rfl, hget⟩
  | remove uri =>
    cases h
    exact .inr ⟨nofun, decays_remove c uri⟩
  | documentRemoved doc =>
    cases h
    exact .inr ⟨nofun, decays_remove c doc.uri⟩
  | sweep =>
    cases h
    exact .inr ⟨nofun, decays_sweep c⟩
  | dispose =>
    cases h
    exact .inr ⟨nofun, decays_dispose c⟩
  | size =>
    cases h
    exact .inr ⟨nofun, decays_size c⟩
  | contains uri =>
    cases h
    exact .inr ⟨nofun, .of_subset (List.Subset.refl _)⟩
  | lapse idle =>
    cases h
    exact .inr ⟨nofun, decays_lapse idle c⟩
  | backgroundSweep =>
    cases h
    exact .inr ⟨nofun, decays_backgroundSweep c⟩
  | wait milliseconds =>
    cases h
    exact .inr ⟨nofun, decays_wait milliseconds c⟩

end Cache

end KafkaScript
