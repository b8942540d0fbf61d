import KafkaScript.Proofs.Cache.Requests

/-!
# What is done with a cache

In a cache without an interval, an operation that asks for no document only takes
addresses out of the order of use; those that it leaves keep their order
(`Cache.Leaves`). So the cache is `Cache.Steady` between any two operations of a
run (`Cache.Reachable.steady`).
-/

namespace KafkaScript

namespace CacheOp

/-- The document that an operation asks for. -/
def document? : CacheOp → Option Document
  | .get doc => some doc
  | _ => none

/-- The addresses that some operations ask for. -/
def requests (ops : List CacheOp) : List Text :=
  (ops.filterMap document?).map (·.uri)

theorem requests_append (ops more : List CacheOp) :
    requests (ops ++ more) = requests ops ++ requests more := by
  rw [requests, List.filterMap_append, List.map_append]
  rfl

theorem requests_of_document?_eq_none {op : CacheOp} (h : op.document? = none) :
    requests [op] = [] := by
  rw [requests, List.filterMap_cons_none h]
  rfl

theorem document?_eq_some {op : CacheOp} {doc : Document} :
    op.document? = some doc ↔ op = .get doc := by
  cases op <;> simp [document?]

theorem document?_eq_none {op : CacheOp} :
    op.document? = none ↔ ∀ doc, op ≠ .get doc := by
  cases op <;> simp [document?]

/-- The operation neither asks for the address nor removes any. -/
def Spares (uri : Text) : CacheOp → Prop
  | .get doc => doc.uri ≠ uri
  | .remove _ | .documentRemoved _ | .dispose => False
  | .sweep | .size | .contains _ | .lapse _ | .backgroundSweep | .wait _ => True

instance (uri : Text) : (op : CacheOp) → Decidable (op.Spares uri)
  | .get doc => inferInstanceAs (Decidable (doc.uri ≠ uri))
  | .remove _ | .documentRemoved _ | .dispose => .isFalse id
  | .sweep | .size | .contains _ | .lapse _ | .backgroundSweep | .wait _ => .isTrue trivial

/-- Whether an operation that asks for no document leaves an address in the cache. -/
def leaves : CacheOp → Text → Bool
  | .remove uri => (· != uri)
  | .documentRemoved doc => (· != doc.uri)
  | .dispose => fun _ => false
  | _ => fun _ => true

end CacheOp

namespace Cache

variable {α : Type} {c next : Cache α} {read : Reader α} {uri : Text}

theorem Steady.create {options : CacheOptions} (hinterval : options.interval = none)
    (hcreate : create options = .ok c) : c.Steady ∧ c.options = options := by
  rw [Cache.create, hinterval] at hcreate
  cases hcreate
  exact ⟨⟨⟨hinterval, rfl, List.nodup_nil, nofun, nofun⟩, Nat.zero_le _, Nat.le_refl _⟩, rfl⟩

/-! ## Removal -/

theorem Orderly.others (h : c.Orderly) (uri : Text) :
    Orderly { c with entries := others uri c.entries } where
  interval := h.interval
  sweeping := h.sweeping
  nodup := h.nodup.sublist (List.filter_sublist.map _)
  live := fun e he => h.live e (List.mem_filter.mp he).1
  serials := fun e he => h.serials e (List.mem_filter.mp he).1

theorem Steady.remove (h : c.Steady) (uri : Text) :
    (c.remove uri).2.2.Steady ∧ (c.remove uri).2.2.options = c.options := by
  rw [Cache.remove]
  split
  · exact ⟨h, rfl⟩
  · exact ⟨(h.others uri).maintain, rfl⟩

theorem recency_others (c : Cache α) (uri : Text) :
    recency { c with entries := others uri c.entries } = c.recency.filter (· != uri) := by
  rw [recency_eq, recency_eq c, filter_ne_foldl_toFront, others, List.filter_map]
  rfl

theorem Orderly.remove_of_not_mem (h : c.Orderly) (hgone : uri ∉ c.recency) :
    c.remove uri = (false, [], c) := by
  have hentry : c.entry? uri = none := by
    rw [← h.live?_eq_entry?]
    apply Option.not_isSome_iff_eq_none.mp
    exact fun hcontains => hgone (h.contains_iff.mp hcontains)
  rw [remove, hentry]

theorem Orderly.remove_of_mem (h : c.Orderly) (hmem : uri ∈ c.recency) :
    ∃ log, c.remove uri =
      (true, log, (Cache.maintain { c with entries := Cache.others uri c.entries }).1) := by
  obtain ⟨e, hlive⟩ := Option.isSome_iff_exists.mp (h.contains_iff.mpr hmem)
  rw [h.live?_eq_entry?] at hlive
  rw [remove, hlive]
  exact ⟨_, rfl⟩

/-- A removal takes the address out of the order, and tells whether it was there. -/
theorem Steady.recency_remove (h : c.Steady) (uri : Text) :
    (c.remove uri).1 = decide (uri ∈ c.recency) ∧
      (c.remove uri).2.2.recency = c.recency.filter (· != uri) := by
  by_cases hmem : uri ∈ c.recency
  · obtain ⟨log, hremove⟩ := h.remove_of_mem hmem
    have hlength := Nat.le_trans (List.length_filter_le (· != uri) c.recency) h.length_recency
    rw [hremove, (h.others uri).recency_maintain, recency_others, List.take_of_length_le hlength]
    exact ⟨(decide_eq_true hmem).symm, rfl⟩
  · rw [h.remove_of_not_mem hmem, filter_ne_of_not_mem hmem]
    exact ⟨(decide_eq_false hmem).symm, rfl⟩

theorem Steady.dispose (h : c.Steady) : c.dispose.2.Steady where
  interval := h.interval
  sweeping := rfl
  nodup := List.nodup_nil
  live := nofun
  serials := nofun
  bounded := Nat.zero_le _
  notes := Nat.le_refl _

/-! ## Operations that ask for no document -/

theorem Same.refl (c : Cache α) : c.Same c :=
  ⟨rfl, rfl, fun _ => Iff.rfl, rfl⟩

/-- Without an interval nothing lapses, and the passing of time is only noted. -/
theorem Steady.wait (h : c.Steady) (milliseconds : Nat) :
    (c.wait milliseconds).Steady ∧ c.Same (c.wait milliseconds) := by
  have heq : c.wait milliseconds = { c with idle := c.idle + milliseconds } := by
    rw [Cache.wait, h.interval]
    rfl
  rw [heq]
  exact ⟨⟨⟨h.interval, h.sweeping, h.nodup, h.live, h.serials⟩, h.bounded, h.notes⟩,
    rfl, rfl, fun _ => Iff.rfl, rfl⟩

/-- An operation that asks for no document and spares an address leaves all
entries in their order. -/
theorem Steady.apply_spared (h : c.Steady) {op : CacheOp} (hop : op.Spares uri)
    (hdocument : op.document? = none) : ∃ answer log next,
      c.apply read op = .ok (answer, log, next) ∧ next.Steady ∧ c.Same next := by
  cases op with
  | get doc => cases hdocument
  | remove uri => exact hop.elim
  | documentRemoved doc => exact hop.elim
  | dispose => exact hop.elim
  | sweep =>
    refine ⟨.count 0, [], c, ?_, h, .refl c⟩
    rw [apply, sweep, h.interval]
    rfl
  | size => exact ⟨_, _, _, rfl, h.toOrderly.maintain, h.same_maintain⟩
  | contains uri => exact ⟨_, _, _, rfl, h, .refl c⟩
  | lapse idle =>
    refine ⟨.nothing, [], c, ?_, h, .refl c⟩
    rw [apply, lapse, h.interval]
    rfl
  | backgroundSweep =>
    refine ⟨.nothing, [], c, ?_, h, .refl c⟩
    rw [apply, backgroundSweep, h.sweeping]
    rfl
  | wait milliseconds => exact ⟨_, _, _, rfl, h.wait milliseconds⟩

/-- What an operation that asks for no document does: the addresses that it leaves
keep their order. -/
structure Leaves (c next : Cache α) (op : CacheOp) : Prop where
  steady : next.Steady
  options : next.options = c.options
  reads : next.reads = c.reads
  recency : next.recency = c.recency.filter op.leaves

theorem Steady.leaves_remove (h : c.Steady) (uri : Text) :
    c.Leaves (c.remove uri).2.2 (.remove uri) where
  steady := (h.remove uri).1
  options := (h.remove uri).2
  reads := by
    rw [Cache.remove]
    split <;> rfl
  recency := (h.recency_remove uri).2

theorem Steady.leaves (h : c.Steady) {op : CacheOp} (hdocument : op.document? = none)
    {answer : CacheAnswer α} {log : List LogEntry}
    (happly : c.apply read op = .ok (answer, log, next)) : c.Leaves next op := by
  have hspared : op.Spares [] → (∀ uri, op.leaves uri = true) → c.Leaves next op := by
    intro hop hall
    obtain ⟨_, _, next', heq, hsteady, hsame⟩ := h.apply_spared hop hdocument
    rw [heq] at happly
    cases happly
    refine ⟨hsteady, hsame.options, hsame.reads, ?_⟩
    rw [hsame.recency, List.filter_eq_self.mpr fun uri _ => hall uri]
  cases op with
  | get doc => cases hdocument
  | remove uri =>
    cases happly
    exact h.leaves_remove uri
  | documentRemoved doc =>
    cases happly
    obtain ⟨hsteady, hoptions, hreads, hrecency⟩ := h.leaves_remove doc.uri
    exact ⟨hsteady, hoptions, hreads, hrecency⟩
  | dispose =>
    cases happly
    exact ⟨h.dispose, rfl, rfl, (List.filter_eq_nil_iff.mpr fun _ _ => Bool.false_ne_true).symm⟩
  | sweep => exact hspared trivial fun _ => rfl
  | size => exact hspared trivial fun _ => rfl
  | contains uri => exact hspared trivial fun _ => rfl
  | lapse idle => exact hspared trivial fun _ => rfl
  | backgroundSweep => exact hspared trivial fun _ => rfl
  | wait milliseconds => exact hspared trivial fun _ => rfl

/-! ## Runs -/

/-- Carries out some operations in order. -/
def run (read : Reader α) (c : Cache α) : List CacheOp → Except Fault (Cache α)
  | [] => .ok c
  | op :: ops => do
    let (_, _, next) ← c.apply read op
    next.run read ops

/-- The states that a cache with these bounds can come to. -/
def Reachable (read : Reader α) (options : CacheOptions) (c : Cache α) : Prop :=
  ∃ start ops, create options = .ok start ∧ start.run read ops = .ok c

theorem apply_get {doc : Document} {stored : Stored α} {log : List LogEntry}
    (h : c.get read doc = .ok (stored, log, next)) :
    c.apply read (.get doc) = .ok (.model stored, log, next) := by
  rw [apply, h]
  rfl

theorem run_cons {op : CacheOp} {answer : CacheAnswer α} {log : List LogEntry}
    (h : c.apply read op = .ok (answer, log, next)) (ops : List CacheOp) :
    c.run read (op :: ops) = next.run read ops := by
  rw [run, h]
  rfl

theorem run_concat {ops : List CacheOp} {op : CacheOp} (h : c.run read (ops ++ [op]) = .ok next) :
    ∃ mid answer log, c.run read ops = .ok mid ∧ mid.apply read op = .ok (answer, log, next) := by
  induction ops generalizing c with
  | nil =>
    cases happly : c.apply read op with
    | error fault =>
      rw [List.nil_append, run, happly] at h
      cases h
    | ok result =>
      rw [List.nil_append, run_cons happly] at h
      cases h
      exact ⟨c, _, _, rfl, happly⟩
  | cons first ops ih =>
    cases happly : c.apply read first with
    | error fault =>
      rw [List.cons_append, run, happly] at h
      cases h
    | ok result =>
      rw [List.cons_append, run_cons happly] at h
      rw [run_cons happly]
      exact ih h

section Total

variable (hread : ∀ doc, ∃ result, read doc = .ok result)
include hread

theorem Steady.apply (h : c.Steady) {op : CacheOp} {answer : CacheAnswer α} {log : List LogEntry}
    (happly : c.apply read op = .ok (answer, log, next)) :
    next.Steady ∧ next.options = c.options := by
  cases hdocument : op.document? with
  | none =>
    have hleaves := h.leaves hdocument happly
    exact ⟨hleaves.steady, hleaves.options⟩
  | some doc =>
    obtain rfl := CacheOp.document?_eq_some.mp hdocument
    obtain ⟨stored, log', next', hget, hgot, -⟩ := h.get (hread doc)
    rw [apply_get hget] at happly
    cases happly
    exact ⟨hgot.steady, hgot.options⟩

theorem exists_run (c : Cache α) (ops : List CacheOp) : ∃ last, c.run read ops = .ok last := by
  induction ops generalizing c with
  | nil => exact ⟨c, rfl⟩
  | cons op ops ih =>
    obtain ⟨answer, log, next, happly⟩ := exists_apply hread c op
    rw [run_cons happly]
    exact ih next

theorem Steady.run (h : c.Steady) {ops : List CacheOp} (hrun : c.run read ops = .ok next) :
    next.Steady ∧ next.options = c.options := by
  induction ops generalizing c with
  | nil =>
    cases hrun
    exact ⟨h, rfl⟩
  | cons op ops ih =>
    obtain ⟨answer, log, after, happly⟩ := exists_apply hread c op
    rw [run_cons happly] at hrun
    obtain ⟨hafter, hoptions⟩ := h.apply hread happly
    obtain ⟨hnext, hrest⟩ := ih hafter hrun
    exact ⟨hnext, hrest.trans hoptions⟩

theorem Reachable.steady {options : CacheOptions} (hinterval : options.interval = none)
    (h : c.Reachable read options) : c.Steady ∧ c.options = options := by
  obtain ⟨start, ops, hcreate, hrun⟩ := h
  obtain ⟨hstart, hoptions⟩ := Steady.create hinterval hcreate
  obtain ⟨hsteady, heq⟩ := hstart.run hread hrun
  exact ⟨hsteady, heq.trans hoptions⟩

end Total

end Cache

end KafkaScript
