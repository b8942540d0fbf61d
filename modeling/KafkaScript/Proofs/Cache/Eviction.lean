import Mathlib.Data.Finset.Card
import KafkaScript.Proofs.Cache.Operations
import KafkaScript.Proofs.Reading

/-!
# Which address has to go

A cache without an interval knows at most as many addresses as it has places. A
request leaves its own address known and takes at most one other away: none if the
address was known before, under whatever version, or if a place was free. What goes
otherwise stands last in the order of use (`Cache.Steady.known_get_full`). Apart from
requests, only a removal and the end of the cache take addresses away.

To say how long ago an address was asked for, a run is cut at the last request for
it (`Cache.LastRequest`). The invariant is `Cache.Traced`: whatever stands ahead of
an address was asked for since. A request that overtakes a store
(`Cache.overtakes`) ends up behind an address that was not asked for since, so for
the address of such a request nothing is said about what stands ahead.
-/

namespace KafkaScript

namespace Cache

variable {α : Type} {c next : Cache α} {read : Reader α} {uri : Text} {doc : Document}

/-! ## The addresses that are known -/

/-- The addresses that the cache knows. -/
def known (c : Cache α) : Finset Text :=
  (c.entries.map (·.uri)).toFinset.filter fun uri => c.contains uri = true

theorem mem_known : uri ∈ c.known ↔ c.contains uri = true := by
  rw [known, Finset.mem_filter, List.mem_toFinset, and_iff_right_of_imp]
  intro h
  obtain ⟨e, he⟩ := Option.isSome_iff_exists.mp h
  obtain ⟨hmem, huri, -⟩ := mem_live? he
  exact List.mem_map.mpr ⟨e, hmem, huri⟩

theorem Orderly.known_eq (h : c.Orderly) : c.known = c.recency.toFinset := by
  ext uri
  rw [mem_known, h.contains_iff, List.mem_toFinset]

theorem Steady.card_known (h : c.Steady) : c.known.card = c.recency.length := by
  rw [h.known_eq, List.toFinset_card_of_nodup h.nodup_recency]

theorem Steady.card_known_le (h : c.Steady) : c.known.card ≤ c.options.capacity := by
  rw [h.card_known]
  exact h.length_recency

/-- Two caches that agree on all addresses but one that both know. -/
theorem known_congr (hc : c.Orderly) (hnext : next.Orderly) (hmem : uri ∈ c.recency)
    (hmem' : uri ∈ next.recency)
    (h : next.recency.filter (· != uri) = c.recency.filter (· != uri)) : next.known = c.known := by
  ext v
  rw [hc.known_eq, hnext.known_eq, List.mem_toFinset, List.mem_toFinset]
  by_cases hv : v = uri
  · subst hv
    exact iff_of_true hmem' hmem
  · have hfilter := congrArg (v ∈ ·) h
    simpa [hv] using hfilter

/-! ## Requests -/

theorem Got.mem_recency {stored : Stored α} (h : c.Got next doc stored) :
    doc.uri ∈ next.recency :=
  (recency_perm next).mem_iff.mpr (List.mem_map.mpr ⟨_, h.entry, rfl⟩)

/-- Nothing stands ahead of an address that has come to the front. -/
theorem Uses.not_ahead (h : c.Uses next uri) (hnext : next.Orderly) (v : Text) :
    ¬ [v, uri].Sublist next.recency := by
  obtain ⟨k, hk⟩ := Nat.exists_eq_add_one.mpr c.options.capacity_pos
  have hnodup := hnext.nodup_recency
  rw [Uses, hk, List.take_succ_cons] at h
  rw [h] at hnodup ⊢
  intro hahead
  apply (List.nodup_cons.mp hnodup).1
  rcases List.cons_sublist_cons'.mp hahead with hbehind | ⟨-, hbehind⟩
  · exact hbehind.subset (by simp)
  · exact hbehind.subset (by simp)

section Requests

variable (h : c.Steady) {stored : Stored α} {log : List LogEntry}
  (hget : c.get read doc = .ok (stored, log, next))
include h hget

/-- A request for an address that is there moves no other, even where it overtakes
a store. -/
theorem Steady.filter_recency_get (hmem : doc.uri ∈ c.recency) :
    next.recency.filter (· != doc.uri) = c.recency.filter (· != doc.uri) := by
  rcases get_cases hget with ⟨-, rfl⟩ | ⟨log', hload⟩
  · obtain ⟨-, hsame⟩ := h.ready
    show ((c.ready c.requested).1.requesting doc.uri).recency.filter _ = _
    rw [filter_recency_requesting, hsame.recency]
  · obtain ⟨readLog, -, -, rfl⟩ := load_cases hload
    rw [(h.uses_iff_of_mem hmem).mp (h.loaded doc stored.model).2,
      List.filter_cons_of_neg (by simp), List.filter_filter]
    simp only [Bool.and_self]

theorem Steady.recency_get_new (hnew : doc.uri ∉ c.recency) :
    next.recency = (doc.uri :: c.recency).take c.options.capacity := by
  have hlive : c.live? doc.uri = none := by
    apply Option.not_isSome_iff_eq_none.mp
    exact fun hcontains => hnew (h.contains_iff.mp hcontains)
  have hovertakes : c.overtakes doc = false := by
    rw [overtakes, hlive]
    rfl
  rw [(h.got_of_get hget).2 hovertakes, filter_ne_of_not_mem hnew]

/-- At any rate the other addresses keep their order. -/
theorem Steady.filter_recency_get_sublist :
    (next.recency.filter (· != doc.uri)).Sublist c.recency := by
  by_cases hmem : doc.uri ∈ c.recency
  · rw [h.filter_recency_get hget hmem]
    exact List.filter_sublist
  · rw [h.recency_get_new hget hmem]
    have hsub := (List.take_sublist c.options.capacity (doc.uri :: c.recency)).filter
      (· != doc.uri)
    rw [List.filter_cons_of_neg (by simp)] at hsub
    exact hsub.trans List.filter_sublist

/-- No other address overtakes one by a request for a third. -/
theorem Steady.ahead_get {v : Text} (hv : v ≠ doc.uri) (huri : uri ≠ doc.uri)
    (hahead : [v, uri].Sublist next.recency) : [v, uri].Sublist c.recency := by
  have hfilter := hahead.filter (· != doc.uri)
  rw [List.filter_eq_self.mpr (by simp [hv, huri])] at hfilter
  exact hfilter.trans (h.filter_recency_get_sublist hget)

theorem Steady.known_get (hmem : doc.uri ∈ c.known) : next.known = c.known := by
  obtain ⟨hgot, -⟩ := h.got_of_get hget
  rw [h.known_eq, List.mem_toFinset] at hmem
  exact known_congr h.toOrderly hgot.steady.toOrderly hmem hgot.mem_recency
    (h.filter_recency_get hget hmem)

theorem Steady.known_get_free (hnew : doc.uri ∉ c.known)
    (hfree : c.known.card < c.options.capacity) : next.known = insert doc.uri c.known := by
  obtain ⟨hgot, -⟩ := h.got_of_get hget
  rw [h.card_known] at hfree
  rw [h.known_eq, List.mem_toFinset] at hnew
  rw [hgot.steady.known_eq, h.known_eq, h.recency_get_new hget hnew,
    List.take_of_length_le hfree, List.toFinset_cons]

/-- With all places taken, what stands last has to go. -/
theorem Steady.known_get_full (hnew : doc.uri ∉ c.known)
    (hfull : c.known.card = c.options.capacity) :
    ∃ ahead victim, c.recency = ahead ++ [victim] ∧
      next.known = insert doc.uri (c.known.erase victim) := by
  obtain ⟨hgot, -⟩ := h.got_of_get hget
  have hnodup := h.nodup_recency
  have hrecency := h.recency_get_new hget (by rwa [h.known_eq, List.mem_toFinset] at hnew)
  rw [h.card_known] at hfull
  rw [hgot.steady.known_eq, h.known_eq, hrecency, ← hfull]
  rcases c.recency.eq_nil_or_concat' with hnil | ⟨ahead, victim, hlast⟩
  · rw [hnil] at hfull
    exact absurd hfull c.options.capacity_pos.ne
  · refine ⟨ahead, victim, hlast, ?_⟩
    rw [hlast] at hnodup
    have hgone : victim ∉ ahead.toFinset := by
      rw [List.mem_toFinset]
      intro hmem
      exact (List.nodup_append.mp hnodup).2.2 victim hmem victim List.mem_cons_self rfl
    rw [hlast, List.length_append, List.length_singleton, List.take_succ_cons,
      List.take_left, List.toFinset_cons, List.toFinset_append, List.toFinset_cons,
      List.toFinset_nil, insert_empty_eq, Finset.union_comm, ← Finset.insert_eq,
      Finset.erase_insert hgone]

end Requests

/-! ## All other operations -/

theorem Steady.known_remove (h : c.Steady) (uri : Text) :
    (c.remove uri).1 = decide (uri ∈ c.known) ∧
      (c.remove uri).2.2.known = c.known.erase uri := by
  obtain ⟨hanswer, hrecency⟩ := h.recency_remove uri
  obtain ⟨hsteady, -⟩ := h.remove uri
  rw [hanswer, hsteady.known_eq, h.known_eq, hrecency]
  refine ⟨by simp only [List.mem_toFinset], ?_⟩
  ext v
  simp [and_comm]

/-! ## The last request for an address -/

/-- The last request for an address in a run: which document it was for, the cache
that it was made to, and what was done since. -/
structure LastRequest (read : Reader α) (start : Cache α) (ops : List CacheOp)
    (doc : Document) (before : Cache α) (since : List CacheOp) : Prop where
  run : ∃ front, ops = front ++ .get doc :: since ∧ start.run read front = .ok before
  last : doc.uri ∉ CacheOp.requests since

section LastRequest

variable {start before : Cache α} {ops since : List CacheOp}

theorem LastRequest.now (hrun : start.run read ops = .ok c) (doc : Document) :
    LastRequest read start (ops ++ [.get doc]) doc c [] :=
  ⟨⟨ops, rfl, hrun⟩, List.not_mem_nil⟩

theorem LastRequest.concat (h : LastRequest read start ops doc before since) {op : CacheOp}
    (hother : doc.uri ∉ CacheOp.requests [op]) :
    LastRequest read start (ops ++ [op]) doc before (since ++ [op]) where
  run := by
    obtain ⟨front, rfl, hrun⟩ := h.run
    exact ⟨front, List.append_assoc _ _ _, hrun⟩
  last := by
    rw [CacheOp.requests_append, List.mem_append, not_or]
    exact ⟨h.last, hother⟩

/-- Each address was asked for, and if that counted in its order, what stands
ahead of the address was asked for since. -/
def Traced (read : Reader α) (start : Cache α) (ops : List CacheOp) (c : Cache α) : Prop :=
  ∀ uri ∈ c.recency, ∃ doc before since, LastRequest read start ops doc before since ∧
    doc.uri = uri ∧
    (before.overtakes doc = false →
      ∀ v, [v, uri].Sublist c.recency → v ∈ CacheOp.requests since)

theorem Traced.concat (h : Traced read start ops c) {op : CacheOp}
    (hdocument : op.document? = none) (hleaves : c.Leaves next op) :
    Traced read start (ops ++ [op]) next := by
  have hsub : next.recency.Sublist c.recency := hleaves.recency ▸ List.filter_sublist
  intro uri huri
  obtain ⟨doc, before, since, hlast, hdoc, hahead⟩ := h uri (hsub.subset huri)
  have hnone := CacheOp.requests_of_document?_eq_none hdocument
  refine ⟨doc, before, since ++ [op], hlast.concat (hnone ▸ List.not_mem_nil), hdoc, ?_⟩
  intro horder v hv
  rw [CacheOp.requests_append, hnone, List.append_nil]
  exact hahead horder v (hv.trans hsub)

theorem Traced.get (h : Traced read start ops c) (hsteady : c.Steady)
    (hrun : start.run read ops = .ok c) {stored : Stored α} {log : List LogEntry}
    (hget : c.get read doc = .ok (stored, log, next)) :
    Traced read start (ops ++ [.get doc]) next := by
  obtain ⟨hgot, huses⟩ := hsteady.got_of_get hget
  have hsub := hsteady.filter_recency_get_sublist hget
  intro uri huri
  by_cases hnow : uri = doc.uri
  · -- the address that is asked for now has none ahead
    subst hnow
    refine ⟨doc, c, [], .now hrun doc, rfl, ?_⟩
    exact fun horder v hv => absurd hv ((huses horder).not_ahead hgot.steady.toOrderly v)
  · have hbefore : uri ∈ c.recency := hsub.subset (by simpa [hnow] using huri)
    obtain ⟨last, before, since, hlast, rfl, hahead⟩ := h uri hbefore
    have hother : last.uri ∉ CacheOp.requests [.get doc] := by
      simpa [CacheOp.requests, CacheOp.document?] using hnow
    refine ⟨last, before, since ++ [.get doc], hlast.concat hother, rfl, ?_⟩
    intro horder v hv
    rw [CacheOp.requests_append, List.mem_append]
    by_cases hv' : v = doc.uri
    · right
      simp [CacheOp.requests, CacheOp.document?, hv']
    · left
      exact hahead horder v (hsteady.ahead_get hget hv' hnow hv)

theorem traced_run (hread : ∀ doc, ∃ result, read doc = .ok result) {options : CacheOptions}
    (hinterval : options.interval = none) (hcreate : create options = .ok start)
    (hrun : start.run read ops = .ok c) : Traced read start ops c := by
  obtain ⟨hstart, -⟩ := Steady.create hinterval hcreate
  induction ops using List.reverseRecOn generalizing c with
  | nil =>
    rw [create, hinterval] at hcreate
    cases hcreate
    cases hrun
    intro uri huri
    exact absurd huri List.not_mem_nil
  | append_singleton ops op ih =>
    obtain ⟨mid, answer, log, hmid, happly⟩ := run_concat hrun
    obtain ⟨hsteady, -⟩ := hstart.run hread hmid
    cases hdocument : op.document? with
    | none => exact (ih hmid).concat hdocument (hsteady.leaves hdocument happly)
    | some doc =>
      obtain rfl := CacheOp.document?_eq_some.mp hdocument
      obtain ⟨stored, log', next, hget⟩ := exists_get hread mid doc
      rw [apply_get hget] at happly
      cases happly
      exact (ih hmid).get hsteady hmid hget

/-- The last request for an address lies further back than those for all other
addresses that are known, provided that it counted in its order. -/
def LongestAgo (read : Reader α) (start : Cache α) (ops : List CacheOp) (c : Cache α)
    (uri : Text) : Prop :=
  ∃ doc before since, LastRequest read start ops doc before since ∧ doc.uri = uri ∧
    (before.overtakes doc = false → ∀ v ∈ c.known, v ≠ uri → v ∈ CacheOp.requests since)

theorem Traced.longestAgo (h : Traced read start ops c) (hc : c.Orderly) {ahead : List Text}
    (hlast : c.recency = ahead ++ [uri]) : LongestAgo read start ops c uri := by
  obtain ⟨doc, before, since, hrequest, hdoc, hahead⟩ := h uri (by simp [hlast])
  refine ⟨doc, before, since, hrequest, hdoc, ?_⟩
  intro horder v hv hne
  apply hahead horder
  rw [hc.known_eq, hlast, List.mem_toFinset] at hv
  rw [hlast]
  have hv' : v ∈ ahead := by simpa [hne] using hv
  exact (List.singleton_sublist.mpr hv').append (List.Sublist.refl [uri])

end LastRequest

/-! ## The addresses of a cache after a run -/

/-- How many addresses a cache knows after a run, and which one the next operation
brings in or takes away. -/
structure KeepsLatest (read : Reader α) (start : Cache α) (ops : List CacheOp)
    (c : Cache α) : Prop where
  bounded : c.known.card ≤ c.options.capacity
  get : ∀ doc, ∃ stored log next, c.get read doc = .ok (stored, log, next) ∧
    doc.uri ∈ next.known ∧
    (doc.uri ∈ c.known → next.known = c.known) ∧
    (doc.uri ∉ c.known → c.known.card < c.options.capacity →
      next.known = insert doc.uri c.known) ∧
    (doc.uri ∉ c.known → c.known.card = c.options.capacity →
      ∃ victim ∈ c.known, next.known = insert doc.uri (c.known.erase victim) ∧
        LongestAgo read start ops c victim)
  remove : ∀ uri, (c.remove uri).1 = decide (uri ∈ c.known) ∧
    (c.remove uri).2.2.known = c.known.erase uri
  sweep : c.sweep.1 = 0 ∧ c.sweep.2.2.known = c.known

/-- A cache without an interval never knows more addresses than it has places.
Whatever was done with it, a request takes at most one other address away, only if
its own is a new one and no place is free, and then the one whose last request lies
furthest back, provided that this request counted in its order. A removal takes away
just the address that it is for, and a sweep none. -/
theorem keepsLatest_run (hread : ∀ doc, ∃ result, read doc = .ok result)
    {options : CacheOptions} (hinterval : options.interval = none) {start : Cache α}
    (hcreate : create options = .ok start) {ops : List CacheOp}
    (hrun : start.run read ops = .ok c) : c.options = options ∧ KeepsLatest read start ops c := by
  obtain ⟨hsteady, hoptions⟩ := Reachable.steady hread hinterval ⟨start, ops, hcreate, hrun⟩
  have htraced := traced_run hread hinterval hcreate hrun
  have hsweep : c.sweep = (0, [], c) := by
    rw [sweep, hsteady.interval]
    rfl
  refine ⟨hoptions, hsteady.card_known_le, ?_, hsteady.known_remove, by rw [hsweep],
    by rw [hsweep]⟩
  intro doc
  obtain ⟨stored, log, next, hget⟩ := exists_get hread c doc
  obtain ⟨hgot, -⟩ := hsteady.got_of_get hget
  refine ⟨stored, log, next, hget, ?_, hsteady.known_get hget, hsteady.known_get_free hget, ?_⟩
  · rw [hgot.steady.known_eq, List.mem_toFinset]
    exact hgot.mem_recency
  · intro hnew hfull
    obtain ⟨ahead, victim, hlast, hknown⟩ := hsteady.known_get_full hget hnew hfull
    refine ⟨victim, ?_, hknown, htraced.longestAgo hsteady.toOrderly hlast⟩
    rw [hsteady.known_eq, hlast]
    simp

/-- With two places, both of them taken: the next new address pushes one of the
two out. -/
theorem keepsLatest_run_scripts :
    let a : Document := .kafka "a".toList []
    let b : Document := .kafka "b".toList []
    let read := Script.readLogged .standard
    let start : Cache Script := ⟨⟨2, none⟩, [], [], [], 0, 0, false⟩
    let ops : List CacheOp := [.get a, .get b, .get (b.withVersion 2), .size, .get a]
    ∃ c, create ⟨2, none⟩ = .ok start ∧ start.run read ops = .ok c ∧
      c.known = {a.uri, b.uri} ∧ c.known.card = c.options.capacity ∧
      KeepsLatest read start ops c := by
  intro a b read start ops
  have hread : ∀ doc, ∃ result, read doc = .ok result :=
    fun doc => ⟨_, Script.readLogged_eq .standard doc⟩
  have hcreate : create ⟨2, none⟩ = .ok start := rfl
  obtain ⟨c, hrun⟩ := exists_run hread start ops
  obtain ⟨hoptions, hlatest⟩ := keepsLatest_run hread rfl hcreate hrun
  have hknown : (start.run read ops).toOption.map known = some {a.uri, b.uri} := by decide
  rw [hrun] at hknown
  have hknown : c.known = {a.uri, b.uri} := Option.some.inj hknown
  exact ⟨c, hcreate, hrun, hknown, by rw [hknown, hoptions]; decide, hlatest⟩

end Cache

end KafkaScript
