import KafkaScript.Proofs.Cache.Eviction
import KafkaScript.Proofs.Cache.HitLaw

/-!
# Caches of different sizes

Of two caches without an interval of which the same is asked, the one with more
places knows every address that the other one knows, and answers every request that
the other one answers; so it never reads more documents (`Cache.run_within`).

The invariant is `Cache.Within`: the order of use of the smaller cache is the
beginning of that of the larger one, and the two agree on version and language of
what both have. A request brings its address to the front in both, and fewer places
cut off more of the same order. This needs the requests to count in their order, in
both caches: whether one overtakes a store (`Cache.overtakes`) depends on when
maintenance last came about, and that differs between the two.
-/

namespace KafkaScript

namespace Cache

variable {α : Type} {c next small large small' large' : Cache α} {read : Reader α}
  {doc : Document}

theorem Decays.subset (h : c.Decays next) (hc : c.Orderly) (hnext : next.Orderly) :
    next.entries ⊆ c.entries := by
  intro e he
  obtain ⟨old, hold, heq⟩ := h e he
  rw [hnext.live e he, ← hc.live old hold] at heq
  rw [heq]
  exact hold

/-- An entry is still there if its address is, and the address has no new entry. -/
theorem Orderly.mem_of_mem_recency (h : c.Orderly) {e : CacheEntry α} (he : e ∈ c.entries)
    (hmem : e.uri ∈ next.recency)
    (hold : ∀ old ∈ next.entries, old.uri = e.uri → old ∈ c.entries) : e ∈ next.entries := by
  obtain ⟨old, hnext, huri⟩ := List.mem_map.mp ((recency_perm next).mem_iff.mp hmem)
  have heq : old = e := List.inj_on_of_nodup_map h.nodup (hold old hnext huri) he huri
  exact heq ▸ hnext

/-! ## The smaller cache within the larger one -/

/-- All that the smaller cache has, the larger one has too, in the same order of
use and at most with another model. -/
structure Within (small large : Cache α) : Prop where
  steady : small.Steady
  steady' : large.Steady
  places : small.options.capacity ≤ large.options.capacity
  order : small.recency <+: large.recency
  entries : ∀ e ∈ small.entries, ∃ stored, { e with stored := stored } ∈ large.entries
  reads : large.reads ≤ small.reads

theorem Within.known (h : Within small large) : small.known ⊆ large.known := by
  intro uri huri
  rw [h.steady.known_eq, List.mem_toFinset] at huri
  rw [h.steady'.known_eq, List.mem_toFinset]
  exact h.order.subset huri

theorem Within.answered (h : Within small large) (hanswered : small.Answered doc) :
    large.Answered doc := by
  obtain ⟨e, hlive, hanswers⟩ := hanswered
  obtain ⟨hmem, huri⟩ := h.steady.live?_eq_some.mp hlive
  obtain ⟨stored, hmem'⟩ := h.entries e hmem
  exact ⟨{ e with stored := stored }, h.steady'.live?_eq_some.mpr ⟨hmem', huri⟩, hanswers⟩

/-- What both had and the smaller cache still has, the larger one still has. -/
theorem Within.entries_kept (h : Within small large) (horder : small'.recency <+: large'.recency)
    {e : CacheEntry α} (he' : e ∈ small'.entries) (he : e ∈ small.entries)
    (hold : ∀ old ∈ large'.entries, old.uri = e.uri → old ∈ large.entries) :
    ∃ stored, { e with stored := stored } ∈ large'.entries := by
  obtain ⟨stored, hmem⟩ := h.entries e he
  refine ⟨stored, h.steady'.mem_of_mem_recency hmem (horder.subset ?_) hold⟩
  exact (recency_perm small').mem_iff.mpr (List.mem_map.mpr ⟨e, he', rfl⟩)

/-- What the larger cache reads, the smaller one reads too. -/
theorem Within.reads_get (h : Within small large) {stored stored' : Stored α}
    {log log' : List LogEntry} (hsmall : small.get read doc = .ok (stored, log, small'))
    (hlarge : large.get read doc = .ok (stored', log', large')) :
    large'.reads = large.reads ∧ small.reads ≤ small'.reads ∨
      large'.reads = large.reads + 1 ∧ small'.reads = small.reads + 1 := by
  rcases Cache.reads_get hlarge with ⟨-, hsame⟩ | ⟨hunanswered, hmore⟩
  · left
    rcases Cache.reads_get hsmall with ⟨-, hsame'⟩ | ⟨-, hmore'⟩
    · exact ⟨hsame, hsame'.ge⟩
    · exact ⟨hsame, hmore' ▸ Nat.le_succ _⟩
  · right
    rcases Cache.reads_get hsmall with ⟨hanswered, -⟩ | ⟨-, hmore'⟩
    · exact absurd (h.answered hanswered) hunanswered
    · exact ⟨hmore, hmore'⟩

/-- A request that counts in its order in both. -/
theorem Within.get (h : Within small large) {stored stored' : Stored α}
    {log log' : List LogEntry} (hsmall : small.get read doc = .ok (stored, log, small'))
    (hlarge : large.get read doc = .ok (stored', log', large'))
    (hinOrder : small.overtakes doc = false) (hinOrder' : large.overtakes doc = false) :
    Within small' large' := by
  obtain ⟨hgot, huses⟩ := h.steady.got_of_get hsmall
  obtain ⟨hgot', huses'⟩ := h.steady'.got_of_get hlarge
  have horder : small'.recency <+: large'.recency := by
    rw [huses hinOrder, huses' hinOrder']
    have hfront := List.prefix_cons_inj doc.uri |>.mpr (h.order.filter (· != doc.uri))
    exact (hfront.take _).trans (List.take_prefix_take_left h.places)
  refine ⟨hgot.steady, hgot'.steady, ?_, horder, ?_, ?_⟩
  · rw [hgot.options, hgot'.options]
    exact h.places
  · intro e he
    by_cases huri : e.uri = doc.uri
    · obtain rfl : e = ⟨doc.uri, doc.version, doc.language, stored, false⟩ :=
        List.inj_on_of_nodup_map hgot.steady.nodup he hgot.entry huri
      exact ⟨stored', hgot'.entry⟩
    · refine h.entries_kept horder he (hgot.others e he huri) ?_
      intro old hold heq
      exact hgot'.others old hold (heq ▸ huri)
  · have hreads := h.reads
    rcases h.reads_get hsmall hlarge with ⟨hsame, hge⟩ | ⟨hmore, hmore'⟩
    · omega
    · omega

/-- Any other operation. -/
theorem Within.leaves (h : Within small large) {op : CacheOp} (hsmall : small.Leaves small' op)
    (hlarge : large.Leaves large' op) (hdecays : small.Decays small')
    (hdecays' : large.Decays large') : Within small' large' := by
  have horder : small'.recency <+: large'.recency := by
    rw [hsmall.recency, hlarge.recency]
    exact h.order.filter _
  refine ⟨hsmall.steady, hlarge.steady, ?_, horder, ?_, ?_⟩
  · rw [hsmall.options, hlarge.options]
    exact h.places
  · intro e he
    have hmem := hdecays.subset h.steady.toOrderly hsmall.steady.toOrderly he
    refine h.entries_kept horder he hmem ?_
    intro old hold _
    exact hdecays'.subset h.steady'.toOrderly hlarge.steady.toOrderly hold
  · rw [hsmall.reads, hlarge.reads]
    exact h.reads

/-! ## Runs -/

theorem Within.create {m n : Nat} (hle : m ≤ n) (hsmall : create ⟨m, none⟩ = .ok small)
    (hlarge : create ⟨n, none⟩ = .ok large) : Within small large := by
  obtain ⟨hsteady, hoptions⟩ := Steady.create rfl hsmall
  obtain ⟨hsteady', hoptions'⟩ := Steady.create rfl hlarge
  cases hsmall
  cases hlarge
  exact ⟨hsteady, hsteady', max_le_max_right 1 hle, List.prefix_refl _, nofun, Nat.le_refl _⟩

section Runs

variable (hread : ∀ doc, ∃ result, read doc = .ok result)
include hread

/-- One operation carried out on both. -/
theorem Within.apply (h : Within small large) {op : CacheOp} {answer answer' : CacheAnswer α}
    {log log' : List LogEntry} (hsmall : small.apply read op = .ok (answer, log, small'))
    (hlarge : large.apply read op = .ok (answer', log', large'))
    (hinOrder : ∀ doc, op.document? = some doc → small.overtakes doc = false)
    (hinOrder' : ∀ doc, op.document? = some doc → large.overtakes doc = false) :
    Within small' large' := by
  rcases apply_cases hsmall with ⟨doc, stored, rfl, -, hget⟩ | ⟨hother, hdecays⟩
  · obtain ⟨stored', log'', next, hget'⟩ := exists_get hread large doc
    rw [apply_get hget'] at hlarge
    cases hlarge
    exact h.get hget hget' (hinOrder doc rfl) (hinOrder' doc rfl)
  · have hdocument := CacheOp.document?_eq_none.mpr hother
    rcases apply_cases hlarge with ⟨doc, -, rfl, -⟩ | ⟨-, hdecays'⟩
    · exact absurd rfl (hother doc)
    · exact h.leaves (h.steady.leaves hdocument hsmall) (h.steady'.leaves hdocument hlarge)
        hdecays hdecays'

/-- Any number of operations. -/
theorem Within.run (h : Within small large) {ops : List CacheOp}
    (hinOrder : small.inOrder read ops = true) (hinOrder' : large.inOrder read ops = true) :
    ∃ small' large', small.run read ops = .ok small' ∧ large.run read ops = .ok large' ∧
      Within small' large' := by
  induction ops generalizing small large with
  | nil => exact ⟨small, large, rfl, rfl, h⟩
  | cons op ops ih =>
    obtain ⟨_, _, next, happly⟩ := exists_apply hread small op
    obtain ⟨_, _, next', happly'⟩ := exists_apply hread large op
    obtain ⟨hfirst, hrest⟩ := (inOrder_cons happly ops).mp hinOrder
    obtain ⟨hfirst', hrest'⟩ := (inOrder_cons happly' ops).mp hinOrder'
    rw [run_cons happly, run_cons happly']
    exact ih (h.apply hread happly happly' hfirst hfirst') hrest hrest'

/-- A larger cache knows all that a smaller one knows after the same operations. It
has read no more documents, and it answers the next request if the smaller one
does. This holds where the requests count in their order in both. -/
theorem run_within {m n : Nat} (hle : m ≤ n) {start start' : Cache α}
    (hstart : create ⟨m, none⟩ = .ok start) (hstart' : create ⟨n, none⟩ = .ok start')
    {ops : List CacheOp} (hinOrder : start.inOrder read ops = true)
    (hinOrder' : start'.inOrder read ops = true) :
    ∃ small large, start.run read ops = .ok small ∧ start'.run read ops = .ok large ∧
      small.known ⊆ large.known ∧ large.reads ≤ small.reads ∧
      ∀ doc, ∃ stored log small' stored' log' large',
        small.get read doc = .ok (stored, log, small') ∧
        large.get read doc = .ok (stored', log', large') ∧
        (small'.reads = small.reads → large'.reads = large.reads) := by
  have hcreate := Within.create hle hstart hstart'
  obtain ⟨small, large, hsmall, hlarge, hwithin⟩ := hcreate.run hread hinOrder hinOrder'
  refine ⟨small, large, hsmall, hlarge, hwithin.known, hwithin.reads, ?_⟩
  intro doc
  obtain ⟨stored, log, small', hget⟩ := exists_get hread small doc
  obtain ⟨stored', log', large', hget'⟩ := exists_get hread large doc
  refine ⟨stored, log, small', stored', log', large', hget, hget', ?_⟩
  intro hanswered
  rcases hwithin.reads_get hget hget' with ⟨hsame, -⟩ | ⟨-, hmore⟩
  · exact hsame
  · omega

end Runs

/-- Two places or three, and a third document: the larger cache has kept what the
smaller one has lost. -/
theorem run_within_scripts :
    let a : Document := .kafka "a".toList []
    let b : Document := .kafka "b".toList []
    let c : Document := .kafka "c".toList []
    let read := Script.readLogged .standard
    let ops : List CacheOp := [.get a, .get b, .get (b.withVersion 2), .size, .get a, .get c]
    let start : Cache Script := ⟨⟨2, none⟩, [], [], [], 0, 0, false⟩
    let start' : Cache Script := ⟨⟨3, none⟩, [], [], [], 0, 0, false⟩
    ∃ small large, start.run read ops = .ok small ∧ start'.run read ops = .ok large ∧
      small.known = {a.uri, c.uri} ∧ large.known = {a.uri, b.uri, c.uri} ∧
      small.known ⊆ large.known ∧ large.reads ≤ small.reads := by
  intro a b c read ops start start'
  have hread : ∀ doc, ∃ result, read doc = .ok result :=
    fun doc => ⟨_, Script.readLogged_eq .standard doc⟩
  have hstart : create ⟨2, none⟩ = .ok start := rfl
  have hstart' : create ⟨3, none⟩ = .ok start' := rfl
  obtain ⟨small, large, hrun, hrun', hknown, hreads, -⟩ :=
    run_within hread (by decide) hstart hstart' (by decide : start.inOrder read ops = true)
      (by decide)
  have hsmall : (start.run read ops).toOption.map known = some {a.uri, c.uri} := by decide
  have hlarge : (start'.run read ops).toOption.map known = some {a.uri, b.uri, c.uri} := by
    decide
  rw [hrun] at hsmall
  rw [hrun'] at hlarge
  exact ⟨small, large, hrun, hrun', Option.some.inj hsmall, Option.some.inj hlarge, hknown, hreads⟩

/-- Where a request overtakes stores in the larger cache alone, an address may be
known to the smaller one only: storing `c` makes `a` go where there are two places,
so the last request for `a` is answered just where there are three. -/
example :
    let a : Document := .kafka "a".toList []
    let b : Document := .kafka "b".toList []
    let c : Document := .kafka "c".toList []
    let d : Document := .kafka "d".toList []
    let read := Script.readLogged .standard
    let ops : List CacheOp := [.get a, .get b, .get c, .get (b.withVersion 2),
      .get (c.withVersion 2), .get a, .get d]
    let knows (places : Nat) : Option Bool :=
      let start : Cache Script := ⟨⟨places, none⟩, [], [], [], 0, 0, false⟩
      (start.run read ops).toOption.map fun cache => cache.contains a.uri
    knows 2 = some true ∧ knows 3 = some false := by
  decide

end Cache

end KafkaScript
