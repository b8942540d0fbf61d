import Mathlib.Data.Finset.Card
import KafkaScript.Proofs.Cache.Eviction

/-!
# When a request finds its model again

A cache without an interval keeps a model until the address is asked for under
another version or language, or until requests for as many other addresses as
there are places have come in between (`Cache.Reachable.get_again`). How often an
address is asked for does not count, nor does it matter what else is done with the
cache, as long as no entry is removed.

Two invariants of the requests in between say so, one for each half. Only addresses
asked for since stand ahead of the address (`Retained`): this needs no more than that
its own request came to the front, in whatever order the others count. And all of
them do, if it is still there (`PushedBack`): this needs every request in between to
come to the front. A request does, unless it is answered while the last store that
maintenance has yet to account for is of another address; then it falls behind that
store (`Cache.overtakes`), and the example below the theorem shows what may come of
it.
-/

namespace KafkaScript

/-! ## The addresses ahead -/

section Ahead

variable {uri v : Text} {places : Nat} {seen uris front behind : List Text}

/-- What stands ahead of an address is in front of it. -/
theorem mem_front_of_ahead (hnodup : (front ++ uri :: behind).Nodup)
    (h : [v, uri].Sublist (front ++ uri :: behind)) : v ∈ front := by
  obtain ⟨hfront, hbehind, hdisjoint⟩ := List.nodup_append.mp hnodup
  have hnot : uri ∉ behind := (List.nodup_cons.mp hbehind).1
  obtain ⟨l, m, heq, hl, hm⟩ := List.sublist_append_iff.mp h
  cases l with
  | nil =>
    obtain rfl : [v, uri] = m := heq
    rcases List.cons_sublist_cons'.mp hm with hlater | ⟨-, hlater⟩
    · exact absurd (hlater.subset (by simp)) hnot
    · exact absurd (hlater.subset (by simp)) hnot
  | cons x l =>
    obtain ⟨rfl, -⟩ := List.cons.inj heq
    exact hl.subset List.mem_cons_self

theorem ahead_of_mem_front (h : v ∈ front) : [v, uri].Sublist (front ++ uri :: behind) :=
  (List.singleton_sublist.mpr h).append (List.singleton_sublist.mpr List.mem_cons_self)

/-- What stands ahead of an address that is not cut off is not cut off either. -/
theorem ahead_take (hnodup : uris.Nodup) (h : [v, uri].Sublist uris)
    (hmem : uri ∈ uris.take places) : [v, uri].Sublist (uris.take places) := by
  obtain ⟨front, behind, htake⟩ := List.append_of_mem hmem
  rw [← List.take_append_drop places uris, htake, List.append_assoc, List.cons_append] at hnodup h
  rw [htake]
  exact ahead_of_mem_front (mem_front_of_ahead hnodup h)

/-- As long as fewer addresses were seen than there are places, the address is there, and
ahead of it stand only addresses that were seen. -/
def Retained (uri : Text) (places : Nat) (seen uris : List Text) : Prop :=
  seen.toFinset.card < places → uri ∈ uris ∧ ∀ v, [v, uri].Sublist uris → v ∈ seen

/-- All addresses that were seen stand ahead of the address, if that is there. -/
def PushedBack (uri : Text) (seen uris : List Text) : Prop :=
  uri ∈ uris → ∀ v ∈ seen, [v, uri].Sublist uris

theorem Retained.of_append (h : Retained uri places seen uris)
    (hfew : (seen ++ [v]).toFinset.card < places) :
    uri ∈ uris ∧ ∀ w, [w, uri].Sublist uris → w ∈ seen := by
  refine h (lt_of_le_of_lt (Finset.card_le_card ?_) hfew)
  rw [List.toFinset_append]
  exact Finset.subset_union_left

/-- A new address comes to the front. -/
theorem Retained.new (h : Retained uri places seen uris) (hnodup : (v :: uris).Nodup)
    (hfew : (seen ++ [v]).toFinset.card < places) : uri ∈ (v :: uris).take places := by
  obtain ⟨hmem, hahead⟩ := h.of_append hfew
  obtain ⟨front, behind, rfl⟩ := List.append_of_mem hmem
  -- what is in front was seen, so there are places for all of it
  have hfront : (v :: front).toFinset ⊆ (seen ++ [v]).toFinset := by
    intro x hx
    rw [List.mem_toFinset, List.mem_append, List.mem_singleton]
    rcases List.mem_cons.mp (List.mem_toFinset.mp hx) with rfl | hx
    · exact .inr rfl
    · exact .inl (hahead x (ahead_of_mem_front hx))
  have hcard := Finset.card_le_card hfront
  rw [← List.cons_append] at hnodup ⊢
  rw [List.toFinset_card_of_nodup (List.nodup_append.mp hnodup).1] at hcard
  obtain ⟨k, hk⟩ := Nat.exists_eq_add_of_lt (lt_of_le_of_lt hcard hfew)
  rw [hk, Nat.add_assoc, List.take_length_add_append, List.take_succ_cons]
  exact List.mem_append_right _ List.mem_cons_self

/-- Another address comes to the front. -/
theorem PushedBack.use (h : PushedBack uri seen uris) (hnodup : uris.Nodup) (hne : v ≠ uri) :
    PushedBack uri (seen ++ [v]) ((v :: uris.filter (· != v)).take places) := by
  intro hmem w hw
  have hnodupNow : (v :: uris.filter (· != v)).Nodup :=
    List.nodup_cons.mpr ⟨by simp, hnodup.filter _⟩
  have hthere : uri ∈ uris.filter (· != v) :=
    (List.mem_cons.mp (List.mem_of_mem_take hmem)).resolve_left hne.symm
  refine ahead_take hnodupNow ?_ hmem
  by_cases heq : w = v
  · subst heq
    exact List.cons_sublist_cons.mpr (List.singleton_sublist.mpr hthere)
  · have hseen : w ∈ seen := by simpa [heq] using hw
    have hfilter := (h (List.mem_filter.mp hthere).1 w hseen).filter (· != v)
    rw [List.filter_eq_self.mpr (by simp [heq, hne.symm])] at hfilter
    exact hfilter.cons v

/-- Where as many addresses were seen as there are places, the address is gone. -/
theorem PushedBack.not_mem (h : PushedBack uri seen uris) (hnodup : uris.Nodup)
    (hlength : uris.length ≤ places) (hmany : places ≤ seen.toFinset.card) : uri ∉ uris := by
  intro hmem
  have hahead := h hmem
  obtain ⟨front, behind, rfl⟩ := List.append_of_mem hmem
  have hsub : seen.toFinset ⊆ front.toFinset := fun v hv =>
    List.mem_toFinset.mpr (mem_front_of_ahead hnodup (hahead v (List.mem_toFinset.mp hv)))
  have hcard := (Finset.card_le_card hsub).trans (List.toFinset_card_le front)
  rw [List.length_append, List.length_cons] at hlength
  omega

end Ahead

namespace Cache

variable {α : Type} {c next : Cache α} {read : Reader α} {uri : Text}

/-! ## Requests in their order -/

/-- Whether no request in a run overtakes a store of another address. -/
def inOrder (read : Reader α) (c : Cache α) : List CacheOp → Bool
  | [] => true
  | op :: ops =>
    !op.document?.any c.overtakes &&
      match c.apply read op with
      | .ok (_, _, next) => next.inOrder read ops
      | .error _ => true

theorem inOrder_cons {op : CacheOp} {answer : CacheAnswer α} {log : List LogEntry}
    (h : c.apply read op = .ok (answer, log, next)) (ops : List CacheOp) :
    c.inOrder read (op :: ops) = true ↔
      (∀ doc, op.document? = some doc → c.overtakes doc = false) ∧
        next.inOrder read ops = true := by
  rw [inOrder, h, Bool.and_eq_true, Bool.not_eq_true', Option.any_eq_false]

/-! ## Sparing an address -/

/-- What became of a cache while an address was spared: its entry is the same, if
it is still there. -/
structure Spared (uri : Text) (c next : Cache α) : Prop where
  steady : next.Steady
  options : next.options = c.options
  reads : c.reads ≤ next.reads
  entries : ∀ e ∈ next.entries, e.uri = uri → e ∈ c.entries

theorem Spared.trans {d : Cache α} (h : c.Spared uri d) (hnext : d.Spared uri next) :
    c.Spared uri next where
  steady := hnext.steady
  options := hnext.options.trans h.options
  reads := h.reads.trans hnext.reads
  entries := fun e he huri => h.entries e (hnext.entries e he huri) huri

/-- A request for another address, in whatever order it counts. -/
theorem Steady.retained_get (h : c.Steady) {doc : Document} (hne : doc.uri ≠ uri)
    {stored : Stored α} {log : List LogEntry} (hget : c.get read doc = .ok (stored, log, next))
    {seen : List Text} (hretained : Retained uri c.options.capacity seen c.recency) :
    Retained uri c.options.capacity (seen ++ [doc.uri]) next.recency := by
  intro hfew
  obtain ⟨hmem, hahead⟩ := hretained.of_append hfew
  constructor
  · by_cases hthere : doc.uri ∈ c.recency
    · have hfilter := congrArg (uri ∈ ·) (h.filter_recency_get hget hthere)
      simpa [hne.symm, hmem] using hfilter
    · rw [h.recency_get_new hget hthere]
      exact hretained.new (List.nodup_cons.mpr ⟨hthere, h.nodup_recency⟩) hfew
  · intro v hv
    rw [List.mem_append, List.mem_singleton]
    by_cases heq : v = doc.uri
    · exact .inr heq
    · exact .inl (hahead v (h.ahead_get hget heq hne.symm hv))

/-- A request returns the model that an earlier one returned, and nothing is read. -/
def Recalls (c next : Cache α) (earlier stored : Stored α) : Prop :=
  stored = earlier ∧ next.reads = c.reads

/-- A request reads its document, once, and returns the new model. -/
def Rereads (c next : Cache α) (read : Reader α) (doc : Document) (earlier stored : Stored α) :
    Prop :=
  stored ≠ earlier ∧ next.reads = c.reads + 1 ∧ ∃ readLog, read doc = .ok (stored.model, readLog)

/-! ## Caches that read every document -/

section Total

variable (hread : ∀ doc, ∃ result, read doc = .ok result)
include hread

/-- One operation, and where the address stands after it. -/
theorem Steady.spared_apply (h : c.Steady) {op : CacheOp} (hop : op.Spares uri) :
    ∃ answer log next, c.apply read op = .ok (answer, log, next) ∧ c.Spared uri next ∧
      (∀ seen, Retained uri c.options.capacity seen c.recency →
        Retained uri c.options.capacity (seen ++ CacheOp.requests [op]) next.recency) ∧
      ((∀ doc, op.document? = some doc → c.overtakes doc = false) →
        ∀ seen, PushedBack uri seen c.recency →
          PushedBack uri (seen ++ CacheOp.requests [op]) next.recency) := by
  cases hdocument : op.document? with
  | none =>
    obtain ⟨answer, log, next, happly, hsteady, hsame⟩ := h.apply_spared hop hdocument
    refine ⟨answer, log, next, happly, ⟨hsteady, hsame.options, hsame.reads.ge, ?_⟩, ?_⟩
    · intro e he _
      exact (hsame.mem e).mp he
    · rw [CacheOp.requests_of_document?_eq_none hdocument, hsame.recency]
      simp only [List.append_nil]
      exact ⟨fun _ hretained => hretained, fun _ _ hpushed => hpushed⟩
  | some doc =>
    obtain rfl := CacheOp.document?_eq_some.mp hdocument
    obtain ⟨stored, log, next, hget, hgot, hreads, huses⟩ := h.get (hread doc)
    refine ⟨.model stored, log, next, apply_get hget, ⟨hgot.steady, hgot.options, hreads, ?_⟩,
      fun seen hretained => h.retained_get hop hget hretained, ?_⟩
    · intro e he heq
      exact hgot.others e he fun hdoc => hop (hdoc.symm.trans heq)
    · intro horder seen hpushed
      rw [huses (horder doc rfl)]
      exact hpushed.use h.nodup_recency hop

/-- A whole run. -/
theorem Steady.spared_run (h : c.Steady) {ops : List CacheOp} (hops : ∀ op ∈ ops, op.Spares uri) :
    ∃ last, c.run read ops = .ok last ∧ c.Spared uri last ∧
      (∀ seen, Retained uri c.options.capacity seen c.recency →
        Retained uri c.options.capacity (seen ++ CacheOp.requests ops) last.recency) ∧
      (c.inOrder read ops = true → ∀ seen, PushedBack uri seen c.recency →
        PushedBack uri (seen ++ CacheOp.requests ops) last.recency) := by
  induction ops generalizing c with
  | nil =>
    refine ⟨c, rfl, ⟨h, rfl, Nat.le_refl _, fun e he _ => he⟩, ?_⟩
    rw [CacheOp.requests, List.filterMap_nil, List.map_nil]
    simp only [List.append_nil]
    exact ⟨fun _ hretained => hretained, fun _ _ hpushed => hpushed⟩
  | cons op ops ih =>
    obtain ⟨hop, hops⟩ := List.forall_mem_cons.mp hops
    obtain ⟨answer, log, next, happly, hspared, hretained, hpushed⟩ := h.spared_apply hread hop
    obtain ⟨last, hrun, hrest, hretainedRest, hpushedRest⟩ := ih hspared.steady hops
    rw [hspared.options] at hretainedRest
    rw [← List.singleton_append, CacheOp.requests_append]
    simp only [← List.append_assoc]
    refine ⟨last, (run_cons happly ops).trans hrun, hspared.trans hrest,
      fun seen h => hretainedRest _ (hretained seen h), ?_⟩
    intro horder seen h
    obtain ⟨hfirst, horder⟩ := (inOrder_cons happly ops).mp horder
    exact hpushedRest horder _ (hpushed hfirst seen h)

/-! ## Asking again -/

/-- A request under an address of which at most one entry is left, that for an
earlier document. -/
theorem Steady.get_left (h : c.Steady) {d₁ d₂ : Document} (huri : d₂.uri = d₁.uri)
    {s₁ : Stored α} (hserial : s₁.serial < c.reads)
    (hentry : ∀ e ∈ c.live? d₁.uri, e = ⟨d₁.uri, d₁.version, d₁.language, s₁, false⟩) :
    ∃ s₂ log next, c.get read d₂ = .ok (s₂, log, next) ∧
      if d₂.version = d₁.version ∧ d₂.language = d₁.language ∧ c.contains d₁.uri = true then
        c.Recalls next s₁ s₂
      else c.Rereads next read d₂ s₁ s₂ := by
  by_cases hsame : d₂.version = d₁.version ∧ d₂.language = d₁.language ∧ c.contains d₁.uri = true
  · obtain ⟨hversion, hlanguage, hthere⟩ := hsame
    obtain ⟨e, hlive⟩ := Option.isSome_iff_exists.mp hthere
    obtain rfl := hentry e hlive
    rw [← huri] at hlive
    have hanswers : answers ⟨d₁.uri, d₁.version, d₁.language, s₁, false⟩ d₂ = true := by
      simp [answers, hversion, hlanguage]
    obtain ⟨log, next, hget, hreads, -⟩ := h.get_of_answered hlive hanswers
    refine ⟨s₁, log, next, hget, ?_⟩
    rw [if_pos ⟨hversion, hlanguage, hthere⟩]
    exact ⟨rfl, hreads⟩
  · have hno : ¬ c.Answered d₂ := by
      rintro ⟨e, hlive, hanswers⟩
      rw [huri] at hlive
      obtain rfl := hentry e hlive
      obtain ⟨hversion, hlanguage⟩ : d₁.version = d₂.version ∧ d₁.language = d₂.language := by
        simpa [answers] using hanswers
      exact hsame ⟨hversion.symm, hlanguage.symm, Option.isSome_of_mem hlive⟩
    obtain ⟨⟨model, readLog⟩, hmodel⟩ := hread d₂
    obtain ⟨log, next, hget, hreads, -⟩ := h.get_of_unanswered hno hmodel
    refine ⟨_, log, next, hget, ?_⟩
    rw [if_neg hsame]
    refine ⟨?_, hreads, readLog, hmodel⟩
    -- the earlier model was read before, so it has a smaller serial
    rintro rfl
    exact Nat.lt_irrefl _ hserial

/-- An address is asked for, spared, and asked for again: the same model comes back
if version and language are the same and the entry is still there; otherwise the
document is read, once. -/
theorem Steady.get_spared (h : c.Steady) {d₁ d₂ : Document} (huri : d₂.uri = d₁.uri)
    {between : List CacheOp} (hbetween : ∀ op ∈ between, op.Spares d₁.uri) :
    ∃ s₁ log₁ c₁ c₂ s₂ log₂ c₃, c.get read d₁ = .ok (s₁, log₁, c₁) ∧
      c₁.run read between = .ok c₂ ∧ c₂.get read d₂ = .ok (s₂, log₂, c₃) ∧
      (c.overtakes d₁ = false →
        (CacheOp.requests between).toFinset.card < c.options.capacity →
          c₂.contains d₁.uri = true) ∧
      (c₁.inOrder read between = true →
        c.options.capacity ≤ (CacheOp.requests between).toFinset.card →
          c₂.contains d₁.uri = false) ∧
      if d₂.version = d₁.version ∧ d₂.language = d₁.language ∧ c₂.contains d₁.uri = true then
        c₂.Recalls c₃ s₁ s₂
      else c₂.Rereads c₃ read d₂ s₁ s₂ := by
  obtain ⟨s₁, log₁, c₁, hget₁, hgot, -, huses⟩ := h.get (hread d₁)
  obtain ⟨c₂, hrun, hspared, hretained, hpushed⟩ := hgot.steady.spared_run hread hbetween
  have horderly := hspared.steady.toOrderly
  -- whatever entry the address still has is the one that the first request left
  have hentry : ∀ e ∈ c₂.live? d₁.uri,
      e = ⟨d₁.uri, d₁.version, d₁.language, s₁, false⟩ := by
    intro e he
    obtain ⟨hmem, heq, -⟩ := mem_live? he
    exact List.inj_on_of_nodup_map hgot.steady.nodup (hspared.entries e hmem heq) hgot.entry heq
  have hserial : s₁.serial < c₂.reads :=
    lt_of_lt_of_le (hgot.steady.serials _ hgot.entry) hspared.reads
  obtain ⟨s₂, log₂, c₃, hget₂, hlaw⟩ := hspared.steady.get_left hread huri hserial hentry
  refine ⟨s₁, log₁, c₁, c₂, s₂, log₂, c₃, hget₁, hrun, hget₂, ?_, ?_, hlaw⟩
  · intro horder hfew
    -- right after the first request nothing stands ahead of the address
    have hfront : Retained d₁.uri c₁.options.capacity [] c₁.recency := fun _ =>
      ⟨hgot.mem_recency,
        fun v hv => absurd hv ((huses horder).not_ahead hgot.steady.toOrderly v)⟩
    have hlast := hretained [] hfront
    rw [hgot.options] at hlast
    exact horderly.contains_iff.mpr (hlast hfew).1
  · intro horder hmany
    have hlast := hpushed horder [] fun _ => nofun
    have hlength := hspared.steady.length_recency
    rw [hspared.options, hgot.options] at hlength
    have hgone := hlast.not_mem horderly.nodup_recency hlength hmany
    exact Bool.eq_false_iff.mpr fun hthere => hgone (horderly.contains_iff.mp hthere)

/-- In every state of a cache without an interval: after a request for a document,
whatever spares its address, a request under the address returns the same model if
version and language are the same and fewer other addresses were asked for in
between than there are places; here the first request has to count in its order, and
no other. If version or language are not the same, or if as many addresses were asked
for in between as there are places and these requests count in their order, it reads
its document, once, and returns the new model. -/
theorem Reachable.get_again {options : CacheOptions} (hinterval : options.interval = none)
    (hc : c.Reachable read options) {d₁ d₂ : Document} (huri : d₂.uri = d₁.uri)
    {between : List CacheOp} (hbetween : ∀ op ∈ between, op.Spares d₁.uri) :
    ∃ s₁ log₁ c₁ c₂ s₂ log₂ c₃, c.get read d₁ = .ok (s₁, log₁, c₁) ∧
      c₁.run read between = .ok c₂ ∧ c₂.get read d₂ = .ok (s₂, log₂, c₃) ∧
      (c.overtakes d₁ = false → d₂.version = d₁.version → d₂.language = d₁.language →
        (CacheOp.requests between).toFinset.card < options.capacity → c₂.Recalls c₃ s₁ s₂) ∧
      (c₁.inOrder read between = true →
        options.capacity ≤ (CacheOp.requests between).toFinset.card →
          c₂.Rereads c₃ read d₂ s₁ s₂) ∧
      (¬ (d₂.version = d₁.version ∧ d₂.language = d₁.language) → c₂.Rereads c₃ read d₂ s₁ s₂) ∧
      (c₂.Recalls c₃ s₁ s₂ ∨ c₂.Rereads c₃ read d₂ s₁ s₂) := by
  obtain ⟨hsteady, rfl⟩ := hc.steady hread hinterval
  obtain ⟨s₁, log₁, c₁, c₂, s₂, log₂, c₃, hget₁, hrun, hget₂, hretained, hgone, hlaw⟩ :=
    hsteady.get_spared hread huri hbetween
  refine ⟨s₁, log₁, c₁, c₂, s₂, log₂, c₃, hget₁, hrun, hget₂, ?_, ?_, ?_, ?_⟩
  · intro horder hversion hlanguage hfew
    rwa [if_pos ⟨hversion, hlanguage, hretained horder hfew⟩] at hlaw
  · intro horder hmany
    rwa [if_neg (by simp [hgone horder hmany])] at hlaw
  · intro hedited
    rwa [if_neg fun ⟨hversion, hlanguage, _⟩ => hedited ⟨hversion, hlanguage⟩] at hlaw
  · split at hlaw
    · exact .inl hlaw
    · exact .inr hlaw

/-- Where the entries are counted before each operation, the requests of every run
count in their order. -/
theorem inOrder_counted (c : Cache α) (ops : List CacheOp) :
    c.inOrder read (ops.flatMap fun op => [.size, op]) = true := by
  induction ops generalizing c with
  | nil => rfl
  | cons op ops ih =>
    have hsize : c.apply read .size =
        .ok (.count c.maintain.1.entries.length, c.maintain.2, c.maintain.1) := rfl
    obtain ⟨answer, log, next, happly⟩ := exists_apply hread c.maintain.1 op
    -- after maintenance no store is outstanding that could be overtaken
    have hstored : (c.maintain.1.ready c.maintain.1.requested).1.stored = [] := by
      unfold ready
      split <;> rfl
    show c.inOrder read (.size :: op :: ops.flatMap _) = true
    rw [inOrder_cons hsize, inOrder_cons happly]
    refine ⟨nofun, ?_, ih next⟩
    intro doc _
    rw [overtakes, hstored]
    exact Bool.and_false _

end Total

/-- With three places, two other documents are asked for, and a request for the second
overtakes the store of a new version of the first: it does not count in its order, but
`a` is still there. -/
theorem Reachable.get_again_scripts :
    let a : Document := .kafka "a".toList []
    let b : Document := .kafka "b".toList []
    let d : Document := .kafka "d".toList []
    let read := Script.readLogged .standard
    let between : List CacheOp :=
      [.get b, .get d, .get (b.withVersion 2), .get d, .contains a.uri]
    ∃ (c : Cache Script) (s₁ : Stored Script) (log₁ : List LogEntry) (c₁ c₂ : Cache Script)
      (s₂ : Stored Script) (log₂ : List LogEntry) (c₃ : Cache Script),
      c.Reachable read ⟨3, none⟩ ∧ c.get read a = .ok (s₁, log₁, c₁) ∧
        c₁.inOrder read between = false ∧ c₁.run read between = .ok c₂ ∧
        c₂.get read a = .ok (s₂, log₂, c₃) ∧ c₂.Recalls c₃ s₁ s₂ := by
  intro a b d read between
  have hread : ∀ doc, ∃ result, read doc = .ok result :=
    fun doc => ⟨_, Script.readLogged_eq .standard doc⟩
  let start : Cache Script := ⟨⟨3, none⟩, [], [], [], 0, 0, false⟩
  have hreachable : start.Reachable read ⟨3, none⟩ := ⟨_, [], rfl, rfl⟩
  have hbetween : ∀ op ∈ between, op.Spares a.uri := by decide
  obtain ⟨s₁, log₁, c₁, c₂, s₂, log₂, c₃, hget₁, hrun, hget₂, hhit, -⟩ :=
    Reachable.get_again hread rfl hreachable (show a.uri = a.uri from rfl) hbetween
  have hovertaken : start.inOrder read (.get a :: between) = false := by decide
  rw [inOrder, apply_get hget₁] at hovertaken
  have hrecalls := hhit (by decide) rfl rfl (by decide)
  exact ⟨start, s₁, log₁, c₁, c₂, s₂, log₂, c₃, hreachable, hget₁, hovertaken, hrun, hget₂,
    hrecalls⟩

/-- With two places, a request for `a` overtakes the store of a new version of `b`,
and `c` then pushes `a` out; not so if the entries are counted before. -/
example :
    let a : Document := .kafka "a".toList []
    let b : Document := .kafka "b".toList []
    let c : Document := .kafka "c".toList []
    let read := Script.readLogged .standard
    let start : Cache Script := ⟨⟨2, none⟩, [], [], [], 0, 0, false⟩
    ((start.run read [.get a, .get b, .get (b.withVersion 2), .get a, .get c]).toOption.map
        fun c => c.contains a.uri) = some false ∧
      ((start.run read [.get a, .get b, .get (b.withVersion 2), .size, .get a, .get c]).toOption.map
        fun c => c.contains a.uri) = some true := by
  decide

end Cache

end KafkaScript
