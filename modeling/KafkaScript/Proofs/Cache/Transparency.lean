import KafkaScript.Proofs.Cache.Entries
import KafkaScript.Proofs.Reading

/-!
# The cache is transparent

Whatever a cache is asked, and whatever it loses on the way, a request for a
document returns what reading the document returns (`Cache.Course.transparent`).
That takes one condition on the documents: those with the same address, version
and language have the same text.

The invariant is `Cache.Vouched`: every entry was the answer to an earlier request
under the address, version and language that it keeps, and every answer so far is
what reading the document gives. A cache that loses entries keeps it, a request
answered from an entry keeps it by the condition on the documents, and a request
that reads its document keeps it as it is.
-/

namespace KafkaScript

namespace Cache

variable {α : Type}

/-- What was asked of a cache, with the answers. -/
abbrev Trace (α : Type) := List (CacheOp × CacheAnswer α)

/-- The courses that a cache can take, each with what was asked on the way. At
any point entries may be lost, lapse or change their order, also while a document
is being read because the cache did not answer. -/
inductive Course (read : Reader α) (start : Cache α) : Trace α → Cache α → Prop where
  | start : Course read start [] start
  | op {trace : Trace α} {c next : Cache α} {op : CacheOp} {answer : CacheAnswer α}
      {log : List LogEntry} : Course read start trace c →
      c.apply read op = .ok (answer, log, next) → Course read start (trace ++ [(op, answer)]) next
  | decay {trace : Trace α} {c next : Cache α} : Course read start trace c → c.Decays next →
      Course read start trace next
  | lateLoad {trace : Trace α} {c d next : Cache α} {doc : Document} {stored : Stored α}
      {log : List LogEntry} : Course read start trace c → ¬ c.Answered doc →
      (c.lookedUp doc.uri).Decays d → d.load read doc = .ok (stored, log, next) →
      Course read start (trace ++ [(.get doc, .model stored)]) next

/-- Documents that were asked for under the same address, version and language
have the same text. -/
def Trace.SameTexts (trace : Trace α) : Prop :=
  ∀ d e answer answer', (.get d, answer) ∈ trace → (.get e, answer') ∈ trace → d.uri = e.uri →
    d.version = e.version → d.language = e.language → d.text = e.text

/-- The entries come from answers that were given, and these from reading. -/
structure Vouched (read : Reader α) (trace : Trace α) (c : Cache α) : Prop where
  entries : ∀ e ∈ c.entries, ∃ doc, (.get doc, .model e.stored) ∈ trace ∧ e.uri = doc.uri ∧
    e.version = doc.version ∧ e.language = doc.language
  answers : ∀ doc answer, (.get doc, answer) ∈ trace →
    ∃ stored log, answer = .model stored ∧ read doc = .ok (stored.model, log)

section Steps

variable {read : Reader α} {trace : Trace α} {c next : Cache α}

theorem Vouched.decay (h : Vouched read trace c) (hdecay : c.Decays next) :
    Vouched read trace next := by
  refine ⟨?_, h.answers⟩
  intro e he
  obtain ⟨old, hold, heq⟩ := hdecay e he
  obtain ⟨doc, hdoc⟩ := h.entries old hold
  rw [heq]
  exact ⟨doc, hdoc⟩

/-- What is asked further on takes nothing back. -/
theorem Vouched.entries_append (h : Vouched read trace c) (more : Trace α) :
    ∀ e ∈ c.entries, ∃ doc, (.get doc, .model e.stored) ∈ trace ++ more ∧ e.uri = doc.uri ∧
      e.version = doc.version ∧ e.language = doc.language := by
  intro e he
  obtain ⟨doc, hmem, hsame⟩ := h.entries e he
  exact ⟨doc, List.mem_append_left _ hmem, hsame⟩

theorem Vouched.answers_concat (h : Vouched read trace c) {doc : Document} {stored : Stored α}
    {log : List LogEntry} (hread : read doc = .ok (stored.model, log)) :
    ∀ d answer, (.get d, answer) ∈ trace ++ [(.get doc, .model stored)] →
      ∃ stored log, answer = .model stored ∧ read d = .ok (stored.model, log) := by
  intro d answer hmem
  rcases List.mem_append.mp hmem with hmem | hmem
  · exact h.answers d answer hmem
  · obtain ⟨hd, rfl⟩ := Prod.mk.inj (List.mem_singleton.mp hmem)
    obtain rfl := CacheOp.get.inj hd
    exact ⟨stored, log, rfl, hread⟩

/-- A request that reads its document. -/
theorem Vouched.load (h : Vouched read trace c) {doc : Document} {stored : Stored α}
    {log : List LogEntry} (hload : c.load read doc = .ok (stored, log, next)) :
    Vouched read (trace ++ [(.get doc, .model stored)]) next := by
  obtain ⟨readLog, hread, hserial, rfl⟩ := load_cases hload
  refine ⟨?_, h.answers_concat hread⟩
  intro e he
  rcases mem_loaded he with rfl | hold
  · refine ⟨doc, List.mem_append_right _ ?_, rfl, rfl, rfl⟩
    show (CacheOp.get doc, CacheAnswer.model ⟨c.reads, stored.model⟩) ∈ _
    rw [← hserial]
    exact List.mem_singleton_self _
  · exact h.entries_append _ e hold

/-- A request that an entry answers. -/
theorem Vouched.hit (h : Vouched read trace c) {doc : Document} {e : CacheEntry α}
    (hlive : c.live? doc.uri = some e) (hanswers : Cache.answers e doc = true)
    (hsame : Trace.SameTexts (trace ++ [(.get doc, .model e.stored)])) :
    Vouched read (trace ++ [(.get doc, .model e.stored)]) (c.noteRequest doc.uri).1 := by
  obtain ⟨hmem, huri, -⟩ := mem_live? hlive
  obtain ⟨hversion, hlanguage⟩ : e.version = doc.version ∧ e.language = doc.language := by
    simpa [Cache.answers] using hanswers
  obtain ⟨d, hd, hduri, hdversion, hdlanguage⟩ := h.entries e hmem
  -- the entry was made for a document that agrees with this one in everything
  have htext : d.text = doc.text :=
    hsame d doc _ _ (List.mem_append_left _ hd) (List.mem_append_right _ (List.mem_singleton_self _))
      (hduri.symm.trans huri) (hdversion.symm.trans hversion) (hdlanguage.symm.trans hlanguage)
  have hdoc : d = doc := by
    cases d
    cases doc
    simp_all
  obtain ⟨stored, log, hstored, hread⟩ := h.answers d _ hd
  obtain rfl := CacheAnswer.model.inj hstored
  refine ⟨?_, h.answers_concat (hdoc ▸ hread)⟩
  intro e' he'
  exact h.entries_append _ e' (entries_noteRequest_subset c doc.uri he')

/-- One operation. -/
theorem Vouched.op (h : Vouched read trace c) {op : CacheOp} {answer : CacheAnswer α}
    {log : List LogEntry} (happly : c.apply read op = .ok (answer, log, next))
    (hsame : Trace.SameTexts (trace ++ [(op, answer)])) :
    Vouched read (trace ++ [(op, answer)]) next := by
  rcases apply_cases happly with ⟨doc, stored, rfl, rfl, hget⟩ | ⟨hop, hdecay⟩
  · rcases get_cases hget with ⟨⟨e, hlive, hanswers, rfl⟩, rfl⟩ | ⟨log', hload⟩
    · exact h.hit hlive hanswers hsame
    · exact (h.decay (decays_lookedUp c doc.uri)).load hload
  · refine ⟨(h.decay hdecay).entries_append _, ?_⟩
    intro doc answer' hmem
    rcases List.mem_append.mp hmem with hmem | hmem
    · exact h.answers doc answer' hmem
    · exact absurd (congrArg Prod.fst (List.mem_singleton.mp hmem)).symm (hop doc)

end Steps

theorem Trace.SameTexts.of_append {trace more : Trace α} (h : SameTexts (trace ++ more)) :
    SameTexts trace := by
  intro d e answer answer' hd he
  exact h d e answer answer' (List.mem_append_left _ hd) (List.mem_append_left _ he)

/-- The whole course, from a cache without entries. -/
theorem Course.vouched {read : Reader α} {start c : Cache α} {trace : Trace α}
    (hstart : start.entries = []) (h : Course read start trace c) (hsame : trace.SameTexts) :
    Vouched read trace c := by
  induction h with
  | start =>
    refine ⟨?_, nofun⟩
    rw [hstart]
    exact nofun
  | op _ happly ih => exact (ih hsame.of_append).op happly hsame
  | decay _ hdecay ih => exact (ih hsame).decay hdecay
  | @lateLoad _ c _ _ doc _ _ _ _ hdecay hload ih =>
    have hlooked := (ih hsame.of_append).decay (decays_lookedUp c doc.uri)
    exact (hlooked.decay hdecay).load hload

/-! ## Scripts -/

/-- What is vouched for is the script that reading the document returns. -/
theorem Vouched.script {catalog : Catalog} {c : Cache Script} {trace : Trace Script}
    (h : Vouched (Script.readLogged catalog) trace c) {doc : Document} {answer : CacheAnswer Script}
    (hmem : (.get doc, answer) ∈ trace) :
    ∃ stored, answer = .model stored ∧ Script.read doc catalog = .ok stored.model := by
  obtain ⟨stored, log, hanswer, hread⟩ := h.answers doc answer hmem
  rw [Script.readLogged_eq] at hread
  obtain ⟨hmodel, -⟩ := Prod.mk.inj (Except.ok.inj hread)
  refine ⟨stored, hanswer, ?_⟩
  rw [Script.read_eq, hmodel]

end Cache

/-- A cache of scripts always answers, and each request for a document is answered
with the script that reading the document returns. -/
theorem Cache.Course.transparent {catalog : Catalog} {options : CacheOptions}
    {start c : Cache Script} {trace : Trace Script} (hcreate : create options = .ok start)
    (h : Course (Script.readLogged catalog) start trace c) (hsame : trace.SameTexts) :
    (∀ doc answer, (.get doc, answer) ∈ trace →
        ∃ stored, answer = .model stored ∧ Script.read doc catalog = .ok stored.model) ∧
      ∀ op, ∃ answer log next, c.apply (Script.readLogged catalog) op = .ok (answer, log, next) := by
  constructor
  · intro doc answer hmem
    exact (h.vouched (entries_create hcreate) hsame).script hmem
  · exact exists_apply (fun doc => ⟨_, Script.readLogged_eq catalog doc⟩) c

/-- A document is edited, its entry is lost, and it goes back to its first version. -/
theorem Cache.Course.transparent_backwards :
    let first : Document := .kafka "a".toList "PRODUCER\nx\n".toList
    let second : Document := ⟨"a".toList, 2, Document.kafkaLanguage, "CONSUMER g\n".toList⟩
    ∃ (start c : Cache Script) (a b d : CacheAnswer Script),
      let trace := [(.get first, a), (.get second, b), (.get first, d)]
      create ⟨1, none⟩ = .ok start ∧ Course (Script.readLogged .standard) start trace c ∧
        Trace.SameTexts trace ∧
        ∃ stored, d = .model stored ∧ Script.read first .standard = .ok stored.model := by
  intro first second
  have hread : ∀ doc, ∃ result, Script.readLogged .standard doc = .ok result :=
    fun doc => ⟨_, Script.readLogged_eq .standard doc⟩
  let start : Cache Script := ⟨⟨1, none⟩, [], [], [], 0, 0, false⟩
  have hcreate : create ⟨1, none⟩ = .ok start := rfl
  obtain ⟨a, _, c₁, ha⟩ := exists_apply hread start (.get first)
  obtain ⟨b, _, c₂, hb⟩ := exists_apply hread c₁ (.get second)
  obtain ⟨d, _, c₃, hd⟩ := exists_apply hread { c₂ with entries := [] } (.get first)
  have hlost : c₂.Decays { c₂ with entries := [] } := fun e he => absurd he List.not_mem_nil
  have hcourse : Course (Script.readLogged .standard) start
      [(.get first, a), (.get second, b), (.get first, d)] c₃ :=
    (((Course.start.op ha).op hb).decay hlost).op hd
  have hversions : first.version ≠ second.version := by decide
  have hsame : Trace.SameTexts [(.get first, a), (.get second, b), (.get first, d)] := by
    clear_value first second
    intro d e answer answer' hd he _ hversion _
    simp only [List.mem_cons, List.not_mem_nil, or_false, Prod.mk.injEq, CacheOp.get.injEq] at hd he
    have hd : d = first ∨ d = second := by tauto
    have he : e = first ∨ e = second := by tauto
    rcases hd with rfl | rfl <;> rcases he with rfl | rfl
    · rfl
    · exact absurd hversion hversions
    · exact absurd hversion.symm hversions
    · rfl
  refine ⟨start, c₃, a, b, d, hcreate, hcourse, hsame, ?_⟩
  exact (Course.transparent hcreate hcourse hsame).1 first d
    (List.mem_cons_of_mem _ (List.mem_cons_of_mem _ List.mem_cons_self))

end KafkaScript
