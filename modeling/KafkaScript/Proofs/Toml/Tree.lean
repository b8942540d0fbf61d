import Mathlib.Data.List.Nodup
import KafkaScript.Proofs.Toml.Statements

/-!
# Documents that are read back

In a table that is written as sections, plain entries come before those that have sections of
their own (`Toml.IsOrdered`): a header ends the section before it. What such a table says is
added to a document under construction at one place, to which the names of the table lead
(`Toml.Place`). A table without a header comes about when a longer header first leads through
it. From the sections of one entry to those of a table and of a whole document
(`Toml.read_write`) every step is that something is added at a place.
-/

namespace KafkaScript

namespace Entries

variable {α : Type} {name : Text} {entries : List (Text × α)}

theorem lookup_eq_none (h : name ∉ entries.map Prod.fst) : entries.lookup name = none := by
  rw [List.lookup_eq_none_iff]
  intro e he
  rw [bne_iff_ne]
  rintro rfl
  exact h (List.mem_map_of_mem he)

theorem lookup_append_self (h : name ∉ entries.map Prod.fst) (a : α) :
    (entries ++ [(name, a)]).lookup name = some a := by
  rw [List.lookup_append, lookup_eq_none h]
  simp

theorem put_new (h : name ∉ entries.map Prod.fst) (a : α) :
    put name a entries = entries ++ [(name, a)] := by
  induction entries with
  | nil => rfl
  | cons e entries ih =>
    obtain ⟨hne, hentries⟩ := not_or.mp (List.mem_cons.not.mp h)
    rw [put, if_neg (Ne.symm hne), ih hentries]
    rfl

theorem put_last (h : name ∉ entries.map Prod.fst) (a b : α) :
    put name a (entries ++ [(name, b)]) = entries ++ [(name, a)] := by
  induction entries with
  | nil => simp [put]
  | cons e entries ih =>
    obtain ⟨hne, hentries⟩ := not_or.mp (List.mem_cons.not.mp h)
    rw [List.cons_append, put, if_neg (Ne.symm hne), ih hentries]
    rfl

end Entries

namespace Toml

/-! ## Places in a document -/

/-- The entries of a table under construction. -/
abbrev Branches := List (Text × Branch)

namespace Branch

theorem finishEntries_eq_map (es : Branches) :
    finishEntries es = es.map fun e => (e.1, e.2.finish) := by
  induction es with
  | nil => rfl
  | cons e es ih => rw [finishEntries, ih, List.map_cons]

theorem finishEntries_append (es fs : Branches) :
    finishEntries (es ++ fs) = finishEntries es ++ finishEntries fs := by
  simp only [finishEntries_eq_map, List.map_append]

theorem finishTables_append (earlier : List Branches) (after more : List Toml) :
    finishTables earlier (after ++ more) = finishTables earlier after ++ more := by
  induction earlier generalizing after with
  | nil => rfl
  | cons es earlier ih => rw [finishTables, finishTables, ← List.cons_append, ih]

theorem within_append (made : Origin) (change : Change) (origin : Origin) (names more : List Text)
    (es : Branches) : within made change origin (names ++ more) es =
      within made (fun origin es => within made change origin more es) origin names es := by
  induction names generalizing origin es with
  | nil => rw [List.nil_append, within]
  | cons name names ih =>
    rw [List.cons_append, within, within]
    split
    · rw [ih]
    · rfl
    · split
      · rfl
      · rw [ih]
    · rw [ih]

end Branch

variable {names : List Text} {name : Text} {doc inner : Branches} {around : Branches → Branches}

/-- The names lead to the entries of a table in a document: changing these is all that a change
under the names does. The document around them is given as what it is with any entries there. -/
def Leads (names : List Text) (doc inner : Branches) (around : Branches → Branches) : Prop :=
  ∀ change : Branches → Option Branches,
    Branch.within .implied (fun _ => change) .header names doc = (change inner).map around

/-- The names lead to the same table whatever its entries are. -/
def Place (names : List Text) (around : Branches → Branches) : Prop :=
  ∀ inner, Leads names (around inner) inner around

theorem Place.root : Place [] id := by
  intro inner change
  rw [Branch.within, Option.map_id]
  rfl

/-- The entry that holds a table, which may be the latest of an array of tables. -/
inductive Holds : (Branches → Branch) → Prop
  | table (origin : Origin) : Holds (.table origin)
  | tables (earlier : List Branches) : Holds fun latest => .tables latest earlier

theorem Leads.step {es : Branches} {held : Branches → Branches} (h : Leads names doc inner around)
    (hstep : ∀ change : Branches → Option Branches,
      Branch.within .implied (fun _ => change) .header [name] inner = (change es).map held) :
    Leads (names ++ [name]) doc es fun new => around (held new) := by
  intro change
  have hlast : (fun origin es => Branch.within .implied (fun _ => change) origin [name] es) =
      fun _ es => Branch.within .implied (fun _ => change) .header [name] es := by
    funext origin es
    rfl
  rw [Branch.within_append, hlast, h, hstep, Option.map_map]
  rfl

/-- A table that is missing is made when a longer header leads through it. -/
theorem Leads.missing (h : Leads names doc inner around) (hname : name ∉ inner.map Prod.fst) :
    Leads (names ++ [name]) doc [] fun new => around (inner ++ [(name, .table .implied new)]) := by
  refine h.step fun change => ?_
  simp only [Branch.within, Entries.lookup_eq_none hname, Entries.put_new hname]

theorem Place.inside {slot : Branches → Branch} (h : Place names around) (hslot : Holds slot)
    (hname : name ∉ inner.map Prod.fst) :
    Place (names ++ [name]) fun new => around (inner ++ [(name, slot new)]) := by
  intro es
  refine Leads.step (h _) fun change => ?_
  cases hslot with
  | table | tables =>
    simp [Branch.within, Entries.lookup_append_self hname, Entries.put_last hname]

/-! ## Statements -/

theorem checked_eq_ok (h : names.length < KeyPath.maxNames) :
    KeyPath.checked ⟨names, name⟩ = .ok ⟨names, name⟩ := by
  have hshort : KeyPath.isTooLong ⟨names, name⟩ = false := by
    simp only [KeyPath.isTooLong, KeyPath.names, List.length_append, List.length_singleton,
      decide_eq_false_iff_not]
    omega
  rw [KeyPath.checked, hshort]
  rfl

theorem add_pair {v : Toml} (h : Place names around) (hname : name ∉ inner.map Prod.fst)
    (hv : IsPlain maxDepth v) : Draft.add ⟨around inner, names⟩ (.pair ⟨[], name⟩ (written v)) =
      .ok ⟨around (inner ++ [(name, .leaf v)]), names⟩ := by
  have hkey : KeyPath.checked ⟨[], name⟩ = .ok ⟨[], name⟩ := checked_eq_ok (by decide)
  have hadd : Branch.addPair ⟨[], name⟩ v inner = some (inner ++ [(name, .leaf v)]) := by
    simp [Branch.addPair, Branch.within, Branch.addNew, Entries.lookup_eq_none hname,
      Entries.put_new hname]
  have hdoc := h inner (Branch.addPair ⟨[], name⟩ v)
  rw [hadd] at hdoc
  rw [Draft.add, hkey, value_written hv]
  change (orMalformed (Branch.within .implied _ .header names (around inner)) >>= _) = _
  rw [hdoc]
  rfl

theorem add_header (h : Leads names doc inner around) (hname : name ∉ inner.map Prod.fst)
    (hshort : names.length < KeyPath.maxNames) (current : List Text) :
    Draft.add ⟨doc, current⟩ (.header ⟨names, name⟩) =
      .ok ⟨around (inner ++ [(name, .table .header [])]), names ++ [name]⟩ := by
  have hadd : Branch.addTable ⟨names, name⟩ doc =
      some (around (inner ++ [(name, .table .header [])])) := by
    refine (h _).trans ?_
    simp [Entries.lookup_eq_none hname, Entries.put_new hname]
  rw [Draft.add, checked_eq_ok hshort]
  change (orMalformed (Branch.addTable ⟨names, name⟩ doc) >>= _) = _
  rw [hadd]
  rfl

theorem add_of_addElement {es : Branches} (hshort : names.length < KeyPath.maxNames)
    (hadd : Branch.addElement ⟨names, name⟩ doc = some es) (current : List Text) :
    Draft.add ⟨doc, current⟩ (.element ⟨names, name⟩) = .ok ⟨es, names ++ [name]⟩ := by
  rw [Draft.add, checked_eq_ok hshort]
  change (orMalformed (Branch.addElement ⟨names, name⟩ doc) >>= _) = _
  rw [hadd]
  rfl

theorem add_element_new (h : Leads names doc inner around) (hname : name ∉ inner.map Prod.fst)
    (hshort : names.length < KeyPath.maxNames) (current : List Text) :
    Draft.add ⟨doc, current⟩ (.element ⟨names, name⟩) =
      .ok ⟨around (inner ++ [(name, .tables [] [])]), names ++ [name]⟩ := by
  refine add_of_addElement hshort ((h _).trans ?_) current
  simp [Entries.lookup_eq_none hname, Entries.put_new hname]

theorem add_element {latest : Branches} {earlier : List Branches} (h : Place names around)
    (hname : name ∉ inner.map Prod.fst) (hshort : names.length < KeyPath.maxNames)
    (current : List Text) :
    Draft.add ⟨around (inner ++ [(name, .tables latest earlier)]), current⟩ (.element ⟨names, name⟩) =
      .ok ⟨around (inner ++ [(name, .tables [] (latest :: earlier))]), names ++ [name]⟩ := by
  refine add_of_addElement hshort ((h _ _).trans ?_) current
  simp [Entries.lookup_append_self hname, Entries.put_last hname]

/-! ## Sections -/

/-- Reading the text takes one draft of a document to another. -/
def Carries (t : Text) (d d' : Draft) : Prop :=
  ∃ statements, Says t statements ∧ statements.foldlM Draft.add d = .ok d'

theorem Carries.append {t u : Text} {d m d' : Draft} (ht : Carries t d m) (hu : Carries u m d') :
    Carries (t ++ u) d d' := by
  obtain ⟨statements, hmeans, hfold⟩ := ht
  obtain ⟨more, hmeans', hfold'⟩ := hu
  refine ⟨statements ++ more, hmeans.append hmeans', ?_⟩
  rw [List.foldlM_append, hfold]
  exact hfold'

theorem Carries.of_statement {t : Text} {statement : Statement} {d d' : Draft}
    (hmeans : Says t [statement]) (hadd : d.add statement = .ok d') : Carries t d d' := by
  refine ⟨[statement], hmeans, ?_⟩
  rw [List.foldlM_cons, hadd]
  rfl

theorem Carries.read {t : Text} {d : Draft} (h : Carries t .empty d) :
    Toml.read t = .ok (Branch.finishEntries d.entries) := by
  obtain ⟨statements, hmeans, hfold⟩ := h
  rw [Toml.read, hmeans.statements?]
  change ofStatements statements = _
  rw [ofStatements, hfold]
  rfl

/-- Reading one section after the other takes one draft to another. -/
inductive CarriesAll : List Text → Draft → Draft → Prop
  | nil {d : Draft} : CarriesAll [] d d
  | cons {t : Text} {ts : List Text} {d m d' : Draft} (h : Carries t d m)
      (hts : CarriesAll ts m d') : CarriesAll (t :: ts) d d'

namespace CarriesAll

theorem append {ts us : List Text} {d m d' : Draft} (ht : CarriesAll ts d m)
    (hu : CarriesAll us m d') : CarriesAll (ts ++ us) d d' := by
  induction ht with
  | nil => exact hu
  | cons h _ ih => exact .cons h (ih hu)

/-- Sections stand in a document with an empty line between them. -/
theorem join {ts : List Text} {d d' : Draft} (h : CarriesAll ts d d') :
    Carries (Text.join ['\n'] ts) d d' := by
  have hblank : ∀ d, Carries ['\n'] d d := fun d => ⟨[], .blank, rfl⟩
  induction h with
  | nil => exact ⟨[], .nil, rfl⟩
  | @cons t ts d m d' ht hts ih =>
    cases ts with
    | nil =>
      cases hts
      exact ht
    | cons u us => exact (ht.append (hblank m)).append ih

end CarriesAll

/-- A plain entry under construction. -/
def leafOf (e : Text × Toml) : Text × Branch :=
  (e.1, .leaf e.2)

theorem map_fst_leafOf (entries : List (Text × Toml)) :
    (entries.map leafOf).map Prod.fst = entries.map Prod.fst := by
  rw [List.map_map]
  rfl

theorem finishEntries_leafOf (entries : List (Text × Toml)) :
    Branch.finishEntries (entries.map leafOf) = entries := by
  rw [Branch.finishEntries_eq_map, List.map_map]
  exact List.map_id entries

/-- Plain entries are added to the table that the latest header named. -/
theorem carries_entries {entries : List (Text × Toml)} (inner : Branches) (h : Place names around)
    (hplain : ∀ e ∈ entries, IsPlain maxDepth e.2)
    (hnames : (inner.map Prod.fst ++ entries.map Prod.fst).Nodup) :
    Carries (Text.unlines (fieldForms entries)) ⟨around inner, names⟩
      ⟨around (inner ++ entries.map leafOf), names⟩ := by
  refine ⟨pairsOf entries, .entries hplain, ?_⟩
  induction entries generalizing inner with
  | nil =>
    rw [List.map_nil, List.append_nil]
    rfl
  | cons e entries ih =>
    obtain ⟨he, hentries⟩ := List.forall_mem_cons.mp hplain
    have hname : e.1 ∉ inner.map Prod.fst := by
      intro hmem
      exact List.disjoint_of_nodup_append hnames hmem List.mem_cons_self
    have hrest := ih (inner ++ [leafOf e]) hentries (by simpa [leafOf] using hnames)
    rw [List.append_assoc] at hrest
    rw [pairsOf, List.map_cons, List.foldlM_cons, add_pair h hname he]
    exact hrest

/-! ## Tables -/

/-- Plain entries, and entries with sections of their own. -/
structure IsBody (plain sub : List (Text × Toml)) : Prop where
  isPlain : ∀ e ∈ plain, IsPlain maxDepth e.2
  isSection : ∀ e ∈ sub, e.2.isSection = true
  names : ((plain ++ sub).map Prod.fst).Nodup

/-- In every table that is written as sections, plain entries come first. The key of a header
may have so many more names as there is room for. -/
inductive IsOrdered : (room : Nat) → Toml → Prop
  | table {room : Nat} {plain sub : List (Text × Toml)} (hbody : IsBody plain sub)
      (hsub : ∀ e ∈ sub, IsOrdered room e.2) : IsOrdered (room + 1) (.table (plain ++ sub))
  | tables {room : Nat} {rows : List (List (Text × Toml) × List (Text × Toml))} (hne : rows ≠ [])
      (hbody : ∀ row ∈ rows, IsBody row.1 row.2)
      (hsub : ∀ row ∈ rows, ∀ e ∈ row.2, IsOrdered room e.2) :
      IsOrdered (room + 1) (.array (rows.map fun row => .table (row.1 ++ row.2)))

theorem eq_nil_of_fieldForms {entries : List (Text × Toml)} (h : fieldForms entries = []) :
    entries = [] := by
  cases entries with
  | nil => rfl
  | cons e entries => contradiction

theorem innerSections_append (names : List Text) (plain sub : List (Text × Toml)) :
    innerSections names (plain ++ sub) = innerSections names plain ++ innerSections names sub := by
  induction plain with
  | nil => rfl
  | cons e plain ih => rw [List.cons_append, innerSections, innerSections, ih, List.append_assoc]

theorem IsPlain.sectionsOf {depth : Nat} {v : Toml} (h : IsPlain depth v) (names : List Text) :
    sectionsOf names v = [] := by
  have hsection := h.isSection
  cases h with
  | string | integer => rw [Toml.sectionsOf] <;> exact nofun
  | array =>
    have htables : areTables _ = false := hsection
    rw [Toml.sectionsOf, htables]
    rfl

namespace IsBody

variable {plain sub : List (Text × Toml)}

theorem entryLines (h : IsBody plain sub) : entryLines (plain ++ sub) = fieldForms plain := by
  have hplain : plain.filter (fun e => !e.2.isSection) = plain :=
    List.filter_eq_self.mpr fun e he => by rw [(h.isPlain e he).isSection]; rfl
  have hsub : sub.filter (fun e => !e.2.isSection) = [] :=
    List.filter_eq_nil_iff.mpr fun e he => by rw [h.isSection e he]; decide
  rw [Toml.entryLines, List.filter_append]
  exact congrArg fieldForms (by rw [hplain, hsub, List.append_nil])

theorem innerSections (h : IsBody plain sub) (names : List Text) :
    innerSections names (plain ++ sub) = innerSections names sub := by
  have hplain : ∀ {es : List (Text × Toml)}, (∀ e ∈ es, IsPlain maxDepth e.2) →
      Toml.innerSections names es = [] := by
    intro es hes
    induction es with
    | nil => rfl
    | cons e es ih =>
      obtain ⟨he, hes⟩ := List.forall_mem_cons.mp hes
      rw [Toml.innerSections, he.sectionsOf, ih hes]
      rfl
  rw [innerSections_append, hplain h.isPlain, List.nil_append]

end IsBody

/-- The sections under a name add an entry with a value to the table that some names lead to. -/
def Adds (names : List Text) (name : Text) (v : Toml) : Prop :=
  ∀ {doc inner : Branches} {around : Branches → Branches} (current : List Text),
    Leads names doc inner around → Place names around → name ∉ inner.map Prod.fst →
      ∃ b current', b.finish = v ∧ CarriesAll (sectionsOf (names ++ [name]) v) ⟨doc, current⟩
        ⟨around (inner ++ [(name, b)]), current'⟩

/-- Entries with sections add themselves one after the other. The first of them may find the
table around it missing. -/
theorem carriesAll_innerSections {sub : List (Text × Toml)} (inner : Branches)
    (hsub : ∀ e ∈ sub, Adds names e.1 e.2) (hleads : Leads names doc inner around)
    (h : Place names around)
    (hnames : (inner.map Prod.fst ++ sub.map Prod.fst).Nodup) (hdoc : sub = [] → doc = around inner)
    (current : List Text) : ∃ bs current', Branch.finishEntries bs = sub ∧
      CarriesAll (innerSections names sub) ⟨doc, current⟩ ⟨around (inner ++ bs), current'⟩ := by
  induction sub generalizing doc inner current with
  | nil =>
    refine ⟨[], current, rfl, ?_⟩
    rw [hdoc rfl, List.append_nil]
    exact .nil
  | cons e sub ih =>
    obtain ⟨he, hsub⟩ := List.forall_mem_cons.mp hsub
    have hname : e.1 ∉ inner.map Prod.fst := by
      intro hmem
      exact List.disjoint_of_nodup_append hnames hmem List.mem_cons_self
    obtain ⟨b, next, hb, hfirst⟩ := he current hleads h hname
    obtain ⟨bs, current', hbs, hrest⟩ := ih (inner ++ [(e.1, b)]) hsub (h _)
      (by simpa using hnames) (fun _ => rfl) next
    refine ⟨(e.1, b) :: bs, current', ?_, ?_⟩
    · rw [Branch.finishEntries, hb, hbs]
    · rw [List.append_assoc] at hrest
      exact hfirst.append hrest

/-- The body of a table, from its header on. -/
theorem carriesAll_body {plain sub : List (Text × Toml)} {header : Text} {d : Draft}
    (hheader : Carries (header ++ ['\n']) d ⟨around [], names⟩) (h : Place names around)
    (hbody : IsBody plain sub) (hsub : ∀ e ∈ sub, Adds names e.1 e.2) :
    ∃ bs current', Branch.finishEntries bs = plain ++ sub ∧
      CarriesAll
        (Text.unlines (header :: entryLines (plain ++ sub)) :: innerSections names (plain ++ sub))
        d ⟨around bs, current'⟩ := by
  have hnames := hbody.names
  rw [List.map_append] at hnames
  have hplain := carries_entries [] h hbody.isPlain (hnames.of_append_left)
  rw [List.nil_append] at hplain
  obtain ⟨bs, current', hbs, hrest⟩ := carriesAll_innerSections (plain.map leafOf) hsub (h _) h
    (by rwa [map_fst_leafOf]) (fun _ => rfl) names
  refine ⟨plain.map leafOf ++ bs, current', ?_, ?_⟩
  · rw [Branch.finishEntries_append, finishEntries_leafOf, hbs]
  · rw [hbody.entryLines, hbody.innerSections]
    exact .cons (hheader.append hplain) hrest

theorem adds_table {plain sub : List (Text × Toml)} (hshort : names.length < KeyPath.maxNames)
    (hbody : IsBody plain sub) (hsub : ∀ e ∈ sub, Adds (names ++ [name]) e.1 e.2) :
    Adds names name (.table (plain ++ sub)) := by
  intro doc inner around current hleads h hname
  rw [sectionsOf]
  split
  · next hbare =>
    -- no header: the first section inside makes the table
    rw [hbody.entryLines, hbody.innerSections, Bool.and_eq_true] at hbare
    obtain ⟨hplain, hinner⟩ := hbare
    obtain rfl := eq_nil_of_fieldForms (List.isEmpty_iff.mp hplain)
    have hne : sub ≠ [] := by
      rintro rfl
      simp [innerSections] at hinner
    obtain ⟨bs, current', hbs, hrest⟩ := carriesAll_innerSections [] hsub (hleads.missing hname)
      (h.inside (.table .implied) hname) (by simpa using hbody.names) (absurd · hne) current
    exact ⟨.table .implied bs, current', congrArg Toml.table hbs, hrest⟩
  · have hheader : Carries (headerForm (names ++ [name]) ++ ['\n']) ⟨doc, current⟩ _ :=
      .of_statement (.header names name) (add_header hleads hname hshort current)
    obtain ⟨bs, current', hbs, hrest⟩ :=
      carriesAll_body hheader (h.inside (.table .header) hname) hbody hsub
    exact ⟨.table .header bs, current', congrArg Toml.table hbs, hrest⟩

/-- The elements of an array of tables after the first ones. -/
theorem carriesAll_elementSections {rows : List (List (Text × Toml) × List (Text × Toml))}
    (h : Place names around) (hname : name ∉ inner.map Prod.fst)
    (hshort : names.length < KeyPath.maxNames)
    (hbody : ∀ row ∈ rows, IsBody row.1 row.2)
    (hsub : ∀ row ∈ rows, ∀ e ∈ row.2, Adds (names ++ [name]) e.1 e.2)
    (latest : Branches) (earlier : List Branches) (current : List Text) :
    ∃ latest' earlier' current',
      Branch.finishTables earlier' [.table (Branch.finishEntries latest')] =
        Branch.finishTables earlier [.table (Branch.finishEntries latest)] ++
          rows.map (fun row => .table (row.1 ++ row.2)) ∧
      CarriesAll (elementSections (names ++ [name]) (rows.map fun row => .table (row.1 ++ row.2)))
        ⟨around (inner ++ [(name, .tables latest earlier)]), current⟩
        ⟨around (inner ++ [(name, .tables latest' earlier')]), current'⟩ := by
  induction rows generalizing latest earlier current with
  | nil => exact ⟨latest, earlier, current, (List.append_nil _).symm, .nil⟩
  | cons row rows ih =>
    obtain ⟨hrow, hbody⟩ := List.forall_mem_cons.mp hbody
    obtain ⟨hinner, hsub⟩ := List.forall_mem_cons.mp hsub
    have hheader : Carries (elementHeaderForm (names ++ [name]) ++ ['\n'])
        ⟨around (inner ++ [(name, .tables latest earlier)]), current⟩ _ :=
      .of_statement (.elementHeader names name) (add_element h hname hshort current)
    obtain ⟨bs, next, hbs, hfirst⟩ :=
      carriesAll_body hheader (h.inside (.tables (latest :: earlier)) hname) hrow hinner
    obtain ⟨latest', earlier', current', hfinish, hrest⟩ :=
      ih hbody hsub bs (latest :: earlier) next
    refine ⟨latest', earlier', current', ?_, hfirst.append hrest⟩
    have hlatest := Branch.finishTables_append earlier [.table (Branch.finishEntries latest)]
      [.table (Branch.finishEntries bs)]
    rw [hfinish, Branch.finishTables, List.map_cons, ← hbs]
    rw [List.singleton_append] at hlatest
    rw [hlatest, List.append_assoc, List.singleton_append]

theorem adds_tables {rows : List (List (Text × Toml) × List (Text × Toml))} (hne : rows ≠ [])
    (hshort : names.length < KeyPath.maxNames) (hbody : ∀ row ∈ rows, IsBody row.1 row.2)
    (hsub : ∀ row ∈ rows, ∀ e ∈ row.2, Adds (names ++ [name]) e.1 e.2) :
    Adds names name (.array (rows.map fun row => .table (row.1 ++ row.2))) := by
  intro doc inner around current hleads h hname
  obtain ⟨row, rows, rfl⟩ := List.exists_cons_of_ne_nil hne
  obtain ⟨hrow, hbody⟩ := List.forall_mem_cons.mp hbody
  obtain ⟨hinner, hsub⟩ := List.forall_mem_cons.mp hsub
  have htables : areTables ((row :: rows).map fun row => .table (row.1 ++ row.2)) = true := by
    simp [areTables, isTable]
  have hheader : Carries (elementHeaderForm (names ++ [name]) ++ ['\n']) ⟨doc, current⟩ _ :=
    .of_statement (.elementHeader names name) (add_element_new hleads hname hshort current)
  obtain ⟨bs, next, hbs, hfirst⟩ :=
    carriesAll_body hheader (h.inside (.tables []) hname) hrow hinner
  obtain ⟨latest, earlier, current', hfinish, hrest⟩ :=
    carriesAll_elementSections h hname hshort hbody hsub bs [] next
  refine ⟨.tables latest earlier, current', ?_, ?_⟩
  · rw [Branch.finish, hfinish, Branch.finishTables, hbs]
    rfl
  · rw [sectionsOf, htables, if_pos rfl]
    exact hfirst.append hrest

theorem IsOrdered.adds {room : Nat} {v : Toml} (h : IsOrdered room v)
    (hroom : names.length + room ≤ KeyPath.maxNames) (name : Text) : Adds names name v := by
  induction h generalizing names name with
  | table hbody hsub ih =>
    refine adds_table (by omega) hbody fun e he => ih e he ?_ e.1
    rw [List.length_append, List.length_singleton]
    omega
  | tables hne hbody hsub ih =>
    refine adds_tables hne (by omega) hbody fun row hrow e he => ih row hrow e he ?_ e.1
    rw [List.length_append, List.length_singleton]
    omega

/-- **A document is read back** as it was written, if in every table the plain entries come
before the others. -/
theorem read_write {plain sub : List (Text × Toml)} (hbody : IsBody plain sub)
    (hsub : ∀ e ∈ sub, IsOrdered KeyPath.maxNames e.2) :
    read (write (plain ++ sub)) = .ok (plain ++ sub) := by
  have hnames := hbody.names
  rw [List.map_append] at hnames
  have hplain := carries_entries [] Place.root hbody.isPlain hnames.of_append_left
  obtain ⟨bs, current', hbs, hrest⟩ := carriesAll_innerSections (plain.map leafOf)
    (fun e he => (hsub e he).adds (by simp) e.1) (Place.root _) Place.root
    (by rwa [map_fst_leafOf]) (fun _ => rfl) []
  have hall : Carries (write (plain ++ sub)) .empty ⟨plain.map leafOf ++ bs, current'⟩ := by
    rw [write, hbody.entryLines, hbody.innerSections]
    refine CarriesAll.join ?_
    split
    · next hempty =>
      obtain rfl := eq_nil_of_fieldForms (List.isEmpty_iff.mp hempty)
      exact hrest
    · exact .cons hplain hrest
  rw [hall.read, Branch.finishEntries_append, finishEntries_leafOf, hbs]

end Toml

end KafkaScript
