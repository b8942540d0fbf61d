import KafkaScript.Config.Storage
import KafkaScript.Proofs.Saving
import KafkaScript.Proofs.Toml.Tree

/-!
# Configurations that are saved and loaded

What a configuration is written as describes it (`Config.ofToml?_toToml`): a field is left out
only where what is left open means the same, and an empty table of properties is written as
such, not left out. The document is one that is read back (`Config.read_print`), so the text of a
configuration describes it (`Config.parse_print`). Loading then finds no flaw and changes
nothing (`Config.load_of_save`).
-/

namespace KafkaScript

/-! ## Values of fields -/

namespace Toml

theorem mapM_text? (ts : List Text) : (ts.map string).mapM text? = some ts := by
  induction ts with
  | nil => rfl
  | cons t ts ih =>
    rw [List.map_cons, List.mapM_cons, ih]
    rfl

theorem isPlain_strings (ts : List Text) : IsPlain maxDepth (.array (ts.map .string)) := by
  have hstrings : ∀ v ∈ ts.map string, IsPlain 79 v := by
    intro v hv
    obtain ⟨t, -, rfl⟩ := List.mem_map.mp hv
    exact .string t
  exact .array hstrings

end Toml

namespace PropertyDefinition

/-- The entries of a property. -/
def entries (d : PropertyDefinition) : List (Text × Toml) :=
  [("name".toList, .string d.name), ("description".toList, .string d.description)] ++
    if d.values.isEmpty then [] else [("values".toList, .array (d.values.map .string))]

theorem ofToml?_toToml (d : PropertyDefinition) : ofToml? d.toToml = some d := by
  obtain ⟨name, description, values⟩ := d
  cases values with
  | nil => rfl
  | cons value values =>
    have hvalues : Toml.texts? (.array ((value :: values).map .string)) = some (value :: values) :=
      Toml.mapM_text? (value :: values)
    have hfields : (toToml ⟨name, description, value :: values⟩).fields? fieldNames =
        some [some (.string name), some (.string description),
          some (.array ((value :: values).map .string))] := rfl
    rw [ofToml?, hfields]
    simp [Toml.optional, Toml.text?, hvalues, -List.map_cons]

theorem mapM_ofToml? (ds : List PropertyDefinition) : (ds.map (·.toToml)).mapM ofToml? = some ds := by
  induction ds with
  | nil => rfl
  | cons d ds ih =>
    rw [List.map_cons, List.mapM_cons, ofToml?_toToml, ih]
    rfl

theorem isBody_entries (d : PropertyDefinition) : Toml.IsBody d.entries [] := by
  obtain ⟨name, description, values⟩ := d
  have htexts : ∀ e ∈ [("name".toList, Toml.string name), ("description".toList, .string description)],
      Toml.IsPlain Toml.maxDepth e.2 :=
    List.forall_mem_cons.mpr ⟨.string name, List.forall_mem_singleton.mpr (.string description)⟩
  cases values with
  | nil =>
    refine ⟨htexts, nofun, ?_⟩
    show ["name".toList, "description".toList].Nodup
    decide
  | cons value values =>
    refine ⟨List.forall_mem_append.mpr ⟨htexts, ?_⟩, nofun, ?_⟩
    · exact List.forall_mem_singleton.mpr (Toml.isPlain_strings (value :: values))
    · show ["name".toList, "description".toList, "values".toList].Nodup
      decide

theorem toToml_eq_table (d : PropertyDefinition) : d.toToml = .table (d.entries ++ []) := by
  rw [List.append_nil]
  rfl

end PropertyDefinition

namespace CacheConfig

/-- Both numbers fit in 64 bits. -/
structure Fits (c : CacheConfig) : Prop where
  maxEntries : c.maxEntries ≤ maxUInt64
  minSeconds : -0x8000000000000000 ≤ c.cleanupSeconds
  maxSeconds : c.cleanupSeconds ≤ 0x7FFFFFFFFFFFFFFF

variable {c : CacheConfig}

theorem ofToml?_toToml (h : c.Fits) : ofToml? c.toToml = some c := by
  have hentries : Toml.nat64? (.integer c.maxEntries) = some c.maxEntries := by
    have hle : (c.maxEntries : Int) ≤ maxUInt64 := Int.ofNat_le.mpr h.maxEntries
    simp [Toml.nat64?, Toml.integer?, hle]
  have hseconds : Toml.int64? (.integer c.cleanupSeconds) = some c.cleanupSeconds := by
    simp [Toml.int64?, Toml.integer?, h.minSeconds, h.maxSeconds]
  have hfields : c.toToml.fields? fieldNames =
      some [some (.integer c.maxEntries), some (.integer c.cleanupSeconds)] := rfl
  rw [ofToml?, hfields]
  simp [Toml.optional, hentries, hseconds]

/-- The entries of the bounds. -/
def entries (c : CacheConfig) : List (Text × Toml) :=
  [("max_entries".toList, .integer c.maxEntries),
    ("cleanup_interval_seconds".toList, .integer c.cleanupSeconds)]

theorem isBody_entries (h : c.Fits) : Toml.IsBody c.entries [] := by
  have hentries : Toml.Fits c.maxEntries := by
    have := h.maxEntries
    simp only [Toml.Fits, Toml.minInteger, Toml.maxInteger, maxUInt64] at *
    omega
  have hseconds : Toml.Fits c.cleanupSeconds := by
    have := h.minSeconds
    have := h.maxSeconds
    simp only [Toml.Fits, Toml.minInteger, Toml.maxInteger]
    omega
  refine ⟨?_, nofun, ?_⟩
  · exact List.forall_mem_cons.mpr
      ⟨.integer hentries, List.forall_mem_singleton.mpr (.integer hseconds)⟩
  · show ["max_entries".toList, "cleanup_interval_seconds".toList].Nodup
    decide

theorem toToml_eq_table (c : CacheConfig) : c.toToml = .table (c.entries ++ []) := rfl

end CacheConfig

namespace Config

variable {c : Config}

theorem tableOfToml?_tableToToml (ds : List PropertyDefinition) :
    tableOfToml? (tableToToml ds) = some ds := by
  have hfields : (tableToToml ds).fields? tableFieldNames =
      some [some (.array (ds.map (·.toToml)))] := rfl
  rw [tableOfToml?, hfields]
  exact PropertyDefinition.mapM_ofToml? ds

/-- What a configuration is written as describes it. -/
theorem ofToml?_toToml (h : c.cache.Fits) : ofToml? c.toToml = some c := by
  have hfields : (Toml.table c.toToml).fields? fieldNames =
      some [c.scriptsPath.map .string, some c.cache.toToml, c.producer.map tableToToml,
        c.consumer.map tableToToml] := by
    obtain ⟨_ | path, cache, _ | producer, _ | consumer⟩ := c <;> rfl
  rw [ofToml?, hfields]
  obtain ⟨path, cache, producer, consumer⟩ := c
  cases path <;> cases producer <;> cases consumer <;>
    simp [Toml.optional, Toml.text?, CacheConfig.ofToml?_toToml h, tableOfToml?_tableToToml]

/-! ## Documents -/

theorem isOrdered_tableToToml (room : Nat) (ds : List PropertyDefinition) :
    Toml.IsOrdered (room + 2) (tableToToml ds) := by
  have hname : (["properties".toList] : List Text).Nodup := by decide
  cases ds with
  | nil =>
    have hbody : Toml.IsBody [("properties".toList, .array [])] [] :=
      ⟨List.forall_mem_singleton.mpr (Toml.isPlain_strings []), nofun, hname⟩
    exact .table hbody nofun
  | cons d ds =>
    have hrows : ((d :: ds).map (·.toToml)) =
        ((d :: ds).map fun d => (d.entries, [])).map fun row => .table (row.1 ++ row.2) := by
      rw [List.map_map]
      exact List.map_congr_left fun d _ => d.toToml_eq_table
    have hproperties : Toml.IsOrdered (room + 1) (.array ((d :: ds).map (·.toToml))) := by
      rw [hrows]
      refine .tables (by simp) ?_ ?_
      · rintro _ hrow
        obtain ⟨d, -, rfl⟩ := List.mem_map.mp hrow
        exact d.isBody_entries
      · rintro _ hrow e he
        obtain ⟨d, -, rfl⟩ := List.mem_map.mp hrow
        contradiction
    have htables : ((d :: ds).map (·.toToml)).all Toml.isTable = true :=
      List.all_eq_true.mpr fun v hv => by
        obtain ⟨d, -, rfl⟩ := List.mem_map.mp hv
        rfl
    have hsection : Toml.isSection (.array ((d :: ds).map (·.toToml))) = true := htables
    have hbody : Toml.IsBody [] [("properties".toList, .array ((d :: ds).map (·.toToml)))] :=
      ⟨nofun, List.forall_mem_singleton.mpr hsection, hname⟩
    exact .table hbody (List.forall_mem_singleton.mpr hproperties)

theorem forall_mem_entryFor {α : Type} {name : String} {f : α → Toml} {o : Option α}
    {P : Text × Toml → Prop} (h : ∀ a, P (name.toList, f a)) : ∀ e ∈ entryFor name f o, P e := by
  cases o with
  | none => exact nofun
  | some a => exact List.forall_mem_singleton.mpr (h a)

theorem map_fst_entryFor {α : Type} (name : String) (f : α → Toml) (o : Option α) :
    List.Sublist ((entryFor name f o).map Prod.fst) [name.toList] := by
  cases o with
  | none => exact List.nil_sublist _
  | some a => exact .refl _

/-- The entries that are tables. -/
def tableEntries (c : Config) : List (Text × Toml) :=
  [("cache".toList, c.cache.toToml)] ++ entryFor "producer" tableToToml c.producer ++
    entryFor "consumer" tableToToml c.consumer

theorem isBody_toToml (c : Config) :
    Toml.IsBody (entryFor "kafka_files_path" .string c.scriptsPath) c.tableEntries where
  isPlain := forall_mem_entryFor fun path => .string path
  isSection :=
    List.forall_mem_append.mpr ⟨List.forall_mem_append.mpr ⟨List.forall_mem_singleton.mpr rfl,
      forall_mem_entryFor fun _ => rfl⟩, forall_mem_entryFor fun _ => rfl⟩
  names := by
    have hall : fieldNames.Nodup := by decide
    refine List.Sublist.nodup ?_ hall
    rw [tableEntries, List.map_append, List.map_append, List.map_append]
    exact (map_fst_entryFor _ _ _).append (((List.Sublist.refl _).append (map_fst_entryFor _ _ _)).append
      (map_fst_entryFor _ _ _))

/-- The document of a configuration is read back. -/
theorem read_print (h : c.cache.Fits) : Toml.read c.print = .ok c.toToml := by
  have hentries : c.toToml = entryFor "kafka_files_path" .string c.scriptsPath ++ c.tableEntries := by
    simp only [toToml, tableEntries, List.append_assoc]
  have htable : ∀ ds, Toml.IsOrdered (78 + 2) (tableToToml ds) := isOrdered_tableToToml 78
  have hcache : Toml.IsOrdered (79 + 1) c.cache.toToml :=
    .table (CacheConfig.isBody_entries h) nofun
  rw [print, hentries]
  exact Toml.read_write c.isBody_toToml (List.forall_mem_append.mpr
    ⟨List.forall_mem_append.mpr ⟨List.forall_mem_singleton.mpr hcache, forall_mem_entryFor htable⟩,
      forall_mem_entryFor htable⟩)

/-- The text of a configuration describes it. -/
theorem parse_print (h : c.cache.Fits) : parse c.print = .ok c := by
  rw [parse, read_print h]
  change Toml.orMalformed (ofToml? c.toToml) = _
  rw [ofToml?_toToml h]
  rfl

/-! ## Loading -/

/-- The cache has room, and no property has a name that no line can have. -/
structure IsFlawless (c : Config) : Prop where
  maxEntries : 1 ≤ c.cache.maxEntries
  names : ∀ kind, ∀ d ∈ (c.table? kind).getD [], d.name.trim ≠ []

theorem blankName?_eq_none_iff {kind : BlockKind} :
    c.blankName? kind = none ↔ ∀ d ∈ (c.table? kind).getD [], d.name.trim ≠ [] := by
  simp [blankName?]

theorem flaw?_eq_none_iff : c.flaw? = none ↔ c.IsFlawless := by
  rw [flaw?]
  split
  · next hzero =>
    refine iff_of_false nofun fun h => ?_
    have := h.maxEntries
    omega
  · next hpos =>
    have hboth : (c.blankName? .producer <|> c.blankName? .consumer) = none ↔
        c.blankName? .producer = none ∧ c.blankName? .consumer = none := by
      cases c.blankName? .producer <;> simp
    rw [hboth, blankName?_eq_none_iff, blankName?_eq_none_iff]
    constructor
    · rintro ⟨hproducer, hconsumer⟩
      refine ⟨Nat.one_le_iff_ne_zero.mpr hpos, fun kind => ?_⟩
      cases kind with
      | producer => exact hproducer
      | consumer => exact hconsumer
    · exact fun h => ⟨h.names .producer, h.names .consumer⟩

theorem ofText_print {env : Environment} (h : c.cache.Fits) (hflawless : c.IsFlawless)
    (hpath : ∀ p ∈ c.scriptsPath, env.expand p = p) (path : Text) :
    ofText env path c.print = .ok c := by
  have hexpand : c.expandPath env = c := by
    have hmap : c.scriptsPath.map env.expand = c.scriptsPath := by
      cases hp : c.scriptsPath with
      | none => rfl
      | some p => rw [Option.map_some, hpath p hp]
    rw [expandPath, hmap]
  rw [ofText, parse_print h]
  simp only [flaw?_eq_none_iff.mpr hflawless, hexpand]

theorem load_of_save {fs saved : FileSystem} {env : Environment} {path : Text} (h : c.cache.Fits)
    (hflawless : c.IsFlawless) (hpath : ∀ p ∈ c.scriptsPath, env.expand p = p)
    (hsave : c.save fs path = some saved) : load saved env path = .ok (some c) := by
  rw [load, FileSystem.node?_of_save hsave]
  simp only [FileSystem.textOf_file, ofText_print h hflawless hpath]
  rfl

/-- **A configuration that has been saved is loaded as it was.** Saving succeeds wherever a file
with any content can be saved. -/
theorem load_save {c : Config} (hmin : 1 ≤ c.cache.maxEntries)
    (hmax : c.cache.maxEntries ≤ 0x7FFFFFFFFFFFFFFF)
    (hseconds : -0x8000000000000000 ≤ c.cache.cleanupSeconds ∧
      c.cache.cleanupSeconds ≤ 0x7FFFFFFFFFFFFFFF)
    (hnames : ∀ kind, ∀ d ∈ (c.table? kind).getD [], d.name.trim ≠ []) {env : Environment}
    (hpath : ∀ p ∈ c.scriptsPath, env.expand p = p) (fs : FileSystem) (path : Text) :
    (∀ name, fs.Admits path name → (c.save fs path).isSome = true) ∧
      ∀ saved, c.save fs path = some saved → load saved env path = .ok (some c) := by
  have hfits : c.cache.Fits := by
    refine ⟨?_, hseconds.1, hseconds.2⟩
    rw [maxUInt64]
    omega
  constructor
  · exact fun name hadmits => hadmits.save_isSome _
  · exact fun saved hsave => load_of_save hfits ⟨hmin, hnames⟩ hpath hsave

/-- An empty table, a table with quotes and values, and a directory that is made. -/
theorem load_save_tables :
    let value : PropertyDefinition :=
      ⟨"acks".toList, "\"all\" or\none".toList, ["0".toList, "all".toList]⟩
    let c : Config := ⟨some "~x/$".toList, ⟨1, -0x8000000000000000⟩, some [], some [value]⟩
    let fs : FileSystem := ⟨.directory [], []⟩
    ∃ saved, c.save fs "/etc/k.toml".toList = some saved ∧
      load saved ⟨[]⟩ "/etc/k.toml".toList = .ok (some c) := by
  intro value c fs
  have hnames : ∀ kind, ∀ d ∈ (c.table? kind).getD [], d.name.trim ≠ [] := by
    intro kind
    cases kind <;> decide
  have hpath : ∀ p ∈ c.scriptsPath, Environment.expand ⟨[]⟩ p = p := by
    rintro p ⟨⟩
    decide +kernel
  have hadmits : fs.Admits "/etc/k.toml".toList "k.toml".toList := by
    constructor <;> decide +kernel
  obtain ⟨hsave, hload⟩ := load_save (c := c) (by decide) (by decide) (by decide) hnames hpath fs
    "/etc/k.toml".toList
  obtain ⟨saved, hsaved⟩ := Option.isSome_iff_exists.mp (hsave "k.toml".toList hadmits)
  exact ⟨saved, hsaved, hload saved hsaved⟩

end Config

end KafkaScript
