import KafkaScript.Proofs.Cache.Operations
import KafkaScript.Proofs.Config.Storage
import KafkaScript.Proofs.Reading

/-!
# Caches for configurations

A configuration that has been loaded has numbers that fit in 64 bits and no flaw
(`Config.isAccepted_of_load`). That does not bound its interval by what a cache can keep track
of: one of more than a thousand years is accepted, and no cache can be made for it. For every
other configuration that is loaded there is one (`Config.exists_serves`), without a sweeper if
its interval is not positive.
-/

namespace KafkaScript

/-! ## Loaded configurations -/

namespace Toml

theorem optional_cases {α : Type} {read : Toml → Option α} {standard a : α} {v : Option Toml}
    (h : optional read standard v = some a) : a = standard ∨ ∃ w, read w = some a := by
  cases v with
  | none => exact .inl (Option.some.inj h).symm
  | some w => exact .inr ⟨w, h⟩

theorem le_of_nat64? {v : Toml} {n : Nat} (h : v.nat64? = some n) : n ≤ maxUInt64 := by
  obtain ⟨i, hi, rfl⟩ := Option.map_eq_some_iff.mp h
  obtain ⟨-, hle⟩ := Option.filter_eq_some_iff.mp hi
  simp only [Bool.and_eq_true, decide_eq_true_eq] at hle
  omega

theorem bounds_of_int64? {v : Toml} {n : Int} (h : v.int64? = some n) :
    -0x8000000000000000 ≤ n ∧ n ≤ 0x7FFFFFFFFFFFFFFF := by
  obtain ⟨-, hbounds⟩ := Option.filter_eq_some_iff.mp h
  simpa using hbounds

end Toml

namespace CacheConfig

theorem fits_default : ({} : CacheConfig).Fits where
  maxEntries := by decide
  minSeconds := by decide
  maxSeconds := by decide

/-- Only numbers that fit are taken from a document. -/
theorem fits_of_ofToml? {v : Toml} {c : CacheConfig} (h : ofToml? v = some c) : c.Fits := by
  rw [ofToml?] at h
  obtain ⟨fields, -, h⟩ := Option.bind_eq_some_iff.mp h
  split at h
  · next maxEntries seconds =>
    obtain ⟨n, hn, h⟩ := Option.bind_eq_some_iff.mp h
    obtain ⟨s, hs, h⟩ := Option.bind_eq_some_iff.mp h
    obtain rfl := Option.some.inj h
    have hentries : n ≤ maxUInt64 := by
      rcases Toml.optional_cases hn with rfl | ⟨w, hw⟩
      · exact fits_default.maxEntries
      · exact Toml.le_of_nat64? hw
    have hseconds : -0x8000000000000000 ≤ s ∧ s ≤ 0x7FFFFFFFFFFFFFFF := by
      rcases Toml.optional_cases hs with rfl | ⟨w, hw⟩
      · exact ⟨fits_default.minSeconds, fits_default.maxSeconds⟩
      · exact Toml.bounds_of_int64? hw
    exact ⟨hentries, hseconds.1, hseconds.2⟩
  · contradiction

end CacheConfig

namespace Config

variable {c : Config} {fs : FileSystem} {env : Environment} {path text : Text}

theorem fits_of_ofToml? {entries : List (Text × Toml)} (h : ofToml? entries = some c) :
    c.cache.Fits := by
  rw [ofToml?] at h
  obtain ⟨fields, -, h⟩ := Option.bind_eq_some_iff.mp h
  split at h
  · obtain ⟨scriptsPath, -, h⟩ := Option.bind_eq_some_iff.mp h
    obtain ⟨cache, hcache, h⟩ := Option.bind_eq_some_iff.mp h
    obtain ⟨producer, -, h⟩ := Option.bind_eq_some_iff.mp h
    obtain ⟨consumer, -, h⟩ := Option.bind_eq_some_iff.mp h
    obtain rfl := Option.some.inj h
    rcases Toml.optional_cases hcache with rfl | ⟨v, hv⟩
    · exact CacheConfig.fits_default
    · exact CacheConfig.fits_of_ofToml? hv
  · contradiction

theorem fits_of_parse (h : parse text = .ok c) : c.cache.Fits := by
  rw [parse] at h
  cases hread : Toml.read text with
  | error reason =>
    rw [hread] at h
    contradiction
  | ok entries =>
    rw [hread] at h
    change Toml.orMalformed (ofToml? entries) = .ok c at h
    cases hof : ofToml? entries with
    | none =>
      rw [hof] at h
      contradiction
    | some d =>
      rw [hof] at h
      cases h
      exact fits_of_ofToml? hof

/-- What a configuration that is accepted can be relied on for. -/
structure IsAccepted (c : Config) : Prop where
  fits : c.cache.Fits
  isFlawless : c.IsFlawless

theorem isAccepted_of_ofText (h : ofText env path text = .ok c) : c.IsAccepted := by
  unfold ofText at h
  split at h
  · contradiction
  · next d hparse =>
    split at h
    · contradiction
    · next hflaw =>
      obtain rfl := Except.ok.inj h
      -- the path, which is all that loading changes, has no part in this
      have hfits : d.cache.Fits := fits_of_parse hparse
      have hflawless := flaw?_eq_none_iff.mp hflaw
      exact ⟨hfits, hflawless.maxEntries, hflawless.names⟩

theorem isAccepted_of_load (h : load fs env path = .ok (some c)) : c.IsAccepted := by
  unfold load at h
  split at h
  · cases h
  · split at h
    · contradiction
    · next text _ =>
      cases hof : ofText env path text with
      | error e =>
        rw [hof] at h
        contradiction
      | ok d =>
        rw [hof] at h
        cases h
        exact isAccepted_of_ofText hof

/-! ## Their caches -/

/-- The longest interval that a cache can keep track of, a thousand years of 365 days. -/
def maxSeconds : Int := 31536000000

/-- The cache has the bounds of a configuration and nothing in it yet, a sweeper only for an
interval that is positive, and it answers whatever is asked of it. -/
structure Serves (c : Config) (cache : Cache Script) : Prop where
  options : cache.options = c.cacheOptions
  capacity : cache.options.capacity = c.cache.maxEntries
  empty : cache.entries = []
  sweeping : cache.sweeping = true ↔ 0 < c.cache.cleanupSeconds
  answers : ∀ ops, ∃ last, cache.run (Script.readLogged c.catalog) ops = .ok last

theorem tooLong_iff (c : Config) :
    c.cacheOptions.interval.any (CacheOptions.maxInterval < ·) = true ↔
      maxSeconds < c.cache.cleanupSeconds := by
  have hmax : CacheOptions.maxInterval = 31536000000 * CacheOptions.perSecond := by decide
  have hper : CacheOptions.perSecond = 1000 := rfl
  rw [cacheOptions, CacheOptions.fromSeconds, hmax, hper, maxSeconds]
  split
  · rw [Option.any_some, decide_eq_true_eq]
    omega
  · simp only [Option.any_none, Bool.false_eq_true, false_iff]
    omega

/-- Without a thousand years to wait for, there is a cache. -/
theorem exists_serves (h : c.IsFlawless) (hseconds : c.cache.cleanupSeconds ≤ maxSeconds) :
    ∃ cache, Cache.create c.cacheOptions = .ok cache ∧ c.Serves cache := by
  have hshort : ¬ c.cacheOptions.interval.any (CacheOptions.maxInterval < ·) = true :=
    fun htoo => absurd ((tooLong_iff c).mp htoo) (by omega)
  refine ⟨_, if_neg hshort, rfl, ?_, rfl, ?_, ?_⟩
  · exact Nat.max_eq_left h.maxEntries
  · simp only [cacheOptions, CacheOptions.fromSeconds]
    split <;> simp_all
  · exact Cache.exists_run (fun doc => ⟨_, Script.readLogged_eq c.catalog doc⟩) _

theorem create_eq_error (hseconds : maxSeconds < c.cache.cleanupSeconds) :
    (Cache.create c.cacheOptions : Except CacheError (Cache Script)) = .error .intervalTooLong :=
  if_pos ((tooLong_iff c).mpr hseconds)

/-- **Every configuration that is loaded is usable, unless its interval is longer than a thousand
years.** -/
theorem usable_of_load (h : load fs env path = .ok (some c)) :
    c.IsAccepted ∧
      (c.cache.cleanupSeconds ≤ maxSeconds →
        ∃ cache, Cache.create c.cacheOptions = .ok cache ∧ c.Serves cache) ∧
      (maxSeconds < c.cache.cleanupSeconds →
        (Cache.create c.cacheOptions : Except CacheError (Cache Script)) = .error .intervalTooLong) :=
  have haccepted := isAccepted_of_load h
  ⟨haccepted, exists_serves haccepted.isFlawless, create_eq_error⟩

/-- An interval of a thousand years and a second is loaded. -/
theorem usable_of_load_tooLong :
    let text := "[cache]\nmax_entries = 7\ncleanup_interval_seconds = 31536000001\n".toList
    let fs : FileSystem :=
      ⟨.directory [("k.toml".toList, .file (String.ofList text).toUTF8)], []⟩
    let c : Config := ⟨none, ⟨7, 31536000001⟩, none, none⟩
    load fs ⟨[]⟩ "/k.toml".toList = .ok (some c) ∧
      (Cache.create c.cacheOptions : Except CacheError (Cache Script)) = .error .intervalTooLong := by
  intro text fs c
  have hnode : fs.node? "/k.toml".toList = some (.file (String.ofList text).toUTF8) := rfl
  have htext : ofText ⟨[]⟩ "/k.toml".toList text = .ok c := by decide +kernel
  have hload : load fs ⟨[]⟩ "/k.toml".toList = .ok (some c) := by
    rw [load, hnode]
    simp only [FileSystem.textOf_file, htext]
    rfl
  obtain ⟨-, -, htoo⟩ := usable_of_load hload
  exact ⟨hload, htoo (by decide)⟩

end Config

end KafkaScript
