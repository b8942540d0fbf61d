import KafkaScript.Log

/-!
# The cache of models

A cache keeps, for each document address, the model last read from a document
with that address, together with the version and language it was read under.
A request is answered from the cache only if both agree; otherwise the document
is read anew and its model replaces the old one.

The entries are a list with the most recently used first. A request for an
address that is there and the storing of a model are uses; asking whether an
address is cached is not. Uses are only noted when they happen, requests and
stores apart. Maintenance accounts for them, first for all requests and then for
all stores: a model that was stored counts as used after every request noted
with it. It then drops what has lapsed and evicts what exceeds the capacity from
the far end. Maintenance comes about when a new address is stored, when an entry
is removed and when the entries are counted; otherwise only a note that finds
many others outstanding, or the last maintenance long ago, brings it about.

An entry that has been idle for a whole interval has lapsed: it is no longer
answered from, but it stays in place until the next maintenance. Which entries
lapse is up to time, so here it is an operation of its own. A cache with an
interval has a sweeper that maintains it in the background until the cache is
disposed of; a cache that has been disposed of can still be used.
-/

namespace KafkaScript

/-- The bounds of a cache. The interval is in milliseconds; without one no entry
lapses. -/
structure CacheOptions where
  maxEntries : Nat
  interval : Option Nat
deriving DecidableEq, Repr, Inhabited

namespace CacheOptions

/-- Milliseconds in a second. -/
def perSecond : Nat := 1000

/-- Bounds with the interval in seconds. One that is not positive is none. -/
def fromSeconds (maxEntries : Nat) (seconds : Int) : CacheOptions :=
  ⟨maxEntries, if 0 < seconds then some (seconds.toNat * perSecond) else none⟩

/-- The number of entries when nothing is configured. -/
def defaultMaxEntries : Nat := 10

/-- The interval in seconds when nothing is configured. -/
def defaultSeconds : Int := 60

/-- The bounds when nothing is configured. -/
def standard : CacheOptions :=
  fromSeconds defaultMaxEntries defaultSeconds

/-- The interval in whole seconds. -/
def seconds? (o : CacheOptions) : Option Nat :=
  o.interval.map (· / perSecond)

/-- The number of entries that are kept: at least one. -/
def capacity (o : CacheOptions) : Nat :=
  max o.maxEntries 1

/-- The longest interval a cache can have: a thousand years of 365 days. -/
def maxInterval : Nat := 1000 * 365 * 24 * 60 * 60 * perSecond

end CacheOptions

/-- Why a cache cannot be made. -/
inductive CacheError where
  /-- The interval is longer than a cache can keep track of. -/
  | intervalTooLong
deriving DecidableEq, Repr

/-- The wording of the reason. -/
def CacheError.message : CacheError → String
  | .intervalTooLong => "time_to_idle is longer than 1000 years"

/-- A model and the number of models read before it, which tells models apart
even if they are equal. -/
structure Stored (α : Type) where
  serial : Nat
  model : α
deriving DecidableEq, Repr, Inhabited

/-- One entry of a cache. -/
structure CacheEntry (α : Type) where
  uri : Text
  version : Int
  language : Text
  stored : Stored α
  lapsed : Bool
deriving DecidableEq, Repr

/-- A cache: its bounds, its entries with the most recently used first, the
addresses of the requests and of the stores noted since the last maintenance, the
milliseconds since then, the number of models read so far, and whether its
sweeper runs. -/
structure Cache (α : Type) where
  options : CacheOptions
  entries : List (CacheEntry α)
  requested : List Text
  stored : List Text
  idle : Nat
  reads : Nat
  sweeping : Bool
deriving DecidableEq, Repr

/-- How a document is read into a model. -/
abbrev Reader (α : Type) := Document → Except Fault (α × List LogEntry)

namespace Cache

variable {α : Type}

/-- So many outstanding notes of one kind are too many for another one. -/
def maxNotes : Nat := 64

/-- After so many milliseconds the last maintenance lies too far back for another
note. -/
def maxIdle : Nat := 300

/-- An empty cache. Its sweeper runs if entries can lapse. -/
def create (options : CacheOptions) : Except CacheError (Cache α) :=
  if options.interval.any (CacheOptions.maxInterval < ·) then .error .intervalTooLong
  else .ok ⟨options, [], [], [], 0, 0, options.interval.isSome⟩

/-- The entry of an address, lapsed or not. -/
def entry? (c : Cache α) (uri : Text) : Option (CacheEntry α) :=
  c.entries.find? fun e => e.uri == uri

/-- The entry of an address, unless it has lapsed. -/
def live? (c : Cache α) (uri : Text) : Option (CacheEntry α) :=
  (c.entry? uri).filter fun e => !e.lapsed

/-- Whether the cache would know the address. This is no use of the entry. -/
def contains (c : Cache α) (uri : Text) : Bool :=
  (c.live? uri).isSome

/-- The entries of all other addresses. -/
def others (uri : Text) (entries : List (CacheEntry α)) : List (CacheEntry α) :=
  entries.filter fun e => e.uri != uri

/-- The entries with that of an address first, if it is among them. -/
def promote (entries : List (CacheEntry α)) (uri : Text) : List (CacheEntry α) :=
  entries.filter (fun e => e.uri == uri) ++ others uri entries

/-- Accounts for the uses that were noted: the requests in order, then the
stores. -/
def settle (c : Cache α) : Cache α :=
  { c with
    entries := (c.requested ++ c.stored).foldl promote c.entries
    requested := []
    stored := []
    idle := 0 }

/-- Drops the entries that have lapsed, and reports them, the one used least
recently first. -/
def expire (c : Cache α) : Cache α × List LogEntry :=
  let (gone, kept) := c.entries.partition (·.lapsed)
  ({ c with entries := kept }, gone.reverse.map fun e => .expired e.uri)

/-- Evicts what exceeds the capacity, and reports it, the entry used least
recently first. -/
def evict (c : Cache α) : Cache α × List LogEntry :=
  let gone := c.entries.drop c.options.capacity
  ({ c with entries := c.entries.take c.options.capacity },
    gone.reverse.map fun e => .evicted e.uri)

/-- Maintenance: accounts for the uses, and makes lapsed and surplus entries go. -/
def maintain (c : Cache α) : Cache α × List LogEntry :=
  let (kept, lapsedLog) := c.settle.expire
  let (bounded, evictedLog) := kept.evict
  (bounded, lapsedLog ++ evictedLog)

/-- Makes ready for a note of a kind of which some are outstanding: with
maintenance if they are too many, or if the last one lies too far back. -/
def ready (c : Cache α) (outstanding : List Text) : Cache α × List LogEntry :=
  if maxNotes ≤ outstanding.length || maxIdle ≤ c.idle then c.maintain else (c, [])

/-- Notes a request for an address that is there. -/
def noteRequest (c : Cache α) (uri : Text) : Cache α × List LogEntry :=
  let (c, log) := c.ready c.requested
  ({ c with requested := c.requested ++ [uri] }, log)

/-- Notes that a model was stored. -/
def noteStore (c : Cache α) (uri : Text) : Cache α × List LogEntry :=
  let (c, log) := c.ready c.stored
  ({ c with stored := c.stored ++ [uri] }, log)

/-- Whether an entry answers a request for a document. -/
def answers (e : CacheEntry α) (doc : Document) : Bool :=
  e.version == doc.version && e.language == doc.language

/-- Puts an entry in the place of the one with its address, or before all others
if there is none. -/
def put (c : Cache α) (e : CacheEntry α) : Cache α :=
  if (c.entry? e.uri).isSome then
    { c with entries := c.entries.map fun old => if old.uri == e.uri then e else old }
  else { c with entries := e :: c.entries }

/-- Reads the document and stores its model. A new address brings maintenance
about; an entry that has lapsed is as good as none, but its end is reported. -/
def load (read : Reader α) (c : Cache α) (doc : Document) :
    Except Fault (Stored α × List LogEntry × Cache α) := do
  let (model, readLog) ← read doc
  let model : Stored α := ⟨c.reads, model⟩
  let isNew := !c.contains doc.uri
  let replacedLog := if isNew then ((c.entry? doc.uri).map fun e => .expired e.uri).toList else []
  let next := { c.put ⟨doc.uri, doc.version, doc.language, model, false⟩ with reads := c.reads + 1 }
  let (noted, noteLog) := next.noteStore doc.uri
  let (kept, keptLog) := if isNew then noted.maintain else (noted, [])
  return (model, .miss doc.uri doc.version :: readLog ++ replacedLog ++ noteLog ++ keptLog, kept)

/-- The model of a document, read only when the cache cannot answer. -/
def get (read : Reader α) (c : Cache α) (doc : Document) :
    Except Fault (Stored α × List LogEntry × Cache α) := do
  match c.live? doc.uri with
  | some e =>
    let (noted, noteLog) := c.noteRequest doc.uri
    if answers e doc then return (e.stored, noteLog ++ [.hit doc.uri doc.version], noted)
    else
      let (model, log, next) ← load read noted doc
      return (model, noteLog ++ log, next)
  | none =>
    let (ready, readyLog) := c.ready c.requested
    let (model, log, next) ← load read ready doc
    return (model, readyLog ++ log, next)

/-- Removes the entry of an address, followed by maintenance; whether there was
one. -/
def remove (c : Cache α) (uri : Text) : Bool × List LogEntry × Cache α :=
  match c.entry? uri with
  | none => (false, [], c)
  | some e =>
    let expiredLog := if e.lapsed then [.expired uri] else []
    let (kept, keptLog) := { c with entries := others uri c.entries }.maintain
    (true, expiredLog ++ keptLog ++ [.removed uri], kept)

/-- Drops the entries that have lapsed; how many there were. Without an interval
nothing happens. -/
def sweep (c : Cache α) : Nat × List LogEntry × Cache α :=
  if c.options.interval.isNone then (0, [], c)
  else
    let (kept, log) := c.maintain
    let count := c.entries.length - kept.entries.length
    (count, if count = 0 then log else log ++ [.swept count], kept)

/-- Stops the sweeper and drops every entry. Only the end of lapsed ones is
reported. -/
def dispose (c : Cache α) : List LogEntry × Cache α :=
  let (kept, log) := c.maintain
  (log, { kept with entries := [], sweeping := false })

/-- Number of entries after maintenance. -/
def size (c : Cache α) : Nat × List LogEntry × Cache α :=
  let (kept, log) := c.maintain
  (kept.entries.length, log, kept)

/-- The entries of some addresses lapse. Without an interval none does. -/
def lapse (idle : Text → Bool) (c : Cache α) : Cache α :=
  if c.options.interval.isNone then c
  else { c with entries := c.entries.map fun e => { e with lapsed := e.lapsed || idle e.uri } }

/-- The sweeper's own maintenance, if it still runs. Its reports go elsewhere. -/
def backgroundSweep (c : Cache α) : Cache α :=
  if c.sweeping then c.maintain.1 else c

/-- Time passes with nothing asked. If it reaches the interval, all entries lapse
and the sweeper has its turn. -/
def wait (milliseconds : Nat) (c : Cache α) : Cache α :=
  let later := { c with idle := c.idle + milliseconds }
  if c.options.interval.any (· ≤ milliseconds) then (later.lapse fun _ => true).backgroundSweep
  else later

end Cache

/-- What can be asked of a cache or happen to it. -/
inductive CacheOp where
  | get (doc : Document)
  | remove (uri : Text)
  | documentRemoved (doc : Document)
  | sweep
  | dispose
  | size
  | contains (uri : Text)
  /-- The entries of some addresses lapse. -/
  | lapse (idle : Text → Bool)
  /-- The sweeper has its turn. -/
  | backgroundSweep
  /-- Some milliseconds pass. -/
  | wait (milliseconds : Nat)

/-- The answer to an operation. -/
inductive CacheAnswer (α : Type) where
  | model (stored : Stored α)
  | flag (b : Bool)
  | count (n : Nat)
  | nothing
deriving DecidableEq, Repr

namespace Cache

variable {α : Type}

/-- Carries out one operation: its answer, what it reports, and the cache after
it. -/
def apply (read : Reader α) (c : Cache α) :
    CacheOp → Except Fault (CacheAnswer α × List LogEntry × Cache α)
  | .get doc => do
    let (stored, log, next) ← c.get read doc
    return (.model stored, log, next)
  | .remove uri =>
    let (removed, log, next) := c.remove uri
    .ok (.flag removed, log, next)
  | .documentRemoved doc =>
    let (_, log, next) := c.remove doc.uri
    .ok (.nothing, log, next)
  | .sweep =>
    let (count, log, next) := c.sweep
    .ok (.count count, log, next)
  | .dispose =>
    let (log, next) := c.dispose
    .ok (.nothing, log, next)
  | .size =>
    let (count, log, next) := c.size
    .ok (.count count, log, next)
  | .contains uri => .ok (.flag (c.contains uri), [], c)
  | .lapse idle => .ok (.nothing, [], c.lapse idle)
  | .backgroundSweep => .ok (.nothing, [], c.backgroundSweep)
  | .wait milliseconds => .ok (.nothing, [], c.wait milliseconds)

end Cache

end KafkaScript
