import PeerCensus.Chain.Clock
import PeerCensus.Record.NodeRecord
import PeerCensus.Text.Utf8
import PeerCensus.Toml.Document
import PeerCensus.Toml.Schema

/-!
# Configuration files

What a configuration file may say about a crawl. Sections, and the keys in them, can be left out, but
there are no others. Values are checked once all of the file has been read: numbers first, then
digests, then records.

Results:
* `check_eq_ok`: what has been checked asks for no empty crew, no empty sequence and no empty slot.
-/

namespace PeerCensus.Crawl

/-- Why a file cannot be read as text. -/
inductive FileFault
  | notFound
  | isDirectory
  /-- Its bytes are not UTF-8. -/
  | notText
  deriving DecidableEq, Repr

/-- What is wrong with a value of the right type. -/
inductive ConfigFlaw
  | noWorkers
  | noAttempts
  | noSlot
  | digest (e : HexError)
  /-- A bootstrap record that is not one. -/
  | bootstrap (text : String) (e : RecordError)
  deriving DecidableEq

/-- Why a configuration file is of no use. -/
inductive ConfigError
  | unreadable (path : String) (fault : FileFault)
  /-- It is not a document, or a key or a type is wrong. -/
  | malformed
  | invalid (flaw : ConfigFlaw)
  deriving DecidableEq

/-- The text shown for the flaw. -/
def ConfigFlaw.message : ConfigFlaw → String
  | noWorkers => "workers must be at least 1"
  | noAttempts => "probe_attempts must be at least 1"
  | noSlot => "slot_duration_secs must be at least 1"
  | digest e => e.message
  | bootstrap text e => "bootstrap " ++ Text.quote text ++ ": " ++ e.message

namespace ConfigError

/-- The text shown for the error. -/
def message : ConfigError → String
  | unreadable path _ => "Failed to read " ++ path ++ ":"
  | malformed => "Failed to parse config:"
  | invalid flaw => "Invalid config: " ++ flaw.message

/-- Whether there is another error behind this one. -/
def hasSource : ConfigError → Bool
  | invalid _ => false
  | _ => true

end ConfigError

/-- What a configuration file asks for. Times are in seconds. -/
structure Config where
  workers : Option Nat
  selectInterval : Option Nat
  staleAfter : Option Nat
  attempts : Option Nat
  retryDelay : Option Nat
  requestTimeout : Option Nat
  digests : List ForkDigest
  clock : ChainClock
  historyInterval : Option Nat
  /-- The nodes to begin with. -/
  bootstrap : List NodeRecord

namespace Config

/-- The configuration that asks for nothing. -/
def empty : Config where
  workers := none
  selectInterval := none
  staleAfter := none
  attempts := none
  retryDelay := none
  requestTimeout := none
  digests := []
  clock := .mainnet
  historyInterval := none
  bootstrap := []

end Config

/-! ## Reading -/

/-- What a configuration file says, before it is checked. -/
structure Draft where
  workers : Option Nat
  selectInterval : Option Nat
  staleAfter : Option Nat
  attempts : Option Nat
  retryDelay : Option Nat
  requestTimeout : Option Nat
  digests : List String
  genesis : Option Nat
  slotSeconds : Option Nat
  threshold : Option Nat
  historyInterval : Option Nat
  bootstrap : List String
  deriving DecidableEq

namespace Draft

open Toml

/-- The text of an entry of the list of bootstrap records. -/
def record? (value : Value) : Option String := do
  (← (← value.section? ["enr"] 1) "enr").string?

/-- The number under a name of a section, if it is there. -/
def number? (fields : String → Option Value) (name : String) : Option (Option Nat) :=
  (fields name).mapM Value.natural?

/-- What a document says. -/
def ofDocument? (document : Entries) : Option Draft := do
  let sections ← (Value.table .header document).section?
    ["crawler", "chain", "history", "bootstrap"] 0
  let part (name : String) : Value := (sections name).getD (.table .header [])
  let crawler ← (part "crawler").section? ["workers", "select_interval_secs", "stale_after_secs",
    "probe_attempts", "retry_delay_secs", "request_timeout_secs", "allowed_fork_digests"] 6
  let chain ← (part "chain").section?
    ["genesis_unix", "slot_duration_secs", "ignore_threshold_slots"] 3
  let history ← (part "history").section? ["interval_secs"] 1
  return {
    workers := ← number? crawler "workers"
    selectInterval := ← number? crawler "select_interval_secs"
    staleAfter := ← number? crawler "stale_after_secs"
    attempts := ← number? crawler "probe_attempts"
    retryDelay := ← number? crawler "retry_delay_secs"
    requestTimeout := ← number? crawler "request_timeout_secs"
    digests := ← (← ((crawler "allowed_fork_digests").getD (.array [])).items?).mapM Value.string?
    genesis := ← number? chain "genesis_unix"
    slotSeconds := ← number? chain "slot_duration_secs"
    threshold := ← number? chain "ignore_threshold_slots"
    historyInterval := ← number? history "interval_secs"
    bootstrap := ← (← ((sections "bootstrap").getD (.array [])).items?).mapM record? }

/-- The clock that a draft asks for; what it does not say is as on the main network. -/
def clock (d : Draft) : ChainClock where
  genesis := d.genesis.getD ChainClock.mainnet.genesis
  slotNanos := (d.slotSeconds.map (· * 1000000000)).getD ChainClock.mainnet.slotNanos
  threshold := d.threshold.getD ChainClock.mainnet.threshold

/-- The bootstrap record that a text is. -/
def bootstrapRecord (text : String) : Except ConfigFlaw NodeRecord :=
  (NodeRecord.parse text).mapError (.bootstrap text)

/-- The configuration of a draft without flaws. -/
def check (d : Draft) : Except ConfigFlaw Config :=
  if d.workers = some 0 then .error .noWorkers
  else if d.attempts = some 0 then .error .noAttempts
  else if d.slotSeconds = some 0 then .error .noSlot
  else do
    let digests ← (d.digests.mapM ForkDigest.parse).mapError .digest
    let bootstrap ← d.bootstrap.mapM bootstrapRecord
    return { d with digests, clock := d.clock, bootstrap }

theorem check_eq_ok {d : Draft} {c : Config} (h : d.check = .ok c) :
    d.workers ≠ some 0 ∧ d.attempts ≠ some 0 ∧ d.slotSeconds ≠ some 0 ∧ c.workers = d.workers ∧
      c.attempts = d.attempts ∧ c.clock = d.clock := by
  simp only [check, bind, Except.bind] at h
  split at h
  · cases h
  split at h
  · cases h
  split at h
  · cases h
  split at h
  · cases h
  split at h
  · cases h
  cases h
  exact ⟨‹_›, ‹_›, ‹_›, rfl, rfl, rfl⟩

end Draft

namespace Config

/-- The configuration that a text asks for. Model of `parse`. -/
def read (text : String) : Except ConfigError Config :=
  match (Toml.parse text).bind Draft.ofDocument? with
  | some draft => draft.check.mapError .invalid
  | none => .error .malformed

/-- The configuration that the file at `path` asks for; `content` is what can be read there. -/
def load (path : String) (content : Except FileFault Bytes) : Except ConfigError Config := do
  let bytes ← content.mapError (.unreadable path)
  match Utf8.decode bytes with
  | some text => read text
  | none => throw (.unreadable path .notText)

end Config

end PeerCensus.Crawl
