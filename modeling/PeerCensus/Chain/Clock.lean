/-!
# The chain clock

Which slot the chain should have reached by the wall clock, and how far a peer's head lies behind
it. Times are in whole seconds; a slot shorter than two seconds counts as one second.

Results:
* `classify_synced_iff`: a peer is synced when it lags by no more than the threshold.
-/

namespace PeerCensus

/-- The seconds since the epoch when the wall clock shows `clock`; a clock that is set to a time
before the epoch counts as showing the epoch. -/
def sinceEpoch (clock : Int) : Nat := clock.toNat

/-- How a peer's head compares with the expected one. -/
structure SyncStatus where
  synced : Bool
  /-- The lag in percent of the expected slot; zero when synced. -/
  distance : Nat
  deriving DecidableEq, Repr

/-- The text of a sync status. -/
def SyncStatus.render (s : SyncStatus) : String :=
  if s.synced then "synced" else "unsynced (" ++ toString s.distance ++ "% behind)"

/-- When the chain began and how fast it goes. -/
structure ChainClock where
  /-- The time of slot 0 in seconds since the epoch. -/
  genesis : Nat
  /-- The length of a slot in nanoseconds. -/
  slotNanos : Nat
  /-- The lag in slots that still counts as synced. -/
  threshold : Nat
  deriving DecidableEq, Repr

namespace ChainClock

/-- The largest 64-bit number. -/
def maxWord : Nat := 0xffffffffffffffff

/-- The clock of the main network: slots of twelve seconds, 256 epochs of tolerance. -/
def mainnet : ChainClock := ⟨1606824000, 12000000000, 8192⟩

/-- The length of a slot in whole seconds. -/
def slotSeconds (c : ChainClock) : Nat :=
  c.slotNanos / 1000000000

/-- The slot the chain should be at, zero before it began. Model of `expected_slot`. -/
def expectedSlot (c : ChainClock) (now : Nat) : Nat :=
  (now - c.genesis) / max c.slotSeconds 1

/-- How a peer with the head `head` compares with the expected slot. The hundredfold lag is capped
at the largest 64-bit number before the division. -/
def classify (c : ChainClock) (head now : Nat) : SyncStatus :=
  let expected := c.expectedSlot now
  let behind := expected - head
  if behind ≤ c.threshold then ⟨true, 0⟩
  else ⟨false, min (behind * 100) maxWord / expected⟩

theorem classify_synced_iff (c : ChainClock) (head now : Nat) :
    (c.classify head now).synced = true ↔ c.expectedSlot now - head ≤ c.threshold := by
  simp only [classify]
  split <;> simp_all

end ChainClock

end PeerCensus
