import PeerCensus.Crawl.Config
import PeerCensus.Crawl.Run

/-!
# Settings

All that a crawl is told before it begins, each setting with a usual value. A crawl without workers
or without attempts cannot be asked for. A configuration file changes the settings that it mentions,
and always the clock.

Results:
* `sound_standard`, `sound_withWorkers`, `sound_withAttempts`, `sound_configured`: there is always
  at least one worker and one attempt.
* `configured_toConfig`: a configuration that mentions all settings brings them about, except that it
  cannot lift a restriction to certain forks.
-/

namespace PeerCensus.Crawl

/-- Why a setting is refused. -/
inductive SettingsError
  | invalidForkDigest (e : HexError)
  | noWorkers
  | noAttempts
  deriving DecidableEq

namespace SettingsError

/-- The text shown for the error. -/
def message : SettingsError → String
  | invalidForkDigest e => "Invalid fork digest: " ++ e.message
  | noWorkers => "Invalid setting: workers must be at least 1"
  | noAttempts => "Invalid setting: probe attempts must be at least 1"

/-- The text of the error behind this one. -/
def source? : SettingsError → Option String
  | invalidForkDigest e => some e.message
  | _ => none

end SettingsError

/-- The settings of a crawl. Times are in seconds. -/
structure Settings where
  keeper : Keeper.Settings
  /-- The deadline of each operation of the host. -/
  requestTimeout : Nat
  /-- The time between snapshots. -/
  historyInterval : Nat
  allowed : AllowedForks
  clock : ChainClock
  deriving DecidableEq

namespace Settings

/-- The usual settings. -/
def standard : Settings where
  keeper := ⟨8, 5, 24 * 60 * 60, 20, 5⟩
  requestTimeout := 10
  historyInterval := 60 * 60
  allowed := ⟨[]⟩
  clock := .mainnet

/-- The settings with another number of workers. Model of `with_workers`. -/
def withWorkers (workers : Nat) (s : Settings) : Except SettingsError Settings :=
  if workers = 0 then .error .noWorkers else .ok { s with keeper.workers := workers }

/-- The settings with another number of attempts. Model of `with_probe_attempts`. -/
def withAttempts (attempts : Nat) (s : Settings) : Except SettingsError Settings :=
  if attempts = 0 then .error .noAttempts else .ok { s with keeper.attempts := attempts }

/-- The settings with the allowed forks of a list separated by commas. Model of
`with_allowed_fork_digests_str`. -/
def withForkList (list : String) (s : Settings) : Except SettingsError Settings :=
  match ForkDigest.parseList list with
  | .ok digests => .ok { s with allowed := ⟨digests⟩ }
  | .error e => .error (.invalidForkDigest e)

/-- The settings after a change, if `value` asks for one. -/
def changed (change : α → Settings → Except SettingsError Settings) (value : Option α)
    (s : Settings) : Except SettingsError Settings :=
  match value with
  | some a => change a s
  | none => .ok s

/-- The settings after all that a configuration mentions. Model of `with_config`. -/
def configured (c : Config) (s : Settings) : Except SettingsError Settings := do
  let s ← s.changed withWorkers c.workers
  let s ← s.changed withAttempts c.attempts
  return { s with
    keeper := { s.keeper with
      selectInterval := c.selectInterval.getD s.keeper.selectInterval
      staleAfter := c.staleAfter.getD s.keeper.staleAfter
      retryDelay := c.retryDelay.getD s.keeper.retryDelay }
    requestTimeout := c.requestTimeout.getD s.requestTimeout
    historyInterval := c.historyInterval.getD s.historyInterval
    allowed := if c.digests.isEmpty then s.allowed else ⟨c.digests⟩
    clock := c.clock }

/-- The configuration that mentions all of the settings. -/
def toConfig (s : Settings) : Config where
  workers := s.keeper.workers
  selectInterval := s.keeper.selectInterval
  staleAfter := s.keeper.staleAfter
  attempts := s.keeper.attempts
  retryDelay := s.keeper.retryDelay
  requestTimeout := s.requestTimeout
  digests := s.allowed.digests
  clock := s.clock
  historyInterval := s.historyInterval
  bootstrap := []

/-- The course of a run with these settings that begins when the wall clock shows `now` and is told
to stop at the time `stop`. Model of `build`. -/
def course (s : Settings) (host : Host) (resolve : Resolver) (now stop : Nat) : Course where
  keeper := ⟨s.keeper, s.clock, resolve⟩
  host
  requestTimeout := s.requestTimeout * 1000
  allowed := s.allowed
  snapshotInterval := s.historyInterval * 1000
  now
  stop

/-- Whether a run with one party only is over before it is told to stop: that party cannot wait for
an interval of no length. -/
def endsEarly (s : Settings) (parties : Parties) : Bool :=
  match parties.selects, parties.snapshots with
  | true, false => s.keeper.selectInterval == 0
  | false, true => s.historyInterval == 0
  | _, _ => false

/-- Whether there is somebody to try, and something to be tried. -/
def Sound (s : Settings) : Prop :=
  0 < s.keeper.workers ∧ 0 < s.keeper.attempts

theorem sound_standard : standard.Sound := by
  simp [Sound, standard]

theorem sound_withWorkers {workers : Nat} {s s' : Settings} (h : s.withWorkers workers = .ok s')
    (sound : s.Sound) : s'.Sound := by
  unfold withWorkers at h
  split at h
  · cases h
  · rename_i hne
    cases h
    exact ⟨Nat.pos_of_ne_zero hne, sound.2⟩

theorem sound_withAttempts {attempts : Nat} {s s' : Settings}
    (h : s.withAttempts attempts = .ok s') (sound : s.Sound) : s'.Sound := by
  unfold withAttempts at h
  split at h
  · cases h
  · rename_i hne
    cases h
    exact ⟨sound.1, Nat.pos_of_ne_zero hne⟩

theorem configured_toConfig {s t : Settings} (sound : s.Sound)
    (all : s.allowed.digests = [] → t.allowed.digests = []) : t.configured s.toConfig = .ok s := by
  obtain ⟨⟨workers, selectInterval, staleAfter, attempts, retryDelay⟩, requestTimeout,
    historyInterval, ⟨digests⟩, clock⟩ := s
  obtain ⟨hw, ha⟩ := sound
  have hw : workers ≠ 0 := Nat.ne_of_gt hw
  have ha : attempts ≠ 0 := Nat.ne_of_gt ha
  simp only [configured, changed, toConfig, withWorkers, withAttempts, bind, Except.bind, hw, ha,
    if_false, pure, Except.pure, Option.getD_some]
  cases digests with
  | nil =>
    have : t.allowed = ⟨[]⟩ := by
      cases h : t.allowed
      simpa [h] using all rfl
    simp [this]
  | cons d rest => rfl

theorem sound_changed {change : α → Settings → Except SettingsError Settings} {value : Option α}
    {s s' : Settings} (keeps : ∀ a, change a s = .ok s' → s'.Sound)
    (h : s.changed change value = .ok s') (sound : s.Sound) : s'.Sound := by
  cases value with
  | some a => exact keeps a h
  | none =>
    cases h
    exact sound

theorem sound_configured {c : Config} {s s' : Settings} (h : s.configured c = .ok s')
    (sound : s.Sound) : s'.Sound := by
  simp only [configured, bind, Except.bind] at h
  split at h
  · cases h
  · rename_i s₁ hs₁
    have sound₁ := sound_changed (fun _ h => sound_withWorkers h sound) hs₁ sound
    split at h
    · cases h
    · rename_i s₂ hs₂
      have sound₂ := sound_changed (fun _ h => sound_withAttempts h sound₁) hs₂ sound₁
      cases h
      exact sound₂

end Settings

end PeerCensus.Crawl
