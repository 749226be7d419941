import PeerCensus.Host.Probe
import PeerCensus.Proofs.Rpc.Deadline

/-!
# What an attempt comes to

An attempt goes from stage to stage until one of them fails: connecting, opening a stream, the exchange
of status. Each is given up at its deadline, whatever the peer does, and so is the question who the peer
is, which is asked last and may remain without an answer. A connection that was made is given up exactly
once, after everything else.

Results:
* `Step.within_eq_ok_iff`, `Step.within_eq_error_iff`: what comes of an operation under a deadline.
* `Attempt.course_run`: all that can become of an attempt.
* `Attempt.run_bracketed`: what follows from that for its time, its calls and its result.
-/

namespace PeerCensus

namespace Step

variable {α : Type} {deadline : Nat} {s : Step α} {a : α} {e : HostError}

/-- The operation is answered in time, and succeeds with `a`. -/
def Succeeds (deadline : Nat) (s : Step α) (a : α) : Prop :=
  ∃ delay ≤ deadline, s = .answers delay (.ok a)

/-- The operation is answered in time, and fails with `e`; or it is not, and `e` says so. -/
def Fails (deadline : Nat) (s : Step α) (e : HostError) : Prop :=
  (∃ delay ≤ deadline, s = .answers delay (.error e)) ∨
    e = .timeout ∧ ∀ delay ≤ deadline, ∀ result, s ≠ .answers delay result

theorem within_eq_ok_iff : (s.within deadline).1 = .ok a ↔ s.Succeeds deadline a := by
  cases s with
  | silent => exact iff_of_false nofun nofun
  | answers delay result =>
    rw [within]
    split
    · rename_i hle
      constructor
      · rintro rfl
        exact ⟨delay, hle, rfl⟩
      · rintro ⟨_, -, ⟨⟩⟩
        rfl
    · rename_i hlate
      refine iff_of_false nofun ?_
      rintro ⟨_, hle, ⟨⟩⟩
      exact hlate hle

theorem within_eq_error_iff : (s.within deadline).1 = .error e ↔ s.Fails deadline e := by
  cases s with
  | silent =>
    constructor
    · rintro ⟨⟩
      exact .inr ⟨rfl, nofun⟩
    · rintro (⟨_, -, ⟨⟩⟩ | ⟨rfl, -⟩)
      rfl
  | answers delay result =>
    rw [within]
    split
    · rename_i hle
      constructor
      · rintro rfl
        exact .inl ⟨delay, hle, rfl⟩
      · rintro (⟨_, -, ⟨⟩⟩ | ⟨-, hnever⟩)
        · rfl
        · exact absurd rfl (hnever delay hle result)
    · rename_i hlate
      constructor
      · rintro ⟨⟩
        refine .inr ⟨rfl, ?_⟩
        rintro _ hle _ ⟨⟩
        exact hlate hle
      · rintro (⟨_, hle, ⟨⟩⟩ | ⟨rfl, -⟩)
        · exact absurd hle hlate
        · rfl

theorem Succeeds.not_fails (h : s.Succeeds deadline a) : ¬ s.Fails deadline e := by
  intro h'
  cases (within_eq_ok_iff.2 h).symm.trans (within_eq_error_iff.2 h')

theorem Fails.unique {e' : HostError} (h : s.Fails deadline e) (h' : s.Fails deadline e') :
    e = e' :=
  Except.error.inj ((within_eq_error_iff.2 h).symm.trans (within_eq_error_iff.2 h'))

theorem succeeds_of_within {elapsed : Nat} (h : s.within deadline = (.ok a, elapsed)) :
    s.Succeeds deadline a ∧ elapsed ≤ deadline := by
  have soon := elapsed_within_le deadline s
  rw [h] at soon
  exact ⟨within_eq_ok_iff.1 (congrArg Prod.fst h), soon⟩

theorem fails_of_within {elapsed : Nat} (h : s.within deadline = (.error e, elapsed)) :
    s.Fails deadline e ∧ elapsed ≤ deadline := by
  have soon := elapsed_within_le deadline s
  rw [h] at soon
  exact ⟨within_eq_error_iff.1 (congrArg Prod.fst h), soon⟩

/-- What is left of an answer whose failure does not matter. -/
theorem toOption_within_eq_some_iff :
    (s.within deadline).1.toOption = some a ↔ s.Succeeds deadline a := by
  rw [← within_eq_ok_iff]
  cases (s.within deadline).1 with
  | ok found => simp [Except.toOption]
  | error e => exact iff_of_false nofun nofun

end Step

namespace Attempt

open Rpc (Tells Denies)

variable {deadline : Nat} {p : Peer} {b : Behaviour} {a : Attempt}

/-! ## What can become of an attempt -/

/-- All that can become of an attempt on the peer `p`, which meets it with the behaviour `b`. -/
inductive Course (deadline : Nat) (p : Peer) (b : Behaviour) : Attempt → Prop
  | unconnected {e : HostError} {connecting : Nat} :
    b.connect.Fails deadline e → connecting ≤ deadline →
    Course deadline p b ⟨.error (.connect e), [.connect p.dialInfo], [connecting]⟩
  | unopened {e : HostError} {connecting opening : Nat} :
    b.connect.Succeeds deadline () → connecting ≤ deadline →
    b.openStream.Fails deadline e → opening ≤ deadline →
    Course deadline p b ⟨.error (.stream e),
      [.connect p.dialInfo, .openStream Rpc.statusMethod.protocol none, .disconnect],
      [connecting, opening]⟩
  | denied {e : RpcError} {sent : Sink} {connecting opening exchanging : Nat} :
    b.connect.Succeeds deadline () → connecting ≤ deadline →
    b.openStream.Succeeds deadline () → opening ≤ deadline →
    Denies p.forkId.digest deadline b.stream e → exchanging ≤ deadline →
    Course deadline p b ⟨.error (.status e),
      [.connect p.dialInfo, .openStream Rpc.statusMethod.protocol (some sent), .disconnect],
      [connecting, opening, exchanging]⟩
  | told {status : Status} {identity : Option Identity} {sent : Sink}
      {connecting opening exchanging identifying : Nat} :
    b.connect.Succeeds deadline () → connecting ≤ deadline →
    b.openStream.Succeeds deadline () → opening ≤ deadline →
    Tells p.forkId.digest deadline b.stream status → exchanging ≤ deadline →
    (∀ i, identity = some i ↔ b.identify.Succeeds deadline i) → identifying ≤ deadline →
    Course deadline p b ⟨.ok ⟨status, identity⟩,
      [.connect p.dialInfo, .openStream Rpc.statusMethod.protocol (some sent), .identify,
        .disconnect],
      [connecting, opening, exchanging, identifying]⟩

theorem course_run (deadline : Nat) (p : Peer) (b : Behaviour) :
    Course deadline p b (run deadline p b) := by
  rw [run]
  rcases hconnect : b.connect.within deadline with ⟨e | ⟨⟩, connecting⟩
  · obtain ⟨hfails, hconnecting⟩ := Step.fails_of_within hconnect
    exact .unconnected hfails hconnecting
  · obtain ⟨hconnected, hconnecting⟩ := Step.succeeds_of_within hconnect
    dsimp only
    rw [exchange]
    rcases hopen : b.openStream.within deadline with ⟨e | ⟨⟩, opening⟩
    · obtain ⟨hfails, hopening⟩ := Step.fails_of_within hopen
      exact .unopened hconnected hconnecting hfails hopening
    · obtain ⟨hopened, hopening⟩ := Step.succeeds_of_within hopen
      have hexchanging := Rpc.elapsed_handshake_le p.forkId.digest deadline b.stream
      dsimp only
      rcases Rpc.handshake_cases p.forkId.digest deadline b.stream with
        ⟨status, htold, hresult⟩ | ⟨e, hdenied, hresult⟩
      · rw [hresult]
        exact .told hconnected hconnecting hopened hopening htold hexchanging
          (fun _ => Step.toOption_within_eq_some_iff) (b.identify.elapsed_within_le deadline)
      · rw [hresult]
        exact .denied hconnected hconnecting hopened hopening hdenied hexchanging

/-! ## What follows -/

/-- The first stage of an attempt that fails, and how it fails. -/
inductive FailsFirst (deadline : Nat) (p : Peer) (b : Behaviour) : ProbeError → Prop
  | connect {e : HostError} : b.connect.Fails deadline e → FailsFirst deadline p b (.connect e)
  | stream {e : HostError} : b.connect.Succeeds deadline () → b.openStream.Fails deadline e →
    FailsFirst deadline p b (.stream e)
  | status {e : RpcError} : b.connect.Succeeds deadline () → b.openStream.Succeeds deadline () →
    Denies p.forkId.digest deadline b.stream e → FailsFirst deadline p b (.status e)

/-- Every stage of an attempt succeeds, and `findings` are the status that the peer sends and what it
says about itself, if it does so in time. -/
structure Finds (deadline : Nat) (p : Peer) (b : Behaviour) (findings : Findings) : Prop where
  connected : b.connect.Succeeds deadline ()
  opened : b.openStream.Succeeds deadline ()
  told : Tells p.forkId.digest deadline b.stream findings.status
  identified : ∀ i, findings.identity = some i ↔ b.identify.Succeeds deadline i

theorem FailsFirst.unique {e e' : ProbeError} (h : FailsFirst deadline p b e)
    (h' : FailsFirst deadline p b e') : e = e' := by
  cases h with
  | connect hfails =>
    cases h' with
    | connect hfails' => rw [hfails.unique hfails']
    | stream hconnected => exact absurd hfails hconnected.not_fails
    | status hconnected => exact absurd hfails hconnected.not_fails
  | stream hconnected hfails =>
    cases h' with
    | connect hfails' => exact absurd hfails' hconnected.not_fails
    | stream _ hfails' => rw [hfails.unique hfails']
    | status _ hopened => exact absurd hfails hopened.not_fails
  | status hconnected hopened hdenied =>
    cases h' with
    | connect hfails' => exact absurd hfails' hconnected.not_fails
    | stream _ hfails' => exact absurd hfails' hopened.not_fails
    | status _ _ hdenied' => rw [hdenied.unique hdenied']

theorem Finds.unique {f f' : Findings} (h : Finds deadline p b f) (h' : Finds deadline p b f') :
    f = f' := by
  obtain ⟨status, identity⟩ := f
  obtain ⟨status', identity'⟩ := f'
  obtain rfl : status = status' := h.told.unique h'.told
  obtain rfl : identity = identity' := Option.ext fun i =>
    (h.identified i).trans (h'.identified i).symm
  rfl

theorem Finds.not_failsFirst {f : Findings} {e : ProbeError} (h : Finds deadline p b f) :
    ¬ FailsFirst deadline p b e := by
  intro hfails
  cases hfails with
  | connect hfails => exact h.connected.not_fails hfails
  | stream _ hfails => exact h.opened.not_fails hfails
  | status _ _ hdenied => exact h.told.not_denies hdenied

/-- An attempt fails as the first of its stages that does, or it finds what there is to find. -/
theorem Course.result (h : Course deadline p b a) :
    (∃ e, a.result = .error e ∧ FailsFirst deadline p b e) ∨
      ∃ f, a.result = .ok f ∧ Finds deadline p b f := by
  cases h with
  | unconnected hfails => exact .inl ⟨_, rfl, .connect hfails⟩
  | unopened hconnected _ hfails => exact .inl ⟨_, rfl, .stream hconnected hfails⟩
  | denied hconnected _ hopened _ hdenied => exact .inl ⟨_, rfl, .status hconnected hopened hdenied⟩
  | told hconnected _ hopened _ htold _ hidentified =>
    exact .inr ⟨_, rfl, hconnected, hopened, htold, hidentified⟩

theorem Course.result_eq_error_iff {e : ProbeError} (h : Course deadline p b a) :
    a.result = .error e ↔ FailsFirst deadline p b e := by
  rcases h.result with ⟨e', hresult, hfails⟩ | ⟨f, hresult, hfinds⟩ <;> rw [hresult]
  · constructor
    · rintro ⟨⟩
      exact hfails
    · intro h
      rw [hfails.unique h]
  · exact iff_of_false nofun hfinds.not_failsFirst

theorem Course.result_eq_ok_iff {f : Findings} (h : Course deadline p b a) :
    a.result = .ok f ↔ Finds deadline p b f := by
  rcases h.result with ⟨e, hresult, hfails⟩ | ⟨f', hresult, hfinds⟩ <;> rw [hresult]
  · exact iff_of_false nofun fun h => h.not_failsFirst hfails
  · constructor
    · rintro ⟨⟩
      exact hfinds
    · intro h
      rw [hfinds.unique h]

/-- An attempt has four stages, and none takes longer than its deadline. -/
theorem Course.elapsed_le (h : Course deadline p b a) : a.elapsed ≤ 4 * deadline := by
  cases h with
  | unconnected | unopened | denied | told =>
    simp only [elapsed, List.foldl_cons, List.foldl_nil]
    omega

/-- A connection that was made is given up once, after all else, and no other is. -/
theorem Course.disconnects (h : Course deadline p b a) :
    (b.connect.Succeeds deadline () ∧
        ∃ others, a.calls = others ++ [.disconnect] ∧ .disconnect ∉ others) ∨
      ¬ b.connect.Succeeds deadline () ∧ .disconnect ∉ a.calls := by
  cases h with
  | unconnected hfails => exact .inr ⟨fun hconnected => hconnected.not_fails hfails, by simp⟩
  | unopened hconnected => exact .inl ⟨hconnected, [_, _], rfl, by simp⟩
  | denied hconnected => exact .inl ⟨hconnected, [_, _], rfl, by simp⟩
  | told hconnected => exact .inl ⟨hconnected, [_, _, _], rfl, by simp⟩

/-- A peer is asked who it is once it has told its status. -/
theorem Course.identify_mem_iff (h : Course deadline p b a) :
    .identify ∈ a.calls ↔ b.connect.Succeeds deadline () ∧ b.openStream.Succeeds deadline () ∧
      ∃ status, Tells p.forkId.digest deadline b.stream status := by
  cases h with
  | unconnected hfails =>
    exact iff_of_false (by simp) fun ⟨hconnected, _⟩ => hconnected.not_fails hfails
  | unopened _ _ hfails =>
    exact iff_of_false (by simp) fun ⟨_, hopened, _⟩ => hopened.not_fails hfails
  | denied _ _ _ _ hdenied =>
    exact iff_of_false (by simp) fun ⟨_, _, _, htold⟩ => htold.not_denies hdenied
  | told hconnected _ hopened _ htold =>
    exact iff_of_true (by simp) ⟨hconnected, hopened, _, htold⟩

/-- Whatever the peer does, an attempt is over after four deadlines at most. The connection is given up
exactly once, after everything else, if it was made in time, and never if it was not. The attempt fails
exactly as the first of its stages that fails, where a stage that takes too long has timed out. The peer
is asked who it is if it has told its status, and whether it says so only decides whether that is
known: the attempt succeeds with exactly the status that the peer has sent. -/
theorem run_bracketed (deadline : Nat) (p : Peer) (b : Behaviour) :
    let a := run deadline p b
    a.elapsed ≤ 4 * deadline ∧
    ((b.connect.Succeeds deadline () ∧
        ∃ others, a.calls = others ++ [.disconnect] ∧ .disconnect ∉ others) ∨
      ¬ b.connect.Succeeds deadline () ∧ .disconnect ∉ a.calls) ∧
    (∀ e, a.result = .error e ↔ FailsFirst deadline p b e) ∧
    (.identify ∈ a.calls ↔ b.connect.Succeeds deadline () ∧ b.openStream.Succeeds deadline () ∧
      ∃ status, Tells p.forkId.digest deadline b.stream status) ∧
    ∀ findings, a.result = .ok findings ↔ Finds deadline p b findings := by
  have course := course_run deadline p b
  exact ⟨course.elapsed_le, course.disconnects, fun _ => course.result_eq_error_iff,
    course.identify_mem_iff, fun _ => course.result_eq_ok_iff⟩

end Attempt

end PeerCensus
