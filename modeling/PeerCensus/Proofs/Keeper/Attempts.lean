import PeerCensus.Keeper.Sequence
import PeerCensus.Proofs.Keeper.Outcome

/-!
# How a peer is tried

The attempts of a sequence follow a script: each is begun a pause after the end of the one before,
until one succeeds, there have been enough, or the shutdown has come. Only then is the store asked,
once, and not at all if the sequence was given up.

Results:
* `orderly_runFrom`: which attempts are made, and how the sequence ends.
* `asksOnce_answered`, `asksOnce_exhausted`: what the store is asked for a verdict, and what comes of
  that.
* `run_orderly`: both together, for whole sequences.
-/

namespace PeerCensus

/-- Whether an attempt did not succeed. -/
def Attempt.Fails (a : Attempt) : Prop := ∃ e, a.result = .error e

namespace Sequence

/-! ## Attempts -/

/-- When the attempt number `i` is begun in a sequence that was begun at the time `now`, if it comes to
that: a pause after the end of the one before. -/
def beginning (attempt : Nat → Attempt) (pause now : Nat) : Nat → Nat
  | 0 => now
  | i + 1 => beginning attempt pause now i + (attempt i).elapsed + pause

/-- How a sequence ends after `k` attempts of at most `limit`: the last one succeeded; or the last one
failed, and there may be no other; or the shutdown has come before another could be begun. -/
def Ends (attempt : Nat → Attempt) (limit pause : Nat) (shutdown : Option Nat) (now k : Nat) :
    Verdict → Prop
  | .answered findings => ∃ i, k = i + 1 ∧ i < limit ∧ (attempt i).result = .ok findings
  | .exhausted => ∃ i, k = i + 1 ∧ i + 1 = limit ∧ (attempt i).Fails
  | .cancelled => k < limit ∧ (∀ i, i + 1 = k → (attempt i).Fails) ∧
      shutBy shutdown (beginning attempt pause now k) = true

/-- The sequence follows the script `attempt`. -/
structure Orderly (attempt : Nat → Attempt) (limit pause : Nat) (shutdown : Option Nat) (now : Nat)
    (s : Sequence) : Prop where
  /-- Each attempt is begun a pause after the end of the one before. -/
  attempts : s.attempts =
    (List.range s.attempts.length).map fun i => (beginning attempt pause now i, attempt i)
  /-- None is begun after the shutdown. -/
  inTime : ∀ i < s.attempts.length, shutBy shutdown (beginning attempt pause now i) = false
  /-- Only the last one may succeed. -/
  failed : ∀ i, i + 1 < s.attempts.length → (attempt i).Fails
  ends : Ends attempt limit pause shutdown now s.attempts.length s.verdict

variable {attempt : Nat → Attempt} {limit pause now : Nat} {shutdown : Option Nat} {s : Sequence}

/-- The attempts after the first are begun as in a sequence of their own. -/
theorem beginning_succ (attempt : Nat → Attempt) (pause now i : Nat) :
    beginning attempt pause now (i + 1) =
      beginning (fun j => attempt (j + 1)) pause (now + (attempt 0).elapsed + pause) i := by
  induction i with
  | zero => rfl
  | succ i ih =>
    rw [beginning, ih]
    rfl

theorem Ends.succ {k : Nat} {verdict : Verdict} (hfails : (attempt 0).Fails)
    (h : Ends (fun i => attempt (i + 1)) limit pause shutdown
      (now + (attempt 0).elapsed + pause) k verdict) :
    Ends attempt (limit + 1) pause shutdown now (k + 1) verdict := by
  cases verdict with
  | answered findings =>
    obtain ⟨i, rfl, hi, hresult⟩ := h
    exact ⟨i + 1, rfl, Nat.succ_lt_succ hi, hresult⟩
  | exhausted =>
    obtain ⟨i, rfl, hlimit, hlast⟩ := h
    exact ⟨i + 1, rfl, congrArg (· + 1) hlimit, hlast⟩
  | cancelled =>
    obtain ⟨hk, hlast, hshut⟩ := h
    refine ⟨Nat.succ_lt_succ hk, fun i hi => ?_, ?_⟩
    · cases i with
      | zero => exact hfails
      | succ i => exact hlast i (Nat.succ.inj hi)
    · rwa [beginning_succ]

/-- There are no more attempts than there may be. -/
theorem Ends.le {k : Nat} {verdict : Verdict}
    (h : Ends attempt limit pause shutdown now k verdict) : k ≤ limit := by
  cases verdict with
  | answered findings =>
    obtain ⟨i, rfl, hi, -⟩ := h
    exact hi
  | exhausted =>
    obtain ⟨i, rfl, hlimit, -⟩ := h
    exact Nat.le_of_eq hlimit
  | cancelled => exact Nat.le_of_lt h.1

/-- A failed attempt goes before a sequence that follows the rest of the script. -/
theorem Orderly.after (hopen : shutBy shutdown now = false) (hfails : (attempt 0).Fails)
    (h : Orderly (fun i => attempt (i + 1)) limit pause shutdown
      (now + (attempt 0).elapsed + pause) s) :
    Orderly attempt (limit + 1) pause shutdown now (s.after now (attempt 0)) where
  attempts := by
    show (now, attempt 0) :: s.attempts = (List.range (s.attempts.length + 1)).map _
    rw [List.range_succ_eq_map, List.map_cons, List.map_map]
    refine congrArg₂ List.cons rfl (h.attempts.trans ?_)
    refine List.map_congr_left fun i _ => ?_
    rw [Function.comp_apply, Nat.succ_eq_add_one, beginning_succ]
  inTime i hi := by
    cases i with
    | zero => exact hopen
    | succ i =>
      rw [beginning_succ]
      exact h.inTime i (Nat.lt_of_succ_lt_succ hi)
  failed i hi := by
    cases i with
    | zero => exact hfails
    | succ i => exact h.failed i (Nat.lt_of_succ_lt_succ hi)
  ends := h.ends.succ hfails

/-- A sequence that is given up before its first attempt. -/
theorem orderly_nil (hlimit : 0 < limit) (hshut : shutBy shutdown now = true) (ended : Nat) :
    Orderly attempt limit pause shutdown now ⟨[], .cancelled, ended⟩ where
  attempts := rfl
  inTime := nofun
  failed := nofun
  ends := ⟨hlimit, nofun, hshut⟩

/-- A sequence that ends with its first attempt. -/
theorem orderly_singleton (verdict : Verdict) (hopen : shutBy shutdown now = false)
    (h : Ends attempt limit pause shutdown now 1 verdict) (ended : Nat) :
    Orderly attempt limit pause shutdown now ⟨[(now, attempt 0)], verdict, ended⟩ where
  attempts := rfl
  inTime i hi := by
    obtain rfl : i = 0 := Nat.lt_one_iff.1 hi
    exact hopen
  failed i hi := absurd hi (by simp)
  ends := h

/-- The attempts from the second one on are those of the rest of the script. -/
theorem runFrom_succ (attempt : Nat → Attempt) (pause : Nat) (shutdown : Option Nat)
    (n retries now : Nat) :
    runFrom attempt pause shutdown (n + 1) retries now =
      runFrom (fun i => attempt (i + 1)) pause shutdown n retries now := by
  induction retries generalizing n now with
  | zero => rw [runFrom, runFrom]
  | succ retries ih =>
    rw [runFrom, runFrom]
    simp only [ih]

/-- A sequence follows its script if what comes after its first attempt does. -/
theorem orderly_of_rest {retries : Nat}
    (hrest : ∀ r, retries = r + 1 → Orderly (fun i => attempt (i + 1)) (r + 1) pause shutdown
      (now + (attempt 0).elapsed + pause) (runFrom (fun i => attempt (i + 1)) pause shutdown 0 r
        (now + (attempt 0).elapsed + pause))) :
    Orderly attempt (retries + 1) pause shutdown now
      (runFrom attempt pause shutdown 0 retries now) := by
  rw [runFrom.eq_def]
  split
  · rename_i hshut
    exact orderly_nil (Nat.succ_pos _) hshut now
  · rename_i hopen
    have hopen := Bool.eq_false_iff.2 hopen
    dsimp only
    split
    · rename_i findings hresult
      exact orderly_singleton (.answered findings) hopen ⟨0, rfl, Nat.succ_pos _, hresult⟩ _
    · rename_i e hresult
      have hfails : (attempt 0).Fails := ⟨e, hresult⟩
      cases retries with
      | zero => exact orderly_singleton .exhausted hopen ⟨0, rfl, rfl, hfails⟩ _
      | succ r =>
        dsimp only
        split
        · -- the pause is not waited for
          rename_i hshut
          refine orderly_singleton .cancelled hopen ⟨by omega, fun i hi => ?_, hshut⟩ _
          obtain rfl : i = 0 := Nat.succ.inj hi
          exact hfails
        · rw [runFrom_succ]
          exact (hrest r rfl).after hopen hfails

/-- A sequence follows its script. -/
theorem orderly_runFrom (attempt : Nat → Attempt) (pause : Nat) (shutdown : Option Nat)
    (retries now : Nat) :
    Orderly attempt (retries + 1) pause shutdown now
      (runFrom attempt pause shutdown 0 retries now) := by
  induction retries generalizing attempt now with
  | zero => exact orderly_of_rest nofun
  | succ retries ih =>
    refine orderly_of_rest fun r hr => ?_
    obtain rfl := Nat.succ.inj hr
    exact ih _ _

end Sequence

/-! ## What the store is asked -/

namespace Verdict

/-- The outcome of a sequence on the peer with the id `id` is handed to the store by one call, `call`.
Either the store takes it, so that `left` is what is stored of the peer and the conclusion is `done`, or
all that is stored is as before. -/
structure AsksOnce (store : PeerStore) (call : StoreCall) (id : PeerId) (left : Option Peer)
    (done : Conclusion) (r : Conclusion × PeerStore) : Prop where
  log : r.2.log = call :: store.log
  down : r.2.down = store.down
  outcome : (r.1 = done ∧ r.2.registry.find? id = left ∧
      ∀ other, other ≠ id → r.2.registry.find? other = store.registry.find? other) ∨
    (∃ e, r.1 = .storeFailed e) ∧ r.2.registry = store.registry

variable {store : PeerStore} {call : StoreCall} {id : PeerId} {left : Option Peer}
  {done : Conclusion}

theorem settled_eq (done : Conclusion) (r : Except StoreError Unit × PeerStore) :
    (settled done r).1 = done ∨ ∃ e, (settled done r).1 = .storeFailed e := by
  obtain ⟨e | ⟨⟩, store⟩ := r
  · exact .inr ⟨e, rfl⟩
  · exact .inl rfl

theorem asksOnce_settled {f : Registry → Except StoreError (Unit × Registry)}
    (hdone : done.isStored = true) (h : Leaves store id left (settled done (store.answer call f))) :
    AsksOnce store call id left done (settled done (store.answer call f)) where
  log := by rw [snd_settled, PeerStore.log_answer]
  down := by rw [snd_settled, PeerStore.down_answer]
  outcome := by
    rcases h with ⟨hrefused, same⟩ | ⟨hstored, hleft, hothers⟩
    · refine .inr ⟨(settled_eq done _).resolve_left fun heq => ?_, same⟩
      rw [heq, hdone] at hrefused
      cases hrefused
    · refine .inl ⟨(settled_eq done _).resolve_right fun ⟨e, he⟩ => ?_, hleft, hothers⟩
      rw [he] at hstored
      cases hstored

/-- An answer is handed over by an update to the refreshed peer. -/
theorem asksOnce_answered (clock : ChainClock) (resolve : Resolver) (now : Nat) (p : Peer)
    (store : PeerStore) (findings : Findings) :
    AsksOnce store .update p.id (some (p.refreshed clock resolve now findings)) .connected
      ((answered findings).conclude clock resolve now p store) := by
  rw [← id_refreshed clock resolve now findings p]
  exact asksOnce_settled rfl (leaves_update rfl (p.refreshed clock resolve now findings) store)

/-- A failure is handed over by a removal if it makes the score bad, and otherwise by an update of the
score and of the time. -/
theorem asksOnce_exhausted (clock : ChainClock) (resolve : Resolver) (now : Nat) (p : Peer)
    (store : PeerStore) :
    if p.score.value - 1 ≤ Score.bad.value then
      AsksOnce store .delete p.id none .evicted (exhausted.conclude clock resolve now p store)
    else
      AsksOnce store .update p.id
        (some { p with score := ⟨p.score.value - 1⟩, lastUpdated := now })
        (.demoted ⟨p.score.value - 1⟩) (exhausted.conclude clock resolve now p store) := by
  rw [conclude]
  simp only [Score.isBad_lowered_iff]
  split
  · exact asksOnce_settled rfl (leaves_delete rfl p.id store)
  · rename_i hgood
    rw [Peer.demoted, Score.lowered_of_not_bad hgood]
    exact asksOnce_settled rfl
      (leaves_update rfl { p with score := ⟨p.score.value - 1⟩, lastUpdated := now } store)

end Verdict

/-! ## Whole sequences -/

namespace Sequence

open Verdict (AsksOnce)

/-- The attempts of a sequence are made one after another, a pause apart, at most as many as there may
be but at least one, none after the shutdown and none after a success. Either the last one succeeded,
and the store is asked once, to keep the peer with a good score and with what it answered; or there
were as many as there may be and all failed, and the store is asked once, to remove the peer if one
point less makes its score bad, and else to keep it with one point less; or the shutdown has come before
another could be begun, and the store is not asked. Whatever it is asked, no other peer is touched, and
nothing at all if it does not take the outcome. -/
theorem run_orderly (attempt : Nat → Attempt) (attempts pause : Nat) (shutdown : Option Nat)
    (now : Nat) (clock : ChainClock) (resolve : Resolver) (time : Nat) (p : Peer)
    (store : PeerStore) :
    let s := run attempt attempts pause shutdown now
    let k := s.attempts.length
    let begun := beginning attempt pause now
    let r := s.verdict.conclude clock resolve time p store
    s.attempts = (List.range k).map (fun i => (begun i, attempt i)) ∧
    k ≤ max attempts 1 ∧
    (∀ i < k, shutBy shutdown (begun i) = false) ∧
    (∀ i, i + 1 < k → (attempt i).Fails) ∧
    ((∃ i findings, k = i + 1 ∧ (attempt i).result = .ok findings ∧
        p.Answers clock resolve time findings (p.refreshed clock resolve time findings) ∧
        AsksOnce store .update p.id (some (p.refreshed clock resolve time findings)) .connected r) ∨
      (k = max attempts 1 ∧ (∀ i < k, (attempt i).Fails) ∧
        if p.score.value - 1 ≤ Score.bad.value then AsksOnce store .delete p.id none .evicted r
        else AsksOnce store .update p.id
          (some { p with score := ⟨p.score.value - 1⟩, lastUpdated := time })
          (.demoted ⟨p.score.value - 1⟩) r) ∨
      (k < max attempts 1 ∧ (∀ i < k, (attempt i).Fails) ∧ shutBy shutdown (begun k) = true ∧
        r = (.cancelled, store))) := by
  intro s k begun r
  have limit : attempts - 1 + 1 = max attempts 1 := by omega
  have ⟨made, inTime, failed, ends⟩ : Orderly attempt (max attempts 1) pause shutdown now s :=
    limit ▸ orderly_runFrom attempt pause shutdown (attempts - 1) now
  have allFailed (hlast : ∀ i, i + 1 = k → (attempt i).Fails) : ∀ i < k, (attempt i).Fails := by
    intro i hi
    rcases Nat.lt_or_eq_of_le hi with hlt | heq
    · exact failed i hlt
    · exact hlast i heq
  have reach : k ≤ max attempts 1 := ends.le
  refine ⟨made, reach, inTime, failed, ?_⟩
  simp only [r]
  cases hverdict : s.verdict with
  | answered findings =>
    rw [hverdict] at ends
    obtain ⟨i, hk, -, hresult⟩ := ends
    exact .inl ⟨i, findings, hk, hresult, p.answers_refreshed .., Verdict.asksOnce_answered ..⟩
  | exhausted =>
    rw [hverdict] at ends
    obtain ⟨i, hk, hlimit, hlast⟩ := ends
    refine .inr (.inl ⟨hk.trans hlimit, allFailed fun j hj => ?_, Verdict.asksOnce_exhausted ..⟩)
    obtain rfl : i = j := Nat.succ.inj (hk.symm.trans hj.symm)
    exact hlast
  | cancelled =>
    rw [hverdict] at ends
    obtain ⟨hk, hlast, hshut⟩ := ends
    exact .inr (.inr ⟨hk, allFailed hlast, hshut, rfl⟩)

end Sequence

end PeerCensus
