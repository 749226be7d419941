import PeerCensus.Keeper.Outcome
import PeerCensus.Proofs.Store.Registry

/-!
# What an outcome leaves stored

An outcome that is stored changes what is stored of its peer, and nothing else. An outcome that the
store refuses, and that of a cancelled sequence, changes nothing at all.

Results:
* `Peer.answers_refreshed`: what an answer makes of a peer, field by field.
* `Verdict.leaves_conclude`: what is stored before and after an outcome.
* `Verdict.isStored_conclude_iff`: when an outcome is stored.
-/

namespace PeerCensus

namespace Peer

/-- What an answer makes of a peer `p` at the time `now`: what it may change, and to what. -/
structure Answers (clock : ChainClock) (resolve : Resolver) (now : Nat) (findings : Findings)
    (p q : Peer) : Prop where
  /-- Nothing else is changed. -/
  frame : q = { p with
    score := .good
    connectable := true
    lastConnected := some now
    lastUpdated := now
    sync := some (clock.classify findings.status.headSlot.toNat now)
    protocolVersion := q.protocolVersion
    agent := q.agent
    agentText := q.agentText
    location := q.location }
  /-- A peer that says nothing about itself is known as before. -/
  silent : findings.identity = none →
    q.protocolVersion = p.protocolVersion ∧ q.agent = p.agent ∧ q.agentText = p.agentText
  identified : ∀ identity, findings.identity = some identity →
    q.protocolVersion = some identity.protocolVersion ∧
      q.agent = some (.parse identity.agentVersion) ∧ q.agentText = some identity.agentVersion
  located : p.location.isSome = true → q.location = p.location
  sought : p.location = none → q.location = (resolve p.ip).toOption

variable {p : Peer}

theorem locate_of_isSome (resolve : Resolver) (h : p.location.isSome = true) :
    p.locate resolve = p.location := by
  obtain ⟨location, h⟩ := Option.isSome_iff_exists.1 h
  rw [locate, h]

theorem locate_of_eq_none (resolve : Resolver) (h : p.location = none) :
    p.locate resolve = (resolve p.ip).toOption := by
  rw [locate, h]

theorem answers_refreshed (clock : ChainClock) (resolve : Resolver) (now : Nat)
    (findings : Findings) (p : Peer) :
    p.Answers clock resolve now findings (p.refreshed clock resolve now findings) := by
  cases hidentity : findings.identity with
  | none =>
    simp only [refreshed, hidentity]
    refine ⟨rfl, fun _ => ⟨rfl, rfl, rfl⟩, fun identity h => ?_, locate_of_isSome resolve,
      locate_of_eq_none resolve⟩
    cases hidentity.symm.trans h
  | some identity =>
    simp only [refreshed, hidentity]
    refine ⟨rfl, fun h => ?_, fun _ h => ?_, locate_of_isSome resolve, locate_of_eq_none resolve⟩
    · cases hidentity.symm.trans h
    · cases hidentity.symm.trans h
      exact ⟨rfl, rfl, rfl⟩

end Peer

/-- Whether an outcome has been stored. -/
def Conclusion.isStored : Conclusion → Bool
  | connected | demoted _ | evicted => true
  | cancelled | storeFailed _ => false

namespace Verdict

/-- What an outcome makes of the peer `p` at the time `now`; none if it is removed. -/
def result (clock : ChainClock) (resolve : Resolver) (now : Nat) (p : Peer) : Verdict → Option Peer
  | answered findings => some (p.refreshed clock resolve now findings)
  | exhausted => if p.score.lowered.isBad then none else some (p.demoted now)
  | cancelled => some p

theorem id_refreshed (clock : ChainClock) (resolve : Resolver) (now : Nat) (findings : Findings)
    (p : Peer) : (p.refreshed clock resolve now findings).id = p.id := by
  simp only [Peer.refreshed]
  split <;> rfl

/-- Either the conclusion `r` is that nothing was stored, and nothing has changed; or `left` is what
is stored under the id now, and nothing else has changed. -/
def Leaves (store : PeerStore) (id : PeerId) (left : Option Peer) (r : Conclusion × PeerStore) :
    Prop :=
  (r.1.isStored = false ∧ r.2.registry = store.registry) ∨
    (r.1.isStored = true ∧ r.2.registry.find? id = left ∧
      ∀ other, other ≠ id → r.2.registry.find? other = store.registry.find? other)

/-- What is left when an outcome is settled by a call, which succeeds or changes nothing. -/
theorem leaves_settled {done : Conclusion} {call : StoreCall}
    {f : Registry → Except StoreError (Unit × Registry)} {store : PeerStore} {id : PeerId}
    {left : Option Peer} (hdone : done.isStored = true)
    (hf : ∀ r, f store.registry = .ok ((), r) → r.find? id = left ∧
      ∀ other, other ≠ id → r.find? other = store.registry.find? other) :
    Leaves store id left (settled done (store.answer call f)) := by
  by_cases h : call ∈ store.down
  · rw [PeerStore.answer_of_down h]
    exact .inl ⟨rfl, rfl⟩
  · rw [PeerStore.answer_of_up h]
    cases hr : f store.registry with
    | ok answer => exact .inr ⟨hdone, hf answer.2 hr⟩
    | error e => exact .inl ⟨rfl, rfl⟩

theorem leaves_update {done : Conclusion} (hdone : done.isStored = true) (q : Peer)
    (store : PeerStore) : Leaves store q.id (some q) (settled done (store.update q)) := by
  refine leaves_settled hdone fun r hr => ?_
  split at hr
  · cases Except.ok.inj hr
    exact ⟨Registry.find?_put_self q _, fun other h => Registry.find?_put_of_ne h _⟩
  · cases hr

theorem leaves_delete {done : Conclusion} (hdone : done.isStored = true) (id : PeerId)
    (store : PeerStore) : Leaves store id none (settled done (store.delete id)) := by
  refine leaves_settled hdone fun r hr => ?_
  split at hr
  · cases Except.ok.inj hr
    exact ⟨Registry.find?_erase_self id _, fun other h => Registry.find?_erase_of_ne h _⟩
  · cases hr

/-- An outcome that is stored leaves what it makes of its peer. -/
theorem leaves_conclude (clock : ChainClock) (resolve : Resolver) (now : Nat) (p : Peer)
    (store : PeerStore) (verdict : Verdict) :
    Leaves store p.id (verdict.result clock resolve now p)
      (verdict.conclude clock resolve now p store) := by
  cases verdict with
  | answered findings =>
    rw [← id_refreshed clock resolve now findings p]
    exact leaves_update rfl _ store
  | exhausted =>
    simp only [conclude, result]
    split
    · exact leaves_delete rfl p.id store
    · exact leaves_update rfl (p.demoted now) store
  | cancelled => exact .inl ⟨rfl, rfl⟩

/-- The call by which the outcome of a sequence on the peer `p` is stored; none for a cancelled one. -/
def call? (p : Peer) : Verdict → Option StoreCall
  | answered _ => some .update
  | exhausted => some (if p.score.lowered.isBad then .delete else .update)
  | cancelled => none

/-- A call that can be made settles an outcome exactly if it is not refused. -/
theorem isStored_settled {done : Conclusion} {call : StoreCall}
    {f : Registry → Except StoreError (Unit × Registry)} {store : PeerStore}
    (hdone : done.isStored = true) (hf : ∃ r, f store.registry = .ok ((), r)) :
    (settled done (store.answer call f)).1.isStored = true ↔ call ∉ store.down := by
  obtain ⟨r, hr⟩ := hf
  by_cases h : call ∈ store.down
  · rw [PeerStore.answer_of_down h]
    exact iff_of_false nofun (not_not.2 h)
  · rw [PeerStore.answer_of_up h, hr]
    exact iff_of_true hdone h

/-- The outcome of a sequence on a stored peer is stored exactly if its call is not refused. -/
theorem isStored_conclude_iff {clock : ChainClock} {resolve : Resolver} {now : Nat} {p : Peer}
    {store : PeerStore} {verdict : Verdict} (known : (store.registry.find? p.id).isSome = true) :
    (verdict.conclude clock resolve now p store).1.isStored = true ↔
      ∃ call ∉ store.down, verdict.call? p = some call := by
  rw [← Registry.contains_eq_isSome] at known
  cases verdict with
  | answered findings =>
    rw [conclude, PeerStore.update, isStored_settled rfl]
    · simp [call?]
    · rw [id_refreshed, known]
      exact ⟨_, rfl⟩
  | exhausted =>
    rw [conclude, call?]
    split
    · rw [PeerStore.delete, isStored_settled rfl ⟨_, if_pos known⟩]
      simp
    · rw [PeerStore.update, isStored_settled rfl ⟨_, if_pos known⟩]
      simp
  | cancelled => simp [conclude, call?, Conclusion.isStored]

/-- An outcome does not change which calls are refused. -/
theorem down_conclude (clock : ChainClock) (resolve : Resolver) (now : Nat) (p : Peer)
    (store : PeerStore) (verdict : Verdict) :
    (verdict.conclude clock resolve now p store).2.down = store.down := by
  cases verdict with
  | answered findings =>
    rw [conclude, snd_settled]
    exact PeerStore.down_answer ..
  | exhausted =>
    rw [conclude]
    split <;> rw [snd_settled] <;> exact PeerStore.down_answer ..
  | cancelled => rfl

/-- What is left of a peer by an outcome was updated when the outcome was stored. -/
theorem lastUpdated_result {clock : ChainClock} {resolve : Resolver} {now : Nat} {p q : Peer}
    {store : PeerStore} {verdict : Verdict}
    (hstored : (verdict.conclude clock resolve now p store).1.isStored = true)
    (h : verdict.result clock resolve now p = some q) : q.lastUpdated = now := by
  cases verdict with
  | answered findings =>
    cases h
    rfl
  | exhausted =>
    simp only [result] at h
    split at h
    · cases h
    · cases h
      rfl
  | cancelled => cases hstored

end Verdict

end PeerCensus
