import PeerCensus.Proofs.Keeper.Run
import PeerCensus.Proofs.Store.Registry

/-!
# The capacity of the keeper

No permit is ever lost or made: each is free, or held by the selector, by a peer on the queue or by
a worker. So as many peers wait and are tried as there are workers, and there is always room for the
peer that the selector hands over. The peers in flight are exactly those that are handed over,
waiting or tried, each once, and the selector never holds one of them.

Results:
* `balanced_makes`: every step keeps the permits and the peers in flight in balance.
* `balanced_run`: so does every run.
* `exists_send`: a peer that is in flight can be put on the queue at once.
* `run_capacity`: what follows for all that is handed over, waits and is tried.
-/

namespace PeerCensus.Keeper

/-! ## Permits and peers in flight -/

/-- How many permits the selector holds. -/
def Selector.held : Selector → Nat
  | .holding .. | .marked .. => 1
  | _ => 0

/-- The peers that the selector has chosen and not put in flight. -/
def Selector.candidates : Selector → List Peer
  | .offering chosen => chosen
  | .holding p rest => p :: rest
  | .marked _ rest => rest
  | _ => []

/-- The peer that the selector has put in flight and not on the queue. -/
def Selector.marking : Selector → List Peer
  | .marked p _ => [p]
  | _ => []

/-- Whether a worker holds a permit. -/
def Worker.holds : Worker → Bool
  | .probing _ | .settled _ | .departing _ => true
  | .idle | .stopped => false

/-- The peer in flight that a worker is at, if any. -/
def Worker.ids : Worker → List PeerId
  | .probing p => [p.id]
  | .settled id => [id]
  | .idle | .departing _ | .stopped => []

namespace Machine

/-- How many workers hold a permit. -/
def running (m : Machine) : Nat := m.workers.countP Worker.holds

/-- The ids of the peers on the queue and of those that the workers are at. -/
def jobs (m : Machine) : List PeerId :=
  m.queue.map Peer.id ++ m.workers.flatMap Worker.ids

/-- The permits and the peers in flight are in balance. -/
structure Balanced (s : Settings) (m : Machine) : Prop where
  permits : m.permits + m.selector.held + m.queue.length + m.running = s.capacity
  inFlight : m.inFlight.Perm (m.selector.marking.map Peer.id ++ m.jobs)
  /-- No peer is in flight twice, and none that is in flight is chosen again. -/
  nodup : (m.inFlight ++ m.selector.candidates.map Peer.id).Nodup
  listed : ∀ wanted stale, m.selector = .listed wanted stale → (stale.map Peer.id).Nodup

end Machine

open Machine

variable {c : Context} {m m' : Machine}

/-! ## What a worker's step changes -/

/-- A list with one of its elements marked off, and what it becomes when that element is set. -/
theorem exists_split {ws : List Worker} {i : Nat} {w : Worker} (h : ws[i]? = some w) :
    ∃ front back, ws = front ++ w :: back ∧ ∀ w', ws.set i w' = front ++ w' :: back := by
  obtain ⟨hi, rfl⟩ := List.getElem?_eq_some_iff.1 h
  refine ⟨ws.take i, ws.drop (i + 1), ?_, fun w' => ?_⟩
  · rw [List.getElem_cons_drop, List.take_append_drop]
  · rw [List.set_eq_take_append_cons_drop, if_pos hi]

/-- One permit more is held when a worker moves on that then holds one, and one less if it did. -/
theorem countP_holds_set {ws : List Worker} {i : Nat} {w : Worker} (h : ws[i]? = some w)
    (w' : Worker) :
    (ws.set i w').countP Worker.holds + w.holds.toNat =
      ws.countP Worker.holds + w'.holds.toNat := by
  obtain ⟨front, back, rfl, hset⟩ := exists_split h
  have toNat : ∀ b : Bool, (if b = true then 1 else 0) = b.toNat := by decide
  simp only [hset, List.countP_append, List.countP_cons, toNat]
  omega

/-- The ids that the workers are at change by those of the worker that moves on. -/
theorem count_ids_set {ws : List Worker} {i : Nat} {w : Worker} (h : ws[i]? = some w) (w' : Worker)
    (id : PeerId) :
    ((ws.set i w').flatMap Worker.ids).count id + w.ids.count id =
      (ws.flatMap Worker.ids).count id + w'.ids.count id := by
  obtain ⟨front, back, rfl, hset⟩ := exists_split h
  simp only [hset, List.flatMap_append, List.flatMap_cons, List.count_append]
  omega

theorem nodup_chosen {wanted : Nat} {stale : List Peer} (hflight : m.inFlight.Nodup)
    (hstale : (stale.map Peer.id).Nodup) :
    (m.inFlight ++ (m.chosen wanted stale).map Peer.id).Nodup := by
  have part : (m.chosen wanted stale).Sublist stale :=
    (List.take_sublist ..).trans List.filter_sublist
  refine List.nodup_append.2 ⟨hflight, hstale.sublist (part.map _), ?_⟩
  rintro id hid _ hchosen rfl
  obtain ⟨p, hp, rfl⟩ := List.mem_map.1 hchosen
  have free := (List.mem_filter.1 (List.mem_of_mem_take hp)).2
  simp [hid] at free

/-! ## Every step keeps the balance -/

theorem balanced_fresh (s : Settings) (store : PeerStore) : Balanced s (fresh s store) where
  permits := by simp [fresh, Selector.held, running, List.countP_replicate, Worker.holds]
  inFlight := by simp [fresh, Selector.marking, jobs, Worker.ids]
  nodup := by simp [fresh, Selector.candidates]
  listed := nofun

/-- The balance is kept when a worker moves on, if the permits and the peers change as it does. -/
theorem balanced_set {s : Settings} {w w' : Worker} {i permits : Nat} {inFlight : List PeerId}
    {queue : List Peer} {store : PeerStore} (hm : Balanced s m) (hw : m.workers[i]? = some w)
    (hpermits : permits + queue.length + w'.holds.toNat =
      m.permits + m.queue.length + w.holds.toNat)
    (hids : ∀ id, inFlight.count id + (m.queue.map Peer.id).count id + w.ids.count id =
      m.inFlight.count id + (queue.map Peer.id).count id + w'.ids.count id)
    (hsub : inFlight.Sublist m.inFlight) :
    Balanced s { m with store, permits, inFlight, queue, workers := m.workers.set i w' } := by
  refine ⟨?_, List.perm_iff_count.2 fun id => ?_, hm.nodup.sublist (hsub.append_right _), hm.listed⟩
  · have holders := countP_holds_set hw w'
    have total := hm.permits
    simp only [running] at total ⊢
    omega
  · have ids := count_ids_set hw w' id
    have counts := hm.inFlight.count_eq id
    have := hids id
    simp only [jobs, List.count_append] at counts ⊢
    omega

/-- Every step keeps the permits and the peers in flight in balance. -/
theorem balanced_makes {a : Action} (hm : Balanced c.settings m) (h : Makes c m a m') :
    Balanced c.settings m' := by
  have ⟨permits, inFlight, nodup, listed⟩ := hm
  cases h with
  | create | outage | shutDown | report => exact ⟨permits, inFlight, nodup, listed⟩
  | begin hs | count hs | listRefused hs | close hs =>
    simp only [hs] at permits inFlight nodup
    exact ⟨permits, inFlight, nodup, by simp⟩
  | list hs hlist =>
    simp only [hs] at permits inFlight nodup
    refine ⟨permits, inFlight, nodup, ?_⟩
    rintro _ _ ⟨⟩
    exact PeerStore.nodup_of_listStale hlist
  | choose hs =>
    simp only [hs] at permits inFlight nodup
    refine ⟨permits, inFlight, ?_, by simp⟩
    exact nodup_chosen (List.nodup_append.1 nodup).1 (listed _ _ hs)
  | acquire hs hfree =>
    simp only [hs, Selector.held, running] at permits
    simp only [hs] at inFlight nodup
    refine ⟨?_, inFlight, nodup, by simp⟩
    simp only [Selector.held, running]
    omega
  | @mark p rest hs =>
    simp only [hs] at permits inFlight nodup
    have absent : p.id ∉ m.inFlight := by
      intro hp
      exact (List.nodup_append.1 nodup).2.2 p.id hp p.id (List.mem_cons_self ..) rfl
    refine ⟨permits, ?_, ?_, by simp⟩
    · rw [List.insert_of_not_mem absent]
      exact inFlight.cons p.id
    · rw [List.insert_of_not_mem absent]
      exact List.perm_middle.nodup_iff.1 nodup
  | @send p rest hs =>
    simp only [hs, Selector.held, running] at permits
    simp only [hs] at inFlight nodup
    refine ⟨?_, ?_, nodup, by simp⟩
    · simp only [Selector.held, running, List.length_append, List.length_singleton]
      omega
    · refine inFlight.trans (List.perm_iff_count.2 fun id => ?_)
      simp only [Selector.marking, jobs, List.map_append, List.map_cons, List.map_nil,
        List.count_append, List.count_nil]
      omega
  | finish hs | abandon hs =>
    simp only [hs] at permits inFlight nodup
    refine ⟨permits, inFlight, ?_, by simp⟩
    rw [show (Selector.idle.candidates.map Peer.id) = [] from rfl, List.append_nil]
    exact (List.nodup_append.1 nodup).1
  | @receive i p queue hw hq =>
    refine balanced_set hm hw ?_ (fun id => ?_) (List.Sublist.refl _)
    · simp only [hq, List.length_cons, Worker.holds, Bool.toNat_false, Bool.toNat_true]
      omega
    · simp only [hq, List.map_cons, Worker.ids, List.count_cons, List.count_nil]
      omega
  | settle hw => exact balanced_set hm hw rfl (fun _ => rfl) (List.Sublist.refl _)
  | @leave i id hw =>
    have flying : id ∈ m.inFlight := by
      refine inFlight.mem_iff.2 (List.mem_append_right _ (List.mem_append_right _ ?_))
      exact List.mem_flatMap.2 ⟨_, List.mem_of_getElem? hw, List.mem_singleton.2 rfl⟩
    refine balanced_set hm hw rfl (fun other => ?_) List.erase_sublist
    by_cases same : id = other
    · subst same
      have := List.count_pos_iff.2 flying
      simp only [Worker.ids, List.count_erase_self, List.count_cons_self, List.count_nil]
      omega
    · simp only [Worker.ids, List.count_erase_of_ne (Ne.symm same), List.count_nil,
        List.count_cons_of_ne same]
  | release hw =>
    refine balanced_set hm hw ?_ (fun _ => rfl) (List.Sublist.refl _)
    simp only [Worker.holds, Bool.toNat_false, Bool.toNat_true]
    omega
  | retire hw => exact balanced_set hm hw rfl (fun _ => rfl) (List.Sublist.refl _)

/-- A send that fails would keep the balance too. -/
theorem balanced_putBack (hm : Balanced c.settings m) (h : m.putBack = some m') :
    Balanced c.settings m' := by
  obtain ⟨permits, inFlight, nodup, -⟩ := hm
  rw [putBack.eq_def] at h
  split at h
  · rename_i p rest hs
    cases h
    simp only [hs, Selector.held, running] at permits
    simp only [hs] at inFlight nodup
    refine ⟨?_, ?_, ?_, by simp⟩
    · simp only [Selector.held, running]
      omega
    · have := inFlight.erase p.id
      simpa [Selector.marking, jobs] using this
    · rw [show (Selector.idle.candidates.map Peer.id) = [] from rfl, List.append_nil]
      exact (List.nodup_append.1 nodup).1.sublist List.erase_sublist
  · cases h

variable {others : PeerStore → PeerStore → Prop} {store : PeerStore} {h : History}

/-- Every run keeps the permits and the peers in flight in balance. -/
theorem balanced_run (hrun : Run others c (fresh c.settings store) h m) :
    Balanced c.settings m := by
  induction hrun with
  | start => exact balanced_fresh c.settings store
  | step _ hstep ih => exact balanced_makes ih (makes_of_step hstep)
  | write _ _ ih => exact ⟨ih.permits, ih.inFlight, ih.nodup, ih.listed⟩
  | putBack _ hput ih => exact balanced_putBack ih hput

/-! ## What follows -/

/-- The peers taken off the queue are those handed over first, and the others are still on it. -/
theorem sent_eq_run (hrun : Run others c (fresh c.settings store) h m) :
    h.sent = h.received.map Prod.snd ++ m.queue := by
  induction hrun with
  | start => rfl
  | @step h m m' a _ hstep ih =>
    cases makes_of_step hstep with
    | send hs => simp only [History.after, hs, ih, List.append_assoc]
    | receive hw hq => simp [History.after, hq, ih]
    | choose hs => simp only [History.after, hs, History.chose, ih]
    | settle hw =>
      simp only [History.after, hw]
      split <;> exact ih
    | _ => exact ih
  | write _ _ ih => exact ih
  | putBack _ hput ih =>
    rw [putBack.eq_def] at hput
    split at hput
    · cases hput
      exact ih
    · cases hput

theorem length_marking_le (s : Selector) : s.marking.length ≤ s.held := by
  cases s <;> simp [Selector.marking, Selector.held]

/-- A worker that is at a peer holds a permit. -/
theorem length_ids_le (ws : List Worker) :
    (ws.flatMap Worker.ids).length ≤ ws.countP Worker.holds := by
  induction ws with
  | nil => exact Nat.le_refl _
  | cons w ws ih =>
    rw [List.flatMap_cons, List.length_append, List.countP_cons]
    have one : w.ids.length ≤ if w.holds = true then 1 else 0 := by
      cases w <;> simp [Worker.ids, Worker.holds]
    omega

/-- A peer that is in flight can be put on the queue at once. -/
theorem exists_send (hm : Balanced c.settings m) {p : Peer} {rest : List Peer}
    (hs : m.selector = .marked p rest) : ∃ m', m.step c .send = some m' := by
  have permits := hm.permits
  simp only [hs, Selector.held] at permits
  have room : m.queue.length < c.settings.capacity := by omega
  exact ⟨_, by simp only [step, send, hs, if_pos room]; rfl⟩

/-- In every state that a run can reach: all permits are free, or held by the selector, by peers on
the queue or by workers. The queue and the workers together hold at most as many peers as there are
workers, the queue alone does too, and a send need not wait. The peers on the queue and those that
workers are at are all different, and in flight; no more are in flight than there are workers. Each
peer that was handed over was taken by one worker, in order, or is still on the queue. -/
theorem run_capacity (hrun : Run others c (fresh c.settings store) h m) :
    m.permits + m.selector.held + m.queue.length + m.running = max c.settings.workers 1 ∧
      m.queue.length + m.running ≤ max c.settings.workers 1 ∧
      m.queue.length ≤ max c.settings.workers 1 ∧
      (∀ p rest, m.selector = .marked p rest → ∃ m', m.step c .send = some m') ∧
      m.jobs.Nodup ∧ (∀ id ∈ m.jobs, id ∈ m.inFlight) ∧
      m.inFlight.Nodup ∧ m.inFlight.length ≤ max c.settings.workers 1 ∧
      h.sent = h.received.map Prod.snd ++ m.queue := by
  have hm := balanced_run hrun
  have permits : m.permits + m.selector.held + m.queue.length + m.running =
      max c.settings.workers 1 := hm.permits
  have nodup := (List.nodup_append.1 hm.nodup).1
  have inside := (List.sublist_append_right (m.selector.marking.map Peer.id) m.jobs)
  refine ⟨permits, by omega, by omega, fun p rest hs => exists_send hm hs,
    (hm.inFlight.nodup_iff.1 nodup).sublist inside,
    fun id hid => hm.inFlight.mem_iff.2 (inside.subset hid), nodup, ?_, sent_eq_run hrun⟩
  have marking := length_marking_le m.selector
  have ids := length_ids_le m.workers
  rw [hm.inFlight.length_eq]
  simp only [jobs, running, List.length_append, List.length_map] at permits ⊢
  omega

/-- The only permit is held for the only peer, which is in flight and has room on the queue. -/
theorem run_capacity_marked :
    Run (fun _ _ => True) Solo.context Solo.start Solo.marked.1 Solo.marked.2 ∧
      Solo.marked.2.selector.held = 1 ∧ Solo.marked.2.permits = 0 ∧
      (∃ m', Solo.marked.2.step Solo.context .send = some m') ∧
      Solo.marked.2.inFlight.length ≤ max Solo.context.settings.workers 1 := by
  have hrun := Solo.run_marked fun _ _ => True
  obtain ⟨-, -, -, hsend, -, -, -, hflight, -⟩ := run_capacity hrun
  exact ⟨hrun, rfl, rfl, hsend Solo.peer [] rfl, hflight⟩

end PeerCensus.Keeper
