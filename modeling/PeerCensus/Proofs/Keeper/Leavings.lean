import PeerCensus.Proofs.Keeper.Capacity
import PeerCensus.Proofs.Keeper.Selection

/-!
# What a run leaves

A run is over when the selector and all workers have stopped. Nobody holds a permit then, but there
may be peers on the queue: a selector that has a permit puts its peer there even if all workers have
left. The permits of such peers are free again once the run is over. The peers stay in flight, the
next run begins with them, and neither it nor any run after it selects them.

Peers that are in flight from the beginning are as if each was held by one more worker, which never
moves on, so that the balance of permits and peers in flight is that of a larger keeper.

Results:
* `balanced_carrying`: a run is in balance with the peers that were left to it.
* `returned_of_isStopped`: the permits are all free after a run, and the peers in flight are those that
  were left before and those on the queue.
* `returned_iff`: when the keeper is as before its first run, and which peers the next run can select.
* `peer_left_in_flight`: a run that leaves its only peer in flight for good.
-/

namespace PeerCensus.Keeper

open Machine

/-! ## Peers that were left -/

/-- The keeper at the beginning of one of its runs: of the first, or of another one after a run that is
over. Between runs the store may be changed. -/
inductive Begins (others : PeerStore → PeerStore → Prop) (c : Context) : Machine → Prop
  | first (store : PeerStore) : Begins others c (fresh c.settings store)
  | again {start m : Machine} {h : History} (store : PeerStore) : Begins others c start →
    Run others c start h m → m.isStopped = true →
    Begins others c ({ m with store }.restarted c.settings)

/-- The machine with one more worker at each of the peers `lost`. -/
def Machine.carrying (lost : List PeerId) (m : Machine) : Machine :=
  { m with workers := m.workers ++ lost.map .settled }

/-- The keeper with as many workers more. -/
def Context.carrying (lost : List PeerId) (c : Context) : Context :=
  { c with settings := { c.settings with workers := c.settings.capacity + lost.length } }

variable {c : Context} {m m' start : Machine} {lost : List PeerId}

theorem capacity_carrying (lost : List PeerId) (c : Context) :
    (c.carrying lost).settings.capacity = c.settings.capacity + lost.length := by
  have := capacity_pos c.settings
  show max (c.settings.capacity + lost.length) 1 = _
  omega

theorem getElem?_carrying {i : Nat} {w : Worker} (hw : m.workers[i]? = some w) :
    (m.carrying lost).workers[i]? = some w := by
  obtain ⟨hi, -⟩ := List.getElem?_eq_some_iff.1 hw
  exact (List.getElem?_append_left hi).trans hw

theorem set_carrying {i : Nat} {w : Worker} (hw : m.workers[i]? = some w) (w' : Worker) :
    (m.carrying lost).workers.set i w' = m.workers.set i w' ++ lost.map .settled := by
  obtain ⟨hi, -⟩ := List.getElem?_eq_some_iff.1 hw
  exact List.set_append_left i w' hi

/-- More workers are in nobody's way. -/
theorem makes_carrying {a : Action} (lost : List PeerId) (h : Makes c m a m') :
    Makes (c.carrying lost) (m.carrying lost) a (m'.carrying lost) := by
  cases h with
  | create p => exact .create p
  | outage down => exact .outage down
  | shutDown => exact .shutDown
  | report hs => exact .report hs
  | begin hs => exact .begin hs
  | count hs => exact .count hs
  | list hs hlist => exact .list hs hlist
  | listRefused hs hlist => exact .listRefused hs hlist
  | choose hs => exact .choose hs
  | acquire hs hfree => exact .acquire hs hfree
  | mark hs => exact .mark hs
  | send hs hroom =>
    refine .send hs ?_
    rw [capacity_carrying]
    exact Nat.lt_add_right _ hroom
  | finish hs => exact .finish hs
  | abandon hs hd => exact .abandon hs hd
  | close hs hd => exact .close hs hd
  | receive hw hq =>
    have moved : Makes (c.carrying lost) (m.carrying lost) _ _ :=
      .receive (getElem?_carrying hw) hq
    rw [set_carrying hw] at moved
    exact moved
  | @settle _ now _ _ hw hgiven =>
    have moved : Makes (c.carrying lost) (m.carrying lost) (.settle _ now _) _ :=
      .settle (getElem?_carrying hw) hgiven
    rw [set_carrying hw] at moved
    exact moved
  | leave hw =>
    have moved : Makes (c.carrying lost) (m.carrying lost) _ _ := .leave (getElem?_carrying hw)
    rw [set_carrying hw] at moved
    exact moved
  | release hw =>
    have moved : Makes (c.carrying lost) (m.carrying lost) _ _ := .release (getElem?_carrying hw)
    rw [set_carrying hw] at moved
    exact moved
  | retire hw =>
    have moved : Makes (c.carrying lost) (m.carrying lost) _ _ := .retire (getElem?_carrying hw)
    rw [set_carrying hw] at moved
    exact moved

theorem putBack_carrying (lost : List PeerId) (h : m.putBack = some m') :
    (m.carrying lost).putBack = some (m'.carrying lost) := by
  rw [putBack.eq_def] at h ⊢
  split at h
  · rename_i hs
    cases h
    simp only [Machine.carrying, hs]
  · cases h

/-! ## The balance of a run -/

theorem flatMap_ids_settled (lost : List PeerId) :
    (lost.map Worker.settled).flatMap Worker.ids = lost := by
  induction lost with
  | nil => rfl
  | cons id lost ih =>
    rw [List.map_cons, List.flatMap_cons, ih]
    rfl

theorem jobs_carrying (lost : List PeerId) (m : Machine) :
    (m.carrying lost).jobs = m.jobs ++ lost := by
  unfold jobs Machine.carrying
  rw [List.flatMap_append, flatMap_ids_settled, List.append_assoc]

theorem running_carrying (lost : List PeerId) (m : Machine) :
    (m.carrying lost).running = m.running + lost.length := by
  have held : (lost.map Worker.settled).countP Worker.holds = lost.length := by
    rw [List.countP_map]
    exact List.countP_eq_length.2 fun _ _ => rfl
  unfold running Machine.carrying
  rw [List.countP_append, held]

/-- A run begins in balance with the peers that were left to it. -/
theorem balanced_opening (store : PeerStore) (hlost : lost.Nodup) :
    Balanced (c.carrying lost).settings ((opening c.settings store lost).carrying lost) := by
  have fresh := balanced_fresh c.settings store
  refine ⟨?_, ?_, ?_, nofun⟩
  · rw [capacity_carrying, running_carrying, ← fresh.permits]
    exact (Nat.add_assoc ..).symm
  · rw [jobs_carrying]
    have none : (Machine.fresh c.settings store).jobs = [] := by
      simpa [Machine.fresh, Selector.marking] using fresh.inFlight
    show lost.Perm ([] ++ ((Machine.fresh c.settings store).jobs ++ lost))
    rw [none]
    exact List.Perm.refl _
  · show (lost ++ []).Nodup
    rwa [List.append_nil]

variable {others : PeerStore → PeerStore → Prop} {store : PeerStore} {h : History}

/-- A run is in balance with the peers that were left to it. -/
theorem balanced_carrying (hlost : lost.Nodup)
    (hrun : Run others c (opening c.settings store lost) h m) :
    Balanced (c.carrying lost).settings (m.carrying lost) := by
  induction hrun with
  | start => exact balanced_opening store hlost
  | step _ hstep ih => exact balanced_makes ih (makes_carrying lost (makes_of_step hstep))
  | write _ _ ih => exact ⟨ih.permits, ih.inFlight, ih.nodup, ih.listed⟩
  | putBack _ hput ih => exact balanced_putBack ih (putBack_carrying lost hput)

/-- In a run to which the peers `lost` were left, all permits are free or held, and the peers in flight
are these and those that the run itself is at work on. -/
theorem balance_of_run (hlost : lost.Nodup)
    (hrun : Run others c (opening c.settings store lost) h m) :
    m.permits + m.selector.held + m.queue.length + m.running = c.settings.capacity ∧
      m.inFlight.Perm (m.selector.marking.map Peer.id ++ m.jobs ++ lost) ∧ m.inFlight.Nodup := by
  have ⟨permits, inFlight, nodup, _⟩ := balanced_carrying hlost hrun
  rw [capacity_carrying, running_carrying] at permits
  rw [jobs_carrying, ← List.append_assoc] at inFlight
  refine ⟨?_, inFlight, (List.nodup_append.1 nodup).1⟩
  have : m.permits + m.selector.held + m.queue.length + (m.running + lost.length) =
    c.settings.capacity + lost.length := permits
  omega

/-- What was left in flight is never handed over. -/
theorem not_mem_lost_of_sent (hlost : lost.Nodup)
    (hrun : Run others c (opening c.settings store lost) h m) : ∀ p ∈ h.sent, p.id ∉ lost := by
  induction hrun with
  | start =>
    intro p hp
    exact absurd hp List.not_mem_nil
  | @step h m m' a hrun hstep ih =>
    cases makes_of_step hstep with
    | @send p rest hs hroom =>
      obtain ⟨-, inFlight, nodup⟩ := balance_of_run hlost hrun
      have once := inFlight.nodup_iff.1 nodup
      simp only [hs, Selector.marking, List.map_cons, List.map_nil, List.cons_append,
        List.nil_append] at once
      have apart : p.id ∉ lost := fun hp =>
        (List.nodup_cons.1 once).1 (List.mem_append_right _ hp)
      simp only [History.after, hs, List.forall_mem_append, List.forall_mem_singleton]
      exact ⟨ih, apart⟩
    | choose hs =>
      simp only [History.after, hs, History.chose]
      exact ih
    | receive hw hq =>
      simp only [History.after, hq]
      exact ih
    | settle hw =>
      simp only [History.after, hw]
      split <;> exact ih
    | _ => exact ih
  | write _ _ ih => exact ih
  | putBack _ _ ih => exact ih

/-! ## The end of a run -/

/-- The permits are all free after a run, and the peers in flight are those that were left before and
those on the queue. -/
theorem returned_of_isStopped (hlost : lost.Nodup)
    (hrun : Run others c (opening c.settings store lost) h m) (hstop : m.isStopped = true) :
    m.returned.permits = c.settings.capacity ∧
      m.returned.inFlight.Perm (m.queue.map Peer.id ++ lost) ∧ m.returned.inFlight.Nodup := by
  obtain ⟨permits, inFlight, nodup⟩ := balance_of_run hlost hrun
  simp only [isStopped, Bool.and_eq_true, decide_eq_true_eq, List.all_eq_true] at hstop
  obtain ⟨hselector, hworkers⟩ := hstop
  have free : m.running = 0 := by
    refine List.countP_eq_zero.2 fun w hw => ?_
    rw [hworkers w hw]
    decide
  have gone : m.workers.flatMap Worker.ids = [] := by
    refine List.flatMap_eq_nil_iff.2 fun w hw => ?_
    rw [hworkers w hw]
    rfl
  rw [hselector, free] at permits
  rw [hselector, jobs, gone] at inFlight
  refine ⟨?_, ?_, nodup⟩
  · show m.permits + m.queue.length = _
    simpa [Selector.held] using permits
  · show m.inFlight.Perm _
    simpa [Selector.marking] using inFlight

/-- The next run begins with what is left. -/
theorem restarted_of_isStopped (hlost : lost.Nodup)
    (hrun : Run others c (opening c.settings store lost) h m) (hstop : m.isStopped = true)
    (store' : PeerStore) :
    { m with store := store' }.restarted c.settings =
      opening c.settings store' m.returned.inFlight := by
  obtain ⟨permits, -⟩ := returned_of_isStopped hlost hrun hstop
  have permits : m.permits + m.queue.length = c.settings.capacity := permits
  simp only [restarted, returned, opening, fresh, permits]

/-- Every run begins as a first one does, but for the peers that were left in flight. -/
theorem exists_opening (hstart : Begins others c start) :
    start.inFlight.Nodup ∧ ∃ store, start = opening c.settings store start.inFlight := by
  induction hstart with
  | first store => exact ⟨List.nodup_nil, store, rfl⟩
  | again store _ hrun hstop ih =>
    obtain ⟨hlost, store₀, hopening⟩ := ih
    rw [hopening] at hrun
    obtain ⟨-, -, nodup⟩ := returned_of_isStopped hlost hrun hstop
    rw [restarted_of_isStopped hlost hrun hstop store]
    exact ⟨nodup, store, rfl⟩

/-- The permits are all free after a run. No peer is in flight then exactly if none was left before it
and none is on the queue, and in this case the next run begins like the first one. What was left before
is still in flight. The next run, over whatever store, can hand over exactly those stale peers that are
not. -/
theorem returned_iff (hstart : Begins others c start) (hrun : Run others c start h m)
    (hstop : m.isStopped = true) :
    m.returned.permits = c.settings.capacity ∧
      (m.returned.inFlight = [] ↔ start.inFlight = [] ∧ m.queue = []) ∧
      (m.returned.inFlight = [] → ∀ store,
        { m with store }.restarted c.settings = fresh c.settings store) ∧
      start.inFlight ⊆ m.returned.inFlight ∧
      ∀ (store : PeerStore) (now : Nat) (p : Peer), store.down = [] →
        store.registry.find? p.id = some p → p.lastUpdated < now - c.settings.staleAfter →
        ((∃ h' m', Run others c ({ m with store }.restarted c.settings) h' m' ∧ p ∈ h'.sent) ↔
          p.id ∉ m.returned.inFlight) := by
  obtain ⟨hlost, store, hopening⟩ := exists_opening hstart
  rw [hopening] at hrun
  obtain ⟨permits, inFlight, nodup⟩ := returned_of_isStopped hlost hrun hstop
  have next := restarted_of_isStopped hlost hrun hstop
  refine ⟨permits, ?_, ?_, ?_, ?_⟩
  · constructor
    · intro hnone
      rw [hnone] at inFlight
      have := List.append_eq_nil_iff.1 inFlight.nil_eq.symm
      exact ⟨this.2, List.map_eq_nil_iff.1 this.1⟩
    · rintro ⟨hstart, hqueue⟩
      rw [hstart, hqueue] at inFlight
      exact inFlight.eq_nil
  · intro hnone store
    rw [next store, hnone]
    rfl
  · intro id hid
    exact inFlight.mem_iff.2 (List.mem_append_right _ hid)
  · intro store now p hup hstored hstale
    rw [next store]
    constructor
    · rintro ⟨h', m', hrun', hsent⟩
      exact not_mem_lost_of_sent nodup hrun' p hsent
    · intro hfree
      exact exists_sent others hup ⟨hstored, hstale, hfree⟩

namespace Solo

/-- The only worker leaves, and then the peer is put on the queue. -/
def leftOver : History × Machine :=
  performing context marked [.shutDown, .retire 0, .send, .finish, .close]

/-- The only worker takes the peer and gives it up because of the shutdown. -/
def givenUp : History × Machine :=
  performing context marked
    [.send, .receive 0, .shutDown, .settle 0 100 .cancelled, .leave 0, .release 0, .retire 0, .finish,
      .close]

end Solo

/-- A run after which the keeper is as before it, though it was told to stop while a peer was tried. A
later run can hand that peer over. -/
theorem returned_iff_givenUp :
    Begins (fun _ _ => False) Solo.context Solo.start ∧
      Run (fun _ _ => False) Solo.context Solo.start Solo.givenUp.1 Solo.givenUp.2 ∧
      Solo.givenUp.2.isStopped = true ∧
      Solo.givenUp.2.returned.permits = 1 ∧ Solo.givenUp.2.returned.inFlight = [] ∧
      ∃ h m, Run (fun _ _ => False) Solo.context
          ({ Solo.givenUp.2 with store := .ofRegistry (.ofList [Solo.peer]) }.restarted
            Solo.context.settings) h m ∧ Solo.peer ∈ h.sent := by
  have hrun : Run (fun _ _ => False) Solo.context Solo.start Solo.givenUp.1 Solo.givenUp.2 :=
    Run.performing (Solo.run_marked _) _
  have hstart : Begins (fun _ _ => False) Solo.context Solo.start := .first _
  obtain ⟨permits, hiff, -, -, hselect⟩ := returned_iff hstart hrun rfl
  have hnone := hiff.2 ⟨rfl, rfl⟩
  refine ⟨hstart, hrun, rfl, permits, hnone, ?_⟩
  refine (hselect (.ofRegistry (.ofList [Solo.peer])) 100 Solo.peer rfl rfl (by decide)).2 ?_
  rw [hnone]
  exact List.not_mem_nil

/-- A run that leaves its only peer in flight: the worker has gone before the peer is put on the queue.
The next run never hands the peer over, whatever is stored. -/
theorem peer_left_in_flight :
    Run (fun _ _ => False) Solo.context Solo.start Solo.leftOver.1 Solo.leftOver.2 ∧
      Solo.leftOver.2.isStopped = true ∧ Solo.leftOver.2.returned.permits = 1 ∧
      Solo.leftOver.2.returned.inFlight = [Solo.peer.id] ∧
      ∀ store h m,
        Run (fun _ _ => False) Solo.context
          ({ Solo.leftOver.2 with store }.restarted Solo.context.settings) h m →
        Solo.peer.id ∉ h.sent.map Peer.id := by
  have hrun : Run (fun _ _ => False) Solo.context Solo.start Solo.leftOver.1 Solo.leftOver.2 :=
    Run.performing (Solo.run_marked _) _
  refine ⟨hrun, rfl, rfl, rfl, fun store h m hlater hmem => ?_⟩
  obtain ⟨p, hp, hid⟩ := List.mem_map.1 hmem
  rw [restarted_of_isStopped List.nodup_nil hrun rfl store] at hlater
  refine not_mem_lost_of_sent (List.nodup_singleton _) hlater p hp ?_
  rw [hid]
  exact List.mem_singleton.2 rfl

end PeerCensus.Keeper
