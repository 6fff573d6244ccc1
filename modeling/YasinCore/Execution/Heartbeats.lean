import YasinCore.Library.Transition
import YasinCore.Execution.Absorption

namespace YasinCore.Execution

open YasinCore.Library

-- What a sweep makes of the status of a node that sent its last heartbeat at a time.
def sweptStatus (timeout now : Time) (status : WorkerState) (lastHeartbeat : Time) : WorkerState :=
  if status = .active ∧ timeout ≤ now - lastHeartbeat then .suspended
  else if status = .suspended ∧ timeout * 2 ≤ now - lastHeartbeat then .offline
  else status

-- The status of the node with the id and the time of its last heartbeat.
def State.vitals (s : State) (workerId : WorkerId) : Option (WorkerState × Time) :=
  (s.workers.get? workerId).map fun node => (node.status, node.lastHeartbeat)

section Sweep

variable {s : State} {now : Time} {workerId other : WorkerId}

variable {node : WorkerNode}

theorem vitals_of_get? (h : s.workers.get? workerId = some node) :
    s.vitals workerId = some (node.status, node.lastHeartbeat) := by
  rw [State.vitals, h]
  rfl

theorem vitals_congr {t : State} (h : t.workers.get? other = s.workers.get? other) :
    t.vitals other = s.vitals other := by
  rw [State.vitals, h]
  rfl

theorem setNode_vitals_self : (s.setNode workerId node).vitals workerId =
    some (node.status, node.lastHeartbeat) := vitals_of_get? (Dict.get?_set_self ..)

theorem recoverWorkerJobs_vitals_self : (s.recoverWorkerJobs workerId node).vitals workerId =
    some (node.status, node.lastHeartbeat) := by
  have hnode : (s.recoverWorkerJobs workerId node).workers.get? workerId = some node.drain := by
    rw [State.recoverWorkerJobs, State.requeueAll_workers]
    exact Dict.get?_set_self ..
  rw [State.vitals, hnode]
  rfl

-- A node's turn settles its own status, and nobody else's.
theorem monitorWorker_vitals_self (h : s.workers.get? workerId = some node) :
    (State.monitorWorker now s workerId).vitals workerId =
      some (sweptStatus s.heartbeatTimeout now node.status node.lastHeartbeat, node.lastHeartbeat) := by
  have hsame := vitals_of_get? h
  unfold State.monitorWorker sweptStatus
  simp only [h, ge_iff_le]
  by_cases ha : node.status = .active
  · by_cases ht : s.heartbeatTimeout ≤ now - node.lastHeartbeat
    · simp only [ha, ht, if_true, and_self]
      exact setNode_vitals_self
    · simp only [ha, ht, if_true, if_false, and_false, reduceCtorEq, false_and]
      exact ha ▸ hsame
  · by_cases hs : node.status = .suspended
    · by_cases ht : s.heartbeatTimeout * 2 ≤ now - node.lastHeartbeat
      · simp only [hs, ht, reduceCtorEq, if_true, if_false, false_and, and_self]
        exact recoverWorkerJobs_vitals_self
      · simp only [hs, ht, reduceCtorEq, if_true, if_false, and_false, false_and]
        exact hs ▸ hsame
    · simp only [ha, hs, if_false, false_and]
      exact hsame

theorem sweep_frame {workerIds : List WorkerId} (h : other ∉ workerIds) :
    (workerIds.foldl (State.monitorWorker now) s).workers.get? other = s.workers.get? other := by
  induction workerIds generalizing s with
  | nil => rfl
  | cons workerId rest ih =>
      obtain ⟨hne, hrest⟩ := not_or.mp (List.mem_cons.not.mp h)
      rw [List.foldl_cons, ih hrest, monitorWorker_frame now hne]

-- One turn for each of the nodes, in any order.
theorem sweep_vitals {workerIds : List WorkerId} (hn : workerIds.Nodup) (hm : other ∈ workerIds)
    (h : s.workers.get? other = some node) : (workerIds.foldl (State.monitorWorker now) s).vitals other =
      some (sweptStatus s.heartbeatTimeout now node.status node.lastHeartbeat, node.lastHeartbeat) := by
  induction workerIds generalizing s with
  | nil => cases hm
  | cons workerId rest ih =>
      obtain ⟨hnot, hrest⟩ := List.nodup_cons.mp hn
      rw [List.foldl_cons]
      by_cases he : other = workerId
      · subst he
        exact (vitals_congr (sweep_frame hnot)).trans (monitorWorker_vitals_self h)
      · have hframe := monitorWorker_frame (s := s) now he
        have hlater := ih hrest ((List.mem_cons.mp hm).resolve_left he) (hframe.trans h)
        rw [hlater, monitorWorker_timeout]

theorem monitorWorkers_vitals : (s.monitorWorkers now).vitals other = (s.vitals other).map fun found =>
    (sweptStatus s.heartbeatTimeout now found.1 found.2, found.2) := by
  cases h : s.workers.get? other with
  | some node =>
      have hm : other ∈ s.workers.keys := (Dict.mem_keys_iff _ _).mpr ⟨node, h⟩
      rw [vitals_of_get? h]
      exact sweep_vitals s.workers.nodup hm h
  | none =>
      have hm : other ∉ s.workers.keys := by
        rw [Dict.mem_keys_iff, h]
        simp
      have hframe : (s.monitorWorkers now).workers.get? other = s.workers.get? other := sweep_frame hm
      rw [vitals_congr hframe, State.vitals, h]
      rfl

theorem monitorWorkers_timeout : (s.monitorWorkers now).heartbeatTimeout = s.heartbeatTimeout := by
  unfold State.monitorWorkers
  generalize s.workers.keys = workerIds
  induction workerIds generalizing s with
  | nil => rfl
  | cons workerId rest ih => rw [List.foldl_cons, ih, monitorWorker_timeout]

end Sweep

-- The manager at a time, and the latest heartbeat that each node has sent since its registration.
structure Roster where
  state : State
  clock : Time
  beats : Dict WorkerId Time

inductive RosterAction
  | registerWorker (workerId : WorkerId) (name : String) (capabilities : List String)
      (health : Dict String String) (now : Time)
  | sendHeartbeat (workerId : WorkerId) (health : Dict String String) (now : Time)
  | monitorWorkers (now : Time)

def RosterAction.time : RosterAction → Time
  | .registerWorker _ _ _ _ now | .sendHeartbeat _ _ now | .monitorWorkers now => now

namespace Roster

def register (r : Roster) (workerId : WorkerId) (name : String) (capabilities : List String)
    (health : Dict String String) (now : Time) : Roster where
  state := r.state.registerWorker workerId name capabilities health now
  clock := now
  beats := r.beats.erase workerId

def beat (r : Roster) (workerId : WorkerId) (health : Dict String String) (now : Time) : Roster where
  state := (r.state.sendHeartbeat workerId health now).2
  clock := now
  beats := if (r.state.sendHeartbeat workerId health now).1 then r.beats.set workerId now else r.beats

def monitor (r : Roster) (now : Time) : Roster where
  state := r.state.monitorWorkers now
  clock := now
  beats := r.beats

def after (r : Roster) : RosterAction → Roster
  | .registerWorker workerId name capabilities health now =>
      r.register workerId name capabilities health now
  | .sendHeartbeat workerId health now => r.beat workerId health now
  | .monitorWorkers now => r.monitor now

-- The times do not decrease.
def step (r : Roster) (act : RosterAction) : Option Roster :=
  if r.clock ≤ act.time then some (r.after act) else none

-- A manager without nodes.
def start (s : State) (clock : Time) : Roster := ⟨{ s with workers := .empty }, clock, .empty⟩

-- The node is found for what it can do, and it is given the jobs it is assigned.
structure Schedulable (s : State) (workerId : WorkerId) (node : WorkerNode) : Prop where
  active : node.status = .active
  discovered : ∀ capability ∈ node.capabilities, node ∈ s.discoverWorkers capability
  assigned : ∀ jobId ∈ s.jobs, (s.assignJob jobId workerId).1 = true

-- Whoever has sent a heartbeat less than the timeout ago can be given jobs.
def FreshSchedulable (r : Roster) : Prop :=
  ∀ workerId node time, r.state.workers.get? workerId = some node → r.beats.get? workerId = some time →
    r.clock - time < r.state.heartbeatTimeout → Schedulable r.state workerId node

-- The heartbeat does not come from a node that a sweep has suspended.
def Timely (r : Roster) : RosterAction → Prop
  | .sendHeartbeat workerId _ _ =>
      ∀ node, r.state.workers.get? workerId = some node → node.status ≠ .suspended
  | _ => True

section Steps

variable {r t : Roster} {workerId other : WorkerId} {now last : Time} {status : WorkerState}

theorem schedulable_iff {s : State} {node : WorkerNode} (h : s.workers.get? workerId = some node) :
    Schedulable s workerId node ↔ node.status = .active := by
  refine ⟨Schedulable.active, fun ha => ⟨ha, fun capability hc => ?_, fun jobId hj => ?_⟩⟩
  · have hlisted : node ∈ s.listWorkers (some .active) :=
      List.mem_filter.mpr ⟨(Dict.mem_values_iff _ _).mpr ⟨workerId, h⟩, by simpa using ha⟩
    exact List.mem_filter.mpr ⟨hlisted, by simpa using hc⟩
  · obtain ⟨ref, href⟩ := (Dict.mem_iff _ _).mp hj
    have hjob : s.getJob jobId = some ref := href
    simp only [State.assignJob, h, ha, ne_eq, not_true_eq_false, if_false, hjob]

theorem freshSchedulable_iff : r.FreshSchedulable ↔ ∀ workerId status last time,
    r.state.vitals workerId = some (status, last) → r.beats.get? workerId = some time →
      r.clock - time < r.state.heartbeatTimeout → status = .active := by
  constructor
  · intro h workerId status last time hv hb ht
    obtain ⟨node, hnode, he⟩ := Option.map_eq_some_iff.mp hv
    obtain ⟨rfl, -⟩ := Prod.mk.inj he
    exact (h workerId node time hnode hb ht).active
  · intro h workerId node time hnode hb ht
    exact (schedulable_iff hnode).mpr (h workerId _ _ time (vitals_of_get? hnode) hb ht)

theorem register_vitals (name : String) (capabilities : List String) (health : Dict String String) :
    (r.register workerId name capabilities health now).state.vitals other =
      if other = workerId then some (.registered, now) else r.state.vitals other := by
  split
  · next he =>
      subst he
      exact setNode_vitals_self
  · next hne => exact vitals_congr (Dict.get?_set_of_ne _ _ hne)

-- The status of a node after its heartbeat.
def woken (status : WorkerState) : WorkerState :=
  if status = .registered ∨ status = .offline then .active else status

theorem beat_vitals (health : Dict String String) :
    (r.beat workerId health now).state.vitals other =
      if other = workerId then (r.state.vitals other).map fun found => (woken found.1, now)
      else r.state.vitals other := by
  have hframe : other ≠ workerId → (r.beat workerId health now).state.vitals other =
      r.state.vitals other := by
    intro hne
    cases h : r.state.workers.get? workerId with
    | none => rw [beat, State.sendHeartbeat, h]
    | some node =>
        rw [beat, State.sendHeartbeat, h]
        exact vitals_congr (Dict.get?_set_of_ne _ _ hne)
  by_cases he : other = workerId
  · subst he
    rw [if_pos rfl]
    cases h : r.state.workers.get? other with
    | none =>
        have hnone : r.state.vitals other = none := by
          rw [State.vitals, h]
          rfl
        have hsame : (r.beat other health now).state.vitals other = r.state.vitals other := by
          rw [beat, State.sendHeartbeat, h]
        rw [hsame, hnone]
        rfl
    | some node =>
        rw [vitals_of_get? h, beat, State.sendHeartbeat, h]
        exact setNode_vitals_self
  · rw [if_neg he, hframe he]

theorem beat_beats (health : Dict String String)
    (h : r.state.vitals workerId = some (status, last)) :
    (r.beat workerId health now).beats = r.beats.set workerId now := by
  obtain ⟨node, hnode, -⟩ := Option.map_eq_some_iff.mp h
  have haccepted : (r.state.sendHeartbeat workerId health now).1 = true := by
    rw [State.sendHeartbeat, hnode]
  exact if_pos haccepted

theorem beat_beats_of_ne (health : Dict String String) (h : other ≠ workerId) :
    (r.beat workerId health now).beats.get? other = r.beats.get? other := by
  unfold beat
  split
  · exact Dict.get?_set_of_ne _ _ h
  · rfl

theorem beat_timeout (health : Dict String String) :
    (r.beat workerId health now).state.heartbeatTimeout = r.state.heartbeatTimeout := by
  rw [beat, State.sendHeartbeat]
  cases r.state.workers.get? workerId with
  | none => rfl
  | some node => rfl

-- What the heartbeats that were sent say about the nodes.
structure Tracked (r : Roster) : Prop where
  timeout : 0 < r.state.heartbeatTimeout
  heard : ∀ workerId status last time, r.state.vitals workerId = some (status, last) →
    r.beats.get? workerId = some time →
      last = time ∧ (status = .active ∨ status = .suspended ∨ status = .offline)
  silent : ∀ workerId status last, r.state.vitals workerId = some (status, last) →
    r.beats.get? workerId = none → status = .registered

theorem register_tracked (h : r.Tracked) (name : String) (capabilities : List String)
    (health : Dict String String) : (r.register workerId name capabilities health now).Tracked where
  timeout := h.timeout
  heard := by
    intro id status last time hv hb
    rw [register_vitals] at hv
    rw [register, Dict.get?_erase] at hb
    split at hb
    · cases hb
    · next hne =>
        rw [if_neg hne] at hv
        exact h.heard id status last time hv hb
  silent := by
    intro id status last hv hb
    rw [register_vitals] at hv
    split at hv
    · exact (Prod.mk.inj (Option.some.inj hv)).1.symm
    · next hne =>
        rw [register, Dict.get?_erase_of_ne _ hne] at hb
        exact h.silent id status last hv hb

theorem woken_active (h : status = .registered ∨ status = .active ∨
    status = .suspended ∨ status = .offline) : woken status = .active ↔ status ≠ .suspended := by
  rcases h with rfl | rfl | rfl | rfl <;> decide

-- The states in which a node can be.
theorem Tracked.states (h : r.Tracked)
    (hv : r.state.vitals workerId = some (status, last)) : status = .registered ∨ status = .active ∨
      status = .suspended ∨ status = .offline := by
  cases hb : r.beats.get? workerId with
  | none => exact .inl (h.silent workerId status last hv hb)
  | some time => exact .inr (h.heard workerId status last time hv hb).2

theorem beat_tracked (h : r.Tracked) (health : Dict String String) :
    (r.beat workerId health now).Tracked := by
  refine ⟨(beat_timeout (r := r) health) ▸ h.timeout, fun id status last time hv hb => ?_,
    fun id status last hv hb => ?_⟩
  · rw [beat_vitals] at hv
    split at hv
    · next he =>
        subst he
        obtain ⟨⟨old, before⟩, hold, hnew⟩ := Option.map_eq_some_iff.mp hv
        obtain ⟨rfl, rfl⟩ := Prod.mk.inj hnew
        rw [beat_beats health hold, Dict.get?_set_self] at hb
        refine ⟨Option.some.inj hb, ?_⟩
        rcases h.states hold with rfl | rfl | rfl | rfl <;> simp [woken]
    · next hne => exact h.heard id status last time hv (beat_beats_of_ne health hne ▸ hb)
  · rw [beat_vitals] at hv
    split at hv
    · next he =>
        subst he
        obtain ⟨⟨old, before⟩, hold, -⟩ := Option.map_eq_some_iff.mp hv
        rw [beat_beats health hold, Dict.get?_set_self] at hb
        cases hb
    · next hne => exact h.silent id status last hv (beat_beats_of_ne health hne ▸ hb)

theorem monitor_vitals (h : (r.monitor now).state.vitals other = some (status, last)) :
    ∃ old, r.state.vitals other = some (old, last) ∧
      status = sweptStatus r.state.heartbeatTimeout now old last := by
  rw [monitor, monitorWorkers_vitals] at h
  obtain ⟨⟨old, before⟩, hold, hnew⟩ := Option.map_eq_some_iff.mp h
  obtain ⟨rfl, rfl⟩ := Prod.mk.inj hnew
  exact ⟨old, hold, rfl⟩

-- A sweep leads from ACTIVE to SUSPENDED and from SUSPENDED to OFFLINE.
theorem sweptStatus_cases (timeout now : Time) (status : WorkerState) (last : Time) :
    sweptStatus timeout now status last = status ∨
      (status = .active ∧ sweptStatus timeout now status last = .suspended) ∨
      (status = .suspended ∧ sweptStatus timeout now status last = .offline) := by
  unfold sweptStatus
  split
  · next ha => exact .inr (.inl ⟨ha.1, rfl⟩)
  · split
    · next hs => exact .inr (.inr ⟨hs.1, rfl⟩)
    · exact .inl rfl

theorem monitor_tracked (h : r.Tracked) : (r.monitor now).Tracked := by
  refine ⟨monitorWorkers_timeout (s := r.state) ▸ h.timeout, fun id status last time hv hb => ?_,
    fun id status last hv hb => ?_⟩
  · obtain ⟨old, hold, rfl⟩ := monitor_vitals hv
    obtain ⟨htime, hstatus⟩ := h.heard id old last time hold hb
    refine ⟨htime, ?_⟩
    rcases sweptStatus_cases r.state.heartbeatTimeout now old last with he | ⟨-, he⟩ | ⟨-, he⟩
    · rw [he]
      exact hstatus
    · exact .inr (.inl he)
    · exact .inr (.inr he)
  · obtain ⟨old, hold, rfl⟩ := monitor_vitals hv
    have hstatus := h.silent id old last hold hb
    rcases sweptStatus_cases r.state.heartbeatTimeout now old last with he | ⟨ha, -⟩ | ⟨hs, -⟩
    · exact he.trans hstatus
    · rw [hstatus] at ha
      cases ha
    · rw [hstatus] at hs
      cases hs

theorem step_spec {act : RosterAction} (h : r.step act = some t) :
    r.clock ≤ act.time ∧ t = r.after act := by
  unfold step at h
  split at h
  · next hclock => exact ⟨hclock, (Option.some.inj h).symm⟩
  · cases h

theorem after_tracked (h : r.Tracked) (act : RosterAction) : (r.after act).Tracked := by
  cases act with
  | registerWorker workerId name capabilities health now =>
      exact register_tracked h name capabilities health
  | sendHeartbeat workerId health now => exact beat_tracked h health
  | monitorWorkers now => exact monitor_tracked h

-- A node that is still fresh at a later time was so before.
theorem fresh_before {time timeout : Time} (hclock : r.clock ≤ now) (h : now - time < timeout) :
    r.clock - time < timeout := lt_of_le_of_lt (sub_le_sub_right hclock time) h

theorem register_fresh (hf : r.FreshSchedulable) (hclock : r.clock ≤ now) (name : String)
    (capabilities : List String) (health : Dict String String) :
    (r.register workerId name capabilities health now).FreshSchedulable := by
  rw [freshSchedulable_iff] at hf ⊢
  intro id status last time hv hb ht
  rw [register_vitals] at hv
  rw [register, Dict.get?_erase] at hb
  split at hb
  · cases hb
  · next hne =>
      rw [if_neg hne] at hv
      exact hf id status last time hv hb (fresh_before hclock ht)

-- A heartbeat brings a node into service unless it was suspended.
theorem beat_fresh_iff (hr : r.Tracked) (hf : r.FreshSchedulable) (hclock : r.clock ≤ now)
    (health : Dict String String) : (r.beat workerId health now).FreshSchedulable ↔
      ∀ node, r.state.workers.get? workerId = some node → node.status ≠ .suspended := by
  have htimeout : (r.beat workerId health now).state.heartbeatTimeout = r.state.heartbeatTimeout :=
    beat_timeout health
  rw [freshSchedulable_iff, htimeout]
  constructor
  · intro h node hnode
    have hold := vitals_of_get? hnode
    have hnew : (r.beat workerId health now).state.vitals workerId = some (woken node.status, now) := by
      rw [beat_vitals, if_pos rfl, hold]
      rfl
    refine (woken_active (hr.states hold)).mp (h workerId _ now now hnew ?_ ?_)
    · rw [beat_beats health hold]
      exact Dict.get?_set_self ..
    · show now - now < r.state.heartbeatTimeout
      rw [sub_self]
      exact hr.timeout
  · intro h id status last time hv hb ht
    rw [beat_vitals] at hv
    split at hv
    · next he =>
        subst he
        obtain ⟨⟨old, before⟩, hold, hnew⟩ := Option.map_eq_some_iff.mp hv
        obtain ⟨rfl, -⟩ := Prod.mk.inj hnew
        obtain ⟨node, hnode, hfound⟩ := Option.map_eq_some_iff.mp hold
        obtain ⟨rfl, -⟩ := Prod.mk.inj hfound
        exact (woken_active (hr.states hold)).mpr (h node hnode)
    · next hne =>
        rw [beat_beats_of_ne health hne] at hb
        exact freshSchedulable_iff.mp hf id status last time hv hb (fresh_before hclock ht)

theorem monitor_fresh (hr : r.Tracked) (hf : r.FreshSchedulable) (hclock : r.clock ≤ now) :
    (r.monitor now).FreshSchedulable := by
  rw [freshSchedulable_iff] at hf ⊢
  intro id status last time hv hb ht
  obtain ⟨old, hold, rfl⟩ := monitor_vitals hv
  obtain ⟨rfl, -⟩ := hr.heard id old last time hold hb
  rw [monitor, monitorWorkers_timeout] at ht
  have hactive : old = .active := hf id old last last hold hb (fresh_before hclock ht)
  have hnot : ¬r.state.heartbeatTimeout ≤ now - last := not_le.mpr ht
  simp [sweptStatus, hactive, hnot]

-- One step: what is fresh stays schedulable exactly when no heartbeat comes from a suspended node.
theorem step_fresh_iff {act : RosterAction} (hr : r.Tracked) (hf : r.FreshSchedulable)
    (h : r.step act = some t) : t.FreshSchedulable ↔ r.Timely act := by
  obtain ⟨hclock, rfl⟩ := step_spec h
  cases act with
  | registerWorker workerId name capabilities health now =>
      exact iff_of_true (register_fresh hf hclock name capabilities health) trivial
  | sendHeartbeat workerId health now => exact beat_fresh_iff hr hf hclock health
  | monitorWorkers now => exact iff_of_true (monitor_fresh hr hf hclock) trivial

theorem start_tracked {s : State} (h : 0 < s.heartbeatTimeout) (clock : Time) :
    (start s clock).Tracked where
  timeout := h
  heard := by
    intro id status last time hv
    cases hv
  silent := by
    intro id status last hv
    cases hv

theorem start_fresh (s : State) (clock : Time) : (start s clock).FreshSchedulable := by
  intro id node time hnode
  cases hnode

end Steps

-- In every run of registrations, heartbeats and sweeps: all nodes with a fresh heartbeat can be
-- given jobs at all times exactly when no heartbeat comes from a node that a sweep has suspended.
theorem fresh_schedulable_iff (s : State) (clock : Time) (h : 0 < s.heartbeatTimeout)
    (acts : List RosterAction) :
    Always Roster.step FreshSchedulable (start s clock) acts ↔
      Meets Roster.step Timely (start s clock) acts := by
  refine always_iff_meets (fun r act t hr ht => ?_) (fun r act t hr hf ht => ?_)
    (start_tracked h clock) (start_fresh s clock)
  · obtain ⟨-, rfl⟩ := step_spec ht
    exact after_tracked hr act
  · exact step_fresh_iff hr hf ht

def idleJob : Job := Job.init (.str "report") .empty "job-1" none 20 0 none none 0

def idleManager : State := State.start fun _ => idleJob

theorem idleManager_timeout : 0 < idleManager.heartbeatTimeout := by
  show (0 : Time) < 6
  decide

theorem heartbeats_without_sweeps : Always Roster.step FreshSchedulable (start idleManager 0)
    [.registerWorker "w1" "worker" [] .empty 0, .sendHeartbeat "w1" .empty 1] := by
  refine (fresh_schedulable_iff idleManager 0 idleManager_timeout _).mpr ?_
  refine fun r hr => ⟨trivial, fun t ht => ⟨?_, trivial⟩⟩
  obtain ⟨-, rfl⟩ := step_spec hr
  intro node hnode
  cases hnode
  decide

-- The heartbeat that comes after the sweep leaves the node suspended.
def lateHeartbeat : List RosterAction :=
  [.registerWorker "w1" "worker" [] .empty 0, .sendHeartbeat "w1" .empty 0, .monitorWorkers 7,
    .sendHeartbeat "w1" .empty 8]

theorem late_heartbeat_suspended : ∃ r, Run Roster.step (start idleManager 0) lateHeartbeat r ∧
    r.state.vitals "w1" = some (.suspended, 8) ∧ r.beats.get? "w1" = some 8 ∧ r.clock = 8 ∧
    ¬r.FreshSchedulable := by
  refine ⟨_, Run.of_foldlM rfl, ?_⟩
  generalize hr : Roster.after _ _ = r
  have hv : r.state.vitals "w1" = some (.suspended, 8) := by
    rw [← hr]
    decide +kernel
  have hb : r.beats.get? "w1" = some 8 := by
    rw [← hr]
    decide +kernel
  have hclock : r.clock = 8 := by
    rw [← hr]
    rfl
  have htimeout : r.state.heartbeatTimeout = 6 := by
    rw [← hr]
    decide +kernel
  refine ⟨hv, hb, hclock, fun h => ?_⟩
  have hstatus : WorkerState.suspended = .active := by
    refine freshSchedulable_iff.mp h "w1" .suspended 8 8 hv hb ?_
    rw [hclock, htimeout]
    decide +kernel
  cases hstatus

end Roster

end YasinCore.Execution
