import YasinCore.Execution.Cluster

namespace YasinCore.Execution

open YasinCore.Library

def Queued (s : State) (workerId : WorkerId) (ref : JobRef) : Prop :=
  ∃ node, s.workers.get? workerId = some node ∧ ref ∈ node.queue

def Ended (job : Job) : Prop := job.status = .completed ∨ job.status = .failed

theorem Ended.not_live {job : Job} (h : Ended job) : ¬job.status.Live := by
  rintro (hl | hl) <;> rcases h with he | he <;> rw [hl] at he <;> cases he

-- Where a routed job stands. Its retry_count is the number of failures that have been reported.
inductive Standing (c : Cluster) (jobId : JobId) (ref : JobRef) : Prop
  | waiting (workerId : WorkerId) (owner : AssignedAs c.state.workers workerId jobId ref)
      (place : Queued c.state workerId ref ∨ c.hands workerId = .fetched ref ∨
        c.hands workerId = .started ref)
      (live : (c.state.heap ref).status.Live)
      (budget : ((c.state.heap ref).retryCount : Int) ≤ (c.state.heap ref).retries)
      (record : c.outcomes ref = List.replicate (c.state.heap ref).retryCount false)
  | reporting (workerId : WorkerId) (owner : AssignedAs c.state.workers workerId jobId ref)
      (outcome : Except String String) (place : c.hands workerId = .ran ref outcome)
      (live : (c.state.heap ref).status.Live)
      (budget : ((c.state.heap ref).retryCount : Int) ≤ (c.state.heap ref).retries)
      (record : c.outcomes ref =
        List.replicate (c.state.heap ref).retryCount false ++ [succeeded outcome])
  | completed (released : ∀ workerId, ¬AssignedAs c.state.workers workerId jobId ref)
      (status : (c.state.heap ref).status = .completed)
      (budget : ((c.state.heap ref).retryCount : Int) ≤ (c.state.heap ref).retries)
      (record : c.outcomes ref = List.replicate (c.state.heap ref).retryCount false ++ [true])
  | failed (released : ∀ workerId, ¬AssignedAs c.state.workers workerId jobId ref)
      (status : (c.state.heap ref).status = .failed)
      (budget : ((c.state.heap ref).retryCount : Int) = (c.state.heap ref).retries)
      (record : c.outcomes ref = List.replicate ((c.state.heap ref).retryCount + 1) false)

def AllActive (workers : Dict WorkerId WorkerNode) : Prop :=
  ∀ workerId node, workers.get? workerId = some node → node.status = .active

structure ClusterInvariant (heap : JobRef → Job) (c : Cluster) : Prop where
  keyed : Keyed c.state
  oneWorker : OneWorker c.state
  active : AllActive c.state.workers
  filed : ∀ workerId jobId ref, AssignedAs c.state.workers workerId jobId ref →
    c.state.jobs.get? jobId = some ref
  held : ∀ workerId ref, (c.hands workerId).job? = some ref →
    AssignedAs c.state.workers workerId (c.state.heap ref).id ref ∧ ¬Queued c.state workerId ref
  terms : ∀ ref, (c.state.heap ref).retries = (heap ref).retries ∧ (c.state.heap ref).cancelled = false
  untouched : ∀ ref, c.state.jobs.get? (c.state.heap ref).id ≠ some ref →
    (c.state.heap ref).retryCount = 0 ∧ c.outcomes ref = []
  standing : ∀ jobId ref, c.state.jobs.get? jobId = some ref → Standing c jobId ref

-- A step that serves no job: nothing changes but heartbeats and logs.
structure Quiet (c d : Cluster) : Prop where
  jobs : d.state.jobs = c.state.jobs
  heap : d.state.heap = c.state.heap
  hands : d.hands = c.hands
  outcomes : d.outcomes = c.outcomes
  assigned : ∀ workerId jobId ref,
    AssignedAs d.state.workers workerId jobId ref ↔ AssignedAs c.state.workers workerId jobId ref
  queued : ∀ workerId ref, Queued d.state workerId ref ↔ Queued c.state workerId ref

-- A step that serves one job, which is registered afterwards: it leaves all other jobs alone.
structure Serves (c d : Cluster) (ref : JobRef) : Prop where
  id : (d.state.heap ref).id = (c.state.heap ref).id
  retries : (d.state.heap ref).retries = (c.state.heap ref).retries
  cancelled : (d.state.heap ref).cancelled = (c.state.heap ref).cancelled
  known : ∀ other, c.state.jobs.get? (c.state.heap ref).id = some other → other = ref
  registered : d.state.jobs.get? (c.state.heap ref).id = some ref
  jobs : ∀ jobId, jobId ≠ (c.state.heap ref).id → d.state.jobs.get? jobId = c.state.jobs.get? jobId
  heap : ∀ other, other ≠ ref → d.state.heap other = c.state.heap other
  outcomes : ∀ other, other ≠ ref → d.outcomes other = c.outcomes other
  hands : ∀ workerId, d.hands workerId = c.hands workerId ∨
    ∀ other, other ≠ ref → (c.hands workerId).job? ≠ some other ∧ (d.hands workerId).job? ≠ some other
  assigned : ∀ workerId jobId other, jobId ≠ (c.state.heap ref).id →
    (AssignedAs d.state.workers workerId jobId other ↔ AssignedAs c.state.workers workerId jobId other)
  owned : ∀ workerId other, AssignedAs d.state.workers workerId (c.state.heap ref).id other → other = ref
  queued : ∀ workerId other, other ≠ ref →
    (Queued d.state workerId other ↔ Queued c.state workerId other)
  held : ∀ workerId, (d.hands workerId).job? = some ref →
    AssignedAs d.state.workers workerId (c.state.heap ref).id ref ∧ ¬Queued d.state workerId ref
  standing : Standing d (c.state.heap ref).id ref

-- A step that keeps the views of the assignments together, and serves nobody, or one job that has
-- not ended yet.
structure Advances (c d : Cluster) : Prop where
  keyed : Keyed d.state
  oneWorker : OneWorker d.state
  active : AllActive d.state.workers
  effect : Quiet c d ∨ ∃ ref, Serves c d ref ∧
    (c.state.jobs.get? (c.state.heap ref).id = some ref → (c.state.heap ref).status.Live)

section Places

variable {s t : State} {workerId other : WorkerId} {node new : WorkerNode} {ref : JobRef} {jobId : JobId}

theorem queued_iff (hw : s.workers.get? workerId = some node) :
    Queued s workerId ref ↔ ref ∈ node.queue := by
  constructor
  · rintro ⟨found, hf, hq⟩
    exact Option.some.inj (hw.symm.trans hf) ▸ hq
  · exact fun hq => ⟨node, hw, hq⟩

-- A node whose queue has the same entries for a job is as good as the old one.
theorem queued_replace (hw : s.workers.get? workerId = some node) (new : WorkerNode)
    (ht : ∀ other, t.workers.get? other = if other = workerId then some new else s.workers.get? other)
    (hm : ref ∈ new.queue ↔ ref ∈ node.queue) : Queued t other ref ↔ Queued s other ref := by
  by_cases ho : other = workerId
  · subst ho
    have hnew : t.workers.get? other = some new := by rw [ht, if_pos rfl]
    rw [queued_iff hnew, queued_iff hw, hm]
  · unfold Queued
    rw [ht, if_neg ho]

theorem Cluster.setHand_hands (c : Cluster) (hand : WorkerHand) :
    (c.setHand workerId hand).hands other = if other = workerId then hand else c.hands other :=
  Function.update_apply ..

-- When a worker changes hands over one job, no hand lets go of or takes another.
theorem Cluster.setHand_other {c d : Cluster} {hand : WorkerHand} (hsame : d.hands = c.hands)
    (hbefore : ∀ job, (c.hands workerId).job? = some job → job = ref)
    (hafter : ∀ job, hand.job? = some job → job = ref) (other : WorkerId) :
    (d.setHand workerId hand).hands other = c.hands other ∨ ∀ job, job ≠ ref →
      (c.hands other).job? ≠ some job ∧ ((d.setHand workerId hand).hands other).job? ≠ some job := by
  rw [setHand_hands, hsame]
  by_cases ho : other = workerId
  · subst ho
    rw [if_pos rfl]
    exact .inr fun job hne => ⟨fun hc => hne (hbefore job hc), fun hc => hne (hafter job hc)⟩
  · exact .inl (if_neg ho)

end Places

section Frame

variable {heap : JobRef → Job} {c d : Cluster} {jobId : JobId} {ref other : JobRef}

-- What is said about a job stays true when its record, its places and its outcomes stay.
theorem Standing.frame (h : Standing c jobId ref) (hheap : d.state.heap ref = c.state.heap ref)
    (houtcomes : d.outcomes ref = c.outcomes ref)
    (hassigned : ∀ workerId, AssignedAs d.state.workers workerId jobId ref ↔
      AssignedAs c.state.workers workerId jobId ref)
    (hqueued : ∀ workerId, Queued d.state workerId ref ↔ Queued c.state workerId ref)
    (hhands : ∀ workerId, (c.hands workerId).job? = some ref → d.hands workerId = c.hands workerId) :
    Standing d jobId ref := by
  cases h with
  | waiting workerId owner place live budget record =>
      rw [← hheap] at live budget
      rw [← hheap, ← houtcomes] at record
      refine .waiting workerId ((hassigned workerId).mpr owner) ?_ live budget record
      rcases place with hq | hh | hh
      · exact .inl ((hqueued workerId).mpr hq)
      · exact .inr (.inl ((hhands workerId (by rw [hh]; rfl)).trans hh))
      · exact .inr (.inr ((hhands workerId (by rw [hh]; rfl)).trans hh))
  | reporting workerId owner outcome place live budget record =>
      rw [← hheap] at live budget
      rw [← hheap, ← houtcomes] at record
      have hhand := (hhands workerId (by rw [place]; rfl)).trans place
      exact .reporting workerId ((hassigned workerId).mpr owner) outcome hhand live budget record
  | completed released status budget record =>
      rw [← hheap] at status budget
      rw [← hheap, ← houtcomes] at record
      exact .completed (fun workerId ha => released workerId ((hassigned workerId).mp ha)) status
        budget record
  | failed released status budget record =>
      rw [← hheap] at status budget
      rw [← hheap, ← houtcomes] at record
      exact .failed (fun workerId ha => released workerId ((hassigned workerId).mp ha)) status
        budget record

theorem ClusterInvariant.quiet (h : ClusterInvariant heap c) (hq : Quiet c d) (hk : Keyed d.state)
    (ho : OneWorker d.state)
    (ha : AllActive d.state.workers) :
    ClusterInvariant heap d where
  keyed := hk
  oneWorker := ho
  active := ha
  filed workerId jobId ref hr := by
    rw [hq.jobs]
    exact h.filed workerId jobId ref ((hq.assigned ..).mp hr)
  held workerId ref hr := by
    rw [hq.hands] at hr
    rw [hq.heap, hq.assigned, hq.queued]
    exact h.held workerId ref hr
  terms ref := by
    rw [hq.heap]
    exact h.terms ref
  untouched ref hr := by
    rw [hq.jobs, hq.heap] at hr
    rw [hq.heap, hq.outcomes]
    exact h.untouched ref hr
  standing jobId ref hr := by
    rw [hq.jobs] at hr
    apply (h.standing jobId ref hr).frame
    · rw [hq.heap]
    · rw [hq.outcomes]
    · exact fun workerId => hq.assigned workerId jobId ref
    · exact fun workerId => hq.queued workerId ref
    · exact fun workerId _ => by rw [hq.hands]

theorem ClusterInvariant.serves (h : ClusterInvariant heap c) (hs : Serves c d ref) (hk : Keyed d.state)
    (ho : OneWorker d.state)
    (ha : AllActive d.state.workers) :
    ClusterInvariant heap d where
  keyed := hk
  oneWorker := ho
  active := ha
  filed workerId jobId other hr := by
    by_cases hi : jobId = (c.state.heap ref).id
    · subst hi
      obtain rfl := hs.owned workerId other hr
      exact hs.registered
    · rw [hs.jobs jobId hi]
      exact h.filed workerId jobId other ((hs.assigned _ _ _ hi).mp hr)
  held workerId other hr := by
    by_cases he : other = ref
    · subst he
      rw [hs.id]
      exact hs.held workerId hr
    · rcases hs.hands workerId with hsame | hnone
      · rw [hsame] at hr
        obtain ⟨hassigned, hnot⟩ := h.held workerId other hr
        have hi : (c.state.heap other).id ≠ (c.state.heap ref).id := by
          intro hi
          exact he (hs.known other (hi ▸ h.filed _ _ _ hassigned))
        rw [hs.heap other he, hs.assigned _ _ _ hi, hs.queued _ _ he]
        exact ⟨hassigned, hnot⟩
      · exact absurd hr (hnone other he).2
  terms other := by
    by_cases he : other = ref
    · subst he
      rw [hs.retries, hs.cancelled]
      exact h.terms other
    · rw [hs.heap other he]
      exact h.terms other
  untouched other hr := by
    have he : other ≠ ref := by
      rintro rfl
      rw [hs.id] at hr
      exact hr hs.registered
    rw [hs.heap other he] at hr ⊢
    rw [hs.outcomes other he]
    apply h.untouched other
    intro hc
    by_cases hi : (c.state.heap other).id = (c.state.heap ref).id
    · exact he (hs.known other (hi ▸ hc))
    · exact hr ((hs.jobs _ hi).trans hc)
  standing jobId other hr := by
    by_cases hi : jobId = (c.state.heap ref).id
    · subst hi
      obtain rfl := Option.some.inj (hs.registered.symm.trans hr)
      exact hs.standing
    · rw [hs.jobs jobId hi] at hr
      have he : other ≠ ref := by
        rintro rfl
        exact hi (h.keyed.registry jobId other hr).symm
      apply (h.standing jobId other hr).frame
      · exact hs.heap other he
      · exact hs.outcomes other he
      · exact fun workerId => hs.assigned workerId jobId other hi
      · exact fun workerId => hs.queued workerId other he
      · intro workerId hh
        rcases hs.hands workerId with hsame | hnone
        · exact hsame
        · exact absurd hh (hnone other he).1

end Frame

section Steps

variable {heap : JobRef → Job} {c d : Cluster} {jobId : JobId} {ref : JobRef} {workerId : WorkerId}

theorem not_mem_idsOf_of_not_queued {s : State} {node : WorkerNode} (h : OneWorker s)
    (hw : s.workers.get? workerId = some node) (ha : AssignedAs s.workers workerId jobId ref)
    (hq : ¬Queued s workerId ref) : jobId ∉ s.idsOf node.queue := by
  intro hm
  obtain ⟨other, ho, he⟩ := List.mem_map.mp hm
  have hother := (h.orderly workerId node hw).queued other ho
  rw [he] at hother
  obtain rfl := Option.some.inj (hother.symm.trans ((assignedAs_iff hw).mp ha))
  exact hq ⟨node, hw, ho⟩

-- A job that its worker holds is registered and nowhere else.
theorem ClusterInvariant.holder (h : ClusterInvariant heap c)
    (hh : (c.hands workerId).job? = some ref) :
    ∃ node, c.state.workers.get? workerId = some node ∧
      c.state.jobs.get? (c.state.heap ref).id = some ref ∧
      AssignedAs c.state.workers workerId (c.state.heap ref).id ref ∧
      (c.state.heap ref).id ∉ c.state.idsOf node.queue := by
  obtain ⟨ha, hq⟩ := h.held workerId ref hh
  obtain ⟨node, hw, hassigned⟩ := ha
  have ha : AssignedAs c.state.workers workerId (c.state.heap ref).id ref := ⟨node, hw, hassigned⟩
  exact ⟨node, hw, h.filed _ _ _ ha, ha, not_mem_idsOf_of_not_queued h.oneWorker hw ha hq⟩

-- The reports that a worker makes about the job in its hand are those of the job's only owner.
theorem ClusterInvariant.exclusive (h : ClusterInvariant heap c)
    (hh : (c.hands workerId).job? = some ref) (status : JobStatus) (result error : Option String)
    (now : Time) :
    Exclusive c.state (.reportJobStatus workerId (c.state.heap ref).id status result error now) := by
  obtain ⟨node, hw, hj, ha, hnot⟩ := h.holder hh
  intro node' ref' hw' hj' _
  obtain rfl := Option.some.inj (hw.symm.trans hw')
  obtain rfl := Option.some.inj (hj.symm.trans hj')
  split
  · refine ⟨⟨fun other job hother => ?_, fun found hf => ?_⟩, h.oneWorker.named _ _ _ ha⟩
    · exact h.oneWorker.unique _ _ _ _ _ hother ha
    · obtain rfl := Option.some.inj (hw.symm.trans hf)
      exact hnot
  · exact hnot

-- A job that waits with its worker has failed as often as it has been retried.
theorem ClusterInvariant.waiting (h : ClusterInvariant heap c)
    (ha : AssignedAs c.state.workers workerId jobId ref)
    (hp : Queued c.state workerId ref ∨ c.hands workerId = .fetched ref ∨ c.hands workerId = .started ref) :
    (c.state.heap ref).status.Live ∧
      ((c.state.heap ref).retryCount : Int) ≤ (c.state.heap ref).retries ∧
      c.outcomes ref = List.replicate (c.state.heap ref).retryCount false := by
  cases h.standing jobId ref (h.filed _ _ _ ha) with
  | waiting _ _ _ live budget record => exact ⟨live, budget, record⟩
  | reporting other owner outcome place live budget record =>
      obtain rfl := h.oneWorker.unique _ _ _ _ _ ha owner
      rcases hp with hq | hp | hp
      · exact absurd hq (h.held workerId ref (by rw [place]; rfl)).2
      · rw [place] at hp
        cases hp
      · rw [place] at hp
        cases hp
  | completed released _ _ _ => exact absurd ha (released workerId)
  | failed released _ _ _ => exact absurd ha (released workerId)

theorem ClusterInvariant.reporting (h : ClusterInvariant heap c) {outcome : Except String String}
    (hp : c.hands workerId = .ran ref outcome) :
    (c.state.heap ref).status.Live ∧
      ((c.state.heap ref).retryCount : Int) ≤ (c.state.heap ref).retries ∧
      c.outcomes ref = List.replicate (c.state.heap ref).retryCount false ++ [succeeded outcome] := by
  have hh : (c.hands workerId).job? = some ref := by rw [hp]; rfl
  obtain ⟨ha, hq⟩ := h.held workerId ref hh
  cases h.standing _ ref (h.filed _ _ _ ha) with
  | waiting other owner place _ _ _ =>
      obtain rfl := h.oneWorker.unique _ _ _ _ _ ha owner
      rcases place with place | place | place
      · exact absurd place hq
      · rw [hp] at place
        cases place
      · rw [hp] at place
        cases place
  | reporting other owner outcome' place live budget record =>
      obtain rfl := h.oneWorker.unique _ _ _ _ _ ha owner
      rw [hp] at place
      cases place
      exact ⟨live, budget, record⟩
  | completed released _ _ _ => exact absurd ha (released workerId)
  | failed released _ _ _ => exact absurd ha (released workerId)

theorem ClusterInvariant.fetchJob (h : ClusterInvariant heap c) {t : State}
    (hidle : c.hands workerId = .idle)
    (ht : Execution.step c.state (.fetchJob workerId ref) = some t) :
    Serves c ({ c with state := t }.setHand workerId (.fetched ref)) ref := by
  obtain ⟨node, rest, hw, hq, rfl⟩ := State.fetchJob_eq ht
  have horderly := h.oneWorker.orderly workerId node hw
  have hmem : ref ∈ node.queue := by rw [hq]; exact List.mem_cons_self
  have ha : AssignedAs c.state.workers workerId (c.state.heap ref).id ref :=
    ⟨node, hw, horderly.queued ref hmem⟩
  have hreg := h.filed _ _ _ ha
  obtain ⟨live, budget, record⟩ := h.waiting ha (.inl ⟨node, hw, hmem⟩)
  have hassigned (other : WorkerId) (id : JobId) (job : JobRef) :
      AssignedAs (c.state.setNode workerId { node with queue := rest }).workers other id job ↔
        AssignedAs c.state.workers other id job := assignedAs_set_same hw rfl
  -- The queue had one entry for the job.
  have hgone : ref ∉ rest := by
    have honce := horderly.once
    rw [hq, List.map_cons] at honce
    exact fun hr => (List.nodup_cons.mp honce).1 (List.mem_map_of_mem hr)
  have hnot : ¬Queued (c.state.setNode workerId { node with queue := rest }) workerId ref := by
    rw [queued_iff (Dict.get?_set_self ..)]
    exact hgone
  have howner : AssignedAs (c.state.setNode workerId { node with queue := rest }).workers workerId
      (c.state.heap ref).id ref := (hassigned ..).mpr ha
  exact {
    id := rfl
    retries := rfl
    cancelled := rfl
    known := fun other ho => Option.some.inj (ho.symm.trans hreg)
    registered := hreg
    jobs := fun _ _ => rfl
    heap := fun _ _ => rfl
    outcomes := fun _ _ => rfl
    hands := by
      refine Cluster.setHand_other rfl (fun job hc => ?_) fun job hc => (Option.some.inj hc).symm
      rw [hidle] at hc
      cases hc
    assigned := fun other id job _ => hassigned other id job
    owned := fun other job hj =>
      Option.some.inj ((h.filed _ _ _ ((hassigned ..).mp hj)).symm.trans hreg)
    queued := fun other job hne => queued_replace hw _ (fun _ => Dict.get?_set ..) (by simp [hq, hne])
    held := fun other hh => by
      rw [Cluster.setHand_hands] at hh
      split at hh
      · rename_i ho
        subst ho
        exact ⟨howner, hnot⟩
      · rename_i ho
        have hother := (h.held other ref hh).1
        exact absurd (h.oneWorker.unique _ _ _ _ _ hother ha) ho
    standing := .waiting workerId howner
      (.inr (.inl (by rw [Cluster.setHand_hands, if_pos rfl]))) live budget record }

section Report

variable (status : JobStatus) (result error : Option String) (now : Time) (hand : WorkerHand)

theorem report_state {node : WorkerNode} (hw : c.state.workers.get? workerId = some node)
    (hj : c.state.jobs.get? (c.state.heap ref).id = some ref) :
    (c.report workerId ref status result error now hand).state =
      c.state.applyReport workerId node (c.state.heap ref).id ref status result error now := by
  have hstate : (c.report workerId ref status result error now hand).state =
      (c.state.reportJobStatus workerId (c.state.heap ref).id status result error now).2 := rfl
  rcases c.state.reportJobStatus_cases workerId (c.state.heap ref).id status result error now with
    ⟨hu, _⟩ | ⟨node', ref', hw', hj', he⟩
  · rcases hu with hu | hu
    · exact absurd ((Dict.mem_iff _ _).mpr ⟨node, hw⟩) hu
    · rw [hu] at hj
      cases hj
  · obtain rfl := Option.some.inj (hw.symm.trans hw')
    obtain rfl := Option.some.inj (hj.symm.trans hj')
    rw [hstate, he]

-- What a report about the job in the reporter's hand does to its record and to the nodes.
theorem ClusterInvariant.report_effect (h : ClusterInvariant heap c)
    (hh : (c.hands workerId).job? = some ref) :
    ∃ node startedAt completedAt result' error', c.state.workers.get? workerId = some node ∧
      (c.report workerId ref status result error now hand).state.heap ref =
        { c.state.heap ref with
          status := State.reportedStatus (c.state.heap ref) status,
          retryCount := if status = .failed ∧ (c.state.heap ref).CanRetry then
            (c.state.heap ref).retryCount + 1 else (c.state.heap ref).retryCount,
          startedAt := startedAt, completedAt := completedAt, result := result', error := error' } ∧
      (c.report workerId ref status result error now hand).state.workers =
        if status = .failed ∧ (c.state.heap ref).CanRetry then
          (c.state.workers.set workerId (node.complete (c.state.heap ref).id)).set workerId
            ((node.complete (c.state.heap ref).id).assign (c.state.heap ref).id ref)
        else if status.Terminal then
          c.state.workers.set workerId (node.complete (c.state.heap ref).id)
        else c.state.workers := by
  obtain ⟨node, hw, hj, _, _⟩ := h.holder hh
  obtain ⟨startedAt, completedAt, result', error', hheap⟩ :=
    c.state.applyReport_heap_self workerId node (c.state.heap ref).id ref status result error now
  refine ⟨node, startedAt, completedAt, result', error', hw, ?_, ?_⟩
  · rw [report_state status result error now hand hw hj]
    exact hheap
  · rw [report_state status result error now hand hw hj]
    exact c.state.applyReport_workers workerId node (c.state.heap ref).id ref status result error now

-- A worker's report about the job in its hand serves this job, whatever the worker goes on with.
theorem ClusterInvariant.report (h : ClusterInvariant heap c)
    (hh : (c.hands workerId).job? = some ref) (hhand : ∀ other, hand.job? = some other → other = ref)
    (hrunning : hand.job? = some ref → ¬status.Terminal)
    (hstanding : Standing (c.report workerId ref status result error now hand) (c.state.heap ref).id
      ref) : Serves c (c.report workerId ref status result error now hand) ref := by
  obtain ⟨node, hw, hj, ha, hnot⟩ := h.holder hh
  have hqueue := (h.held workerId ref hh).2
  have hstate := report_state status result error now hand hw hj
  obtain ⟨node', _, _, _, _, hw', hheap, hworkers⟩ := h.report_effect status result error now hand hh
  obtain rfl := Option.some.inj (hw.symm.trans hw')
  have hassigned (other : WorkerId) (id : JobId) (job : JobRef) (hi : id ≠ (c.state.heap ref).id) :
      AssignedAs (c.report workerId ref status result error now hand).state.workers other id job ↔
        AssignedAs c.state.workers other id job := by
    rw [hworkers]
    split_ifs
    · rw [assignedAs_set_assign (Dict.get?_set_self ..), if_neg (fun hc => hi hc.2),
        assignedAs_set_complete hw]
      simp [hi]
    · rw [assignedAs_set_complete hw]
      simp [hi]
    · exact Iff.rfl
  have howned (other : WorkerId) (job : JobRef)
      (hr : AssignedAs (c.report workerId ref status result error now hand).state.workers other
        (c.state.heap ref).id job) : job = ref := by
    rw [hworkers] at hr
    have hold (hr : AssignedAs c.state.workers other (c.state.heap ref).id job) : job = ref :=
      Option.some.inj ((h.filed _ _ _ hr).symm.trans hj)
    split_ifs at hr
    · rw [assignedAs_set_assign (Dict.get?_set_self ..)] at hr
      split at hr
      · exact hr.symm
      · exact hold ((assignedAs_set_complete hw).mp hr).2
    · exact hold ((assignedAs_set_complete hw).mp hr).2
    · exact hold hr
  have hqueued (other : WorkerId) (job : JobRef) (hne : job ≠ ref) :
      Queued (c.report workerId ref status result error now hand).state other job ↔
        Queued c.state other job := by
    have hworkers' := hworkers
    split_ifs at hworkers'
    · apply queued_replace hw ((node.complete _).assign _ ref)
      · intro third
        rw [hworkers', Dict.get?_set, Dict.get?_set]
        split <;> rfl
      · simp [WorkerNode.assign, WorkerNode.complete, hne]
    · apply queued_replace hw (node.complete (c.state.heap ref).id)
      · intro third
        rw [hworkers', Dict.get?_set]
      · exact Iff.rfl
    · unfold Queued
      rw [hworkers']
  exact {
    id := by rw [hstate, State.applyReport_id]
    retries := by rw [hheap]
    cancelled := by rw [hheap]
    known := fun other ho => Option.some.inj (ho.symm.trans hj)
    registered := by rw [hstate, State.applyReport_jobs]; exact hj
    jobs := fun _ _ => by rw [hstate, State.applyReport_jobs]
    heap := fun other hne => by rw [hstate, State.applyReport_heap_of_ne _ _ _ _ _ _ _ _ _ hne]
    outcomes := fun _ _ => rfl
    hands := Cluster.setHand_other rfl (fun job hc => Option.some.inj (hc.symm.trans hh)) hhand
    assigned := fun other id job hi => hassigned other id job hi
    owned := howned
    queued := fun other job hne => hqueued other job hne
    held := fun other hc => by
      rw [Cluster.report, Cluster.setHand_hands] at hc
      split at hc
      · -- The worker goes on with the job, which no terminal report was about.
        rename_i ho
        subst ho
        have hterminal := hrunning hc
        have hretry : ¬(status = .failed ∧ (c.state.heap ref).CanRetry) :=
          fun hr => hterminal (.inr (.inl hr.1))
        rw [if_neg hretry, if_neg hterminal] at hworkers
        refine ⟨by rw [hworkers]; exact ha, ?_⟩
        unfold Queued
        rw [hworkers]
        exact hqueue
      · rename_i ho
        exact absurd (h.oneWorker.unique _ _ _ _ _ (h.held other ref hc).1 ha) ho
    standing := hstanding }

end Report

theorem ClusterInvariant.runTarget (h : ClusterInvariant heap c) (hp : c.hands workerId = .started ref)
    (outcome : Except String String) :
    Serves c ({ c with
      outcomes := Function.update c.outcomes ref (c.outcomes ref ++ [succeeded outcome])
    }.setHand workerId (.ran ref outcome)) ref := by
  have hh : (c.hands workerId).job? = some ref := by rw [hp]; rfl
  obtain ⟨node, hw, hj, ha, _⟩ := h.holder hh
  have hqueue := (h.held workerId ref hh).2
  obtain ⟨live, budget, record⟩ := h.waiting ha (.inr (.inr hp))
  exact {
    id := rfl
    retries := rfl
    cancelled := rfl
    known := fun other ho => Option.some.inj (ho.symm.trans hj)
    registered := hj
    jobs := fun _ _ => rfl
    heap := fun _ _ => rfl
    outcomes := fun other hne => Function.update_of_ne hne ..
    hands := Cluster.setHand_other rfl (fun job hc => Option.some.inj (hc.symm.trans hh))
      fun job hc => (Option.some.inj hc).symm
    assigned := fun _ _ _ _ => Iff.rfl
    owned := fun other job hr => Option.some.inj ((h.filed _ _ _ hr).symm.trans hj)
    queued := fun _ _ _ => Iff.rfl
    held := fun other hc => by
      rw [Cluster.setHand_hands] at hc
      split at hc
      · rename_i ho
        subst ho
        exact ⟨ha, hqueue⟩
      · exact h.held other ref hc
    standing := by
      refine .reporting workerId ha outcome ?_ live budget ?_
      · rw [Cluster.setHand_hands, if_pos rfl]
      · show Function.update c.outcomes ref _ ref = _
        rw [Function.update_self, record]
        rfl }

-- A new job is with the worker that took it, and nobody else has seen it.
theorem ClusterInvariant.submitJob (h : ClusterInvariant heap c) {context : Option String}
    (hretries : ∀ ref, 0 ≤ (heap ref).retries) (hroutes : c.Routes ref context) :
    Exclusive c.state (.submitJob ref context) ∧
      Serves c { c with state := c.state.submitJob ref context } ref := by
  obtain ⟨hnew, hrouted⟩ := hroutes
  obtain ⟨workerId, hrouted⟩ := Option.isSome_iff_exists.mp hrouted
  have hnone : c.state.jobs.get? (c.state.heap ref).id = none := (Dict.get?_eq_none_iff _ _).mpr hnew
  have hunassigned (other : WorkerId) (job : JobRef) :
      ¬AssignedAs c.state.workers other (c.state.heap ref).id job := by
    intro ha
    rw [h.filed _ _ _ ha] at hnone
    cases hnone
  constructor
  · intro other ho
    refine ⟨fun third job ha => absurd ha (hunassigned third job), fun node hw hm => ?_⟩
    obtain ⟨job, hj, he⟩ := List.mem_map.mp hm
    exact hunassigned other job ⟨node, hw, he ▸ (h.oneWorker.orderly other node hw).queued job hj⟩
  · have hid : ((c.state.registerJob ref context).heap ref).id = (c.state.heap ref).id := by
      simp [State.registerJob]
    have haccepts : (c.state.registerJob ref context).Accepts (c.state.heap ref).id workerId := by
      have hfound := List.find?_some hrouted
      rw [hid] at hfound
      exact of_decide_eq_true hfound
    obtain ⟨node, job, hw, hj, he⟩ := State.assignJob_of_accepts haccepts
    have hjob : ref = job := by
      have hreg : (c.state.registerJob ref context).jobs.get? (c.state.heap ref).id = some ref := by
        simp [State.registerJob]
      exact Option.some.inj (hreg.symm.trans hj)
    subst hjob
    have hsubmit : c.state.submitJob ref context =
        (c.state.registerJob ref context).handOver workerId node (c.state.heap ref).id ref := by
      rw [State.submitJob_eq, State.routeToWorker_eq, hrouted, Option.map_some, hid, he]
      rfl
    have hw : c.state.workers.get? workerId = some node := hw
    have hworkers : (c.state.submitJob ref context).workers =
        c.state.workers.set workerId (node.assign (c.state.heap ref).id ref) := by rw [hsubmit]; rfl
    have hjobs : (c.state.submitJob ref context).jobs = c.state.jobs.set (c.state.heap ref).id ref := by
      rw [hsubmit, State.handOver_jobs]
      simp [State.registerJob]
    have hheap : ∃ contextId, (c.state.submitJob ref context).heap ref =
        { c.state.heap ref with
          contextId := contextId, status := .queued, workerId := some workerId } := by
      rw [hsubmit]
      simp only [State.handOver_heap, State.updateJob_heap_self, State.registerJob]
      exact ⟨_, rfl⟩
    obtain ⟨contextId, hheap⟩ := hheap
    have hassigned (other : WorkerId) (id : JobId) (job : JobRef) :
        AssignedAs (c.state.submitJob ref context).workers other id job ↔
          if other = workerId ∧ id = (c.state.heap ref).id then ref = job
          else AssignedAs c.state.workers other id job := by
      rw [hworkers, assignedAs_set_assign hw]
    have howner : AssignedAs (c.state.submitJob ref context).workers workerId (c.state.heap ref).id
        ref := by
      rw [hassigned, if_pos ⟨rfl, rfl⟩]
    have hqueued : Queued (c.state.submitJob ref context) workerId ref := by
      refine ⟨node.assign (c.state.heap ref).id ref, ?_, by simp [WorkerNode.assign]⟩
      rw [hworkers, Dict.get?_set_self]
    obtain ⟨hcount, hrecord⟩ := h.untouched ref (by simp [hnone])
    exact {
      id := by rw [hheap]
      retries := by rw [hheap]
      cancelled := by rw [hheap]
      known := fun other ho => by rw [hnone] at ho; cases ho
      registered := by rw [hjobs, Dict.get?_set_self]
      jobs := fun id hi => by rw [hjobs, Dict.get?_set_of_ne _ _ hi]
      heap := fun other hne => by
        rw [hsubmit]
        simp [State.updateJob_heap, State.registerJob, hne]
      outcomes := fun _ _ => rfl
      hands := fun _ => .inl rfl
      assigned := fun other id job hi => by rw [hassigned, if_neg fun hc => hi hc.2]
      owned := fun other job hr => by
        rw [hassigned] at hr
        split at hr
        · exact hr.symm
        · exact absurd hr (hunassigned other job)
      queued := fun other job hne => queued_replace hw (node.assign (c.state.heap ref).id ref)
        (fun third => by rw [hworkers, Dict.get?_set]) (by simp [WorkerNode.assign, hne])
      held := fun other hh => absurd (h.held other ref hh).1 (hunassigned other ref)
      standing := by
        refine .waiting workerId howner (.inl hqueued) ?_ ?_ ?_
        · rw [hheap]
          exact .inl rfl
        · rw [hheap]
          show ((c.state.heap ref).retryCount : Int) ≤ (c.state.heap ref).retries
          rw [hcount, (h.terms ref).1]
          exact hretries ref
        · rw [hheap]
          show c.outcomes ref = List.replicate (c.state.heap ref).retryCount false
          rw [hcount, hrecord]
          rfl }

theorem ClusterInvariant.standing_running (h : ClusterInvariant heap c)
    (hp : c.hands workerId = .fetched ref) (now : Time) :
    Standing (c.report workerId ref .running none none now (.started ref)) (c.state.heap ref).id
      ref := by
  have hh : (c.hands workerId).job? = some ref := by rw [hp]; rfl
  have ha := (h.held workerId ref hh).1
  obtain ⟨_, budget, record⟩ := h.waiting ha (.inr (.inl hp))
  obtain ⟨node, _, _, _, _, _, hheap, hworkers⟩ :=
    h.report_effect .running none none now (.started ref) hh
  refine .waiting workerId ?_ (.inr (.inr ?_)) ?_ ?_ ?_
  · rw [hworkers]
    exact ha
  · rw [Cluster.report, Cluster.setHand_hands, if_pos rfl]
  · rw [hheap]
    exact .inr rfl
  · rw [hheap]
    exact budget
  · rw [hheap]
    exact record

-- A job that its only owner completes is in no map afterwards.
theorem ClusterInvariant.released (h : ClusterInvariant heap c) {node : WorkerNode}
    (hw : c.state.workers.get? workerId = some node)
    (ha : AssignedAs c.state.workers workerId jobId ref) (other : WorkerId) :
    ¬AssignedAs (c.state.workers.set workerId (node.complete jobId)) other jobId ref := by
  rw [assignedAs_set_complete hw]
  rintro ⟨hne, hother⟩
  exact hne ⟨h.oneWorker.unique _ _ _ _ _ hother ha, rfl⟩

theorem ClusterInvariant.standing_completed (h : ClusterInvariant heap c) {result : String}
    (hp : c.hands workerId = .ran ref (.ok result)) (now : Time) :
    Standing (c.report workerId ref .completed (some result) none now .idle) (c.state.heap ref).id
      ref := by
  have hh : (c.hands workerId).job? = some ref := by rw [hp]; rfl
  have ha := (h.held workerId ref hh).1
  obtain ⟨_, budget, record⟩ := h.reporting hp
  obtain ⟨node, _, _, _, _, hw, hheap, hworkers⟩ :=
    h.report_effect .completed (some result) none now .idle hh
  refine .completed (fun other => ?_) ?_ ?_ ?_
  · rw [hworkers]
    exact h.released hw ha other
  · rw [hheap]
    rfl
  · rw [hheap]
    exact budget
  · rw [hheap]
    exact record

-- A failure goes back to the same worker while there are attempts left.
theorem ClusterInvariant.standing_failed (h : ClusterInvariant heap c) {error : String}
    (hp : c.hands workerId = .ran ref (.error error)) (now : Time) :
    Standing (c.report workerId ref .failed none (some error) now .idle) (c.state.heap ref).id
      ref := by
  have hh : (c.hands workerId).job? = some ref := by rw [hp]; rfl
  have ha := (h.held workerId ref hh).1
  obtain ⟨_, budget, record⟩ := h.reporting hp
  have hrecord : c.outcomes ref = List.replicate ((c.state.heap ref).retryCount + 1) false := by
    rw [record, List.replicate_succ']
    rfl
  obtain ⟨node, _, _, _, _, hw, hheap, hworkers⟩ :=
    h.report_effect .failed none (some error) now .idle hh
  by_cases hretry : (c.state.heap ref).CanRetry
  · rw [if_pos ⟨rfl, hretry⟩] at hworkers
    simp only [hretry, and_true, if_true] at hheap
    have hbudget : ((c.state.heap ref).retryCount : Int) < (c.state.heap ref).retries := hretry
    refine .waiting workerId ?_ (.inl ?_) ?_ ?_ ?_
    · rw [hworkers, assignedAs_set_assign (Dict.get?_set_self ..), if_pos ⟨rfl, rfl⟩]
    · refine ⟨(node.complete (c.state.heap ref).id).assign (c.state.heap ref).id ref, ?_, ?_⟩
      · rw [hworkers, Dict.get?_set_self]
      · simp [WorkerNode.assign]
    · rw [hheap, State.reportedStatus, if_pos ⟨rfl, hretry⟩]
      exact .inl rfl
    · rw [hheap]
      show (((c.state.heap ref).retryCount + 1 : Nat) : Int) ≤ (c.state.heap ref).retries
      omega
    · rw [hheap]
      exact hrecord
  · rw [if_neg (fun hc => hretry hc.2), if_pos (show JobStatus.failed.Terminal from .inr (.inl rfl))]
      at hworkers
    simp only [hretry, and_false, if_false] at hheap
    have hbudget : ¬((c.state.heap ref).retryCount : Int) < (c.state.heap ref).retries := hretry
    refine .failed (fun other => ?_) ?_ ?_ ?_
    · rw [hworkers]
      exact h.released hw ha other
    · rw [hheap, State.reportedStatus, if_neg (fun hc => hretry hc.2)]
    · rw [hheap]
      show ((c.state.heap ref).retryCount : Int) = (c.state.heap ref).retries
      omega
    · rw [hheap]
      exact hrecord

theorem AllActive.set {workers : Dict WorkerId WorkerNode} (h : AllActive workers)
    (workerId : WorkerId) (node : WorkerNode) (hn : node.status = .active) :
    AllActive (workers.set workerId node) := by
  intro other found hf
  rw [Dict.get?_set] at hf
  split at hf
  · exact Option.some.inj hf ▸ hn
  · exact h other found hf

theorem AllActive.assignJob {s : State} (h : AllActive s.workers) (jobId : JobId)
    (workerId : WorkerId) : AllActive (s.assignJob jobId workerId).2.workers := by
  rcases s.assignJob_cases jobId workerId with he | ⟨node, ref, hw, hn, _, he⟩ <;> rw [he]
  · exact h
  · rw [State.handOver_workers]
    exact h.set workerId _ hn

theorem AllActive.submitJob {s : State} (h : AllActive s.workers) (ref : JobRef)
    (context : Option String) : AllActive (s.submitJob ref context).workers := by
  unfold State.submitJob
  dsimp only
  split
  · rename_i t ht
    obtain ⟨workerId, ha⟩ := State.routeToWorker_some ht
    have hassign := AllActive.assignJob (s := s.registerJob ref context) h
      ((s.registerJob ref context).heap ref).id workerId
    rw [ha] at hassign
    exact hassign
  · exact h

theorem AllActive.reportJobStatus {s : State} (h : AllActive s.workers) (workerId : WorkerId)
    (jobId : JobId) (status : JobStatus) (result error : Option String) (now : Time) :
    AllActive (s.reportJobStatus workerId jobId status result error now).2.workers := by
  rcases s.reportJobStatus_cases workerId jobId status result error now with
    ⟨_, he⟩ | ⟨node, ref, hw, _, he⟩ <;> rw [he]
  · exact h
  · have hn := h workerId node hw
    rw [State.applyReport_workers]
    split_ifs
    · exact (h.set workerId (node.complete jobId) hn).set workerId _ hn
    · exact h.set workerId _ hn
    · exact h

-- The sweep finds no stale node when all of them are active and fresh.
theorem monitorWorkers_of_fresh {now : Time} (h : AllActive c.state.workers) (hf : c.Fresh now) :
    c.state.monitorWorkers now = c.state := by
  have hone (workerId : WorkerId) : State.monitorWorker now c.state workerId = c.state := by
    unfold State.monitorWorker
    cases hw : c.state.workers.get? workerId with
    | none => rfl
    | some node =>
        have ha := h workerId node hw
        have hlt := hf node ((Dict.mem_values_iff _ _).mpr ⟨workerId, hw⟩) ha
        have hnot : ¬now - node.lastHeartbeat ≥ c.state.heartbeatTimeout := not_le.mpr hlt
        simp only [ha, hnot, if_true, if_false]
  unfold State.monitorWorkers
  induction c.state.workers.keys with
  | nil => rfl
  | cons workerId rest ih => rw [List.foldl_cons, hone, ih]

-- A job in a worker's hand has not ended.
theorem ClusterInvariant.live_of_hand (h : ClusterInvariant heap c)
    (hh : (c.hands workerId).job? = some ref) : (c.state.heap ref).status.Live := by
  have ha := (h.held workerId ref hh).1
  cases hp : c.hands workerId with
  | idle => rw [hp] at hh; cases hh
  | fetched job =>
      rw [hp] at hh
      obtain rfl := Option.some.inj hh
      exact (h.waiting ha (.inr (.inl hp))).1
  | started job =>
      rw [hp] at hh
      obtain rfl := Option.some.inj hh
      exact (h.waiting ha (.inr (.inr hp))).1
  | ran job outcome =>
      rw [hp] at hh
      obtain rfl := Option.some.inj hh
      exact (h.reporting hp).1

theorem ClusterInvariant.reported (h : ClusterInvariant heap c)
    (hh : (c.hands workerId).job? = some ref) (status : JobStatus) (result error : Option String)
    (now : Time) (hand : WorkerHand) (hhand : ∀ other, hand.job? = some other → other = ref)
    (hrunning : hand.job? = some ref → ¬status.Terminal)
    (hstanding : Standing (c.report workerId ref status result error now hand) (c.state.heap ref).id
      ref) : Advances c (c.report workerId ref status result error now hand) := by
  have hstep : Execution.step c.state
      (.reportJobStatus workerId (c.state.heap ref).id status result error now) =
        some (c.report workerId ref status result error now hand).state := rfl
  have hexclusive := h.exclusive hh status result error now
  refine ⟨keyed_step h.keyed hstep, (oneWorker_step_iff h.keyed h.oneWorker hstep).mpr hexclusive,
    ?_, .inr ⟨ref, ?_, fun _ => h.live_of_hand hh⟩⟩
  · exact h.active.reportJobStatus workerId (c.state.heap ref).id status result error now
  · exact h.report status result error now hand hh hhand hrunning hstanding

theorem idle_job?_ne : WorkerHand.idle.job? ≠ some ref := by
  intro h
  cases h

-- A heartbeat changes nothing about any job.
theorem ClusterInvariant.sendHeartbeat (h : ClusterInvariant heap c) (workerId : WorkerId)
    (health : Dict String String) (now : Time) :
    Advances c { c with state := (c.state.sendHeartbeat workerId health now).2 } := by
  have hbeat : Execution.step c.state (.sendHeartbeat workerId health now) =
      some (c.state.sendHeartbeat workerId health now).2 := rfl
  have hk := keyed_step h.keyed hbeat
  have ho := (oneWorker_step_iff h.keyed h.oneWorker hbeat).mpr trivial
  unfold State.sendHeartbeat at hk ho ⊢
  cases hw : c.state.workers.get? workerId with
  | none =>
      exact ⟨h.keyed, h.oneWorker, h.active,
        .inl ⟨rfl, rfl, rfl, rfl, fun _ _ _ => Iff.rfl, fun _ _ => Iff.rfl⟩⟩
  | some node =>
      rw [hw] at hk ho
      have hstatus : (node.updateHeartbeat health now).status = .active := by
        simp [WorkerNode.updateHeartbeat, h.active workerId node hw]
      exact ⟨hk, ho, h.active.set workerId _ hstatus,
        .inl ⟨rfl, rfl, rfl, rfl, fun _ _ _ => assignedAs_set_same hw rfl,
          fun _ _ => queued_replace hw (node.updateHeartbeat health now)
            (fun _ => Dict.get?_set ..) Iff.rfl⟩⟩

theorem ClusterInvariant.fetched (h : ClusterInvariant heap c) {t : State}
    (hidle : c.hands workerId = .idle) (ht : c.state.fetchJob workerId = some (ref, t)) :
    Advances c ({ c with state := t }.setHand workerId (.fetched ref)) := by
  have hfetch : Execution.step c.state (.fetchJob workerId ref) = some t := by
    simp [Execution.step, ht]
  have hserves := h.fetchJob hidle hfetch
  refine ⟨keyed_step h.keyed hfetch, (oneWorker_step_iff h.keyed h.oneWorker hfetch).mpr trivial, ?_,
    .inr ⟨ref, hserves, fun _ => ?_⟩⟩
  · obtain ⟨node, rest, hw, _, rfl⟩ := State.fetchJob_eq hfetch
    exact h.active.set workerId _ (h.active workerId node hw)
  · obtain ⟨node, rest, hw, hq, _⟩ := State.fetchJob_eq hfetch
    have hmem : ref ∈ node.queue := by rw [hq]; exact List.mem_cons_self
    have hqueued := (h.oneWorker.orderly workerId node hw).queued ref hmem
    exact (h.waiting ⟨node, hw, hqueued⟩ (.inl ⟨node, hw, hmem⟩)).1

theorem ClusterInvariant.advances {act : ClusterAction} (hretries : ∀ ref, 0 ≤ (heap ref).retries)
    (h : ClusterInvariant heap c) (hs : c.step act = some d) : Advances c d := by
  cases act with
  | submitJob ref context =>
      simp only [Cluster.step] at hs
      split at hs
      · rename_i hroutes
        obtain rfl := Option.some.inj hs
        obtain ⟨hexclusive, hserves⟩ := h.submitJob hretries hroutes
        refine ⟨h.keyed.submitJob ref context,
          (oneWorker_submitJob_iff h.keyed h.oneWorker context).mpr hexclusive,
          h.active.submitJob ref context, .inr ⟨ref, hserves, fun hc => ?_⟩⟩
        exact absurd ((Dict.mem_iff _ _).mpr ⟨ref, hc⟩) hroutes.1
      · cases hs
  | sendHeartbeat workerId health now =>
      obtain rfl := Option.some.inj hs
      exact h.sendHeartbeat workerId health now
  | monitorWorkers now =>
      simp only [Cluster.step] at hs
      split at hs
      · rename_i hfresh
        rw [monitorWorkers_of_fresh h.active hfresh] at hs
        obtain rfl := Option.some.inj hs
        exact ⟨h.keyed, h.oneWorker, h.active,
          .inl ⟨rfl, rfl, rfl, rfl, fun _ _ _ => Iff.rfl, fun _ _ => Iff.rfl⟩⟩
      · cases hs
  | fetchJob workerId =>
      simp only [Cluster.step] at hs
      split at hs
      · rename_i hidle
        split at hs
        · rename_i ref t ht
          obtain rfl := Option.some.inj hs
          exact h.fetched hidle ht
        · cases hs
      · cases hs
  | reportRunning workerId now =>
      simp only [Cluster.step] at hs
      split at hs
      · rename_i ref hp
        obtain rfl := Option.some.inj hs
        have hh : (c.hands workerId).job? = some ref := by rw [hp]; rfl
        refine h.reported hh .running none none now (.started ref) (fun _ hj => (Option.some.inj hj).symm)
          (fun _ => ?_) (h.standing_running hp now)
        simp [JobStatus.Terminal]
      · cases hs
  | runTarget workerId outcome now =>
      simp only [Cluster.step] at hs
      split at hs
      · rename_i ref hp
        rw [(h.terms ref).2, if_neg Bool.false_ne_true] at hs
        obtain rfl := Option.some.inj hs
        have hh : (c.hands workerId).job? = some ref := by rw [hp]; rfl
        have ha := (h.held workerId ref hh).1
        exact ⟨h.keyed, h.oneWorker, h.active,
          .inr ⟨ref, h.runTarget hp outcome, fun _ => (h.waiting ha (.inr (.inr hp))).1⟩⟩
      · cases hs
  | reportOutcome workerId now =>
      simp only [Cluster.step] at hs
      split at hs
      · rename_i ref result hp
        obtain rfl := Option.some.inj hs
        have hh : (c.hands workerId).job? = some ref := by rw [hp]; rfl
        exact h.reported hh .completed (some result) none now .idle (fun _ hj => absurd hj idle_job?_ne)
          (fun hj => absurd hj idle_job?_ne) (h.standing_completed hp now)
      · rename_i ref error hp
        obtain rfl := Option.some.inj hs
        have hh : (c.hands workerId).job? = some ref := by rw [hp]; rfl
        exact h.reported hh .failed none (some error) now .idle (fun _ hj => absurd hj idle_job?_ne)
          (fun hj => absurd hj idle_job?_ne) (h.standing_failed hp now)
      · cases hs

theorem ClusterInvariant.step {act : ClusterAction} (hretries : ∀ ref, 0 ≤ (heap ref).retries)
    (h : ClusterInvariant heap c) (hs : c.step act = some d) : ClusterInvariant heap d := by
  obtain ⟨hk, ho, ha, hquiet | ⟨ref, hserves, _⟩⟩ := h.advances hretries hs
  · exact h.quiet hquiet hk ho ha
  · exact h.serves hserves hk ho ha

-- What has ended is left alone for good.
theorem ClusterInvariant.step_ended {act : ClusterAction} (hretries : ∀ ref, 0 ≤ (heap ref).retries)
    (h : ClusterInvariant heap c) (hs : c.step act = some d)
    (hj : c.state.jobs.get? jobId = some ref) (he : Ended (c.state.heap ref)) :
    d.state.jobs.get? jobId = some ref ∧ d.state.heap ref = c.state.heap ref ∧
      d.outcomes ref = c.outcomes ref := by
  obtain ⟨_, _, _, hquiet | ⟨other, hserves, hlive⟩⟩ := h.advances hretries hs
  · rw [hquiet.jobs, hquiet.heap, hquiet.outcomes]
    exact ⟨hj, rfl, rfl⟩
  · have hid := h.keyed.registry jobId ref hj
    have hne : jobId ≠ (c.state.heap other).id := by
      rintro rfl
      obtain rfl := hserves.known ref hj
      exact he.not_live (hlive hj)
    have hother : ref ≠ other := by
      rintro rfl
      exact hne hid.symm
    rw [hserves.jobs jobId hne]
    exact ⟨hj, hserves.heap ref hother, hserves.outcomes ref hother⟩

theorem ClusterInvariant.run {acts : List ClusterAction} (hretries : ∀ ref, 0 ≤ (heap ref).retries)
    (h : ClusterInvariant heap c) (hr : Run Cluster.step c acts d) : ClusterInvariant heap d := by
  have hany : Meets Cluster.step (fun _ _ => True) c acts := .of_forall fun _ _ _ => trivial
  exact hr.invariant (ClusterInvariant heap) (fun _ _ _ h _ hs => h.step hretries hs) hany h

theorem ClusterInvariant.run_ended {acts : List ClusterAction}
    (hretries : ∀ ref, 0 ≤ (heap ref).retries) (h : ClusterInvariant heap c)
    (hr : Run Cluster.step c acts d) (hj : c.state.jobs.get? jobId = some ref)
    (he : Ended (c.state.heap ref)) :
    d.state.heap ref = c.state.heap ref ∧ d.outcomes ref = c.outcomes ref := by
  induction hr with
  | nil _ => exact ⟨rfl, rfl⟩
  | cons hs _ ih =>
      obtain ⟨hj', hheap, houtcomes⟩ := h.step_ended hretries hs hj he
      obtain ⟨hlast, hcalls⟩ := ih (h.step hretries hs) hj' (hheap ▸ he)
      exact ⟨hlast.trans hheap, hcalls.trans houtcomes⟩

end Steps

-- Active workers without any work, before the first submission.
def Ready (workers : Dict WorkerId WorkerNode) : Prop :=
  ∀ workerId node, workers.get? workerId = some node →
    node.status = .active ∧ node.queue = [] ∧ node.assignedJobs = .empty

theorem clusterInvariant_start {heap : JobRef → Job} {workers : Dict WorkerId WorkerNode}
    (hfresh : ∀ ref, (heap ref).Fresh) (hready : Ready workers) :
    ClusterInvariant heap (.start heap workers) := by
  have hunassigned {workerId : WorkerId} {jobId : JobId} {ref : JobRef}
      (ha : AssignedAs workers workerId jobId ref) : False := by
    obtain ⟨node, hw, ha⟩ := ha
    rw [(hready workerId node hw).2.2] at ha
    cases ha
  exact {
    keyed :=
      { registry := fun _ _ hj => nomatch hj
        assigned := fun _ _ _ ha => (hunassigned ha).elim }
    oneWorker :=
      { unique := fun _ _ _ _ _ ha => (hunassigned ha).elim
        orderly := fun workerId node hw => orderly_of_queue_nil (hready workerId node hw).2.1
        named := fun _ _ _ ha => (hunassigned ha).elim }
    active := fun workerId node hw => (hready workerId node hw).1
    filed := fun _ _ _ ha => (hunassigned ha).elim
    held := fun _ _ hh => nomatch hh
    terms := fun ref => ⟨rfl, (hfresh ref).cancelled⟩
    untouched := fun ref _ => ⟨(hfresh ref).retryCount, rfl⟩
    standing := fun _ _ hj => nomatch hj }

-- What is promised about a routed job in every state: its place, its calls and how it ends.
structure Served (retries : Int) (c : Cluster) (jobId : JobId) (ref : JobRef) : Prop where
  owner : ¬Ended (c.state.heap ref) →
    ∃! workerId, ∃ job, AssignedAs c.state.workers workerId jobId job
  released : Ended (c.state.heap ref) → ∀ workerId job, ¬AssignedAs c.state.workers workerId jobId job
  calls : ((c.outcomes ref).length : Int) ≤ retries + 1
  -- Only the last call can have been a success, and it is followed by nothing but its report.
  success : true ∈ c.outcomes ref → (∃ count, c.outcomes ref = List.replicate count false ++ [true]) ∧
    ((c.state.heap ref).status = .completed ∨
      ∃ workerId result, c.hands workerId = .ran ref (.ok result))
  reported : ∀ workerId result now d, c.hands workerId = .ran ref (.ok result) →
    c.step (.reportOutcome workerId now) = some d → (d.state.heap ref).status = .completed
  completed : (c.state.heap ref).status = .completed → true ∈ c.outcomes ref
  failed : (c.state.heap ref).status = .failed →
    (∀ outcome ∈ c.outcomes ref, outcome = false) ∧ ((c.outcomes ref).length : Int) = retries + 1
  progress : ¬Ended (c.state.heap ref) →
    ∃ workerId act d, ClusterAction.worker? act = some workerId ∧ c.step act = some d

section Served

variable {heap : JobRef → Job} {c : Cluster} {jobId : JobId} {ref : JobRef}

theorem Standing.owner (h : Standing c jobId ref) (he : ¬Ended (c.state.heap ref)) :
    ∃ workerId, AssignedAs c.state.workers workerId jobId ref := by
  cases h with
  | waiting workerId owner => exact ⟨workerId, owner⟩
  | reporting workerId owner => exact ⟨workerId, owner⟩
  | completed _ status => exact absurd (.inl status) he
  | failed _ status => exact absurd (.inr status) he

theorem Standing.released (h : Standing c jobId ref) (he : Ended (c.state.heap ref))
    (workerId : WorkerId) : ¬AssignedAs c.state.workers workerId jobId ref := by
  cases h with
  | waiting _ _ _ live => exact absurd live he.not_live
  | reporting _ _ _ _ live => exact absurd live he.not_live
  | completed released => exact released workerId
  | failed released => exact released workerId

theorem Standing.calls_le (h : Standing c jobId ref) :
    ((c.outcomes ref).length : Int) ≤ (c.state.heap ref).retries + 1 := by
  cases h with
  | waiting _ _ _ _ budget record =>
      rw [record, List.length_replicate]
      omega
  | reporting _ _ _ _ _ budget record =>
      rw [record, List.length_append, List.length_replicate, List.length_singleton]
      omega
  | completed _ _ budget record =>
      rw [record, List.length_append, List.length_replicate, List.length_singleton]
      omega
  | failed _ _ budget record =>
      rw [record, List.length_replicate]
      omega

theorem Standing.success (h : Standing c jobId ref) (hm : true ∈ c.outcomes ref) :
    (∃ count, c.outcomes ref = List.replicate count false ++ [true]) ∧
      ((c.state.heap ref).status = .completed ∨
        ∃ workerId result, c.hands workerId = .ran ref (.ok result)) := by
  have hfalse (count : Nat) : true ∉ List.replicate count false := by
    intro hr
    have he := List.eq_of_mem_replicate hr
    cases he
  cases h with
  | waiting _ _ _ _ _ record => exact absurd (record ▸ hm) (hfalse _)
  | reporting workerId _ outcome place _ _ record =>
      cases outcome with
      | ok result => exact ⟨⟨_, record⟩, .inr ⟨workerId, result, place⟩⟩
      | error error =>
          rw [record, List.mem_append] at hm
          rcases hm with hm | hm
          · exact absurd hm (hfalse _)
          · cases List.mem_singleton.mp hm
  | completed _ status _ record => exact ⟨⟨_, record⟩, .inl status⟩
  | failed _ _ _ record => exact absurd (record ▸ hm) (hfalse _)

theorem Standing.of_failed (h : Standing c jobId ref) (hf : (c.state.heap ref).status = .failed) :
    (∀ outcome ∈ c.outcomes ref, outcome = false) ∧
      ((c.outcomes ref).length : Int) = (c.state.heap ref).retries + 1 := by
  have hended : Ended (c.state.heap ref) := .inr hf
  cases h with
  | waiting _ _ _ live => exact absurd live hended.not_live
  | reporting _ _ _ _ live => exact absurd live hended.not_live
  | completed _ status =>
      rw [hf] at status
      cases status
  | failed _ _ budget record =>
      rw [record, List.length_replicate]
      refine ⟨fun outcome ho => List.eq_of_mem_replicate ho, ?_⟩
      omega

theorem Standing.of_completed (h : Standing c jobId ref)
    (hf : (c.state.heap ref).status = .completed) : true ∈ c.outcomes ref := by
  have hended : Ended (c.state.heap ref) := .inl hf
  cases h with
  | waiting _ _ _ live => exact absurd live hended.not_live
  | reporting _ _ _ _ live => exact absurd live hended.not_live
  | completed _ _ _ record => simp [record]
  | failed _ status =>
      rw [hf] at status
      cases status

-- A worker with a job in its map has a step to take: about the job in its hand, or a fetch.
theorem ClusterInvariant.progress (h : ClusterInvariant heap c) (hs : Standing c jobId ref)
    (he : ¬Ended (c.state.heap ref)) :
    ∃ workerId act d, ClusterAction.worker? act = some workerId ∧ c.step act = some d := by
  have hand (workerId : WorkerId) (hne : c.hands workerId ≠ .idle) :
      ∃ act d, ClusterAction.worker? act = some workerId ∧ c.step act = some d := by
    cases hp : c.hands workerId with
    | idle => exact absurd hp hne
    | fetched job => exact ⟨.reportRunning workerId 0, _, rfl, by simp only [Cluster.step, hp]; rfl⟩
    | started job =>
        have hstep : c.step (.runTarget workerId (.ok "") 0) = some ({ c with
            outcomes := Function.update c.outcomes job (c.outcomes job ++ [true])
          }.setHand workerId (.ran job (.ok ""))) := by
          simp only [Cluster.step, hp, (h.terms job).2, Bool.false_eq_true, if_false]
          rfl
        exact ⟨_, _, rfl, hstep⟩
    | ran job outcome =>
        cases outcome with
        | ok result => exact ⟨.reportOutcome workerId 0, _, rfl, by simp only [Cluster.step, hp]; rfl⟩
        | error error => exact ⟨.reportOutcome workerId 0, _, rfl, by simp only [Cluster.step, hp]; rfl⟩
  cases hs with
  | waiting workerId _ place =>
      by_cases hidle : c.hands workerId = .idle
      · rcases place with ⟨node, hw, hq⟩ | hp | hp
        · cases hqueue : node.queue with
          | nil => rw [hqueue] at hq; cases hq
          | cons first rest =>
              have hstep : c.step (.fetchJob workerId) = some ({ c with
                  state := c.state.setNode workerId { node with queue := rest }
                }.setHand workerId (.fetched first)) := by
                simp only [Cluster.step, hidle, State.fetchJob, hw, hqueue]
              exact ⟨workerId, _, _, rfl, hstep⟩
        · rw [hidle] at hp
          cases hp
        · rw [hidle] at hp
          cases hp
      · exact ⟨workerId, hand workerId hidle⟩
  | reporting workerId _ _ place =>
      exact ⟨workerId, hand workerId fun hp => by rw [place] at hp; cases hp⟩
  | completed _ status => exact absurd (.inl status) he
  | failed _ status => exact absurd (.inr status) he

theorem ClusterInvariant.served (hretries : ∀ ref, 0 ≤ (heap ref).retries)
    (h : ClusterInvariant heap c) (hj : c.state.jobs.get? jobId = some ref) :
    Served (heap ref).retries c jobId ref := by
  have hs := h.standing jobId ref hj
  have hterms := (h.terms ref).1
  exact {
    owner := fun he => by
      obtain ⟨workerId, ha⟩ := hs.owner he
      refine ⟨workerId, ⟨ref, ha⟩, fun other hother => ?_⟩
      obtain ⟨job, hjob⟩ := hother
      exact h.oneWorker.unique _ _ _ _ _ hjob ha
    released := fun he workerId job ha => by
      obtain rfl := Option.some.inj ((h.filed _ _ _ ha).symm.trans hj)
      exact hs.released he workerId ha
    calls := hterms ▸ hs.calls_le
    success := hs.success
    reported := fun workerId result now d hp hstep => by
      have hd := h.step hretries hstep
      simp only [Cluster.step, hp] at hstep
      obtain rfl := Option.some.inj hstep
      have hid := h.keyed.registry jobId ref hj
      have hstanding := h.standing_completed hp now
      have hh : (c.hands workerId).job? = some ref := by rw [hp]; rfl
      obtain ⟨node, hw, hreg, _, _⟩ := h.holder hh
      rw [report_state .completed (some result) none now .idle hw hreg, State.applyReport_status]
      rfl
    completed := hs.of_completed
    failed := fun hf => hterms ▸ hs.of_failed hf
    progress := h.progress hs }

end Served

-- Whatever the interleaving of any number of workers: a routed job has one owner until it ends, is
-- called at most once more than its retries, and ends for good by its first success or by its last
-- failure.
theorem distributed_retries_complete (heap : JobRef → Job) (workers : Dict WorkerId WorkerNode)
    (hfresh : ∀ ref, (heap ref).Fresh) (hretries : ∀ ref, 0 ≤ (heap ref).retries)
    (hready : Ready workers) (acts : List ClusterAction) (c : Cluster)
    (hr : Run Cluster.step (.start heap workers) acts c) (jobId : JobId) (ref : JobRef)
    (hj : c.state.jobs.get? jobId = some ref) :
    Served (heap ref).retries c jobId ref ∧
      (Ended (c.state.heap ref) → ∀ later d, Run Cluster.step c later d →
        d.state.heap ref = c.state.heap ref ∧ d.outcomes ref = c.outcomes ref) := by
  have hinv : ClusterInvariant heap c := (clusterInvariant_start hfresh hready).run hretries hr
  exact ⟨hinv.served hretries hj, fun he later d hlater => hinv.run_ended hretries hlater hj he⟩

-- A job with one retry fails on its worker, is fetched again and then succeeds.
def clusterWorkers : Dict WorkerId WorkerNode :=
  Dict.empty.set "w1" { WorkerNode.init "w1" "node" [] .empty 0 with status := .active }

def flakyJob : Job :=
  Job.init (.callable "flaky") (Dict.empty.set "worker_id" "w1") "job-1" none 20 1 none none 0

def flakyRun : List ClusterAction :=
  [.submitJob 0 none, .fetchJob "w1", .reportRunning "w1" 1, .runTarget "w1" (.error "boom") 2,
    .reportOutcome "w1" 2, .fetchJob "w1", .reportRunning "w1" 3, .runTarget "w1" (.ok "done") 4,
    .reportOutcome "w1" 4]

theorem distributed_retry_succeeds : ∃ c,
    Run Cluster.step (.start (fun _ => flakyJob) clusterWorkers) flakyRun c ∧
      (c.state.heap 0).status = .completed ∧ c.outcomes 0 = [false, true] ∧
      ∀ workerId job, ¬AssignedAs c.state.workers workerId "job-1" job := by
  have hready : Ready clusterWorkers := by
    intro workerId node hw
    rw [clusterWorkers, Dict.get?_set] at hw
    split at hw
    · obtain rfl := Option.some.inj hw
      exact ⟨rfl, rfl, rfl⟩
    · cases hw
  have hr : Run Cluster.step (.start (fun _ => flakyJob) clusterWorkers) flakyRun _ := Run.of_foldlM rfl
  obtain ⟨hserved, _⟩ := distributed_retries_complete (fun _ => flakyJob) clusterWorkers
    (fun _ => Job.init_fresh ..) (fun _ => by decide) hready flakyRun _ hr "job-1" 0 rfl
  exact ⟨_, hr, rfl, rfl, hserved.released (.inl rfl)⟩

end YasinCore.Execution
