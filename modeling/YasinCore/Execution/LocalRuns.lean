import YasinCore.Library.Transition
import YasinCore.Execution.Conservation
import YasinCore.Execution.Absorption

namespace YasinCore.Execution

open YasinCore.Library

namespace Action

-- The steps of a client without distributed workers.
def Local : Action → Prop
  | .submitJob _ _ | .cancelJob _ _ => True
  | act => act.localJob?.isSome

def submitted? : Action → Option JobRef
  | .submitJob ref _ => some ref
  | _ => none

def started? : Action → Option JobRef
  | .startJob _ ref _ => some ref
  | _ => none

def failed? : Action → Option JobRef
  | .failJob _ ref _ => some ref
  | _ => none

end Action

def submissions (acts : List Action) : List JobRef := acts.filterMap Action.submitted?

-- How often the target of a job was called, and how many of these calls failed.
def runs (ref : JobRef) (acts : List Action) : Nat := (acts.filterMap Action.started?).count ref

def failures (ref : JobRef) (acts : List Action) : Nat := (acts.filterMap Action.failed?).count ref

-- A call that the job's retry_count does not account for yet.
def Hand.openRuns : Hand → Nat
  | .running _ | .failing _ _ => 1
  | _ => 0

def Hand.openFailures : Hand → Nat
  | .failing _ _ => 1
  | _ => 0

def Nowhere (s : State) (ref : JobRef) : Prop := s.queue.jobs.count ref = 0 ∧ ¬Held s ref

def QueuedOnce (s : State) (ref : JobRef) : Prop := s.queue.jobs.count ref = 1 ∧ ¬Held s ref

def HeldBy (s : State) (ref : JobRef) (thread : ThreadId) : Prop :=
  s.queue.jobs.count ref = 0 ∧ ∀ other, (s.hands other).job? = some ref ↔ other = thread

-- Where a job is, and what its counters say there. The past is the list of actions so far.
inductive Ledger (past : List Action) (s : State) (ref : JobRef) : Prop
  | unsubmitted (place : Nowhere s ref) (known : ref ∉ submissions past)
      (status : (s.heap ref).status = .pending) (retryCount : (s.heap ref).retryCount = 0)
      (ran : runs ref past = 0) (failed : failures ref past = 0)
  | queued (place : QueuedOnce s ref) (known : ref ∈ submissions past)
      (status : (s.heap ref).status ≠ .failed)
      (retries : ((s.heap ref).retryCount : Int) ≤ (s.heap ref).retries)
      (ran : runs ref past = (s.heap ref).retryCount)
      (failed : failures ref past = (s.heap ref).retryCount)
  | held (thread : ThreadId) (place : HeldBy s ref thread) (known : ref ∈ submissions past)
      (status : (s.heap ref).status ≠ .failed)
      (retries : ((s.heap ref).retryCount : Int) ≤ (s.heap ref).retries)
      (ran : runs ref past = (s.heap ref).retryCount + (s.hands thread).openRuns)
      (failed : failures ref past = (s.heap ref).retryCount + (s.hands thread).openFailures)
  | finished (place : Nowhere s ref) (known : ref ∈ submissions past) (status : Finished s ref)
      (ran : (runs ref past : Int) ≤ (s.heap ref).retries + 1)
      (failed : (s.heap ref).status = .failed →
        (failures ref past : Int) = (s.heap ref).retries + 1 ∧
          (runs ref past : Int) = (s.heap ref).retries + 1)

structure LocalInvariant (heap : JobRef → Job) (past : List Action) (s : State) : Prop where
  workers : s.workers = .empty
  registry : ∀ jobId ref, s.jobs.get? jobId = some ref → ref ∈ submissions past
  retries : ∀ ref, (s.heap ref).retries = (heap ref).retries
  ledger : ∀ ref, Ledger past s ref

section Counting

variable {past : List Action} {act : Action} {ref : JobRef}

theorem submissions_snoc : submissions (past ++ [act]) = submissions past ++ act.submitted?.toList := by
  cases h : act.submitted? <;> simp [submissions, h]

theorem runs_snoc : runs ref (past ++ [act]) = runs ref past + act.started?.toList.count ref := by
  cases h : act.started? <;> simp [runs, h]

theorem failures_snoc :
    failures ref (past ++ [act]) = failures ref past + act.failed?.toList.count ref := by
  cases h : act.failed? <;> simp [failures, h]

end Counting

section Frame

variable {past : List Action} {s t : State} {act : Action} {ref : JobRef}

-- What is said about a job stays true when neither its record, nor its places, nor its counts change.
theorem Ledger.frame (h : Ledger past s ref) (hheap : t.heap ref = s.heap ref)
    (hqueue : t.queue.jobs.count ref = s.queue.jobs.count ref)
    (hhands : ∀ thread, (t.hands thread).job? = some ref ↔ (s.hands thread).job? = some ref)
    (hsame : ∀ thread, (s.hands thread).job? = some ref → t.hands thread = s.hands thread)
    (hsubmitted : act.submitted? ≠ some ref) (hstarted : act.started? ≠ some ref)
    (hfailed : act.failed? ≠ some ref) : Ledger (past ++ [act]) t ref := by
  have hheld : Held t ref ↔ Held s ref := exists_congr hhands
  have hmem : ref ∈ submissions (past ++ [act]) ↔ ref ∈ submissions past := by
    simp [submissions_snoc, hsubmitted]
  have hruns : runs ref (past ++ [act]) = runs ref past := by
    have hc : act.started?.toList.count ref = 0 := List.count_eq_zero.mpr (by simpa using hstarted)
    rw [runs_snoc, hc, Nat.add_zero]
  have hfails : failures ref (past ++ [act]) = failures ref past := by
    have hc : act.failed?.toList.count ref = 0 := List.count_eq_zero.mpr (by simpa using hfailed)
    rw [failures_snoc, hc, Nat.add_zero]
  cases h with
  | unsubmitted place hpast status retryCount hr hf =>
      refine .unsubmitted ⟨?_, ?_⟩ ?_ ?_ ?_ ?_ ?_
      · rw [hqueue, place.1]
      · rw [hheld]; exact place.2
      · rwa [hmem]
      · rwa [hheap]
      · rwa [hheap]
      · rwa [hruns]
      · rwa [hfails]
  | queued place hpast status retries hr hf =>
      refine .queued ⟨?_, ?_⟩ ?_ ?_ ?_ ?_ ?_
      · rw [hqueue, place.1]
      · rw [hheld]; exact place.2
      · rwa [hmem]
      · rwa [hheap]
      · rwa [hheap]
      · rwa [hruns, hheap]
      · rwa [hfails, hheap]
  | held thread place hpast status retries hr hf =>
      have hhand := hsame thread ((place.2 thread).mpr rfl)
      refine .held thread ⟨?_, fun other => (hhands other).trans (place.2 other)⟩ ?_ ?_ ?_ ?_ ?_
      · rw [hqueue, place.1]
      · rwa [hmem]
      · rwa [hheap]
      · rwa [hheap]
      · rwa [hruns, hheap, hhand]
      · rwa [hfails, hheap, hhand]
  | finished place hpast status hr hf =>
      refine .finished ⟨?_, ?_⟩ ?_ ?_ ?_ ?_
      · rw [hqueue, place.1]
      · rw [hheld]; exact place.2
      · rwa [hmem]
      · rwa [Finished, hheap]
      · rwa [hruns, hheap]
      · rwa [hfails, hruns, hheap]

-- A thread that holds a job holds it alone, and the counters are those of its hand.
theorem Ledger.of_hand {thread : ThreadId} (h : Ledger past s ref)
    (hh : (s.hands thread).job? = some ref) :
    HeldBy s ref thread ∧ ref ∈ submissions past ∧ (s.heap ref).status ≠ .failed ∧
      ((s.heap ref).retryCount : Int) ≤ (s.heap ref).retries ∧
      runs ref past = (s.heap ref).retryCount + (s.hands thread).openRuns ∧
      failures ref past = (s.heap ref).retryCount + (s.hands thread).openFailures := by
  have hheld : Held s ref := ⟨thread, hh⟩
  cases h with
  | unsubmitted place _ _ _ _ _ => exact absurd hheld place.2
  | queued place _ _ _ _ _ => exact absurd hheld place.2
  | held other place hpast status retries hr hf =>
      obtain rfl := (place.2 thread).mp hh
      exact ⟨place, hpast, status, retries, hr, hf⟩
  | finished place _ _ _ _ => exact absurd hheld place.2

theorem LocalStep.other {thread : ThreadId} {other : JobRef} (h : LocalStep s t thread ref)
    (hne : other ≠ ref) (hl : Ledger past s other)
    (hsubmitted : act.submitted? ≠ some other) (hstarted : act.started? ≠ some other)
    (hfailed : act.failed? ≠ some other) : Ledger (past ++ [act]) t other := by
  refine hl.frame (h.heap other hne) (h.queue other hne) (fun thread' => ?_) (fun thread' hh => ?_)
    hsubmitted hstarted hfailed
  · by_cases he : thread' = thread
    · subst he
      exact iff_of_false (fun hc => hne (h.hand' other hc)) fun hc => hne (h.hand other hc)
    · rw [h.hands thread' he]
  · refine h.hands thread' ?_
    rintro rfl
    exact hne (h.hand other hh)

end Frame

section OwnStep

variable {past : List Action} {s t : State} {act : Action} {thread : ThreadId} {ref : JobRef}

-- The holder of a job moves on and keeps it, or lets go of it.
theorem HeldBy.keep (h : HeldBy s ref thread) (hl : LocalStep s t thread ref)
    (hq : t.queue = s.queue) (hh : (t.hands thread).job? = some ref) : HeldBy t ref thread := by
  refine ⟨by rw [hq, h.1], fun other => ?_⟩
  by_cases ho : other = thread
  · subst ho
    exact iff_of_true hh rfl
  · rw [hl.hands other ho]
    exact h.2 other

theorem HeldBy.drop (h : HeldBy s ref thread) (hl : LocalStep s t thread ref)
    (hh : (t.hands thread).job? = none) : ¬Held t ref := by
  rintro ⟨other, ho⟩
  by_cases he : other = thread
  · rw [he, hh] at ho
    cases ho
  · rw [hl.hands other he] at ho
    exact he ((h.2 other).mp ho)

-- A job that is taken from the queue was there once and in nobody's hand.
theorem Ledger.dequeue (h : Ledger past s ref) (hs : s.dequeue thread ref = some t) :
    Ledger (past ++ [.dequeue thread ref]) t ref := by
  have hl := State.localStep_dequeue hs
  obtain ⟨hi, rest, hq, rfl⟩ := State.dequeue_eq hs
  have hcount : s.queue.jobs.count ref = rest.jobs.count ref + 1 := by
    rw [(JobQueue.getNowait_perm hq).count_eq ref, List.count_cons_self]
  cases h with
  | unsubmitted place _ _ _ _ _ => exact absurd (place.1.symm.trans hcount) (by omega)
  | held _ place _ _ _ _ _ => exact absurd (place.1.symm.trans hcount) (by omega)
  | finished place _ _ _ _ => exact absurd (place.1.symm.trans hcount) (by omega)
  | queued place known status retries ran failed =>
      refine .held thread ⟨?_, fun other => ?_⟩ ?_ status retries ?_ ?_
      · have hzero : rest.jobs.count ref = 0 := by
          have hone := place.1
          omega
        exact hzero
      · by_cases ho : other = thread
        · subst ho
          exact iff_of_true (by simp [State.setHand_hands, Hand.job?]) rfl
        · rw [hl.hands other ho]
          exact iff_of_false (fun hc => place.2 ⟨other, hc⟩) ho
      · simpa [submissions_snoc, Action.submitted?] using known
      · simpa [runs_snoc, Action.started?, State.setHand_hands, Hand.openRuns] using ran
      · simpa [failures_snoc, Action.failed?, State.setHand_hands, Hand.openFailures] using failed

theorem Ledger.checkCancelled {now : Time} (h : Ledger past s ref)
    (hs : step s (.checkCancelled thread ref now) = some t) :
    Ledger (past ++ [.checkCancelled thread ref now]) t ref := by
  have hl := State.localStep_of_step hs rfl
  obtain ⟨hi, hcases⟩ := State.checkCancelled_eq hs
  obtain ⟨place, known, status, retries, ran, failed⟩ := h.of_hand (by rw [hi, Hand.job?])
  rw [hi] at ran failed
  rcases hcases with ⟨_, rfl⟩ | ⟨_, rfl⟩
  · refine .finished ⟨place.1, place.drop hl ?_⟩ ?_ ?_ ?_ ?_
    · simp [State.setHand_hands, Hand.job?]
    · simpa [submissions_snoc, Action.submitted?] using known
    · simp [Finished, JobStatus.Terminal]
    · have hr : runs ref past = (s.heap ref).retryCount := ran
      simp [runs_snoc, Action.started?, hr]
      omega
    · simp
  · refine .held thread (place.keep hl rfl ?_) ?_ status retries ?_ ?_
    · simp [State.setHand_hands, Hand.job?]
    · simpa [submissions_snoc, Action.submitted?] using known
    · simpa [runs_snoc, Action.started?, State.setHand_hands, Hand.openRuns] using ran
    · simpa [failures_snoc, Action.failed?, State.setHand_hands, Hand.openFailures] using failed

theorem Ledger.startJob {now : Time} (h : Ledger past s ref)
    (hs : step s (.startJob thread ref now) = some t) :
    Ledger (past ++ [.startJob thread ref now]) t ref := by
  have hl := State.localStep_of_step hs rfl
  obtain ⟨hi, rfl⟩ := State.startJob_eq hs
  obtain ⟨place, known, status, retries, ran, failed⟩ := h.of_hand (by rw [hi, Hand.job?])
  rw [hi] at ran failed
  refine .held thread (place.keep hl rfl ?_) ?_ ?_ ?_ ?_ ?_
  · simp [State.setHand_hands, Hand.job?]
  · simpa [submissions_snoc, Action.submitted?] using known
  · simp
  · simpa using retries
  · simpa [runs_snoc, Action.started?, State.setHand_hands, Hand.openRuns] using ran
  · simpa [failures_snoc, Action.failed?, State.setHand_hands, Hand.openFailures] using failed

theorem Ledger.succeedJob {result : String} {now : Time} (h : Ledger past s ref)
    (hs : step s (.succeedJob thread ref result now) = some t) :
    Ledger (past ++ [.succeedJob thread ref result now]) t ref := by
  have hl := State.localStep_of_step hs rfl
  obtain ⟨hi, rfl⟩ := State.succeedJob_eq hs
  obtain ⟨place, known, status, retries, ran, failed⟩ := h.of_hand (by rw [hi, Hand.job?])
  rw [hi] at ran
  refine .finished ⟨place.1, place.drop hl ?_⟩ ?_ ?_ ?_ ?_
  · simp [State.setHand_hands, Hand.job?]
  · simpa [submissions_snoc, Action.submitted?] using known
  · simp [Finished, JobStatus.Terminal]
  · have hr : runs ref past = (s.heap ref).retryCount + 1 := ran
    simp [runs_snoc, Action.started?, hr]
    omega
  · simp

theorem Ledger.failJob {error : String} (h : Ledger past s ref)
    (hs : step s (.failJob thread ref error) = some t) :
    Ledger (past ++ [.failJob thread ref error]) t ref := by
  have hl := State.localStep_of_step hs rfl
  obtain ⟨hi, rfl⟩ := State.failJob_eq hs
  obtain ⟨place, known, status, retries, ran, failed⟩ := h.of_hand (by rw [hi, Hand.job?])
  rw [hi] at ran failed
  refine .held thread (place.keep hl rfl ?_) ?_ status retries ?_ ?_
  · simp [State.setHand_hands, Hand.job?]
  · simpa [submissions_snoc, Action.submitted?] using known
  · simpa [runs_snoc, Action.started?, State.setHand_hands, Hand.openRuns] using ran
  · simpa [failures_snoc, Action.failed?, State.setHand_hands, Hand.openFailures] using failed

-- A failure is either absorbed by the retry count or, when the count has run out, final.
theorem Ledger.handleFailure {error : String} {now : Time} (h : Ledger past s ref)
    (hs : step s (.handleFailure thread ref error now) = some t) :
    Ledger (past ++ [.handleFailure thread ref error now]) t ref := by
  have hl := State.localStep_of_step hs rfl
  obtain ⟨hi, hcases⟩ := State.handleFailure_eq hs
  obtain ⟨place, known, status, retries, ran, failed⟩ := h.of_hand (by rw [hi, Hand.job?])
  rw [hi] at ran failed
  have hr : runs ref past = (s.heap ref).retryCount + 1 := ran
  have hf : failures ref past = (s.heap ref).retryCount + 1 := failed
  rcases hcases with ⟨hretry, rfl⟩ | ⟨hretry, rfl⟩
  · unfold Job.CanRetry at hretry
    refine .held thread (place.keep hl rfl ?_) ?_ ?_ ?_ ?_ ?_
    · simp [State.setHand_hands, Hand.job?]
    · simpa [submissions_snoc, Action.submitted?] using known
    · simp
    · simp
      omega
    · simpa [runs_snoc, Action.started?, State.setHand_hands, Hand.openRuns] using hr
    · simpa [failures_snoc, Action.failed?, State.setHand_hands, Hand.openFailures] using hf
  · unfold Job.CanRetry at hretry
    refine .finished ⟨place.1, place.drop hl ?_⟩ ?_ ?_ ?_ ?_
    · simp [State.setHand_hands, Hand.job?]
    · simpa [submissions_snoc, Action.submitted?] using known
    · simp [Finished, JobStatus.Terminal]
    · simp [runs_snoc, Action.started?, hr]
      omega
    · simp [runs_snoc, failures_snoc, Action.started?, Action.failed?, hr, hf]
      omega

theorem Ledger.requeue (h : Ledger past s ref) (hs : step s (.requeue thread ref) = some t) :
    Ledger (past ++ [.requeue thread ref]) t ref := by
  have hl := State.localStep_of_step hs rfl
  obtain ⟨hi, rfl⟩ := State.requeue_eq hs
  obtain ⟨place, known, status, retries, ran, failed⟩ := h.of_hand (by rw [hi, Hand.job?])
  rw [hi] at ran failed
  refine .queued ⟨?_, place.drop hl ?_⟩ ?_ status retries ?_ ?_
  · simp [List.count_append, place.1]
  · simp [State.setHand_hands, Hand.job?]
  · simpa [submissions_snoc, Action.submitted?] using known
  · simpa [runs_snoc, Action.started?, Hand.openRuns] using ran
  · simpa [failures_snoc, Action.failed?, Hand.openFailures] using failed

theorem Ledger.localStep (h : ∀ other, Ledger past s other) (hs : step s act = some t)
    (hl : act.localJob? = some (thread, ref)) (other : JobRef) : Ledger (past ++ [act]) t other := by
  have hlocal := State.localStep_of_step hs hl
  by_cases ho : other = ref
  · subst ho
    cases act with
    | dequeue =>
        obtain ⟨rfl, rfl⟩ := Prod.mk.inj (Option.some.inj hl)
        exact (h _).dequeue hs
    | checkCancelled =>
        obtain ⟨rfl, rfl⟩ := Prod.mk.inj (Option.some.inj hl)
        exact (h _).checkCancelled hs
    | startJob =>
        obtain ⟨rfl, rfl⟩ := Prod.mk.inj (Option.some.inj hl)
        exact (h _).startJob hs
    | succeedJob =>
        obtain ⟨rfl, rfl⟩ := Prod.mk.inj (Option.some.inj hl)
        exact (h _).succeedJob hs
    | failJob =>
        obtain ⟨rfl, rfl⟩ := Prod.mk.inj (Option.some.inj hl)
        exact (h _).failJob hs
    | handleFailure =>
        obtain ⟨rfl, rfl⟩ := Prod.mk.inj (Option.some.inj hl)
        exact (h _).handleFailure hs
    | requeue =>
        obtain ⟨rfl, rfl⟩ := Prod.mk.inj (Option.some.inj hl)
        exact (h _).requeue hs
    | submitJob | cancelJob | registerWorker | unregisterWorker | sendHeartbeat | assignJob
    | assignJobByCapability | fetchJob | reportJobStatus | monitorWorkers => cases hl
  · refine hlocal.other ho (h other) ?_ ?_ ?_ <;> cases act <;>
      simp_all [Action.localJob?, Action.submitted?, Action.started?, Action.failed?, eq_comm]

end OwnStep

-- Without workers a new job always ends up in the central queue.
theorem submitJob_local {s : State} (hw : s.workers = .empty) (ref : JobRef)
    (context : Option String) : s.submitJob ref context =
      ((s.registerJob ref context).putQueue ref).publishJob "job_queued" ref := by
  have hr : (s.registerJob ref context).routeToWorker ref = none := by
    have hl : (s.registerJob ref context).listWorkers none = [] := by
      simp [State.listWorkers, State.registerJob, hw, Dict.values, Dict.empty]
    simp [State.routeToWorker, hl]
  simp [State.submitJob, hr]

theorem cancelJob_retries (s : State) (jobId : JobId) (now : Time) (ref : JobRef) :
    ((s.cancelJob jobId now).2.heap ref).retries = (s.heap ref).retries := by
  unfold State.cancelJob
  split
  · rfl
  · rename_i job _
    by_cases ht : (s.heap job).status.Terminal
    · by_cases he : ref = job <;> simp [Job.cancel_of_terminal ht, State.updateJob_heap, he]
    · by_cases he : ref = job <;> simp [Job.cancel_of_not_terminal ht, State.updateJob_heap, he]

section ClientStep

variable {past : List Action} {s t : State}

theorem Ledger.submitJob {ref : JobRef} {context : Option String} (hw : s.workers = .empty)
    (hnew : ref ∉ submissions past) (hretries : 0 ≤ (s.heap ref).retries)
    (h : ∀ other, Ledger past s other) (other : JobRef) :
    Ledger (past ++ [.submitJob ref context]) (s.submitJob ref context) other := by
  rw [submitJob_local hw]
  by_cases ho : other = ref
  · subst ho
    cases h other with
    | queued _ known _ _ _ _ => exact absurd known hnew
    | held _ _ known _ _ _ _ => exact absurd known hnew
    | finished _ known _ _ _ => exact absurd known hnew
    | unsubmitted place _ _ retryCount ran failed =>
        refine .queued ⟨?_, place.2⟩ ?_ ?_ ?_ ?_ ?_
        · have hq : s.queue.jobs.count other = 0 := place.1
          simp [State.registerJob, hq]
        · simp [submissions_snoc, Action.submitted?]
        · simp [State.registerJob]
        · simpa [State.registerJob, retryCount] using hretries
        · simp [runs_snoc, Action.started?, State.registerJob, ran, retryCount]
        · simp [failures_snoc, Action.failed?, State.registerJob, failed, retryCount]
  · refine (h other).frame ?_ ?_ (fun _ => Iff.rfl) (fun _ _ => rfl) ?_ ?_ ?_
    · simp [State.registerJob, State.updateJob_heap, ho]
    · simp [State.registerJob, List.count_append, Ne.symm ho]
    · simpa [Action.submitted?] using Ne.symm ho
    · simp [Action.started?]
    · simp [Action.failed?]

-- A cancellation marks the job where it is.
theorem Ledger.cancelJob {jobId : JobId} {now : Time}
    (hreg : ∀ ref, s.jobs.get? jobId = some ref → ref ∈ submissions past)
    (h : ∀ other, Ledger past s other) (other : JobRef) :
    Ledger (past ++ [.cancelJob jobId now]) (s.cancelJob jobId now).2 other := by
  have hsame (hheap : (s.cancelJob jobId now).2.heap other = s.heap other)
      (hrest : (s.cancelJob jobId now).2.queue = s.queue ∧
        (s.cancelJob jobId now).2.hands = s.hands) :
      Ledger (past ++ [.cancelJob jobId now]) (s.cancelJob jobId now).2 other := by
    refine (h other).frame hheap (by rw [hrest.1]) (fun _ => by rw [hrest.2])
      (fun _ _ => by rw [hrest.2]) ?_ ?_ ?_ <;>
      simp [Action.submitted?, Action.started?, Action.failed?]
  cases hj : s.jobs.get? jobId with
  | none =>
      have he : (s.cancelJob jobId now).2 = s := by simp [State.cancelJob, State.getJob, hj]
      exact hsame (by rw [he]) (by rw [he]; exact ⟨rfl, rfl⟩)
  | some ref =>
      by_cases ht : (s.heap ref).status.Terminal
      · have he : (s.cancelJob jobId now).2 = s.updateJob ref fun _ => s.heap ref := by
          simp [State.cancelJob, State.getJob, hj, Job.cancel_of_terminal ht]
        refine hsame ?_ (by rw [he]; exact ⟨rfl, rfl⟩)
        simp [he, State.updateJob]
      · have he : (s.cancelJob jobId now).2 = (s.updateJob ref fun job =>
            { job with cancelled := true, status := .cancelled, completedAt := some now }).publishJob
              "job_cancelled" ref := by
          simp [State.cancelJob, State.getJob, hj, Job.cancel_of_not_terminal ht, State.updateJob]
        by_cases ho : other = ref
        · subst ho
          have known := hreg other hj
          rw [he]
          have hmem : other ∈ submissions (past ++ [.cancelJob jobId now]) := by
            simpa [submissions_snoc, Action.submitted?] using known
          have hruns : runs other (past ++ [.cancelJob jobId now]) = runs other past := by
            simp [runs_snoc, Action.started?]
          have hfails : failures other (past ++ [.cancelJob jobId now]) = failures other past := by
            simp [failures_snoc, Action.failed?]
          cases h other with
          | unsubmitted _ hn _ _ _ _ => exact absurd known hn
          | finished _ _ status _ _ => exact absurd status ht
          | queued place _ _ retries ran failed =>
              refine .queued place hmem (by simp) (by simpa using retries) ?_ ?_
              · simpa [hruns] using ran
              · simpa [hfails] using failed
          | held thread place _ _ retries ran failed =>
              refine .held thread place hmem (by simp) (by simpa using retries) ?_ ?_
              · simpa [hruns] using ran
              · simpa [hfails] using failed
        · refine hsame ?_ (by rw [he]; exact ⟨rfl, rfl⟩)
          simp [he, State.updateJob_heap, ho]

end ClientStep

section Runs

variable {heap : JobRef → Job}

theorem localInvariant_start (hfresh : ∀ ref, (heap ref).Fresh) :
    LocalInvariant heap [] (State.start heap) where
  workers := rfl
  registry := by simp [State.start]
  retries _ := rfl
  ledger ref := by
    have hnone : ¬Held (State.start heap) ref := by simp [Held, State.start, Hand.job?]
    exact .unsubmitted ⟨rfl, hnone⟩ (by simp [submissions]) (hfresh ref).status (hfresh ref).retryCount
      rfl rfl

-- The client submits the job objects it has not submitted yet.
def SubmitsNew (past : List Action) (act : Action) : Prop :=
  ∀ ref, act.submitted? = some ref → ref ∉ submissions past

theorem LocalInvariant.step {past : List Action} {s t : State} {act : Action}
    (h : LocalInvariant heap past s) (hretries : ∀ ref, 0 ≤ (heap ref).retries) (hlocal : act.Local)
    (hnew : SubmitsNew past act) (hs : step s act = some t) : LocalInvariant heap (past ++ [act]) t := by
  cases hl : act.localJob? with
  | some pair =>
      have hstep := State.localStep_of_step hs hl
      have hknown : submissions (past ++ [act]) = submissions past := by
        rw [submissions_snoc]
        cases act <;> simp_all [Action.localJob?, Action.submitted?]
      refine ⟨hstep.workers.trans h.workers, ?_, fun ref => ?_, Ledger.localStep h.ledger hs hl⟩
      · rw [hstep.jobs, hknown]
        exact h.registry
      · by_cases he : ref = pair.2
        · rw [he, hstep.retries, h.retries]
        · rw [hstep.heap ref he, h.retries]
  | none =>
      cases act with
      | submitJob ref context =>
          obtain rfl := Option.some.inj hs
          refine ⟨?_, fun jobId other hj => ?_, fun other => ?_, ?_⟩
          · rw [submitJob_local h.workers]
            exact h.workers
          · simp only [submitJob_local h.workers, State.publishJob_jobs, State.putQueue_jobs,
              State.registerJob, State.updateJob_jobs, Dict.get?_set] at hj
            rw [submissions_snoc, Action.submitted?, Option.toList_some, List.mem_append,
              List.mem_singleton]
            split at hj
            · exact .inr (Option.some.inj hj).symm
            · exact .inl (h.registry jobId other hj)
          · rw [submitJob_local h.workers, ← h.retries other]
            by_cases ho : other = ref <;> simp [State.registerJob, State.updateJob_heap, ho]
          · exact Ledger.submitJob h.workers (hnew ref rfl) (by rw [h.retries]; exact hretries ref) h.ledger
      | cancelJob jobId now =>
          obtain rfl := Option.some.inj hs
          have hframe : (s.cancelJob jobId now).2.workers = s.workers ∧
              (s.cancelJob jobId now).2.jobs = s.jobs := by
            unfold State.cancelJob
            split
            · exact ⟨rfl, rfl⟩
            · dsimp only
              split <;> exact ⟨rfl, rfl⟩
          refine ⟨hframe.1.trans h.workers, fun id other hj => ?_, fun other => ?_,
            Ledger.cancelJob (h.registry jobId) h.ledger⟩
          · rw [hframe.2] at hj
            simpa [submissions_snoc, Action.submitted?] using h.registry id other hj
          · rw [← h.retries other]
            exact cancelJob_retries ..
      | registerWorker | unregisterWorker | sendHeartbeat | assignJob | assignJobByCapability
      | fetchJob | reportJobStatus | monitorWorkers => simp [Action.Local, Action.localJob?] at hlocal
      | dequeue | checkCancelled | startJob | succeedJob | failJob | handleFailure | requeue => cases hl

-- The invariant along a run, as long as no job object is submitted twice.
theorem localInvariant_run (hfresh : ∀ ref, (heap ref).Fresh) (hretries : ∀ ref, 0 ≤ (heap ref).retries)
    {acts : List Action} {s : State} (hr : Run step (State.start heap) acts s)
    (hlocal : ∀ act ∈ acts, act.Local) (honce : (submissions acts).Nodup) :
    LocalInvariant heap acts s := by
  have hmeets : Meets step (fun _ act => act.Local) (State.start heap) acts :=
    .of_forall fun act ha _ => hlocal act ha
  have hstart : (submissions []).Nodup → LocalInvariant heap [] (State.start heap) :=
    fun _ => localInvariant_start hfresh
  refine Run.history_invariant
    (fun past t => (submissions past).Nodup → LocalInvariant heap past t) ?_ hr hmeets hstart honce
  intro past t act u hinv hact hs hnodup
  rw [submissions_snoc, List.nodup_append] at hnodup
  obtain ⟨hpast, _, hdisjoint⟩ := hnodup
  refine (hinv hpast).step hretries hact (fun ref href hmem => ?_) hs
  exact hdisjoint ref hmem ref (by simp [href]) rfl

end Runs

-- At most one queue entry or one holder, and never both.
structure AtMostOnePlace (s : State) (ref : JobRef) : Prop where
  queued : s.queue.jobs.count ref ≤ 1
  held : ∀ thread other, (s.hands thread).job? = some ref → (s.hands other).job? = some ref →
    thread = other
  exclusive : ref ∈ s.queue.jobs → ¬Held s ref

theorem Ledger.atMostOnePlace {past : List Action} {s : State} {ref : JobRef}
    (h : Ledger past s ref) : AtMostOnePlace s ref := by
  have hnowhere (place : Nowhere s ref) : AtMostOnePlace s ref :=
    ⟨by rw [place.1]; omega, fun thread _ ht _ => absurd ⟨thread, ht⟩ place.2, fun _ => place.2⟩
  cases h with
  | unsubmitted place _ _ _ _ _ => exact hnowhere place
  | finished place _ _ _ _ => exact hnowhere place
  | queued place _ _ _ _ _ =>
      exact ⟨place.1.le, fun thread _ ht _ => absurd ⟨thread, ht⟩ place.2, fun _ => place.2⟩
  | held thread place _ _ _ _ _ =>
      refine ⟨by rw [place.1]; omega, fun first second hf hs => ?_, fun hq => ?_⟩
      · exact ((place.2 first).mp hf).trans ((place.2 second).mp hs).symm
      · exact absurd place.1 (List.count_pos_iff.mpr hq).ne'

-- A submitted job that is neither queued nor held is finished.
theorem Ledger.finished_of_nowhere {past : List Action} {s : State} {ref : JobRef}
    (h : Ledger past s ref) (hknown : ref ∈ submissions past) (hn : Nowhere s ref) :
    Finished s ref := by
  cases h with
  | unsubmitted _ known _ _ _ _ => exact absurd hknown known
  | queued place _ _ _ _ _ => exact absurd (place.1.symm.trans hn.1) one_ne_zero
  | held thread place _ _ _ _ _ => exact absurd ⟨thread, (place.2 thread).mpr rfl⟩ hn.2
  | finished _ _ status _ _ => exact status

theorem Ledger.runs_le {past : List Action} {s : State} {ref : JobRef} (h : Ledger past s ref)
    (hretries : 0 ≤ (s.heap ref).retries) : (runs ref past : Int) ≤ (s.heap ref).retries + 1 := by
  cases h with
  | unsubmitted _ _ _ _ ran _ => omega
  | queued _ _ _ _ ran _ => omega
  | held thread _ _ _ _ ran _ =>
      have hone : (s.hands thread).openRuns ≤ 1 := by
        cases s.hands thread <;> simp [Hand.openRuns]
      omega
  | finished _ _ _ ran _ => exact ran

theorem Ledger.of_failed {past : List Action} {s : State} {ref : JobRef} (h : Ledger past s ref)
    (hf : (s.heap ref).status = .failed) :
    (failures ref past : Int) = (s.heap ref).retries + 1 ∧
      (runs ref past : Int) = (s.heap ref).retries + 1 := by
  cases h with
  | unsubmitted _ _ status _ _ _ => simp [status] at hf
  | queued _ _ status _ _ _ => exact absurd hf status
  | held _ _ _ status _ _ _ => exact absurd hf status
  | finished _ _ _ _ failed => exact failed hf

-- Local execution conserves jobs and bounds the attempts, whatever the interleaving of the threads.
theorem local_execution_conserves (heap : JobRef → Job) (hfresh : ∀ ref, (heap ref).Fresh)
    (hretries : ∀ ref, 0 ≤ (heap ref).retries) (acts : List Action) (s : State)
    (hlocal : ∀ act ∈ acts, act.Local) (honce : (submissions acts).Nodup)
    (hr : Run step (State.start heap) acts s) (ref : JobRef) :
    AtMostOnePlace s ref ∧
      (ref ∈ submissions acts → Nowhere s ref → (s.heap ref).status.Terminal) ∧
      (runs ref acts : Int) ≤ (heap ref).retries + 1 ∧
      ((s.heap ref).status = .failed →
        (failures ref acts : Int) = (heap ref).retries + 1 ∧
          (runs ref acts : Int) = (heap ref).retries + 1) := by
  have hinv := localInvariant_run hfresh hretries hr hlocal honce
  have hledger := hinv.ledger ref
  have hsame := hinv.retries ref
  refine ⟨hledger.atMostOnePlace, hledger.finished_of_nowhere, ?_, fun hf => ?_⟩
  · rw [← hsame]
    exact hledger.runs_le (by rw [hsame]; exact hretries ref)
  · rw [← hsame]
    exact hledger.of_failed hf

-- A job with one retry fails on two threads in turn and is then given up.
def retriedJob : Job := Job.init (.callable "flaky") .empty "job-1" none 20 1 none none 0

def retriedRun : List Action :=
  [.submitJob 0 none, .dequeue 0 0, .checkCancelled 0 0 1, .startJob 0 0 1, .failJob 0 0 "boom",
    .handleFailure 0 0 "boom" 2, .requeue 0 0, .dequeue 1 0, .checkCancelled 1 0 3, .startJob 1 0 3,
    .failJob 1 0 "boom", .handleFailure 1 0 "boom" 4]

theorem local_execution_gives_up :
    ∃ s, Run step (State.start fun _ => retriedJob) retriedRun s ∧ AtMostOnePlace s 0 ∧
      (s.heap 0).status = .failed ∧ failures 0 retriedRun = 2 := by
  have hr : Run step (State.start fun _ => retriedJob) retriedRun _ := Run.of_foldlM rfl
  obtain ⟨hplace, _, _, hfailed⟩ := local_execution_conserves (fun _ => retriedJob)
    (fun _ => Job.init_fresh ..) (fun _ => by decide) retriedRun _
    (by simp [retriedRun, Action.Local, Action.localJob?]) (by decide) hr 0
  have htwo : retriedJob.retries + 1 = 2 := rfl
  exact ⟨_, hr, hplace, rfl, by exact_mod_cast (hfailed rfl).1.trans htwo⟩

end YasinCore.Execution
