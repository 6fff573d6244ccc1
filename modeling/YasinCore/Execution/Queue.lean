import YasinCore.Execution.Models

namespace YasinCore.Execution

-- Jobs are objects shared by reference between the registry, the queues and the workers.
abbrev JobRef := Nat

structure QueueItem where
  negPriority : Int
  createdAt : Time
  counter : Nat
  job : JobRef
  deriving DecidableEq

-- The order of the queue's tuples; two items never share a counter, so jobs are not compared.
def QueueItem.before (left right : QueueItem) : Bool :=
  left.negPriority < right.negPriority ||
    (left.negPriority = right.negPriority && (left.createdAt < right.createdAt ||
      (left.createdAt = right.createdAt && left.counter < right.counter)))

structure JobQueue where
  items : List QueueItem
  counter : Nat
  deriving DecidableEq

namespace JobQueue

def empty : JobQueue := ⟨[], 0⟩

def jobs (queue : JobQueue) : List JobRef := queue.items.map QueueItem.job

def put (queue : JobQueue) (ref : JobRef) (job : Job) : JobQueue where
  items := queue.items ++ [⟨-job.priority, job.createdAt, queue.counter + 1, ref⟩]
  counter := queue.counter + 1

def least (best : QueueItem) : List QueueItem → QueueItem
  | [] => best
  | item :: rest => if item.before best then least item rest else least best rest

def getNowait (queue : JobQueue) : Option (JobRef × JobQueue) :=
  match queue.items with
  | [] => none
  | first :: rest =>
      let item := least first rest
      some (item.job, { queue with items := queue.items.erase item })

@[simp] theorem jobs_empty : empty.jobs = [] := rfl

@[simp] theorem jobs_put (queue : JobQueue) (ref : JobRef) (job : Job) :
    (queue.put ref job).jobs = queue.jobs ++ [ref] := by
  simp [jobs, put]

theorem least_mem (best : QueueItem) (items : List QueueItem) : least best items ∈ best :: items := by
  induction items generalizing best with
  | nil => exact List.mem_singleton_self _
  | cons item rest ih =>
      simp only [least]
      split
      · exact List.mem_cons_of_mem _ (ih item)
      · rcases List.mem_cons.mp (ih best) with h | h
        · exact List.mem_cons.mpr (.inl h)
        · exact List.mem_cons_of_mem _ (List.mem_cons_of_mem _ h)

-- Taking a job removes exactly one entry, and that entry is the job's.
theorem getNowait_perm {queue rest : JobQueue} {ref : JobRef}
    (h : queue.getNowait = some (ref, rest)) : queue.jobs.Perm (ref :: rest.jobs) := by
  unfold getNowait at h
  split at h
  · cases h
  · rename_i first items he
    obtain ⟨rfl, rfl⟩ := Prod.mk.inj (Option.some.inj h)
    have hm : least first items ∈ queue.items := he ▸ least_mem first items
    exact (List.perm_cons_erase hm).map QueueItem.job

end JobQueue

end YasinCore.Execution
