import Mathlib.Data.Prod.Lex
import YasinCore.Execution.Queue

namespace YasinCore.Execution

-- The answer of the comparison of two tuples, unless it comes to the jobs, which have no order. Python
-- does not compare an object with itself.
def QueueItem.less? (left right : QueueItem) : Option Bool :=
  if left.negPriority ≠ right.negPriority then some (left.negPriority < right.negPriority)
  else if left.createdAt ≠ right.createdAt then some (left.createdAt < right.createdAt)
  else if left.counter ≠ right.counter then some (left.counter < right.counter)
  else if left.job = right.job then some false
  else none

def QueueItem.priority (item : QueueItem) : Int := -item.negPriority

namespace JobQueue

def size (queue : JobQueue) : Nat := queue.items.length

-- The entry that the priority queue gives next
def first? (queue : JobQueue) : Option QueueItem :=
  match queue.items with
  | [] => none
  | first :: rest => some (least first rest)

variable {queue rest : JobQueue} {ref : JobRef} {item : QueueItem}

theorem getNowait_eq (queue : JobQueue) : queue.getNowait =
    queue.first?.map fun item => (item.job, { queue with items := queue.items.erase item }) := by
  unfold getNowait first?
  cases queue.items <;> rfl

theorem first?_mem (h : queue.first? = some item) : item ∈ queue.items := by
  unfold first? at h
  split at h
  · cases h
  · rename_i first rest he
    obtain rfl := Option.some.inj h
    exact he ▸ least_mem first rest

theorem first?_eq_none_iff : queue.first? = none ↔ queue.items = [] := by
  unfold first?
  split
  · rename_i he
    exact iff_of_true rfl he
  · rename_i he
    exact iff_of_false nofun (by simp [he])

theorem getNowait_size (h : queue.getNowait = some (ref, rest)) : rest.size < queue.size := by
  have hlength := (getNowait_perm h).length_eq
  rw [jobs, jobs, List.length_map, List.length_cons, List.length_map] at hlength
  rw [size, size, hlength]
  exact Nat.lt_succ_self _

-- One entry after the other is taken until the queue is empty.
def clear (queue : JobQueue) : JobQueue :=
  match _h : queue.getNowait with
  | some (_, rest) => clear rest
  | none => queue
termination_by queue.size
decreasing_by exact getNowait_size _h

theorem clear_eq (queue : JobQueue) : queue.clear = ⟨[], queue.counter⟩ := by
  induction hn : queue.size using Nat.strong_induction_on generalizing queue with
  | _ n ih =>
      rw [clear]
      split
      · rename_i ref rest h
        have hcounter : rest.counter = queue.counter := by
          rw [getNowait_eq] at h
          obtain ⟨item, -, hpair⟩ := Option.map_eq_some_iff.mp h
          rw [← (Prod.mk.inj hpair).2]
        rw [ih rest.size (hn ▸ getNowait_size h) rest rfl, hcounter]
      · rename_i h
        rw [getNowait_eq, Option.map_eq_none_iff, first?_eq_none_iff] at h
        rw [← h]

end JobQueue

section Order

variable {left right item : QueueItem} {queue : JobQueue}

-- The tuple without the job
def QueueItem.rank (item : QueueItem) : ℤ ×ₗ Time ×ₗ ℕ :=
  toLex (item.negPriority, toLex (item.createdAt, item.counter))

theorem before_iff : left.before right ↔ left.rank < right.rank := by
  unfold QueueItem.before QueueItem.rank
  simp [Prod.Lex.toLex_lt_toLex]

-- Entries that differ in more than their jobs are told apart before the jobs are reached.
theorem less?_eq_before (h : left.counter ≠ right.counter) :
    left.less? right = some (left.before right) := by
  unfold QueueItem.less? QueueItem.before
  split_ifs with hpriority hcreated
  · simp [hpriority]
  · rw [not_not] at hpriority
    simp [hpriority, hcreated]
  · rw [not_not] at hpriority hcreated
    simp [hpriority, hcreated]

theorem least_rank_le {best : QueueItem} {items : List QueueItem} :
    ∀ other ∈ best :: items, (JobQueue.least best items).rank ≤ other.rank := by
  induction items generalizing best with
  | nil =>
      intro other ho
      rw [List.mem_singleton.mp ho]
      exact le_rfl
  | cons item items ih =>
      intro other ho
      rw [JobQueue.least]
      split
      · rename_i hbefore
        have hlt := before_iff.mp hbefore
        rcases List.mem_cons.mp ho with rfl | ho
        · exact (ih item List.mem_cons_self).trans hlt.le
        · exact ih other ho
      · rename_i hbefore
        have hle := not_lt.mp fun hlt => hbefore (before_iff.mpr hlt)
        rcases List.mem_cons.mp ho with rfl | ho
        · exact ih other List.mem_cons_self
        rcases List.mem_cons.mp ho with rfl | ho
        · exact (ih best List.mem_cons_self).trans hle
        · exact ih other (List.mem_cons_of_mem _ ho)

theorem first?_rank_le (h : queue.first? = some item) : ∀ other ∈ queue.items, item.rank ≤ other.rank := by
  unfold JobQueue.first? at h
  split at h
  · cases h
  · rename_i first rest he
    obtain rfl := Option.some.inj h
    rw [he]
    exact least_rank_le

end Order

-- The operations of a queue, in the order in which they are called. A get waits while there is nothing.
inductive QueueAction
  | put (ref : JobRef) (job : Job)
  | getNowait
  | get (timeout : Option Time)
  | clear

-- What an entry is to say of its job
structure Entry where
  job : JobRef
  priority : Int
  createdAt : Time
  deriving DecidableEq

def QueueItem.entry (item : QueueItem) : Entry := ⟨item.job, item.priority, item.createdAt⟩

-- A put makes one entry, with the job's own priority and time.
def QueueAction.entry? : QueueAction → Option Entry
  | .put ref job => some ⟨ref, job.priority, job.createdAt⟩
  | _ => none

-- A queue and what has become of the entries; those that a put has entered are read off the queue.
structure QueueLog where
  queue : JobQueue
  entered : List QueueItem
  returned : List QueueItem
  cleared : List QueueItem

namespace QueueLog

def start : QueueLog := ⟨.empty, [], [], []⟩

def take (log : QueueLog) : QueueLog :=
  match log.queue.getNowait with
  | some (_, rest) => { log with queue := rest, returned := log.returned ++ log.queue.first?.toList }
  | none => log

def perform (log : QueueLog) : QueueAction → QueueLog
  | .put ref job =>
      let queue := log.queue.put ref job
      { log with queue := queue, entered := log.entered ++ queue.items.drop log.queue.size }
  | .getNowait | .get _ => log.take
  | .clear => { log with queue := log.queue.clear, cleared := log.cleared ++ log.queue.items }

def performAll (acts : List QueueAction) : QueueLog := acts.foldl perform start

end QueueLog

-- The entry goes before the other one: it has a higher priority, it is older, or it was put earlier.
def GoesBefore (entered : List QueueItem) (item other : QueueItem) : Prop :=
  other.priority < item.priority ∨ other.priority = item.priority ∧
    (item.createdAt < other.createdAt ∨
      item.createdAt = other.createdAt ∧ [item, other].Sublist entered)

namespace QueueLog

-- A get returns the job of the entry that goes before all others, and takes it out.
def ServesFirst (log : QueueLog) : Prop :=
  (log.queue.getNowait = none ↔ log.queue.items = []) ∧
    ∀ ref rest, log.queue.getNowait = some (ref, rest) →
      ∃ item ∈ log.queue.items, item.job = ref ∧ rest.items = log.queue.items.erase item ∧
        ∀ other ∈ log.queue.items, other ≠ item → GoesBefore log.entered item other

-- Every entry that was put has been returned, or cleared, or is there, and is so once.
def Conserves (log : QueueLog) : Prop :=
  log.entered.Perm (log.returned ++ log.cleared ++ log.queue.items)

-- No two entries need to have their jobs compared.
def Decides (log : QueueLog) : Prop :=
  log.entered.Pairwise fun left right =>
    left.less? right = some (left.before right) ∧ right.less? left = some (right.before left)

-- The counters of the entries are the numbers of the puts.
structure Counted (log : QueueLog) : Prop where
  conserves : log.Conserves
  counters : log.entered.Pairwise fun left right => left.counter < right.counter
  bounded : ∀ item ∈ log.entered, item.counter ≤ log.queue.counter

variable {log : QueueLog}

theorem Counted.take (h : log.Counted) : log.take.Counted := by
  unfold QueueLog.take
  rw [JobQueue.getNowait_eq]
  cases hfirst : log.queue.first? with
  | none => exact h
  | some item =>
      have hitems := List.perm_cons_erase (JobQueue.first?_mem hfirst)
      have hperm : (log.returned ++ log.cleared ++ log.queue.items).Perm
          (log.returned ++ [item] ++ log.cleared ++ log.queue.items.erase item) := by
        refine (hitems.append_left _).trans ?_
        simp only [List.append_assoc, List.singleton_append]
        exact List.perm_middle.append_left _
      exact ⟨h.conserves.trans hperm, h.counters, h.bounded⟩

theorem put_entered (queue : JobQueue) (ref : JobRef) (job : Job) :
    (queue.put ref job).items.drop queue.size =
      [⟨-job.priority, job.createdAt, queue.counter + 1, ref⟩] := List.drop_left

theorem take_entered (log : QueueLog) : log.take.entered = log.entered := by
  unfold QueueLog.take
  split <;> rfl

theorem perform_entered (log : QueueLog) (act : QueueAction) :
    (log.perform act).entered.map QueueItem.entry =
      log.entered.map QueueItem.entry ++ act.entry?.toList := by
  cases act with
  | put ref job =>
      have hpriority : - -job.priority = job.priority := Int.neg_neg _
      dsimp only [perform]
      rw [put_entered, List.map_append, List.map_singleton, QueueItem.entry, QueueItem.priority, hpriority]
      rfl
  | getNowait | get timeout =>
      dsimp only [perform]
      rw [take_entered]
      exact (List.append_nil _).symm
  | clear => exact (List.append_nil _).symm

-- The entries are those of the puts, in their order.
theorem performAll_entered (acts : List QueueAction) :
    (performAll acts).entered.map QueueItem.entry = acts.filterMap QueueAction.entry? := by
  have hrun (log : QueueLog) : (acts.foldl QueueLog.perform log).entered.map QueueItem.entry =
      log.entered.map QueueItem.entry ++ acts.filterMap QueueAction.entry? := by
    induction acts generalizing log with
    | nil => exact (List.append_nil _).symm
    | cons act acts ih =>
        rw [List.foldl_cons, ih, perform_entered, List.append_assoc, List.filterMap_cons]
        cases act.entry? <;> rfl
  exact hrun start

theorem Counted.put (h : log.Counted) (ref : JobRef) (job : Job) :
    (log.perform (.put ref job)).Counted := by
  have hentered := put_entered log.queue ref job
  refine ⟨?_, ?_, ?_⟩
  · dsimp only [Conserves, perform]
    rw [hentered, JobQueue.put, ← List.append_assoc]
    exact h.conserves.append_right _
  · dsimp only [perform]
    rw [hentered, List.pairwise_append]
    refine ⟨h.counters, List.pairwise_singleton _ _, fun item hi other ho => ?_⟩
    rw [List.mem_singleton.mp ho]
    exact Nat.lt_succ_of_le (h.bounded item hi)
  · dsimp only [perform]
    rw [hentered]
    intro item hi
    rcases List.mem_append.mp hi with hi | hi
    · exact (h.bounded item hi).trans (Nat.le_succ _)
    · rw [List.mem_singleton.mp hi]
      exact le_rfl

theorem Counted.perform (h : log.Counted) (act : QueueAction) : (log.perform act).Counted := by
  cases act with
  | put ref job => exact h.put ref job
  | getNowait => exact h.take
  | get timeout => exact h.take
  | clear =>
      refine ⟨?_, h.counters, ?_⟩
      · dsimp only [Conserves, QueueLog.perform]
        rw [JobQueue.clear_eq, List.append_nil, ← List.append_assoc]
        exact h.conserves
      · dsimp only [QueueLog.perform]
        rw [JobQueue.clear_eq]
        exact h.bounded

theorem counted_performAll (acts : List QueueAction) : (performAll acts).Counted := by
  have hstart : start.Counted := ⟨.nil, .nil, fun _ hi => absurd hi List.not_mem_nil⟩
  exact List.foldlRecOn acts QueueLog.perform hstart fun _ h act _ => h.perform act

theorem Counted.decides (h : log.Counted) : log.Decides :=
  h.counters.imp fun hlt => ⟨less?_eq_before hlt.ne, less?_eq_before hlt.ne'⟩

theorem Counted.present (h : log.Counted) {item : QueueItem} (hi : item ∈ log.queue.items) :
    item ∈ log.entered := h.conserves.mem_iff.mpr (List.mem_append_right _ hi)

-- Entries with one counter are one entry.
theorem Counted.unique (h : log.Counted) {item other : QueueItem} (hi : item ∈ log.entered)
    (ho : other ∈ log.entered) (he : item.counter = other.counter) : item = other := by
  have hnodup : (log.entered.map QueueItem.counter).Nodup :=
    List.pairwise_map.mpr (h.counters.imp fun hlt => hlt.ne)
  exact List.inj_on_of_nodup_map hnodup hi ho he

end QueueLog

-- Of two entries in the order of their counters the first one was put before the second one.
theorem sublist_of_counter_lt {entered : List QueueItem} {item other : QueueItem}
    (h : entered.Pairwise fun left right => left.counter < right.counter) (hi : item ∈ entered)
    (ho : other ∈ entered) (hlt : item.counter < other.counter) : [item, other].Sublist entered := by
  obtain ⟨before, after, rfl⟩ := List.append_of_mem hi
  obtain ⟨-, hafter, hacross⟩ := List.pairwise_append.mp h
  have hmem : other ∈ after := by
    rcases List.mem_append.mp ho with ho | ho
    · have hback := hacross other ho item List.mem_cons_self
      omega
    · rcases List.mem_cons.mp ho with rfl | ho
      · omega
      · exact ho
  exact ((List.singleton_sublist.mpr hmem).cons_cons item).trans (List.sublist_append_right _ _)

theorem QueueLog.Counted.goesBefore {log : QueueLog} (h : log.Counted) {item other : QueueItem}
    (hi : item ∈ log.queue.items) (ho : other ∈ log.queue.items) (hle : item.rank ≤ other.rank)
    (hne : other ≠ item) : GoesBefore log.entered item other := by
  rw [QueueItem.rank, QueueItem.rank, Prod.Lex.toLex_le_toLex] at hle
  rcases hle with hpriority | ⟨hpriority, hle⟩
  · exact .inl (Int.neg_lt_neg hpriority)
  refine .inr ⟨congrArg Int.neg hpriority.symm, ?_⟩
  rw [Prod.Lex.toLex_le_toLex] at hle
  rcases hle with hcreated | ⟨hcreated, hcounter⟩
  · exact .inl hcreated
  refine .inr ⟨hcreated, sublist_of_counter_lt h.counters (h.present hi) (h.present ho) ?_⟩
  exact lt_of_le_of_ne hcounter fun he => hne (h.unique (h.present ho) (h.present hi) he.symm)

theorem QueueLog.Counted.servesFirst {log : QueueLog} (h : log.Counted) : log.ServesFirst := by
  rw [ServesFirst, JobQueue.getNowait_eq, Option.map_eq_none_iff]
  refine ⟨JobQueue.first?_eq_none_iff, fun ref rest hget => ?_⟩
  obtain ⟨item, hfirst, hpair⟩ := Option.map_eq_some_iff.mp hget
  obtain ⟨rfl, rfl⟩ := Prod.mk.inj hpair
  have hitem := JobQueue.first?_mem hfirst
  refine ⟨item, hitem, rfl, rfl, fun other ho hne => ?_⟩
  exact h.goesBefore hitem ho (first?_rank_le hfirst other ho) hne

-- Whatever is put, taken and cleared: each put makes one entry with the job's own priority and time, a
-- get returns the job that is first by priority, age and time of its put, no entry is lost or served
-- twice, and jobs are never compared.
theorem job_queue_stable (acts : List QueueAction) :
    (QueueLog.performAll acts).entered.map QueueItem.entry = acts.filterMap QueueAction.entry? ∧
      (QueueLog.performAll acts).ServesFirst ∧ (QueueLog.performAll acts).Conserves ∧
      (QueueLog.performAll acts).Decides := by
  have h := QueueLog.counted_performAll acts
  exact ⟨QueueLog.performAll_entered acts, h.servesFirst, h.conserves, h.decides⟩

end YasinCore.Execution
