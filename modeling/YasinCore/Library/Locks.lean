import Mathlib.Logic.Function.Basic
import Mathlib.Data.List.Basic
import YasinCore.Library.Transition

namespace YasinCore.Library

-- What a thread does, as far as its locks go: one block under a lock, then what follows it.
inductive Code (ι : Type*)
  | skip
  | sync (lock : ι) (body next : Code ι)

inductive LockEvent (ι : Type*)
  | acquire (lock : ι)
  | release (lock : ι)

def LockEvent.lock {ι : Type*} : LockEvent ι → ι
  | .acquire lock | .release lock => lock

-- The threads, with what each has yet to do, and for each lock its owner and how often the
-- owner has taken it.
structure Threads (τ ι : Type*) where
  rest : τ → List (LockEvent ι)
  locks : ι → Option (τ × Nat)

namespace Code

variable {ι : Type*}

def append : Code ι → Code ι → Code ι
  | .skip, other => other
  | .sync lock body next, other => .sync lock body (next.append other)

-- One piece of code after the other.
def seq : List (Code ι) → Code ι
  | [] => .skip
  | code :: codes => code.append (seq codes)

def events : Code ι → List (LockEvent ι)
  | .skip => []
  | .sync lock body next => .acquire lock :: (body.events ++ .release lock :: next.events)

def locks : Code ι → List ι
  | .skip => []
  | .sync lock body next => lock :: (body.locks ++ next.locks)

-- At some point the code takes b while it holds a and does not hold b yet.
def Takes [DecidableEq ι] (a b : ι) : Code ι → Prop
  | .skip => False
  | .sync lock body next =>
      (lock ≠ b ∧ (if lock = a then b ∈ body.locks else body.Takes a b)) ∨ next.Takes a b

theorem mem_locks_append {l : ι} (code other : Code ι) :
    l ∈ (code.append other).locks ↔ l ∈ code.locks ∨ l ∈ other.locks := by
  induction code with
  | skip => simp [append, locks]
  | sync lock body next _ ih => simp [append, locks, ih, or_assoc]

theorem mem_locks_seq {l : ι} (codes : List (Code ι)) :
    l ∈ (seq codes).locks ↔ ∃ code ∈ codes, l ∈ code.locks := by
  induction codes with
  | nil => simp [seq, locks]
  | cons code codes ih => simp [seq, mem_locks_append, ih]

theorem takes_append [DecidableEq ι] {a b : ι} (code other : Code ι) :
    (code.append other).Takes a b ↔ code.Takes a b ∨ other.Takes a b := by
  induction code with
  | skip => simp [append, Takes]
  | sync lock body next _ ih => simp only [append, Takes, ih, or_assoc]

theorem takes_seq [DecidableEq ι] {a b : ι} (codes : List (Code ι)) :
    (seq codes).Takes a b ↔ ∃ code ∈ codes, code.Takes a b := by
  induction codes with
  | nil => simp [seq, Takes]
  | cons code codes ih => simp [seq, takes_append, ih]

theorem acquire_mem_events {b : ι} (code : Code ι) :
    .acquire b ∈ code.events ↔ b ∈ code.locks := by
  induction code with
  | skip => simp [events, locks]
  | sync lock body next ihb ihn => simp [events, locks, ihb, ihn]

-- The places inside a block: before it, under its lock, or behind it.
theorem sync_split {lock : ι} {body next : Code ι} {before after : List (LockEvent ι)}
    (h : (sync lock body next).events = before ++ after) :
    before = [] ∨
    (∃ inner left, before = .acquire lock :: inner ∧ body.events = inner ++ left ∧
      after = left ++ .release lock :: next.events) ∨
    (∃ inner, before = .acquire lock :: (body.events ++ .release lock :: inner) ∧
      next.events = inner ++ after) := by
  cases before with
  | nil => exact .inl rfl
  | cons event before =>
      simp only [events, List.cons_append, List.cons.injEq] at h
      obtain ⟨rfl, h⟩ := h
      obtain ⟨more, hb, hm⟩ | ⟨more, hb, hm⟩ := List.append_eq_append_iff.mp h
      · cases more with
        | nil =>
            refine .inr (.inl ⟨before, [], rfl, ?_, hm.symm⟩)
            simpa using hb.symm
        | cons event more =>
            simp only [List.cons_append, List.cons.injEq] at hm
            obtain ⟨rfl, hm⟩ := hm
            exact .inr (.inr ⟨more, by rw [hb], hm⟩)
      · exact .inr (.inl ⟨before, more, rfl, hb, hm⟩)

-- Where a nesting begins: some code, a block under a, and inside it b is taken.
theorem Takes.block [DecidableEq ι] {a b : ι} {code : Code ι} (h : code.Takes a b)
    (hlocks : ∀ lock ∈ code.locks, lock = a ∨ lock = b) :
    ∃ first body last : Code ι, code.events = first.events ++ (sync a body last).events ∧
      b ∈ body.locks ∧ body.locks ⊆ code.locks := by
  induction code with
  | skip => exact h.elim
  | sync lock body next _ ih =>
      cases h with
      | inl h =>
          have hlock : lock = a := (hlocks lock (by simp [locks])).resolve_right h.1
          subst hlock
          refine ⟨.skip, body, next, rfl, by simpa using h.2, fun other ho => ?_⟩
          simp [locks, ho]
      | inr h =>
          have hnext : ∀ other ∈ next.locks, other = a ∨ other = b := by
            intro other ho
            exact hlocks other (by simp [locks, ho])
          obtain ⟨first, inner, last, he, hb, hi⟩ := ih h hnext
          refine ⟨.sync lock body first, inner, last, by simp [events, he], hb, fun other ho => ?_⟩
          simp [locks, hi ho]

end Code

-- How often a lock has been taken and not yet given back after some events.
def depth {ι : Type*} [DecidableEq ι] (lock : ι) : Nat → List (LockEvent ι) → Nat
  | count, [] => count
  | count, .acquire l :: events => depth lock (if l = lock then count + 1 else count) events
  | count, .release l :: events => depth lock (if l = lock then count - 1 else count) events

section Depth

variable {ι : Type*} [DecidableEq ι] {lock : ι}

theorem depth_append (count : Nat) (first second : List (LockEvent ι)) :
    depth lock count (first ++ second) = depth lock (depth lock count first) second := by
  induction first generalizing count with
  | nil => rfl
  | cons event first ih => cases event <;> exact ih _

theorem depth_single_of_ne {event : LockEvent ι} (h : event.lock ≠ lock) (count : Nat) :
    depth lock count [event] = count := by
  cases event with
  | acquire l => exact if_neg h
  | release l => exact if_neg h

-- Code gives back what it takes.
theorem depth_events (code : Code ι) (count : Nat) : depth lock count code.events = count := by
  induction code generalizing count with
  | skip => rfl
  | sync l body next ihb ihn =>
      simp only [Code.events, depth, depth_append, ihb, ihn]
      split <;> rfl

-- Code never gives back more than it has taken.
theorem le_depth {code : Code ι} {before after : List (LockEvent ι)} (count : Nat)
    (h : code.events = before ++ after) : count ≤ depth lock count before := by
  induction code generalizing count before after with
  | skip =>
      have hnil : before = [] := (List.append_eq_nil_iff.mp h.symm).1
      simp [hnil, depth]
  | sync l body next ihb ihn =>
      obtain rfl | ⟨inner, left, rfl, hb, -⟩ | ⟨inner, rfl, hn⟩ := Code.sync_split h
      · exact Nat.le_refl count
      · have hinner := ihb (if l = lock then count + 1 else count) hb
        have hcount : count ≤ if l = lock then count + 1 else count := by split <;> omega
        exact Nat.le_trans hcount hinner
      · have hinner := ihn count hn
        simp only [depth, depth_append, depth_events]
        split <;> simpa using hinner

-- Where the code takes b while it holds a and does not hold b, its text says so.
theorem Code.takes_of_depth {a b : ι} {code : Code ι} {before after : List (LockEvent ι)}
    (h : code.events = before ++ .acquire b :: after) (ha : 0 < depth a 0 before)
    (hb : depth b 0 before = 0) : code.Takes a b := by
  induction code generalizing before after with
  | skip => simp [Code.events] at h
  | sync l body next ihb ihn =>
      obtain rfl | ⟨inner, left, rfl, hbody, hleft⟩ | ⟨inner, rfl, hn⟩ := Code.sync_split h
      · exact absurd ha (Nat.lt_irrefl 0)
      · cases left with
        | nil => simp at hleft
        | cons event left =>
            simp only [List.cons_append, List.cons.injEq] at hleft
            obtain ⟨rfl, -⟩ := hleft
            -- The lock of the block is not b, which would be held already.
            have hl : l ≠ b := by
              intro hl
              have hdepth : 1 ≤ depth b 1 inner := le_depth 1 hbody
              simp only [depth, if_pos hl] at hb
              exact absurd (hb ▸ hdepth) (by decide)
            refine .inl ⟨hl, ?_⟩
            split
            · apply (Code.acquire_mem_events body).mp
              simp [hbody]
            · rename_i hla
              simp only [depth, if_neg hla, if_neg hl] at ha hb
              exact ihb hbody ha hb
      · simp only [depth, depth_append, depth_events] at ha hb
        exact .inr (ihn hn (by split at ha <;> simpa using ha) (by split at hb <;> simpa using hb))

end Depth

namespace Threads

variable {τ ι : Type*} [DecidableEq τ] [DecidableEq ι]

def start (code : τ → Code ι) : Threads τ ι where
  rest := fun t => (code t).events
  locks := fun _ => none

-- The next lock operation of a thread. A lock is taken when it is free or the thread's own, and
-- given back by its owner only.
def step (s : Threads τ ι) (t : τ) : Option (Threads τ ι) :=
  match s.rest t with
  | [] => none
  | .acquire lock :: rest =>
      match s.locks lock with
      | none => some ⟨Function.update s.rest t rest, Function.update s.locks lock (some (t, 1))⟩
      | some (owner, count) =>
          if owner = t then
            some ⟨Function.update s.rest t rest,
              Function.update s.locks lock (some (t, count + 1))⟩
          else none
  | .release lock :: rest =>
      match s.locks lock with
      | none => none
      | some (owner, count) =>
          if owner = t then
            some ⟨Function.update s.rest t rest,
              Function.update s.locks lock (if count ≤ 1 then none else some (t, count - 1))⟩
          else none

-- How often a thread has taken a lock.
def taken (owner : Option (τ × Nat)) (t : τ) : Nat :=
  match owner with
  | none => 0
  | some (u, count) => if u = t then count else 0

def count (s : Threads τ ι) (t : τ) (lock : ι) : Nat := taken (s.locks lock) t

def Holds (s : Threads τ ι) (t : τ) (lock : ι) : Prop := 0 < s.count t lock

-- The thread's next operation is to take the lock.
def Wants (s : Threads τ ι) (t : τ) (lock : ι) : Prop :=
  ∃ rest, s.rest t = .acquire lock :: rest

-- Two threads, each of which holds one of the locks and waits for the other's.
def CircularWait (s : Threads τ ι) (a b : ι) : Prop :=
  ∃ t u, t ≠ u ∧ (s.Holds t a ∧ s.Wants t b) ∧ s.Holds u b ∧ s.Wants u a

omit [DecidableEq ι] in
theorem Holds.unique {s : Threads τ ι} {t u : τ} {lock : ι} (ht : s.Holds t lock)
    (hu : s.Holds u lock) : t = u := by
  unfold Holds count taken at ht hu
  split at ht
  · exact absurd ht (Nat.lt_irrefl 0)
  · rename_i owner n hlock
    simp only [hlock] at hu
    have hot : owner = t := by
      by_contra hne
      simp [hne] at ht
    have hou : owner = u := by
      by_contra hne
      simp [hne] at hu
    exact hot.symm.trans hou

-- Only the lock of the event gets another owner.
theorem count_update {s : Threads τ ι} {owner : Option (τ × Nat)} {t : τ} (event : LockEvent ι)
    (h : ∀ u, taken owner u =
      if u = t then depth event.lock (s.count u event.lock) [event] else s.count u event.lock)
    (rest : τ → List (LockEvent ι)) (u : τ) (lock : ι) :
    count ⟨rest, Function.update s.locks event.lock owner⟩ u lock =
      if u = t then depth lock (s.count u lock) [event] else s.count u lock := by
  by_cases hl : lock = event.lock
  · subst hl
    simp only [count, Function.update_self]
    exact h u
  · rw [depth_single_of_ne (Ne.symm hl)]
    simp [count, Function.update_of_ne hl]

-- What one operation of a thread does to the counts: its event counts for itself, and nothing
-- changes for the others.
theorem step_some {s s' : Threads τ ι} {t : τ} (h : s.step t = some s') :
    ∃ event rest, s.rest t = event :: rest ∧ s'.rest = Function.update s.rest t rest ∧
      ∀ u lock, s'.count u lock =
        if u = t then depth lock (s.count u lock) [event] else s.count u lock := by
  unfold step at h
  split at h
  · cases h
  · rename_i lock rest hrest
    refine ⟨_, rest, hrest, ?_⟩
    split at h
    · rename_i hfree
      cases h
      refine ⟨rfl, count_update (.acquire lock) (fun u => ?_) _⟩
      by_cases hu : u = t
      · simp [taken, count, depth, LockEvent.lock, hfree, hu]
      · simp [taken, count, LockEvent.lock, hfree, hu, Ne.symm hu]
    · rename_i owner n hown
      obtain ⟨rfl, hs⟩ := Option.ite_none_right_eq_some.mp h
      cases hs
      refine ⟨rfl, count_update (.acquire lock) (fun u => ?_) _⟩
      by_cases hu : u = owner
      · simp [taken, count, depth, LockEvent.lock, hown, hu]
      · simp [taken, count, LockEvent.lock, hown, hu, Ne.symm hu]
  · rename_i lock rest hrest
    refine ⟨_, rest, hrest, ?_⟩
    split at h
    · cases h
    · rename_i owner n hown
      obtain ⟨rfl, hs⟩ := Option.ite_none_right_eq_some.mp h
      cases hs
      refine ⟨rfl, count_update (.release lock) (fun u => ?_) _⟩
      by_cases hu : u = owner
      · by_cases hn : n ≤ 1
        · simp [taken, count, depth, LockEvent.lock, hown, hu, hn]
        · simp [taken, count, depth, LockEvent.lock, hown, hu, hn]
      · by_cases hn : n ≤ 1
        · simp [taken, count, LockEvent.lock, hown, hu, hn, Ne.symm hu]
        · simp [taken, count, LockEvent.lock, hown, hu, hn, Ne.symm hu]

-- What lies behind each thread, and that the locks are held as it says.
structure Consistent (code : τ → Code ι) (s : Threads τ ι) (past : τ → List (LockEvent ι)) :
    Prop where
  split : ∀ t, (code t).events = past t ++ s.rest t
  held : ∀ t lock, s.count t lock = depth lock 0 (past t)

theorem Consistent.start (code : τ → Code ι) : Consistent code (start code) fun _ => [] where
  split _ := rfl
  held _ _ := rfl

theorem Consistent.step {code : τ → Code ι} {s s' : Threads τ ι} {t : τ}
    {past : τ → List (LockEvent ι)} (hc : Consistent code s past) (h : s.step t = some s') :
    ∃ past', Consistent code s' past' := by
  obtain ⟨event, rest, hrest, hrest', hcount⟩ := step_some h
  refine ⟨Function.update past t (past t ++ [event]), fun u => ?_, fun u lock => ?_⟩
  · by_cases hu : u = t
    · subst hu
      rw [hrest', Function.update_self, Function.update_self, hc.split u, hrest]
      simp
    · rw [hrest', Function.update_of_ne hu, Function.update_of_ne hu, hc.split u]
  · rw [hcount]
    by_cases hu : u = t
    · subst hu
      rw [if_pos rfl, Function.update_self, depth_append, hc.held]
    · rw [if_neg hu, Function.update_of_ne hu, hc.held]

theorem Consistent.run {code : τ → Code ι} {s : Threads τ ι} {acts : List τ}
    (hr : Run Threads.step (Threads.start code) acts s) : ∃ past, Consistent code s past := by
  have hall : Meets Threads.step (fun _ _ => True) (Threads.start code) acts :=
    Meets.of_forall fun _ _ _ => trivial
  refine hr.invariant (fun s => ∃ past, Consistent code s past) ?_ hall ⟨_, .start code⟩
  rintro u t v ⟨past, hc⟩ - hstep
  exact hc.step hstep

-- Whoever waits for b while holding a is at a place of its code where b is nested in a.
theorem Consistent.takes {code : τ → Code ι} {s : Threads τ ι} {past : τ → List (LockEvent ι)}
    (hc : Consistent code s past) {t : τ} {a b : ι} (ha : s.Holds t a) (hb : ¬ s.Holds t b)
    (hw : s.Wants t b) : (code t).Takes a b := by
  obtain ⟨rest, hrest⟩ := hw
  have hsplit := hc.split t
  rw [hrest] at hsplit
  unfold Holds at ha hb
  rw [hc.held] at ha hb
  exact Code.takes_of_depth hsplit ha (by omega)

theorem CircularWait.takes {code : τ → Code ι} {s : Threads τ ι} {acts : List τ} {a b : ι}
    (hr : Run step (Threads.start code) acts s) (hw : s.CircularWait a b) :
    ∃ t u, t ≠ u ∧ (code t).Takes a b ∧ (code u).Takes b a := by
  obtain ⟨past, hc⟩ := Consistent.run hr
  obtain ⟨t, u, hne, ⟨hta, htb⟩, hub, hua⟩ := hw
  refine ⟨t, u, hne, hc.takes hta (fun hh => hne (hh.unique hub)) htb, ?_⟩
  exact hc.takes hub (fun hh => hne (hta.unique hh)) hua

-- The thread can take the lock at once.
def Open (s : Threads τ ι) (t : τ) (lock : ι) : Prop :=
  s.locks lock = none ∨ ∃ count, s.locks lock = some (t, count + 1)

-- One thread gets from the first state to the second while the others stand still.
def Alone (t : τ) (s s' : Threads τ ι) : Prop :=
  (∃ acts, Run step s acts s') ∧ ∀ u, u ≠ t → s'.rest u = s.rest u

theorem Alone.refl (t : τ) (s : Threads τ ι) : Alone t s s := ⟨⟨[], .nil s⟩, fun _ _ => rfl⟩

theorem Alone.trans {t : τ} {s s' s'' : Threads τ ι} (h : Alone t s s') (h' : Alone t s' s'') :
    Alone t s s'' := by
  obtain ⟨⟨first, hfirst⟩, hrest⟩ := h
  obtain ⟨⟨second, hsecond⟩, hrest'⟩ := h'
  exact ⟨⟨first ++ second, hfirst.append hsecond⟩, fun u hu => (hrest' u hu).trans (hrest u hu)⟩

theorem Open.acquire {s : Threads τ ι} {t : τ} {lock : ι} {rest : List (LockEvent ι)}
    (hopen : s.Open t lock) (hrest : s.rest t = .acquire lock :: rest) :
    ∃ s', Alone t s s' ∧ s'.rest t = rest ∧
      s'.locks = Function.update s.locks lock (some (t, s.count t lock + 1)) := by
  let s' : Threads τ ι := ⟨Function.update s.rest t rest,
    Function.update s.locks lock (some (t, s.count t lock + 1))⟩
  refine ⟨s', ⟨⟨[t], .single ?_⟩, fun u hu => ?_⟩, ?_, rfl⟩
  · obtain hfree | ⟨n, hown⟩ := hopen
    · simp [s', step, hrest, hfree, count, taken]
    · simp [s', step, hrest, hown, count, taken]
  · exact Function.update_of_ne hu ..
  · exact Function.update_self ..

theorem release_owned {s : Threads τ ι} {t : τ} {lock : ι} {rest : List (LockEvent ι)} {n : Nat}
    (hown : s.locks lock = some (t, n + 1)) (hrest : s.rest t = .release lock :: rest) :
    ∃ s', Alone t s s' ∧ s'.rest t = rest ∧
      s'.locks = Function.update s.locks lock (if n = 0 then none else some (t, n)) := by
  let s' : Threads τ ι := ⟨Function.update s.rest t rest,
    Function.update s.locks lock (if n = 0 then none else some (t, n))⟩
  refine ⟨s', ⟨⟨[t], .single ?_⟩, fun u hu => ?_⟩, ?_, rfl⟩
  · simp [s', step, hrest, hown]
  · exact Function.update_of_ne hu ..
  · exact Function.update_self ..

-- Giving back the lock that was just taken leaves the locks as they were.
theorem Open.update_back {s : Threads τ ι} {t : τ} {lock : ι} (h : s.Open t lock) :
    Function.update s.locks lock
      (if s.count t lock = 0 then none else some (t, s.count t lock)) = s.locks := by
  rw [Function.update_eq_self_iff]
  obtain hfree | ⟨n, hown⟩ := h
  · simp [count, taken, hfree]
  · simp [count, taken, hown]

omit [DecidableEq τ] in
-- A thread that holds a lock can take what it could take before.
theorem Open.of_update {s s' : Threads τ ι} {t : τ} {lock other : ι} {n : Nat}
    (h : s.Open t other) (hlocks : s'.locks = Function.update s.locks lock (some (t, n + 1))) :
    s'.Open t other := by
  unfold Open
  rw [hlocks]
  by_cases ho : other = lock
  · subst ho
    exact .inr ⟨n, Function.update_self ..⟩
  · rw [Function.update_of_ne ho]
    exact h

-- Code whose locks the thread can take runs to its end without the others, and leaves the
-- locks as they were.
theorem run_alone {t : τ} (code : Code ι) {s : Threads τ ι} {more : List (LockEvent ι)}
    (hrest : s.rest t = code.events ++ more) (hopen : ∀ lock ∈ code.locks, s.Open t lock) :
    ∃ s', Alone t s s' ∧ s'.rest t = more ∧ s'.locks = s.locks := by
  induction code generalizing s more with
  | skip => exact ⟨s, .refl t s, hrest, rfl⟩
  | sync lock body next ihb ihn =>
      have hlock : s.Open t lock := hopen lock (by simp [Code.locks])
      simp only [Code.events, List.cons_append, List.append_assoc] at hrest
      obtain ⟨s₁, h₁, hrest₁, hlocks₁⟩ := hlock.acquire hrest
      obtain ⟨s₂, h₂, hrest₂, hlocks₂⟩ := ihb hrest₁ fun other ho =>
        (hopen other (by simp [Code.locks, ho])).of_update hlocks₁
      have hown : s₂.locks lock = some (t, s.count t lock + 1) := by
        rw [hlocks₂, hlocks₁, Function.update_self]
      obtain ⟨s₃, h₃, hrest₃, hlocks₃⟩ := release_owned hown hrest₂
      have hback : s₃.locks = s.locks := by
        rw [hlocks₃, hlocks₂, hlocks₁, Function.update_idem, hlock.update_back]
      obtain ⟨s₄, h₄, hrest₄, hlocks₄⟩ := ihn hrest₃ fun other ho => by
        have hother := hopen other (by simp [Code.locks, ho])
        unfold Open at hother ⊢
        rwa [hback]
      exact ⟨s₄, ((h₁.trans h₂).trans h₃).trans h₄, hrest₄, hlocks₄.trans hback⟩

-- Inside a block under a the thread comes to the first place where it takes b.
theorem reach_inner {t : τ} {a b : ι} (hab : a ≠ b) (body : Code ι) {s : Threads τ ι}
    {more : List (LockEvent ι)} {n : Nat} (hrest : s.rest t = body.events ++ more)
    (hown : s.locks a = some (t, n + 1)) (hb : b ∈ body.locks)
    (hlocks : ∀ lock ∈ body.locks, lock = a ∨ lock = b) :
    ∃ s' m, Alone t s s' ∧ s'.Wants t b ∧
      s'.locks = Function.update s.locks a (some (t, m + 1)) := by
  induction body generalizing s more n with
  | skip => simp [Code.locks] at hb
  | sync lock body next ihb ihn =>
      simp only [Code.events, List.cons_append, List.append_assoc] at hrest
      by_cases hlb : lock = b
      · subst hlb
        have hself : Function.update s.locks a (some (t, n + 1)) = s.locks := by
          rw [← hown, Function.update_eq_self]
        exact ⟨s, n, .refl t s, ⟨_, hrest⟩, hself.symm⟩
      have hla : lock = a := (hlocks lock (by simp [Code.locks])).resolve_right hlb
      subst hla
      have hbody : ∀ other ∈ body.locks, other = lock ∨ other = b := by
        intro other ho
        exact hlocks other (by simp [Code.locks, ho])
      have hlock : s.Open t lock := .inr ⟨n, hown⟩
      obtain ⟨s₁, h₁, hrest₁, hlocks₁⟩ := hlock.acquire hrest
      have hown₁ : s₁.locks lock = some (t, s.count t lock + 1) := by
        rw [hlocks₁, Function.update_self]
      by_cases hin : b ∈ body.locks
      · obtain ⟨s₂, m, h₂, hwants, hlocks₂⟩ := ihb hrest₁ hown₁ hin hbody
        exact ⟨s₂, m, h₁.trans h₂, hwants, by rw [hlocks₂, hlocks₁, Function.update_idem]⟩
      -- The block takes no other lock than its own, and runs through.
      · obtain ⟨s₂, h₂, hrest₂, hlocks₂⟩ := run_alone body hrest₁ fun other ho => by
          obtain rfl | rfl := hbody other ho
          · exact .inr ⟨_, hown₁⟩
          · exact absurd ho hin
        obtain ⟨s₃, h₃, hrest₃, hlocks₃⟩ := release_owned (hlocks₂ ▸ hown₁) hrest₂
        have hback : s₃.locks = s.locks := by
          rw [hlocks₃, hlocks₂, hlocks₁, Function.update_idem, hlock.update_back]
        have hnext : b ∈ next.locks := by
          simpa [Code.locks, Ne.symm hab, hin] using hb
        obtain ⟨s₄, m, h₄, hwants, hlocks₄⟩ := ihn hrest₃ (hback ▸ hown) hnext fun other ho =>
          hlocks other (by simp [Code.locks, ho])
        exact ⟨s₄, m, ((h₁.trans h₂).trans h₃).trans h₄, hwants, by rw [hlocks₄, hback]⟩

-- From outside the block under a, with a free, the thread comes to hold a and wait for b.
theorem reach_block {t : τ} {a b : ι} (hab : a ≠ b) {body last : Code ι} {s : Threads τ ι}
    (hrest : s.rest t = (Code.sync a body last).events) (hfree : s.locks a = none)
    (hb : b ∈ body.locks) (hlocks : ∀ lock ∈ body.locks, lock = a ∨ lock = b) :
    ∃ s' m, Alone t s s' ∧ s'.Wants t b ∧
      s'.locks = Function.update s.locks a (some (t, m + 1)) := by
  have hopen : s.Open t a := .inl hfree
  obtain ⟨s₁, h₁, hrest₁, hlocks₁⟩ := hopen.acquire hrest
  have hown₁ : s₁.locks a = some (t, s.count t a + 1) := by rw [hlocks₁, Function.update_self]
  obtain ⟨s₂, m, h₂, hwants, hlocks₂⟩ := reach_inner hab body hrest₁ hown₁ hb hlocks
  exact ⟨s₂, m, h₁.trans h₂, hwants, by rw [hlocks₂, hlocks₁, Function.update_idem]⟩

theorem Wants.of_alone {s s' : Threads τ ι} {t u : τ} {lock : ι} (hw : s.Wants u lock)
    (h : Alone t s s') (hu : u ≠ t) : s'.Wants u lock := by
  obtain ⟨rest, hrest⟩ := hw
  exact ⟨rest, (h.2 u hu).trans hrest⟩

-- Each of the two threads first runs up to its block, then each enters its own.
theorem circularWait_of_takes {code : τ → Code ι} {a b : ι} (hab : a ≠ b)
    (hlocks : ∀ t, ∀ lock ∈ (code t).locks, lock = a ∨ lock = b) {t u : τ} (hne : t ≠ u)
    (ht : (code t).Takes a b) (hu : (code u).Takes b a) :
    ∃ acts s, Run step (start code) acts s ∧ s.CircularWait a b := by
  obtain ⟨first, body, last, he, hb, hi⟩ := ht.block (hlocks t)
  obtain ⟨first', body', last', he', hb', hi'⟩ :=
    hu.block fun lock hl => (hlocks u lock hl).symm
  obtain ⟨s₁, h₁, hrest₁, hlocks₁⟩ := run_alone (s := start code) first he fun _ _ => .inl rfl
  have hrest₁' : s₁.rest u = first'.events ++ (Code.sync b body' last').events :=
    (h₁.2 u hne.symm).trans he'
  obtain ⟨s₂, h₂, hrest₂, hlocks₂⟩ := run_alone first' hrest₁' fun lock _ =>
    .inl (congrFun hlocks₁ lock)
  have hfree : ∀ lock, s₂.locks lock = none := fun lock => by rw [hlocks₂, hlocks₁]; rfl
  obtain ⟨s₃, m, h₃, hwants, hlocks₃⟩ := reach_block hab ((h₂.2 t hne).trans hrest₁) (hfree a) hb
    fun lock hl => hlocks t lock (hi hl)
  have hfree₃ : s₃.locks b = none := by rw [hlocks₃, Function.update_of_ne hab.symm, hfree]
  obtain ⟨s₄, m', h₄, hwants', hlocks₄⟩ := reach_block hab.symm
    ((h₃.2 u hne.symm).trans hrest₂) hfree₃ hb' fun lock hl => (hlocks u lock (hi' hl)).symm
  have hholds : s₄.Holds t a := by
    unfold Holds count
    rw [hlocks₄, Function.update_of_ne hab, hlocks₃, Function.update_self]
    simp [taken]
  have hholds' : s₄.Holds u b := by
    unfold Holds count
    rw [hlocks₄, Function.update_self]
    simp [taken]
  have hwaits : s₄.Wants t b := hwants.of_alone h₄ hne
  obtain ⟨⟨acts₁, hr₁⟩, -⟩ := h₁
  obtain ⟨⟨acts₂, hr₂⟩, -⟩ := h₂
  obtain ⟨⟨acts₃, hr₃⟩, -⟩ := h₃
  obtain ⟨⟨acts₄, hr₄⟩, -⟩ := h₄
  refine ⟨_, s₄, ((hr₁.append hr₂).append hr₃).append hr₄, t, u, hne, ?_⟩
  exact ⟨⟨hholds, hwaits⟩, hholds', hwants'⟩

-- Threads that use two locks can come to wait for each other exactly if two of them nest the
-- locks in opposite orders.
theorem circularWait_iff {code : τ → Code ι} {a b : ι} (hab : a ≠ b)
    (hlocks : ∀ t, ∀ lock ∈ (code t).locks, lock = a ∨ lock = b) :
    (∃ acts s, Run step (start code) acts s ∧ s.CircularWait a b) ↔
      ∃ t u, t ≠ u ∧ (code t).Takes a b ∧ (code u).Takes b a := by
  constructor
  · rintro ⟨acts, s, hr, hw⟩
    exact hw.takes hr
  · rintro ⟨t, u, hne, ht, hu⟩
    exact circularWait_of_takes hab hlocks hne ht hu

end Threads

end YasinCore.Library
