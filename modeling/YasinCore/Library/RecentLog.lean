import Mathlib.Data.List.DropRight

namespace YasinCore.Library

variable {α β : Type*}

namespace RecentLog

-- Appends an entry, and gives up the oldest one beyond the bound.
def push (bound : Int) (log : List α) (entry : α) : List α :=
  let log := log ++ [entry]
  if bound < log.length then log.tail else log

-- log[start:]
def sliceFrom (start : Int) (log : List α) : List α :=
  log.drop (if start < 0 then (log.length + start).toNat else start.toNat)

-- The entries from -limit on, or all of them.
def recent (limit : Option Int) (log : List α) : List α :=
  match limit with
  | some limit => sliceFrom (-limit) log
  | none => log

-- What is not asked for does not matter.
def wanted (filter : Option β) (test : β → α → Bool) (entry : α) : Bool :=
  match filter with
  | some value => test value entry
  | none => true

section Bound

theorem rtake_of_length_le {log : List α} {n : Nat} (h : log.length ≤ n) : log.rtake n = log := by
  unfold List.rtake
  rw [Nat.sub_eq_zero_of_le h, List.drop_zero]

theorem rtake_rtake_concat (log : List α) (n : Nat) (entry : α) :
    (log.rtake n ++ [entry]).rtake n = (log ++ [entry]).rtake n := by
  cases n with
  | zero => rw [List.rtake_zero, List.rtake_zero]
  | succ n =>
      rw [List.rtake_concat_succ, List.rtake_concat_succ]
      have hlast : (log.rtake (n + 1)).rtake n = log.rtake n := by
        unfold List.rtake
        rw [List.drop_drop, List.length_drop]
        congr 1
        omega
      rw [hlast]

theorem length_rtake (log : List α) (n : Nat) : (log.rtake n).length = min n log.length := by
  unfold List.rtake
  rw [List.length_drop]
  omega

theorem push_eq_rtake {bound : Nat} {log : List α} (h : log.length ≤ bound) (entry : α) :
    push bound log entry = (log ++ [entry]).rtake bound := by
  have hlength : (log ++ [entry]).length = log.length + 1 := List.length_append
  unfold push List.rtake
  dsimp only
  rw [hlength]
  split
  · have hfull : log.length + 1 - bound = 1 := by omega
    rw [hfull, List.drop_one]
  · have hfits : log.length + 1 - bound = 0 := by omega
    rw [hfits, List.drop_zero]

-- A bounded log holds the last entries.
theorem foldl_push (bound : Nat) (entries : List α) :
    entries.foldl (push bound) [] = entries.rtake bound := by
  induction entries using List.reverseRecOn with
  | nil => rw [List.foldl_nil, List.rtake_nil]
  | append_singleton entries entry ih =>
      have hlength : (entries.rtake bound).length ≤ bound := by
        rw [length_rtake]
        omega
      rw [List.foldl_append, List.foldl_cons, List.foldl_nil, ih, push_eq_rtake hlength,
        rtake_rtake_concat]

-- So does an object that keeps one.
theorem foldl_log {σ : Type*} (log : σ → List α) (bound : σ → Nat) (f : σ → α → σ)
    (hlog : ∀ s entry, log (f s entry) = push (bound s) (log s) entry)
    (hbound : ∀ s entry, bound (f s entry) = bound s) (entries : List α) {s : σ} (h : log s = []) :
    log (entries.foldl f s) = entries.rtake (bound s) := by
  have hrun (entries : List α) (s : σ) :
      log (entries.foldl f s) = entries.foldl (push (bound s)) (log s) := by
    induction entries generalizing s with
    | nil => rfl
    | cons entry entries ih =>
        rw [List.foldl_cons, ih, hlog, hbound]
        rfl
  rw [hrun, h, foldl_push]

theorem push_natCast (bound : Nat) (log : List α) (entry : α) : push bound log entry =
    if bound < (log ++ [entry]).length then (log ++ [entry]).tail else log ++ [entry] := by
  unfold push
  simp only [Int.ofNat_lt]

end Bound

section Queries

-- With the limit zero the slice is the whole log.
theorem recent_zero (log : List α) : recent (some 0) log = log := by
  unfold recent sliceFrom
  rfl

theorem recent_of_pos {n : Nat} (h : 0 < n) (log : List α) : recent (some n) log = log.rtake n := by
  have hneg : -(n : Int) < 0 := by omega
  unfold recent sliceFrom List.rtake
  dsimp only
  rw [if_pos hneg]
  congr 1
  omega

variable {applied asked : α → Bool}

-- The entries that a filter keeps are the last ones that a stricter one keeps.
theorem rtake_filter_iff (h : ∀ entry, asked entry = true → applied entry = true) (log : List α)
    (n : Nat) : (log.filter applied).rtake n = (log.filter asked).rtake n ↔
      ∀ entry ∈ (log.filter applied).rtake n, asked entry = true := by
  have hfilter : log.filter asked = (log.filter applied).filter asked := by
    rw [List.filter_filter]
    refine List.filter_congr fun entry _ => ?_
    cases ha : asked entry with
    | true => rw [h entry ha]; rfl
    | false => rfl
  rw [hfilter]
  generalize log.filter applied = kept
  constructor
  · intro heq entry hm
    rw [heq] at hm
    exact (List.mem_filter.mp (List.mem_of_mem_drop hm)).2
  · intro hall
    have hsplit := List.take_append_drop (kept.length - n) kept
    have hsame : (kept.drop (kept.length - n)).filter asked = kept.drop (kept.length - n) :=
      List.filter_eq_self.mpr hall
    have hkept : kept.filter asked =
        (kept.take (kept.length - n)).filter asked ++ kept.drop (kept.length - n) := by
      conv_lhs => rw [← hsplit, List.filter_append, hsame]
    rw [hkept]
    rcases Nat.lt_or_ge kept.length n with hn | hn
    · have hzero : kept.length - n = 0 := by omega
      rw [hzero, List.take_zero, List.filter_nil, List.nil_append, List.drop_zero,
        rtake_of_length_le hn.le]
    · have hlength : (kept.drop (kept.length - n)).length = n := by
        rw [List.length_drop]
        omega
      unfold List.rtake
      rw [List.length_append, hlength, Nat.add_sub_cancel, List.drop_left]

-- A query with a limit gives the last entries that match, unless the limit is zero and something
-- passes, or what is not applied would have left out one of them.
theorem recent_filter_iff (h : ∀ entry, asked entry = true → applied entry = true) (log : List α)
    (n : Nat) : recent (some n) (log.filter applied) = (log.filter asked).rtake n ↔
      (n = 0 → ∀ entry ∈ log, applied entry = false) ∧
        ∀ entry ∈ (log.filter applied).rtake n, asked entry = true := by
  rcases Nat.eq_zero_or_pos n with rfl | hn
  · rw [List.rtake_zero, List.rtake_zero]
    change recent (some 0) _ = [] ↔ _
    rw [recent_zero, List.filter_eq_nil_iff]
    simp
  · rw [recent_of_pos hn, rtake_filter_iff h]
    simp [hn.ne']

end Queries

end RecentLog

end YasinCore.Library
