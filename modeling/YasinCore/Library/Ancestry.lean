import Mathlib.Data.Finset.Card
import Mathlib.Logic.Relation

namespace YasinCore.Library.Ancestry

variable {κ : Type*}

-- Nobody has been called by this name so far, not even as a parent who is not there.
def New (log : List (κ × Option κ)) (name : κ) : Prop :=
  ∀ entry ∈ log, entry.1 ≠ name ∧ entry.2 ≠ some name

instance [DecidableEq κ] (log : List (κ × Option κ)) (name : κ) : Decidable (New log name) :=
  inferInstanceAs (Decidable (∀ entry ∈ log, entry.1 ≠ name ∧ entry.2 ≠ some name))

-- Who was made under which parent, the newest first, where every name was a new one.
inductive Ordered : List (κ × Option κ) → Prop
  | nil : Ordered []
  | cons {name : κ} {parent : Option κ} {log : List (κ × Option κ)} :
      parent ≠ some name → New log name → Ordered log → Ordered ((name, parent) :: log)

def rank [DecidableEq κ] (name : κ) : List (κ × Option κ) → Nat
  | [] => 0
  | entry :: log => if entry.1 = name then log.length + 1 else rank name log

variable [DecidableEq κ] {log : List (κ × Option κ)} {name parent : κ}

theorem rank_le_length (name : κ) (log : List (κ × Option κ)) : rank name log ≤ log.length := by
  induction log with
  | nil => exact le_rfl
  | cons entry log ih =>
      rw [rank, List.length_cons]
      split <;> omega

-- Parents come before their children.
theorem Ordered.rank_parent_lt (h : Ordered log) (hm : (name, some parent) ∈ log) :
    rank parent log < rank name log := by
  induction h with
  | nil => cases hm
  | @cons newest itsParent log hne hnew _ ih =>
      rcases List.mem_cons.mp hm with he | hm
      · obtain ⟨rfl, rfl⟩ := Prod.mk.inj he
        have hparent : name ≠ parent := fun heq => hne (congrArg some heq.symm)
        have hlength := rank_le_length parent log
        rw [rank, rank, if_pos rfl, if_neg hparent]
        omega
      · obtain ⟨hname, hparent⟩ := hnew _ hm
        rw [rank, rank, if_neg (Ne.symm hname), if_neg fun heq => hparent (congrArg some heq.symm)]
        exact ih hm

-- No chain of parents comes back to where it began.
theorem Ordered.acyclic (h : Ordered log) {rel : κ → κ → Prop}
    (hrel : ∀ child parent, rel child parent → (child, some parent) ∈ log) (name : κ) :
    ¬Relation.TransGen rel name name := by
  have hlt (child ancestor : κ) (hchain : Relation.TransGen rel child ancestor) :
      rank ancestor log < rank child log := by
    induction hchain with
    | single hparent => exact h.rank_parent_lt (hrel _ _ hparent)
    | tail _ hparent ih => exact (h.rank_parent_lt (hrel _ _ hparent)).trans ih
  exact fun hcycle => lt_irrefl _ (hlt name name hcycle)

-- How many of some names come before a name.
def below (names : List κ) (log : List (κ × Option κ)) (name : κ) : Nat :=
  (names.toFinset.filter (rank · log < rank name log)).card

theorem below_lt_length {names : List κ} (log : List (κ × Option κ)) (hm : name ∈ names) :
    below names log name < names.length := by
  refine lt_of_lt_of_le (Finset.card_lt_card ?_) names.toFinset_card_le
  refine Finset.filter_ssubset.mpr ⟨name, List.mem_toFinset.mpr hm, ?_⟩
  exact lt_irrefl _

theorem below_parent_lt (h : Ordered log) {names : List κ} (hm : (name, some parent) ∈ log)
    (hknown : parent ∈ names) : below names log parent < below names log name := by
  have hlt := h.rank_parent_lt hm
  refine Finset.card_lt_card (Finset.ssubset_iff_subset_ne.mpr ⟨?_, fun heq => ?_⟩)
  · intro other ho
    rw [Finset.mem_filter] at ho ⊢
    exact ⟨ho.1, ho.2.trans hlt⟩
  · have hparent : parent ∈ names.toFinset.filter (rank · log < rank name log) :=
      Finset.mem_filter.mpr ⟨List.mem_toFinset.mpr hknown, hlt⟩
    rw [← heq] at hparent
    exact lt_irrefl _ (Finset.mem_filter.mp hparent).2

end YasinCore.Library.Ancestry
