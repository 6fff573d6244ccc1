import Mathlib.Tactic.TypeStar

namespace YasinCore.Library

-- The difference between the largest and the smallest of some loads
def spread (loads : List Nat) : Nat := loads.max?.getD 0 - loads.min?.getD 0

theorem spread_le_iff {loads : List Nat} {d : Nat} :
    spread loads ≤ d ↔ ∀ high ∈ loads, ∀ low ∈ loads, high ≤ low + d := by
  cases loads with
  | nil => simp [spread]
  | cons load rest =>
      obtain ⟨largest, hmax⟩ : ∃ n, (load :: rest).max? = some n := ⟨_, List.max?_cons⟩
      obtain ⟨smallest, hmin⟩ : ∃ n, (load :: rest).min? = some n := ⟨_, List.min?_cons⟩
      obtain ⟨hlargest, habove⟩ := List.max?_eq_some_iff.mp hmax
      obtain ⟨hsmallest, hbelow⟩ := List.min?_eq_some_iff.mp hmin
      rw [spread, hmax, hmin, Option.getD_some, Option.getD_some]
      constructor
      · intro h high hh low hl
        have hle := habove high hh
        have hge := hbelow low hl
        omega
      · intro h
        have hle := h largest hlargest smallest hsmallest
        omega

-- Raising one of the smallest loads by one keeps the loads together.
theorem spread_raise {loads raised : List Nat} {least : Nat} (hm : least ∈ loads)
    (hleast : ∀ load ∈ loads, least ≤ load) (h : ∀ load ∈ raised, load ∈ loads ∨ load = least + 1) :
    spread raised ≤ max (spread loads) 1 := by
  have hspread := spread_le_iff.mp (Nat.le_refl (spread loads))
  refine spread_le_iff.mpr fun high hh low hl => ?_
  rcases h high hh with hhigh | rfl
  · rcases h low hl with hlow | rfl
    · have hle := hspread high hhigh low hlow
      omega
    · have hle := hspread high hhigh least hm
      omega
  · rcases h low hl with hlow | rfl
    · have hle := hleast low hlow
      omega
    · omega

end YasinCore.Library
