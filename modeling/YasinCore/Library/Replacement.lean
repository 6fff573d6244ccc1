import Mathlib.Data.List.Infix

namespace YasinCore.Library

variable {α : Type*}

-- A pattern, by what becomes of a text that begins with a match: the text that is written for the
-- match, and what comes after it. A match is not empty.
structure Pattern (α : Type*) where
  apply : List α → Option (List α × List α)
  shorter : ∀ {s text rest}, apply s = some (text, rest) → rest.length < s.length

namespace Pattern

variable {p : Pattern α} {s text rest : List α} {c : α}

-- Replaces the matches from left to right.
def sub (p : Pattern α) : List α → List α
  | [] => []
  | c :: s =>
      match _h : p.apply (c :: s) with
      | some (text, rest) => text ++ sub p rest
      | none => c :: sub p s
  termination_by s => s.length
  decreasing_by
    · exact p.shorter _h
    · exact Nat.lt_succ_self _

theorem apply_nil (p : Pattern α) : p.apply [] = none := by
  cases h : p.apply [] with
  | none => rfl
  | some result => exact (Nat.not_lt_zero _ (p.shorter h)).elim

@[simp] theorem sub_nil (p : Pattern α) : p.sub [] = [] := by rw [sub]

theorem sub_match (h : p.apply s = some (text, rest)) : p.sub s = text ++ p.sub rest := by
  cases s with
  | nil => rw [apply_nil] at h; cases h
  | cons c s =>
      rw [sub]
      split
      · rename_i heq
        rw [h] at heq
        cases heq
        rfl
      · rename_i heq
        rw [h] at heq
        cases heq

theorem sub_skip (h : p.apply (c :: s) = none) : p.sub (c :: s) = c :: p.sub s := by
  rw [sub]
  split
  · rename_i heq
    rw [h] at heq
    cases heq
  · rfl

-- Induction over the run of a replacement.
theorem induction (p : Pattern α) {motive : List α → Prop} (nil : motive [])
    (found : ∀ s text rest, p.apply s = some (text, rest) → motive rest → motive s)
    (skip : ∀ c s, p.apply (c :: s) = none → motive s → motive (c :: s)) (s : List α) : motive s := by
  induction hn : s.length using Nat.strong_induction_on generalizing s with
  | _ n ih =>
      cases s with
      | nil => exact nil
      | cons c s =>
          cases h : p.apply (c :: s) with
          | none => exact skip c s h (ih s.length (by simp [← hn]) s rfl)
          | some result =>
              have hlt := p.shorter h
              exact found _ _ _ h (ih result.2.length (hn ▸ hlt) result.2 rfl)

-- Where no match that begins in the first part depends on the second one, the parts are replaced on
-- their own.
theorem sub_append {first second : List α}
    (hsuffix : ∀ {s text rest}, p.apply s = some (text, rest) → rest <:+ s)
    (h : ∀ front, front <:+ first → front ≠ [] →
      p.apply (front ++ second) = (p.apply front).map (Prod.map id (· ++ second))) :
    p.sub (first ++ second) = p.sub first ++ p.sub second := by
  induction first using p.induction with
  | nil => rw [sub_nil, List.nil_append, List.nil_append]
  | found s text rest ha ih =>
      have hne : s ≠ [] := by
        rintro rfl
        rw [apply_nil] at ha
        cases ha
      have hrest := hsuffix ha
      have hboth : p.apply (s ++ second) = some (text, rest ++ second) := by
        rw [h s List.suffix_rfl hne, ha]
        rfl
      rw [sub_match ha, sub_match hboth, ih fun front hf => h front (hf.trans hrest), List.append_assoc]
  | skip c s ha ih =>
      have hboth : p.apply (c :: (s ++ second)) = none := by
        rw [← List.cons_append, h (c :: s) List.suffix_rfl (List.cons_ne_nil c s), ha]
        rfl
      rw [List.cons_append, sub_skip hboth, sub_skip ha,
        ih fun front hf => h front (hf.trans (List.suffix_cons c s)), List.cons_append]

-- No match begins anywhere.
def Absent (p : Pattern α) (s : List α) : Prop := ∀ rest, rest <:+ s → p.apply rest = none

theorem Absent.tail (h : p.Absent (c :: s)) : p.Absent s :=
  fun rest hr => h rest (hr.trans (List.suffix_cons c s))

theorem Absent.sub_eq (h : p.Absent s) : p.sub s = s := by
  induction s with
  | nil => exact p.sub_nil
  | cons c s ih => rw [sub_skip (h _ List.suffix_rfl), ih h.tail]

-- A suffix of a text in two parts lies in the second one, or has a suffix of the first one before it.
theorem suffix_append_cases {first second : List α} (h : s <:+ first ++ second) :
    s <:+ second ∨ ∃ front, front <:+ first ∧ s = front ++ second := by
  obtain ⟨before, hbefore⟩ := h
  rcases List.append_eq_append_iff.mp hbefore with ⟨front, hf, hs⟩ | ⟨middle, -, hs⟩
  · exact .inr ⟨front, ⟨before, hf.symm⟩, hs⟩
  · exact .inl ⟨middle, hs.symm⟩

-- A pattern whose matches are recognised by what they consist of, and are written over with marks
-- that do not occur in them.
structure Erases (p : Pattern α) (mark : α) : Prop where
  marks : ∀ {s text rest}, p.apply s = some (text, rest) → text ≠ [] ∧ ∀ c ∈ text, c = mark
  inside : ∀ {s text rest}, p.apply s = some (text, rest) →
    ∃ token, mark ∉ token ∧ s = token ++ rest ∧ ∀ other, (p.apply (token ++ other)).isSome

namespace Erases

variable {mark : α}

-- What comes before the first mark has been copied.
theorem copied (hp : p.Erases mark) {front : List α} (hfront : mark ∉ front)
    (h : p.sub s = front ++ rest) : ∃ source, s = front ++ source ∧ p.sub source = rest := by
  induction front generalizing s with
  | nil => exact ⟨s, rfl, h⟩
  | cons c front ih =>
      rw [List.mem_cons, not_or] at hfront
      obtain ⟨hc, hfront⟩ := hfront
      cases s with
      | nil => rw [sub_nil] at h; cases h
      | cons d s =>
          cases ha : p.apply (d :: s) with
          | none =>
              rw [sub_skip ha, List.cons_append, List.cons.injEq] at h
              obtain ⟨source, rfl, hsource⟩ := ih hfront h.2
              exact ⟨source, by rw [h.1, List.cons_append], hsource⟩
          | some result =>
              obtain ⟨hne, hmarks⟩ := hp.marks ha
              obtain ⟨first, text, htext⟩ := List.exists_cons_of_ne_nil hne
              rw [sub_match ha, htext] at h
              have hfirst := hmarks first (htext ▸ List.mem_cons_self)
              exact (hc (hfirst.symm.trans (List.cons.inj h).1)).elim

theorem apply_mark (hp : p.Erases mark) : p.apply (mark :: s) = none := by
  cases h : p.apply (mark :: s) with
  | none => rfl
  | some result =>
      obtain ⟨token, hmark, hs, hall⟩ := hp.inside h
      cases token with
      | nil =>
          -- a match of nothing would be one of the empty text
          have hnil := hall []
          rw [List.append_nil, apply_nil] at hnil
          cases hnil
      | cons c token =>
          rw [List.cons_append, List.cons.injEq] at hs
          exact (hmark (hs.1 ▸ List.mem_cons_self)).elim

-- Marks at which no match begins are kept.
theorem sub_marks (hp : p.Erases mark) {marks : List α} (h : ∀ c ∈ marks, c = mark) :
    p.sub (marks ++ s) = marks ++ p.sub s := by
  induction marks with
  | nil => rfl
  | cons c marks ih =>
      obtain rfl := h c List.mem_cons_self
      rw [List.cons_append, sub_skip hp.apply_mark, ih fun d hd => h d (.tail _ hd), List.cons_append]

-- No match can begin before marks and end in them.
theorem apply_append_marks (hp : p.Erases mark) {marks : List α} (h : ∀ c ∈ marks, c = mark)
    (hs : p.apply s = none) : p.apply (s ++ marks) = none := by
  cases ha : p.apply (s ++ marks) with
  | none => rfl
  | some result =>
      obtain ⟨token, hmark, heq, hall⟩ := hp.inside ha
      rcases List.append_eq_append_iff.mp heq with ⟨beyond, rfl, hover⟩ | ⟨left, rfl, -⟩
      · cases beyond with
        | nil =>
            have hfound := hall []
            rw [List.append_nil, List.append_nil, hs] at hfound
            cases hfound
        | cons c beyond =>
            have hc := h c (hover ▸ List.mem_append_left _ List.mem_cons_self)
            exact (hmark (hc ▸ List.mem_append_right _ List.mem_cons_self)).elim
      · have hfound := hall left
        rw [hs] at hfound
        cases hfound

theorem absent_append_marks (hp : p.Erases mark) (hs : p.Absent s) {marks : List α}
    (h : ∀ c ∈ marks, c = mark) : p.Absent (s ++ marks) := by
  intro rest hr
  rcases suffix_append_cases hr with hr | ⟨front, hf, rfl⟩
  · cases rest with
    | nil => exact p.apply_nil
    | cons c rest =>
        rw [h c (hr.subset List.mem_cons_self)]
        exact hp.apply_mark
  · exact hp.apply_append_marks h (hs front hf)

-- A beginning of a text without matches has none.
theorem absent_prefix (hp : p.Erases mark) (hs : p.Absent s) {front : List α} (h : front <+: s) :
    p.Absent front := by
  intro rest hr
  obtain ⟨before, rfl⟩ := hr
  obtain ⟨after, rfl⟩ := h
  cases ha : p.apply rest with
  | none => rfl
  | some result =>
      obtain ⟨token, -, rfl, hall⟩ := hp.inside ha
      have hfound := hall (result.2 ++ after)
      rw [hs (token ++ (result.2 ++ after)) ⟨before, by simp⟩] at hfound
      cases hfound

-- Nothing is left to be replaced.
theorem absent_sub (hp : p.Erases mark) (s : List α) : p.Absent (p.sub s) := by
  induction s using p.induction with
  | nil =>
      rw [sub_nil]
      intro rest hr
      rw [List.suffix_nil.mp hr]
      exact p.apply_nil
  | found s text rest ha ih =>
      obtain ⟨-, hmarks⟩ := hp.marks ha
      rw [sub_match ha]
      intro suffix hr
      rcases suffix_append_cases hr with hr | ⟨front, hf, rfl⟩
      · exact ih suffix hr
      · cases front with
        | nil => exact ih _ List.suffix_rfl
        | cons c front =>
            rw [hmarks c (hf.subset List.mem_cons_self), List.cons_append]
            exact hp.apply_mark
  | skip c s ha ih =>
      intro suffix hr
      rw [sub_skip ha] at hr
      rcases List.suffix_cons_iff.mp hr with rfl | hr
      · cases hf : p.apply (c :: p.sub s) with
        | none => rfl
        | some result =>
            obtain ⟨token, hmark, heq, hall⟩ := hp.inside hf
            obtain ⟨source, hsource, -⟩ := hp.copied hmark ((sub_skip ha).trans heq)
            have hfound := hall source
            rw [← hsource, ha] at hfound
            cases hfound
      · exact ih suffix hr

end Erases

end Pattern

end YasinCore.Library
