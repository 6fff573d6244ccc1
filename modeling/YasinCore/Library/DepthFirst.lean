import Mathlib.Data.Fintype.Card
import Mathlib.Data.List.Perm.Subperm
import Mathlib.Data.Set.Finite.List
import Mathlib.Logic.Relation

namespace YasinCore.Library

open Relation

-- Where only finitely many elements have something after them and no cycle can be reached, what holds of
-- an element as soon as it does of all after it holds of the first one.
theorem reachable_induction {α : Type} {r : α → α → Prop} {start : α} {known : List α}
    {motive : α → Prop} (hknown : ∀ first second, r first second → first ∈ known)
    (hacyclic : ∀ other, ReflTransGen r start other → ¬TransGen r other other)
    (step : ∀ other, ReflTransGen r start other → (∀ next, r other next → motive next) → motive other) :
    motive start := by
  have hunknown {other : α} (hr : ReflTransGen r start other) (hn : other ∉ known) : motive other :=
    step other hr fun next hnext => absurd (hknown other next hnext) hn
  let Reached := { other : α // other ∈ known ∧ ReflTransGen r start other }
  have hfinite : Finite Reached :=
    ((List.finite_toSet known).subset fun other (ho : other ∈ known ∧ _) => ho.1).to_subtype
  have htrans : IsTrans Reached fun first second => TransGen r second.1 first.1 :=
    ⟨fun _ _ _ hfirst hsecond => hsecond.trans hfirst⟩
  have hirrefl : Std.Irrefl fun (first second : Reached) => TransGen r second.1 first.1 :=
    ⟨fun other => hacyclic other.1 other.2.2⟩
  have hfounded := Finite.wellFounded_of_trans_of_irrefl fun (first second : Reached) =>
    TransGen r second.1 first.1
  have hall (other : Reached) : motive other.1 := by
    induction other using hfounded.induction with
    | _ other ih =>
        refine step other.1 other.2.2 fun next hnext => ?_
        by_cases hmem : next ∈ known
        · exact ih ⟨next, hmem, other.2.2.tail hnext⟩ (.single hnext)
        · exact hunknown (other.2.2.tail hnext) hmem
  by_cases hmem : start ∈ known
  · exact hall ⟨start, hmem, .refl⟩
  · exact hunknown .refl hmem

-- What a traversal walks over: the test that every node has to pass, the nodes that come after it,
-- and the complaints about a cycle and about the depth.
structure Walk (α ε : Type) where
  check : α → Except ε Unit
  next : α → List α
  circular : α → ε
  tooDeep : ε

namespace Walk

variable {α ε : Type}

def Arc (w : Walk α ε) (node other : α) : Prop := other ∈ w.next node

-- All that can be reached passes the test, and no cycle can be reached.
structure Sound (w : Walk α ε) (node : α) : Prop where
  passes : ∀ other, ReflTransGen w.Arc node other → w.check other = .ok ()
  acyclic : ∀ other, ReflTransGen w.Arc node other → ¬TransGen w.Arc other other

-- A reason for raising this exception at the node
def Fault (w : Walk α ε) (node : α) (e : ε) : Prop :=
  ∃ other, ReflTransGen w.Arc node other ∧
    (w.check other = .error e ∨ e = w.circular other ∧ TransGen w.Arc other other)

-- The node passes the test, and so do those after it, whatever the way; no way is infinite.
inductive Settled (w : Walk α ε) : α → Prop
  | intro {node : α} (passes : w.check node = .ok ()) (rest : ∀ other ∈ w.next node, Settled w other) :
      Settled w node

variable {w : Walk α ε} {node other : α} {e : ε}

theorem Settled.passes (h : w.Settled node) : w.check node = .ok () := by
  cases h with
  | intro passes _ => exact passes

theorem Settled.next (h : w.Settled node) (ho : w.Arc node other) : w.Settled other := by
  cases h with
  | intro _ rest => exact rest other ho

theorem Settled.reach (h : w.Settled node) (hr : ReflTransGen w.Arc node other) : w.Settled other := by
  induction hr with
  | refl => exact h
  | tail _ ho ih => exact ih.next ho

theorem Settled.acyclic (h : w.Settled node) : ¬TransGen w.Arc node node := by
  induction h with
  | intro _ _ ih =>
      intro hcycle
      obtain ⟨other, ho, hback⟩ := TransGen.head'_iff.mp hcycle
      exact ih other ho (TransGen.tail' hback ho)

theorem Settled.sound (h : w.Settled node) : w.Sound node where
  passes _ hr := (h.reach hr).passes
  acyclic _ hr := (h.reach hr).acyclic

theorem Fault.not_sound (h : w.Fault node e) : ¬w.Sound node := by
  obtain ⟨other, hr, hcheck | ⟨-, hcycle⟩⟩ := h
  · intro hs
    rw [hs.passes other hr] at hcheck
    cases hcheck
  · exact fun hs => hs.acyclic other hr hcycle

theorem Fault.of_arc (ho : w.Arc node other) (h : w.Fault other e) : w.Fault node e := by
  obtain ⟨last, hr, hwhy⟩ := h
  exact ⟨last, hr.head ho, hwhy⟩

-- What visits of some nodes come to, when some nodes were done before: more nodes are done, and all
-- of them rightly, or one of the visited nodes has a fault.
def Outcome (w : Walk α ε) (nodes done : List α) : Except ε (List α) → Prop
  | .ok after => nodes ⊆ after ∧ done ⊆ after ∧ ∀ node ∈ after, w.Settled node
  | .error e => ∃ node ∈ nodes, w.Fault node e

variable {depth : Nat} {done trail nodes : List α}

theorem outcome_foldlM {call : List α → α → Except ε (List α)} (hdone : ∀ node ∈ done, w.Settled node)
    (hcall : ∀ other ∈ nodes, ∀ done, (∀ node ∈ done, w.Settled node) →
      w.Outcome [other] done (call done other)) :
    w.Outcome nodes done (nodes.foldlM call done) := by
  induction nodes generalizing done with
  | nil => exact ⟨List.nil_subset _, List.Subset.refl _, hdone⟩
  | cons first rest ih =>
      have hfirst := hcall first List.mem_cons_self done hdone
      rw [List.foldlM_cons]
      cases hc : call done first with
      | error e =>
          rw [hc] at hfirst
          obtain ⟨node, hn, hfault⟩ := hfirst
          exact ⟨node, List.mem_cons.mpr (.inl (List.mem_singleton.mp hn)), hfault⟩
      | ok after =>
          rw [hc] at hfirst
          obtain ⟨hin, hkept, hsettled⟩ := hfirst
          have hrest := ih hsettled fun other ho => hcall other (List.mem_cons_of_mem _ ho)
          show w.Outcome (first :: rest) done (rest.foldlM call after)
          cases hr : rest.foldlM call after with
          | error e =>
              rw [hr] at hrest
              obtain ⟨node, hn, hfault⟩ := hrest
              exact ⟨node, List.mem_cons_of_mem _ hn, hfault⟩
          | ok last =>
              rw [hr] at hrest
              obtain ⟨hin', hkept', hsettled'⟩ := hrest
              have hlast : first ∈ last := hkept' (hin (List.mem_singleton_self _))
              exact ⟨List.cons_subset.mpr ⟨hlast, hin'⟩, List.Subset.trans hkept hkept', hsettled'⟩

theorem exists_of_foldlM_error {call : List α → α → Except ε (List α)}
    (h : nodes.foldlM call done = .error e) :
    ∃ other ∈ nodes, ∃ before, call before other = .error e := by
  induction nodes generalizing done with
  | nil => cases h
  | cons first rest ih =>
      rw [List.foldlM_cons] at h
      cases hc : call done first with
      | error e' =>
          rw [hc] at h
          cases h
          exact ⟨first, List.mem_cons_self, done, hc⟩
      | ok after =>
          rw [hc] at h
          obtain ⟨other, ho, before, hbefore⟩ := ih h
          exact ⟨other, List.mem_cons_of_mem _ ho, before, hbefore⟩

variable [DecidableEq α]

-- Depth first, and not deeper than allowed. It returns the nodes that are done with; those on the
-- trail are still being worked on.
def visit (w : Walk α ε) : Nat → α → List α → List α → Except ε (List α)
  | 0, _, _, _ => .error w.tooDeep
  | depth + 1, node, done, trail =>
      if node ∈ trail then .error (w.circular node)
      else if node ∈ done then .ok done
      else do
        w.check node
        let done ← (w.next node).foldlM (fun done other => visit w depth other done (node :: trail)) done
        return node :: done

-- The trail is a way to the node, without a repetition, through nodes that pass the test; where
-- these are in a list that is shorter than what the depth allows, the depth is never exceeded.
theorem visit_outcome {known : List α} (hknown : ∀ node, w.check node = .ok () → node ∈ known)
    (hdepth : known.length < depth + trail.length) (hnodup : trail.Nodup) (hsub : trail ⊆ known)
    (htrail : ∀ past ∈ trail, TransGen w.Arc past node) (hdone : ∀ node ∈ done, w.Settled node) :
    w.Outcome [node] done (w.visit depth node done trail) := by
  induction depth generalizing node done trail with
  | zero =>
      have hle : trail.length ≤ known.length := (List.subperm_of_subset hnodup hsub).length_le
      omega
  | succ depth ih =>
      rw [visit]
      by_cases hcycle : node ∈ trail
      · rw [if_pos hcycle]
        exact ⟨node, List.mem_singleton_self _, node, .refl, .inr ⟨rfl, htrail node hcycle⟩⟩
      rw [if_neg hcycle]
      by_cases hin : node ∈ done
      · rw [if_pos hin]
        exact ⟨List.cons_subset.mpr ⟨hin, List.nil_subset _⟩, List.Subset.refl _, hdone⟩
      rw [if_neg hin]
      cases hcheck : w.check node with
      | error e => exact ⟨node, List.mem_singleton_self _, node, .refl, .inl hcheck⟩
      | ok passed =>
          have hall : w.Outcome (w.next node) done ((w.next node).foldlM
              (fun done other => w.visit depth other done (node :: trail)) done) := by
            refine outcome_foldlM hdone fun other ho done hdone => ?_
            refine ih ?_ (List.nodup_cons.mpr ⟨hcycle, hnodup⟩)
              (List.cons_subset.mpr ⟨hknown node hcheck, hsub⟩) (fun past hp => ?_) hdone
            · rw [List.length_cons]
              omega
            · rcases List.mem_cons.mp hp with rfl | hp
              · exact .single ho
              · exact (htrail past hp).tail ho
          show w.Outcome [node] done (((w.next node).foldlM
            (fun done other => w.visit depth other done (node :: trail)) done).bind
              fun done => .ok (node :: done))
          revert hall
          cases (w.next node).foldlM (fun done other => w.visit depth other done (node :: trail)) done with
          | error e =>
              rintro ⟨other, ho, hfault⟩
              exact ⟨node, List.mem_singleton_self _, hfault.of_arc ho⟩
          | ok after =>
              rintro ⟨hnext, hkept, hsettled⟩
              have hnode : w.Settled node := .intro hcheck fun other ho => hsettled other (hnext ho)
              refine ⟨by simp, List.subset_cons_of_subset _ hkept, fun other ho => ?_⟩
              rcases List.mem_cons.mp ho with rfl | ho
              · exact hnode
              · exact hsettled other ho

theorem visit_start (w : Walk α ε) (node : α) {known : List α}
    (hknown : ∀ node, w.check node = .ok () → node ∈ known) (hdepth : known.length < depth) :
    w.Outcome [node] [] (w.visit depth node [] []) :=
  visit_outcome hknown hdepth List.nodup_nil (List.nil_subset _)
    (fun _ hp => absurd hp List.not_mem_nil) fun _ ho => absurd ho List.not_mem_nil

-- A traversal from the start returns when the node is sound, and otherwise raises for a reason.
theorem visit_exact (w : Walk α ε) (node : α) {known : List α}
    (hknown : ∀ node, w.check node = .ok () → node ∈ known)
    (hdepth : known.length < depth) :
    (w.Sound node ∧ ∃ after, w.visit depth node [] [] = .ok after) ∨
      (¬w.Sound node ∧ ∃ e, w.visit depth node [] [] = .error e ∧ w.Fault node e) := by
  have houtcome := w.visit_start node hknown hdepth
  cases hv : w.visit depth node [] [] with
  | ok after =>
      rw [hv] at houtcome
      obtain ⟨hin, -, hsettled⟩ := houtcome
      exact .inl ⟨(hsettled node (hin (List.mem_singleton_self _))).sound, after, rfl⟩
  | error e =>
      rw [hv] at houtcome
      obtain ⟨other, ho, hfault⟩ := houtcome
      obtain rfl := List.mem_singleton.mp ho
      exact .inr ⟨hfault.not_sound, e, rfl, hfault⟩

-- What is sound is settled, since only finitely many nodes pass the test.
theorem Sound.settled (h : w.Sound node) {known : List α}
    (hknown : ∀ node, w.check node = .ok () → node ∈ known) : w.Settled node := by
  have houtcome := w.visit_start node hknown (Nat.lt_succ_self known.length)
  revert houtcome
  cases w.visit known.length.succ node [] [] with
  | ok after => exact fun houtcome => houtcome.2.2 node (houtcome.1 (List.mem_singleton_self _))
  | error e =>
      rintro ⟨other, ho, hfault⟩
      obtain rfl := List.mem_singleton.mp ho
      exact absurd h hfault.not_sound

-- Whatever the depth, only a lack of it makes a traversal raise without a fault.
theorem visit_error (htrail : ∀ past ∈ trail, TransGen w.Arc past node)
    (h : w.visit depth node done trail = .error e) : e = w.tooDeep ∨ w.Fault node e := by
  induction depth generalizing node done trail with
  | zero =>
      rw [visit] at h
      exact .inl (Except.error.inj h).symm
  | succ depth ih =>
      rw [visit] at h
      split_ifs at h with hcycle hin
      · exact .inr ⟨node, .refl, .inr ⟨(Except.error.inj h).symm, htrail node hcycle⟩⟩
      · cases hcheck : w.check node with
        | error e' =>
            rw [hcheck] at h
            cases h
            exact .inr ⟨node, .refl, .inl hcheck⟩
        | ok passed =>
            rw [hcheck] at h
            have hloop : (w.next node).foldlM
                (fun done other => w.visit depth other done (node :: trail)) done = .error e := by
              revert h
              change (((w.next node).foldlM (fun done other => w.visit depth other done (node :: trail))
                done).bind fun done => .ok (node :: done)) = _ → _
              cases (w.next node).foldlM
                (fun done other => w.visit depth other done (node :: trail)) done with
              | error e' => exact fun h => congrArg _ (Except.error.inj h)
              | ok after => exact fun h => nomatch h
            obtain ⟨other, ho, before, hbefore⟩ := exists_of_foldlM_error hloop
            have htrail' : ∀ past ∈ node :: trail, TransGen w.Arc past other := by
              intro past hp
              rcases List.mem_cons.mp hp with rfl | hp
              · exact .single ho
              · exact (htrail past hp).tail ho
            exact (ih htrail' hbefore).imp_right fun hfault => hfault.of_arc ho

end Walk

end YasinCore.Library
