import Mathlib.Data.Fintype.EquivFin
import Mathlib.Data.List.Lex
import Mathlib.Data.Set.Finite.Basic
import Mathlib.Logic.Relation
import Mathlib.Order.WellFounded

namespace YasinCore.Library

open Relation

variable {κ : Type*} (needs : κ → κ → Prop) (nodes : List κ)

-- Everything a node needs stands before it.
def Topological (order : List κ) : Prop :=
  ∀ before node after, order = before ++ node :: after → ∀ dep, needs node dep → dep ∈ before

-- A node whose turn may come once the given ones are done.
def Available (done : List κ) (node : κ) : Prop :=
  node ∈ nodes ∧ node ∉ done ∧ ∀ dep, needs node dep → dep ∈ done

-- At every place stands the least of the nodes whose turn may come there.
def Greedy [LinearOrder κ] (order : List κ) : Prop :=
  ∀ before node after, order = before ++ node :: after →
    Available needs nodes before node ∧ ∀ other, Available needs nodes before other → node ≤ other

variable {needs nodes}

section Topological

theorem Topological.mem_before {order before after : List κ} {node dep : κ}
    (h : Topological needs order) (he : order = before ++ node :: after)
    (hd : TransGen needs node dep) : dep ∈ before := by
  induction hd with
  | single hn => exact h before node after he _ hn
  | @tail mid _ _ hn ih =>
      obtain ⟨first, second, rfl⟩ := List.append_of_mem ih
      have hsplit : order = first ++ mid :: (second ++ node :: after) := by
        rw [he, List.append_assoc, List.cons_append]
      exact List.mem_append_left _ (h first _ _ hsplit _ hn)

-- What is ordered has no cycle.
theorem Topological.acyclic {order : List κ} (h : Topological needs order) (hn : order.Nodup)
    {node : κ} (hm : node ∈ order) : ¬TransGen needs node node := by
  intro hcycle
  obtain ⟨before, after, rfl⟩ := List.append_of_mem hm
  have hbefore := h.mem_before rfl hcycle
  exact (List.nodup_append.mp hn).2.2 node hbefore node List.mem_cons_self rfl

-- Without a cycle some node is available as long as one is left.
theorem exists_available (hacyclic : ∀ node, ¬TransGen needs node node)
    (hclosed : ∀ node dep, needs node dep → dep ∈ nodes) {done : List κ} {left : κ}
    (hleft : left ∈ nodes) (hdone : left ∉ done) : ∃ node, Available needs nodes done node := by
  have hwf : WellFounded fun first second : {node // node ∈ nodes} =>
      TransGen needs second.val first.val := by
    have hfinite : Finite {node // node ∈ nodes} := (List.finite_toSet nodes).to_subtype
    have htrans : IsTrans {node // node ∈ nodes} fun first second =>
        TransGen needs second.val first.val := ⟨fun _ _ _ h₁ h₂ => h₂.trans h₁⟩
    have hirrefl : Std.Irrefl fun first second : {node // node ∈ nodes} =>
        TransGen needs second.val first.val := ⟨fun node => hacyclic node.val⟩
    exact Finite.wellFounded_of_trans_of_irrefl _
  obtain ⟨least, hl, hmin⟩ := hwf.has_min {node | node.val ∉ done} ⟨⟨left, hleft⟩, hdone⟩
  refine ⟨least.val, least.property, hl, fun dep hdep => ?_⟩
  by_contra hcon
  exact hmin ⟨dep, hclosed least.val dep hdep⟩ hcon (.single hdep)

end Topological

section Greedy

variable [LinearOrder κ]

theorem Greedy.topological {order : List κ} (h : Greedy needs nodes order) :
    Topological needs order :=
  fun before node after he => (h before node after he).1.2.2

theorem Greedy.subset {order : List κ} (h : Greedy needs nodes order) : ∀ node ∈ order, node ∈ nodes := by
  intro node hm
  obtain ⟨before, after, rfl⟩ := List.append_of_mem hm
  exact (h before node after rfl).1.1

theorem Greedy.nodup {order : List κ} (h : Greedy needs nodes order) : order.Nodup := by
  induction order using List.reverseRecOn with
  | nil => exact List.nodup_nil
  | append_singleton before node ih =>
      have hbefore : Greedy needs nodes before := by
        intro first other second he
        exact h first other (second ++ [node]) (by rw [he, List.append_assoc, List.cons_append])
      have hnew : node ∉ before := (h before node [] rfl).1.2.1
      rw [List.nodup_append]
      refine ⟨ih hbefore, List.nodup_singleton node, fun other ho _ hm he => ?_⟩
      rw [List.mem_singleton.mp hm] at he
      exact hnew (he ▸ ho)

theorem greedy_nil : Greedy needs nodes [] := by
  intro before node after he
  simp at he

theorem Greedy.snoc {order : List κ} {node : κ} (h : Greedy needs nodes order)
    (ha : Available needs nodes order node)
    (hleast : ∀ other, Available needs nodes order other → node ≤ other) :
    Greedy needs nodes (order ++ [node]) := by
  intro before other after he
  rcases List.eq_nil_or_concat after with rfl | ⟨rest, last, rfl⟩
  · obtain ⟨rfl, hlast⟩ := List.append_inj' he rfl
    obtain rfl : node = other := by simpa using hlast
    exact ⟨ha, hleast⟩
  · have hsplit : order ++ [node] = (before ++ other :: rest) ++ [last] := by
      rw [he, List.concat_eq_append, List.append_assoc, List.cons_append]
    exact h before other rest (List.append_inj_left' hsplit rfl)

-- Of two different lists over the same nodes, the first difference decides.
theorem first_difference {left right : List κ} (hlen : left.length = right.length)
    (hne : left ≠ right) : ∃ before l r ltail rtail, l ≠ r ∧
      left = before ++ l :: ltail ∧ right = before ++ r :: rtail := by
  induction left generalizing right with
  | nil =>
      cases right with
      | nil => exact absurd rfl hne
      | cons r rtail => simp at hlen
  | cons l ltail ih =>
      cases right with
      | nil => simp at hlen
      | cons r rtail =>
          by_cases he : l = r
          · subst he
            obtain ⟨before, l', r', lt, rt, hd, rfl, rfl⟩ :=
              ih (by simpa using hlen) fun hc => hne (congrArg (l :: ·) hc)
            exact ⟨l :: before, l', r', lt, rt, hd, rfl, rfl⟩
          · exact ⟨[], l, r, ltail, rtail, he, rfl, rfl⟩

theorem append_lt_append {before ltail rtail : List κ} {l r : κ} (h : l < r) :
    before ++ l :: ltail < before ++ r :: rtail := by
  induction before with
  | nil => exact List.Lex.rel h
  | cons node rest ih => exact List.Lex.cons ih

-- The greedy order of all nodes is the least of their topological orders.
theorem Greedy.le_of_topological {order other : List κ} (h : Greedy needs nodes order)
    (hall : order.Perm nodes) (hother : other.Perm nodes) (ht : Topological needs other) :
    order ≤ other := by
  by_cases he : order = other
  · exact le_of_eq he
  · have hlen : order.length = other.length := (hall.trans hother.symm).length_eq
    obtain ⟨before, node, rival, ntail, rtail, hne, hn, hr⟩ := first_difference hlen he
    have hnodup : (before ++ rival :: rtail).Nodup := hr ▸ (hall.trans hother.symm).nodup_iff.mp h.nodup
    have hrival : Available needs nodes before rival := by
      refine ⟨hother.mem_iff.mp (hr ▸ by simp), fun hb => ?_, ht before rival rtail hr⟩
      exact (List.nodup_append.mp hnodup).2.2 rival hb rival List.mem_cons_self rfl
    have hlt : node < rival := lt_of_le_of_ne ((h before node ntail hn).2 rival hrival) hne
    rw [hn, hr]
    exact le_of_lt (append_lt_append hlt)

-- A greedy order that cannot be continued holds all nodes, unless there is a cycle.
theorem Greedy.perm_of_maximal {order : List κ} (h : Greedy needs nodes order) (hn : nodes.Nodup)
    (hmax : ∀ node, ¬Available needs nodes order node)
    (hacyclic : ∀ node, ¬TransGen needs node node)
    (hclosed : ∀ node dep, needs node dep → dep ∈ nodes) : order.Perm nodes := by
  refine (List.perm_ext_iff_of_nodup h.nodup hn).mpr fun node => ⟨h.subset node, fun hm => ?_⟩
  by_contra hcon
  obtain ⟨next, hnext⟩ := exists_available hacyclic hclosed hm hcon
  exact hmax next hnext

end Greedy

end YasinCore.Library
