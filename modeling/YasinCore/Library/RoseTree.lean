import Mathlib.Data.List.Perm.Basic

namespace YasinCore.Library

-- A tree whose nodes have any number of children, in an order.
inductive RoseTree (α : Type)
  | node (label : α) (children : List (RoseTree α))

namespace RoseTree

variable {α : Type}

mutual

def preorder : RoseTree α → List α
  | node label children => label :: preorders children

def preorders : List (RoseTree α) → List α
  | [] => []
  | tree :: trees => tree.preorder ++ preorders trees

end

theorem preorders_append (trees others : List (RoseTree α)) :
    preorders (trees ++ others) = preorders trees ++ preorders others := by
  induction trees with
  | nil => simp [preorders]
  | cons tree trees ih => simp [preorders, ih]

-- A walk with a queue: a node is taken from the front, its children go to the end.
def walkFrom : Nat → List (RoseTree α) → List α
  | fuel + 1, node label children :: todo => label :: walkFrom fuel (todo ++ children)
  | _, _ => []

def walk (tree : RoseTree α) : List α := walkFrom tree.preorder.length [tree]

-- The walk comes to every node, and to none of them twice.
theorem walkFrom_perm {fuel : Nat} {todo : List (RoseTree α)} (h : (preorders todo).length ≤ fuel) :
    (walkFrom fuel todo).Perm (preorders todo) := by
  induction fuel generalizing todo with
  | zero =>
      rw [List.length_eq_zero_iff.mp (Nat.le_zero.mp h)]
      exact .refl _
  | succ fuel ih =>
      match todo with
      | [] => exact .refl _
      | node label children :: todo =>
          simp only [preorders, preorder, List.cons_append, List.length_cons, List.length_append] at h
          rw [walkFrom, preorders, preorder, List.cons_append]
          refine .cons _ ((ih ?_).trans ?_)
          · rw [preorders_append, List.length_append]
            omega
          · rw [preorders_append]
            exact List.perm_append_comm

theorem walk_perm (tree : RoseTree α) : tree.walk.Perm tree.preorder := by
  have hlength : (preorders [tree]).length ≤ tree.preorder.length := by simp [preorders]
  have h := walkFrom_perm hlength
  rwa [preorders, preorders, List.append_nil] at h

end RoseTree

end YasinCore.Library
