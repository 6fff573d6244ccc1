import Mathlib.Data.List.Basic
import Mathlib.Logic.Relation
import Mathlib.Order.Nat

namespace YasinCore.Library

-- A list of nodes with at least one of them; the search goes on from the last one.
structure Route (α : Type) where
  before : List α
  last : α

namespace Route

variable {α : Type}

def nodes (path : Route α) : List α := path.before ++ [path.last]

def snoc (path : Route α) (next : α) : Route α := ⟨path.nodes, next⟩

def length (path : Route α) : Nat := path.before.length

def edges (path : Route α) : List (α × α) := path.nodes.zip path.nodes.tail

theorem length_snoc (path : Route α) (next : α) : (path.snoc next).length = path.length + 1 := by
  simp [length, snoc, nodes]

theorem zip_tail_append (nodes : List α) (last next : α) :
    (nodes ++ [last] ++ [next]).zip (nodes ++ [last] ++ [next]).tail =
      (nodes ++ [last]).zip (nodes ++ [last]).tail ++ [(last, next)] := by
  induction nodes with
  | nil => rfl
  | cons first rest ih =>
      cases rest with
      | nil => rfl
      | cons second rest => simpa using ih

theorem length_edges (path : Route α) : path.edges.length = path.length := by
  simp [edges, nodes, length]

theorem edges_snoc (path : Route α) (next : α) :
    (path.snoc next).edges = path.edges ++ [(path.last, next)] :=
  zip_tail_append path.before path.last next

end Route

-- Edges that lead from one node to the other, each from where the one before it ends
inductive Linked {α : Type} (r : α → α → Prop) : α → List (α × α) → α → Prop
  | nil {node : α} : Linked r node [] node
  | snoc {first last next : α} {edges : List (α × α)} : Linked r first edges last → r last next →
      Linked r first (edges ++ [(last, next)]) next

theorem exists_linked_iff {α : Type} {r : α → α → Prop} {first last : α} :
    (∃ edges, Linked r first edges last) ↔ Relation.ReflTransGen r first last := by
  constructor
  · rintro ⟨edges, h⟩
    induction h with
    | nil => exact .refl
    | snoc _ hnext ih => exact ih.tail hnext
  · intro h
    induction h with
    | refl => exact ⟨[], .nil⟩
    | tail _ hnext ih =>
        obtain ⟨edges, h⟩ := ih
        exact ⟨_, h.snoc hnext⟩

namespace BreadthFirst

variable {α : Type}

structure Frontier (α : Type) where
  queue : List (Route α)
  visited : List α

def start (node : α) : Frontier α := ⟨[⟨[], node⟩], [node]⟩

-- The paths of the graph
inductive Walk (adj : α → List α) (first : α) : Route α → Prop
  | refl : Walk adj first ⟨[], first⟩
  | snoc {path : Route α} {next : α} : Walk adj first path → next ∈ adj path.last →
      Walk adj first (path.snoc next)

theorem Walk.linked {adj : α → List α} {first : α} {path : Route α} (h : Walk adj first path) :
    Linked (fun node next => next ∈ adj node) first path.edges path.last := by
  induction h with
  | refl => exact .nil
  | snoc _ hnext ih =>
      rw [Route.edges_snoc]
      exact ih.snoc hnext

theorem exists_walk {adj : α → List α} {first last : α} {edges : List (α × α)}
    (h : Linked (fun node next => next ∈ adj node) first edges last) :
    ∃ path, Walk adj first path ∧ path.last = last ∧ path.edges = edges := by
  induction h with
  | nil => exact ⟨_, .refl, rfl, rfl⟩
  | snoc _ hnext ih =>
      obtain ⟨path, hwalk, rfl, rfl⟩ := ih
      exact ⟨_, hwalk.snoc hnext, rfl, Route.edges_snoc _ _⟩

section Levels

variable {adj : α → List α} {goal first : α} {level : Nat} {near far : List (Route α)} {path : Route α}
  {visited : List α}

-- The node is not the goal, and what comes after it has been seen.
def Done (adj : α → List α) (goal : α) (visited : List α) (node : α) : Prop :=
  node ≠ goal ∧ ∀ next ∈ adj node, next ∈ visited

-- The queue holds paths of one length, and behind them longer ones by a step. What is nearer than these is
-- done; so is whatever has been seen, as far as no path of the queue ends there.
structure Levels (adj : α → List α) (goal first : α) (level : Nat) (near far : List (Route α))
    (visited : List α) : Prop where
  near_walk : ∀ path ∈ near, Walk adj first path ∧ path.length = level
  far_walk : ∀ path ∈ far, Walk adj first path ∧ path.length = level + 1
  covered : ∀ node ∈ visited, Done adj goal visited node ∨ ∃ path ∈ near ++ far, path.last = node
  inner : ∀ path, Walk adj first path → path.length < level → Done adj goal visited path.last
  rim : ∀ path, Walk adj first path → path.length = level →
    Done adj goal visited path.last ∨ ∃ other ∈ near, other.last = path.last

theorem levels_start (adj : α → List α) (goal first : α) :
    Levels adj goal first 0 [⟨[], first⟩] [] [first] where
  near_walk path hp := by
    rw [List.mem_singleton.mp hp]
    exact ⟨.refl, rfl⟩
  far_walk path hp := absurd hp List.not_mem_nil
  covered node hn := .inr ⟨⟨[], first⟩, List.mem_cons_self, (List.mem_singleton.mp hn).symm⟩
  inner path hw hlt := absurd hlt (Nat.not_lt_zero _)
  rim path hw hlength := by
    cases hw with
    | refl => exact .inr ⟨_, List.mem_cons_self, rfl⟩
    | snoc hw hnext =>
        rw [Route.length_snoc] at hlength
        omega

-- The near paths are used up: the far ones are next.
theorem Levels.shift (h : Levels adj goal first level [] far visited) :
    Levels adj goal first (level + 1) far [] visited where
  near_walk := h.far_walk
  far_walk path hp := absurd hp List.not_mem_nil
  covered node hn := by simpa using h.covered node hn
  inner path hw hlt := by
    rcases Nat.lt_succ_iff_lt_or_eq.mp hlt with hlt | heq
    · exact h.inner path hw hlt
    · exact (h.rim path hw heq).resolve_right (by simp)
  rim path hw hlength := by
    cases hw with
    | refl => exact absurd hlength (Nat.succ_ne_zero _).symm
    | snoc hw hnext =>
        rename_i path next
        rw [Route.length_snoc] at hlength
        have hdone := (h.rim path hw (by omega)).resolve_right (by simp)
        simpa [Route.snoc] using h.covered next (hdone.2 next hnext)

-- When the queue is empty every path has been followed, and none ends at the goal.
theorem Levels.exhausted (h : Levels adj goal first level [] [] visited) (hfirst : first ∈ visited)
    (hw : Walk adj first path) : path.last ≠ goal := by
  have hdone (node : α) (hn : node ∈ visited) : Done adj goal visited node :=
    (h.covered node hn).resolve_right (by simp)
  have hvisited : path.last ∈ visited := by
    induction hw with
    | refl => exact hfirst
    | snoc hw hnext ih => exact (hdone _ ih).2 _ hnext
  exact (hdone _ hvisited).1

-- What the search says about the graph
def Answers (adj : α → List α) (goal first : α) : Option (Route α) → Prop
  | none => ∀ path, Walk adj first path → path.last ≠ goal
  | some path => Walk adj first path ∧ path.last = goal ∧
      ∀ other, Walk adj first other → other.last = goal → path.length ≤ other.length

end Levels

variable [DecidableEq α] {adj : α → List α} {goal first : α} {known : List α}

-- The neighbours that have not been seen yet are put at the end of the queue.
def expand (path : Route α) (neighbors : List α) (s : Frontier α) : Frontier α :=
  neighbors.foldl (fun s next => if next ∈ s.visited then s
    else ⟨s.queue ++ [path.snoc next], next :: s.visited⟩) s

-- The first path that ends at the goal. There is no answer when the fuel is used up.
def search (adj : α → List α) (goal : α) : Nat → Frontier α → Option (Option (Route α))
  | 0, _ => none
  | _ + 1, ⟨[], _⟩ => some none
  | fuel + 1, ⟨path :: queue, visited⟩ =>
      if path.last = goal then some (some path)
      else search adj goal fuel (expand path (adj path.last) ⟨queue, visited⟩)

section Expansion

variable {path other : Route α} {neighbors known : List α} {s : Frontier α} {node : α}

theorem mem_visited_expand :
    node ∈ (expand path neighbors s).visited ↔ node ∈ s.visited ∨ node ∈ neighbors := by
  unfold expand
  induction neighbors generalizing s with
  | nil => simp
  | cons next rest ih =>
      rw [List.foldl_cons, ih]
      split_ifs with hseen
      · rw [List.mem_cons, or_left_comm]
        refine ⟨.inr, ?_⟩
        rintro (rfl | h)
        · exact .inl hseen
        · exact h
      · simp only [List.mem_cons]
        rw [or_assoc, or_left_comm]

-- What is added leads one step further, and to all that has not been seen before.
theorem queue_expand (path : Route α) (neighbors : List α) (s : Frontier α) :
    ∃ added, (expand path neighbors s).queue = s.queue ++ added ∧
      (∀ other ∈ added, ∃ next ∈ neighbors, other = path.snoc next) ∧
      ∀ node ∈ (expand path neighbors s).visited,
        node ∈ s.visited ∨ ∃ other ∈ added, other.last = node := by
  unfold expand
  induction neighbors generalizing s with
  | nil => exact ⟨[], by simp, by simp, fun node hn => .inl hn⟩
  | cons next rest ih =>
      rw [List.foldl_cons]
      split_ifs with hseen
      · obtain ⟨added, hqueue, hadded, hvisited⟩ := ih s
        refine ⟨added, hqueue, fun other ho => ?_, hvisited⟩
        obtain ⟨further, hmem, rfl⟩ := hadded other ho
        exact ⟨further, List.mem_cons_of_mem _ hmem, rfl⟩
      · obtain ⟨added, hqueue, hadded, hvisited⟩ := ih ⟨s.queue ++ [path.snoc next], next :: s.visited⟩
        refine ⟨path.snoc next :: added, by rw [hqueue]; simp, fun other ho => ?_, fun node hn => ?_⟩
        · rcases List.mem_cons.mp ho with rfl | ho
          · exact ⟨next, List.mem_cons_self, rfl⟩
          · obtain ⟨further, hmem, rfl⟩ := hadded other ho
            exact ⟨further, List.mem_cons_of_mem _ hmem, rfl⟩
        · rcases hvisited node hn with hn | ⟨other, ho, hlast⟩
          · rcases List.mem_cons.mp hn with rfl | hn
            · exact .inr ⟨path.snoc node, List.mem_cons_self, rfl⟩
            · exact .inl hn
          · exact .inr ⟨other, List.mem_cons_of_mem _ ho, hlast⟩

-- What the search may still look at
def cost (known : List α) (s : Frontier α) : Nat :=
  s.queue.length + (known.filter (· ∉ s.visited)).length

theorem unseen_cons (hknown : node ∈ known) {visited : List α} (hnew : node ∉ visited) :
    (known.filter (· ∉ node :: visited)).length < (known.filter (· ∉ visited)).length := by
  have hsplit : known.filter (· ∉ node :: visited) = (known.filter (· ∉ visited)).filter (· ≠ node) := by
    rw [List.filter_filter]
    refine List.filter_congr fun other _ => ?_
    simp
  rw [hsplit, List.length_filter_lt_length_iff_exists]
  exact ⟨node, List.mem_filter.mpr ⟨hknown, by simpa using hnew⟩, by simp⟩

theorem cost_expand (h : ∀ next ∈ neighbors, next ∈ known) :
    cost known (expand path neighbors s) ≤ cost known s := by
  unfold expand
  induction neighbors generalizing s with
  | nil => exact le_rfl
  | cons next rest ih =>
      rw [List.foldl_cons]
      refine (ih fun other ho => h other (List.mem_cons_of_mem _ ho)).trans ?_
      split_ifs with hseen
      · exact le_rfl
      · have hfewer := unseen_cons (h next List.mem_cons_self) hseen
        unfold cost
        simp only [List.length_append, List.length_singleton]
        omega

end Expansion

-- Every round takes one path away, and a path is only added for a node that has not been seen.
theorem search_terminates (hknown : ∀ node, ∀ next ∈ adj node, next ∈ known) (s : Frontier α)
    {fuel : Nat} (h : cost known s < fuel) : search adj goal fuel s ≠ none := by
  induction fuel generalizing s with
  | zero => omega
  | succ fuel ih =>
      obtain ⟨queue, visited⟩ := s
      cases queue with
      | nil => exact Option.some_ne_none _
      | cons path queue =>
          rw [search]
          split_ifs
          · exact Option.some_ne_none _
          · refine ih _ ((cost_expand (hknown path.last)).trans_lt ?_)
            unfold cost at h ⊢
            simp only [List.length_cons] at h ⊢
            omega

theorem search_mono {s : Frontier α} {fuel more : Nat} {answer : Option (Route α)}
    (h : search adj goal fuel s = some answer) (hle : fuel ≤ more) :
    search adj goal more s = some answer := by
  induction fuel generalizing s more with
  | zero => cases h
  | succ fuel ih =>
      obtain ⟨more, rfl⟩ := Nat.exists_eq_add_of_lt (Nat.lt_of_succ_le hle)
      obtain ⟨queue, visited⟩ := s
      cases queue with
      | nil => exact h
      | cons path queue =>
          rw [search] at h ⊢
          split_ifs at h ⊢
          · exact h
          · exact ih h (Nat.le_add_right _ _)

section Runs

variable {level : Nat} {near far : List (Route α)} {path : Route α} {visited : List α}

theorem Levels.expand (h : Levels adj goal first level (path :: near) far visited)
    (hgoal : path.last ≠ goal) : ∃ added,
      (expand path (adj path.last) ⟨near ++ far, visited⟩).queue = near ++ (far ++ added) ∧
      Levels adj goal first level near (far ++ added)
        (expand path (adj path.last) ⟨near ++ far, visited⟩).visited := by
  obtain ⟨added, hqueue, hadded, hnew⟩ := queue_expand path (adj path.last) ⟨near ++ far, visited⟩
  have hdone {node : α} (hd : Done adj goal visited node) :
      Done adj goal (BreadthFirst.expand path (adj path.last) ⟨near ++ far, visited⟩).visited node :=
    ⟨hd.1, fun next hn => mem_visited_expand.mpr (.inl (hd.2 next hn))⟩
  have hlast : Done adj goal
      (BreadthFirst.expand path (adj path.last) ⟨near ++ far, visited⟩).visited path.last :=
    ⟨hgoal, fun next hn => mem_visited_expand.mpr (.inr hn)⟩
  have hwalk := h.near_walk path List.mem_cons_self
  refine ⟨added, by rw [hqueue, List.append_assoc], ?_, ?_, ?_, ?_, ?_⟩
  · exact fun other ho => h.near_walk other (List.mem_cons_of_mem _ ho)
  · intro other ho
    rcases List.mem_append.mp ho with ho | ho
    · exact h.far_walk other ho
    · obtain ⟨next, hnext, rfl⟩ := hadded other ho
      exact ⟨hwalk.1.snoc hnext, by rw [Route.length_snoc, hwalk.2]⟩
  · intro node hn
    rcases hnew node hn with hn | ⟨other, ho, hother⟩
    · rcases h.covered node hn with hd | ⟨other, ho, rfl⟩
      · exact .inl (hdone hd)
      · rcases List.mem_cons.mp ho with rfl | ho
        · exact .inl hlast
        · exact .inr ⟨other, by rw [← List.append_assoc]; exact List.mem_append_left _ ho, rfl⟩
    · exact .inr ⟨other, by simp [ho], hother⟩
  · exact fun other hw hlt => hdone (h.inner other hw hlt)
  · intro other hw hlength
    rcases h.rim other hw hlength with hd | ⟨near', hn, hsame⟩
    · exact .inl (hdone hd)
    · rcases List.mem_cons.mp hn with rfl | hn
      · exact .inl (hsame ▸ hlast)
      · exact .inr ⟨near', hn, hsame⟩

theorem search_answers {level : Nat} {near far : List (Route α)} {visited : List α} {fuel : Nat}
    {answer : Option (Route α)} (hlevels : Levels adj goal first level near far visited)
    (hfirst : first ∈ visited) (h : search adj goal fuel ⟨near ++ far, visited⟩ = some answer) :
    Answers adj goal first answer := by
  induction fuel generalizing level near far visited with
  | zero => cases h
  | succ fuel ih =>
      have hnear {level : Nat} {path : Route α} {near far : List (Route α)}
          (hlevels : Levels adj goal first level (path :: near) far visited)
          (h : search adj goal (fuel + 1) ⟨path :: near ++ far, visited⟩ = some answer) :
          Answers adj goal first answer := by
        rw [List.cons_append, search] at h
        split_ifs at h with hgoal
        · obtain rfl := Option.some.inj h
          obtain ⟨hwalk, hlength⟩ := hlevels.near_walk path List.mem_cons_self
          refine ⟨hwalk, hgoal, fun other hw hend => ?_⟩
          by_contra hshorter
          exact (hlevels.inner other hw (by omega)).1 hend
        · obtain ⟨added, hqueue, hnext⟩ := hlevels.expand hgoal
          refine ih hnext (mem_visited_expand.mpr (.inl hfirst)) ?_
          rw [← hqueue]
          exact h
      cases near with
      | cons path near => exact hnear hlevels h
      | nil =>
          cases far with
          | nil =>
              obtain rfl := Option.some.inj h
              exact fun path hw => hlevels.exhausted hfirst hw
          | cons path far =>
              refine hnear hlevels.shift ?_
              rw [List.append_nil]
              exact h

-- The search ends. It finds a shortest path to the goal when there is one, and says so when there is none.
theorem search_start (adj : α → List α) (goal first : α) {known : List α}
    (hknown : ∀ node, ∀ next ∈ adj node, next ∈ known) : ∃ answer,
      (∀ fuel > known.length + 1, search adj goal fuel (start first) = some answer) ∧
      Answers adj goal first answer := by
  have hcost : cost known (start first) < known.length + 2 := by
    have hfilter := List.length_filter_le (fun node => decide (node ∉ [first])) known
    unfold cost start
    simp only [List.length_singleton]
    omega
  obtain ⟨answer, h⟩ := Option.ne_none_iff_exists'.mp (search_terminates hknown (start first) hcost)
  exact ⟨answer, fun fuel hf => search_mono h hf,
    search_answers (levels_start adj goal first) List.mem_cons_self h⟩

end Runs

end BreadthFirst

end YasinCore.Library
