import YasinCore.Library.LinearExtension
import YasinCore.Runtime.ServiceManager

namespace YasinCore.Runtime.RuntimeServiceManager

open YasinCore.Library

variable {Service : Type}

def dependencies (m : RuntimeServiceManager Service) (name : ServiceName) : List ServiceName :=
  match m.metadata.get? name with
  | some metadata => metadata.dependencies
  | none => []

def Needs (m : RuntimeServiceManager Service) (name dep : ServiceName) : Prop :=
  dep ∈ m.dependencies name

section Graph

theorem neighbors_set (graph : Graph) (key node : ServiceName) (value : List ServiceName) :
    neighbors (graph.set key value) node = if node = key then value else neighbors graph node := by
  rw [neighbors, Dict.get?_set]
  split <;> rfl

theorem degree_set (indegree : Indegree) (key node : ServiceName) (value : Int) :
    degree (indegree.set key value) node = if node = key then value else degree indegree node := by
  rw [degree, Dict.get?_set]
  split <;> rfl

theorem neighbors_addEdges (edges : List (ServiceName × ServiceName)) (acc : Graph × Indegree)
    (node : ServiceName) : neighbors (edges.foldl addEdge acc).1 node =
      neighbors acc.1 node ++ (edges.filter fun edge => edge.2 = node).map Prod.fst := by
  induction edges generalizing acc with
  | nil => simp
  | cons edge rest ih =>
      rw [List.foldl_cons, ih, addEdge, neighbors_set, List.filter_cons]
      by_cases he : node = edge.2
      · simp [he]
      · simp [he, Ne.symm he]

theorem degree_addEdges (edges : List (ServiceName × ServiceName)) (acc : Graph × Indegree)
    (node : ServiceName) : degree (edges.foldl addEdge acc).2 node =
      degree acc.2 node + edges.countP fun edge => edge.1 = node := by
  induction edges generalizing acc with
  | nil => simp
  | cons edge rest ih =>
      rw [List.foldl_cons, ih, addEdge, degree_set, List.countP_cons]
      by_cases he : node = edge.1
      · simp [he]
        omega
      · simp [he, Ne.symm he]

-- The pairs of one service are its own dependencies.
theorem pairs_of_service (entries : List (ServiceName × ServiceMetadata))
    (hn : (entries.map Prod.fst).Nodup) (name : ServiceName) :
    (entries.flatMap fun entry => entry.2.dependencies.map fun dep => (entry.1, dep)).filter
        (fun edge => edge.1 = name) =
      ((Entries.lookup name entries).map ServiceMetadata.dependencies |>.getD []).map
        fun dep => (name, dep) := by
  induction entries with
  | nil => simp [Entries.lookup]
  | cons entry rest ih =>
      rw [List.map_cons, List.nodup_cons] at hn
      rw [List.flatMap_cons, List.filter_append, ih hn.2, Entries.lookup]
      by_cases he : entry.1 = name
      · have hnone : Entries.lookup name rest = none :=
          Entries.lookup_eq_none_iff.mpr (he ▸ hn.1)
        simp [he, hnone, List.filter_map, Function.comp_def]
      · simp [he, List.filter_map, Function.comp_def]

variable (m : RuntimeServiceManager Service)

theorem filter_dependencyPairs (name : ServiceName) :
    (m.dependencyPairs.filter fun edge => edge.1 = name) =
      (m.dependencies name).map fun dep => (name, dep) := by
  have h := pairs_of_service m.metadata.entries m.metadata.nodup name
  have hdeps : ((Entries.lookup name m.metadata.entries).map ServiceMetadata.dependencies).getD [] =
      m.dependencies name := by
    change ((m.metadata.get? name).map ServiceMetadata.dependencies).getD [] = _
    unfold dependencies
    cases m.metadata.get? name <;> rfl
  rw [hdeps] at h
  exact h

theorem mem_dependencyPairs {name dep : ServiceName} :
    (name, dep) ∈ m.dependencyPairs ↔ m.Needs name dep := by
  have h : (name, dep) ∈ m.dependencyPairs.filter (fun edge => edge.1 = name) ↔
      (name, dep) ∈ m.dependencyPairs := by simp
  rw [← h, filter_dependencyPairs]
  simp [Needs]

-- The indegree counts the dependencies, and the graph has an edge back for each of them.
theorem degree_buildGraph (name : ServiceName) :
    degree m.buildGraph.2 name = (m.dependencies name).length := by
  have hzero : degree (m.services.mapValues fun _ _ => (0 : Int)) name = 0 := by
    rw [degree, Dict.get?_mapValues]
    cases m.services.get? name <;> rfl
  rw [buildGraph, degree_addEdges, hzero, Int.zero_add, List.countP_eq_length_filter,
    filter_dependencyPairs, List.length_map]

theorem count_neighbors (name dep : ServiceName) :
    (neighbors m.buildGraph.1 dep).count name = (m.dependencies name).count dep := by
  have hempty : neighbors (m.services.mapValues fun _ _ => ([] : List ServiceName)) dep = [] := by
    rw [neighbors, Dict.get?_mapValues]
    cases m.services.get? dep <;> rfl
  have hdeps : (m.dependencies name).count dep =
      ((m.dependencies name).map fun dep => (name, dep)).countP fun edge => edge.2 == dep := by
    rw [List.countP_map, List.count]
    rfl
  rw [buildGraph, neighbors_addEdges, hempty, List.nil_append, hdeps, ← filter_dependencyPairs,
    List.count, List.countP_map, List.countP_filter, List.countP_filter]
  refine List.countP_congr fun edge _ => ?_
  simp [and_comm]

theorem mem_neighbors {name dep : ServiceName} :
    name ∈ neighbors m.buildGraph.1 dep ↔ m.Needs name dep := by
  rw [← List.count_pos_iff, count_neighbors, List.count_pos_iff, Needs]

end Graph

section Relax

-- Taking a node's edges: every neighbor loses one degree for each edge, and those that lose their
-- last one join the queue, each of them once.
theorem degree_relax (targets : List ServiceName) (acc : Indegree × List ServiceName)
    (name : ServiceName) :
    degree (targets.foldl relax acc).1 name = degree acc.1 name - targets.count name := by
  induction targets generalizing acc with
  | nil => simp
  | cons target rest ih =>
      rw [List.foldl_cons, ih, relax, degree_set, List.count_cons]
      by_cases he : name = target
      · subst he
        simp
        omega
      · simp [he, Ne.symm he]

theorem queue_relax (targets : List ServiceName) (acc : Indegree × List ServiceName)
    (hcount : ∀ name ∈ targets, (targets.count name : Int) ≤ degree acc.1 name) :
    ∃ ready, (targets.foldl relax acc).2 = acc.2 ++ ready ∧ ready.Nodup ∧
      ∀ name, name ∈ ready ↔ name ∈ targets ∧ degree acc.1 name = targets.count name := by
  induction targets generalizing acc with
  | nil => exact ⟨[], by simp, List.nodup_nil, by simp⟩
  | cons target rest ih =>
      have hdegree (name : ServiceName) : degree (relax acc target).1 name =
          degree acc.1 name - if name = target then 1 else 0 := by
        rw [relax, degree_set]
        by_cases he : name = target
        · simp [he]
        · simp [he]
      have hcons (name : ServiceName) : ((target :: rest).count name : Int) =
          rest.count name + if name = target then 1 else 0 := by
        rw [List.count_cons]
        by_cases he : name = target
        · simp [he]
        · simp [he, Ne.symm he]
      have hrest : ∀ name ∈ rest, (rest.count name : Int) ≤ degree (relax acc target).1 name := by
        intro name hm
        have hc := hcount name (List.mem_cons_of_mem _ hm)
        rw [hcons] at hc
        rw [hdegree]
        omega
      obtain ⟨ready, hq, hn, hmem⟩ := ih (relax acc target) hrest
      have htarget := hcount target List.mem_cons_self
      rw [hcons, if_pos rfl] at htarget
      by_cases hz : degree acc.1 target - 1 = 0
      · have hnone : target ∉ rest := by
          intro hm
          have hpos := List.count_pos_iff.mpr hm
          omega
        refine ⟨target :: ready, ?_, ?_, fun name => ?_⟩
        · rw [List.foldl_cons, hq, relax, if_pos hz, List.append_assoc, List.singleton_append]
        · exact List.nodup_cons.mpr ⟨fun hm => hnone ((hmem target).mp hm).1, hn⟩
        · rw [List.mem_cons, List.mem_cons, hmem, hdegree, hcons]
          by_cases he : name = target
          · subst he
            have hzero : rest.count name = 0 := List.count_eq_zero.mpr hnone
            simp [hzero]
            omega
          · simp [he]
      · refine ⟨ready, ?_, hn, fun name => ?_⟩
        · rw [List.foldl_cons, hq, relax, if_neg hz]
        · rw [List.mem_cons, hmem, hdegree, hcons]
          by_cases he : name = target
          · subst he
            by_cases hm : name ∈ rest
            · simp [hm]
              omega
            · have hzero : rest.count name = 0 := List.count_eq_zero.mpr hm
              simp [hm, hzero]
              omega
          · simp [he]

end Relax

section Loop

open Relation

variable (m : RuntimeServiceManager Service)

-- Between two turns of the loop: the order so far is greedy, and the queue holds what is available.
structure LoopInvariant (queue : List ServiceName) (indegree : Indegree)
    (order : List ServiceName) : Prop where
  greedy : Greedy m.Needs m.services.keys order
  sorted : queue.Pairwise (· ≤ ·)
  nodup : queue.Nodup
  available : ∀ name, name ∈ queue ↔ Available m.Needs m.services.keys order name
  degrees : ∀ name, degree indegree name = (m.dependencies name).countP fun dep => dep ∉ order

variable {m}

-- A node that is done leaves the count of what is missing, as often as it is listed.
theorem countP_done {order : List ServiceName} {node : ServiceName} (hnode : node ∉ order)
    (deps : List ServiceName) : (deps.countP fun dep => dep ∉ order ++ [node]) + deps.count node =
      deps.countP fun dep => dep ∉ order := by
  induction deps with
  | nil => rfl
  | cons dep rest ih =>
      rw [List.countP_cons, List.countP_cons, List.count_cons]
      by_cases he : dep = node
      · subst he
        simp [hnode] at ih ⊢
        omega
      · simp [he] at ih ⊢
        omega

theorem available_iff {order : List ServiceName} {name : ServiceName} :
    Available m.Needs m.services.keys order name ↔ name ∈ m.services.keys ∧ name ∉ order ∧
      (m.dependencies name).countP (fun dep => dep ∉ order) = 0 := by
  simp [Available, Needs, List.countP_eq_zero]

theorem mem_keys_of_needs {name dep : ServiceName} (h : m.Needs name dep) :
    name ∈ m.services.keys := by
  rw [← m.metadata_keys, Dict.mem_keys_iff]
  unfold Needs dependencies at h
  split at h
  · rename_i metadata hm
    exact ⟨metadata, hm⟩
  · cases h

theorem loopInvariant_start : LoopInvariant m
    ((m.services.keys.filter fun name => degree m.buildGraph.2 name = 0).insertionSort (· ≤ ·))
    m.buildGraph.2 [] where
  greedy := greedy_nil
  sorted := List.pairwise_insertionSort _ _
  nodup := (List.perm_insertionSort _ _).nodup_iff.mpr (m.services.nodup.filter _)
  available name := by
    rw [(List.perm_insertionSort _ _).mem_iff, available_iff, List.mem_filter, degree_buildGraph]
    simp
  degrees name := by simp [degree_buildGraph]

-- One turn of the loop takes the least available service.
theorem LoopInvariant.turn {node : ServiceName} {queue order : List ServiceName}
    {indegree : Indegree} (h : LoopInvariant m (node :: queue) indegree order) :
    LoopInvariant m
      (((neighbors m.buildGraph.1 node).foldl relax (indegree, queue)).2.insertionSort (· ≤ ·))
      ((neighbors m.buildGraph.1 node).foldl relax (indegree, queue)).1 (order ++ [node]) := by
  have hnode : Available m.Needs m.services.keys order node :=
    (h.available node).mp List.mem_cons_self
  have hleast : ∀ other, Available m.Needs m.services.keys order other → node ≤ other := by
    intro other ho
    rcases List.mem_cons.mp ((h.available other).mpr ho) with rfl | hq
    · exact le_rfl
    · exact (List.pairwise_cons.mp h.sorted).1 other hq
  have hcount (name : ServiceName) := countP_done hnode.2.1 (m.dependencies name)
  have hdegree (name : ServiceName) :
      degree ((neighbors m.buildGraph.1 node).foldl relax (indegree, queue)).1 name =
        (m.dependencies name).countP fun dep => dep ∉ order ++ [node] := by
    rw [degree_relax, h.degrees, count_neighbors]
    have hc := hcount name
    omega
  obtain ⟨ready, hqueue, hready, hmem⟩ := queue_relax (neighbors m.buildGraph.1 node) (indegree, queue)
    (fun name _ => by
      rw [h.degrees, count_neighbors]
      have hc := hcount name
      omega)
  have hnodup := List.nodup_cons.mp h.nodup
  rw [hqueue]
  refine ⟨h.greedy.snoc hnode hleast, List.pairwise_insertionSort _ _, ?_, fun name => ?_, hdegree⟩
  · rw [(List.perm_insertionSort _ _).nodup_iff, List.nodup_append]
    refine ⟨hnodup.2, hready, fun name hq other ho he => ?_⟩
    -- a neighbor of the node was not available before its turn
    subst he
    have hneeds := mem_neighbors m |>.mp ((hmem name).mp ho).1
    have hbefore := (h.available name).mp (List.mem_cons_of_mem _ hq)
    exact hnode.2.1 (hbefore.2.2 node hneeds)
  · have hc := hcount name
    rw [(List.perm_insertionSort _ _).mem_iff, List.mem_append, hmem, h.degrees, count_neighbors,
      available_iff]
    constructor
    · rintro (hq | ⟨hneighbor, hzero⟩)
      · obtain ⟨hkey, hnew, hnone⟩ := available_iff.mp ((h.available name).mp (List.mem_cons_of_mem _ hq))
        have hne : name ≠ node := fun he => hnodup.1 (he ▸ hq)
        refine ⟨hkey, ?_, by omega⟩
        simp [hnew, hne]
      · have hneeds := (mem_neighbors m).mp hneighbor
        refine ⟨mem_keys_of_needs hneeds, fun hm => ?_, by omega⟩
        rcases List.mem_append.mp hm with ho | hn
        · obtain ⟨before, after, rfl⟩ := List.append_of_mem ho
          have hdone := h.greedy.topological before name after rfl node hneeds
          exact hnode.2.1 (List.mem_append_left _ hdone)
        · rw [List.mem_singleton.mp hn] at hneeds
          exact hnode.2.1 (hnode.2.2 node hneeds)
    · rintro ⟨hkey, hnew, hnone⟩
      have hne : name ≠ node := by
        rintro rfl
        simp at hnew
      by_cases hneeds : m.Needs name node
      · exact .inr ⟨(mem_neighbors m).mpr hneeds, by omega⟩
      · have hzero : (m.dependencies name).count node = 0 := List.count_eq_zero.mpr hneeds
        have hbefore : Available m.Needs m.services.keys order name := by
          refine available_iff.mpr ⟨hkey, fun ho => hnew (List.mem_append_left _ ho), by omega⟩
        exact .inl (((List.mem_cons.mp ((h.available name).mpr hbefore))).resolve_left hne)

-- The loop ends with a greedy order that cannot be continued; it never runs out of fuel.
theorem LoopInvariant.loop {fuel : Nat} {queue order : List ServiceName} {indegree : Indegree}
    (h : LoopInvariant m queue indegree order) (hfuel : m.services.size ≤ fuel + order.length) :
    Greedy m.Needs m.services.keys (startupLoop m.buildGraph.1 fuel queue indegree order) ∧
      ∀ name, ¬Available m.Needs m.services.keys
        (startupLoop m.buildGraph.1 fuel queue indegree order) name := by
  induction fuel generalizing queue indegree order with
  | zero =>
      cases queue with
      | nil => exact ⟨h.greedy, fun name ha => by simpa using (h.available name).mpr ha⟩
      | cons node rest =>
          have hnode := (h.available node).mp List.mem_cons_self
          have hmore : (node :: order).length ≤ m.services.keys.length := by
            refine List.Subperm.length_le (List.subperm_of_subset
              (List.nodup_cons.mpr ⟨hnode.2.1, h.greedy.nodup⟩) fun name hm => ?_)
            rcases List.mem_cons.mp hm with rfl | ho
            · exact hnode.1
            · exact h.greedy.subset name ho
          have hsize : m.services.keys.length = m.services.size := List.length_map _
          rw [List.length_cons] at hmore
          omega
  | succ fuel ih =>
      cases queue with
      | nil => exact ⟨h.greedy, fun name ha => by simpa using (h.available name).mpr ha⟩
      | cons node rest =>
          refine ih h.turn ?_
          rw [List.length_append, List.length_singleton]
          omega

end Loop

section Result

open Relation

variable (m : RuntimeServiceManager Service)

def MissingDependency : Prop := ∃ name dep, m.Needs name dep ∧ dep ∉ m.services

def Circular : Prop := ∃ name, TransGen m.Needs name name

-- An order of all services in which every service comes after its dependencies.
def StartupOrder (order : List ServiceName) : Prop :=
  order.Perm m.services.keys ∧ Topological m.Needs order

-- The order in which the loop takes the services, all of them or those before the first cycle.
def loopOrder : List ServiceName :=
  startupLoop m.buildGraph.1 m.services.size
    ((m.services.keys.filter fun name => degree m.buildGraph.2 name = 0).insertionSort (· ≤ ·))
    m.buildGraph.2 []

variable {m}

theorem getStartupOrder_missing (h : m.MissingDependency) :
    ∃ message, m.getStartupOrder = .error (.missingDependency message) := by
  obtain ⟨name, dep, hneeds, hdep⟩ := h
  unfold getStartupOrder
  split
  · exact ⟨_, rfl⟩
  · rename_i hnone
    have hall := List.find?_eq_none.mp hnone (name, dep) (m.mem_dependencyPairs.mpr hneeds)
    simp [hdep] at hall

theorem getStartupOrder_complete (h : ¬m.MissingDependency) : m.getStartupOrder =
    if m.loopOrder.length < m.services.size then
      .error (.circularDependency "Circular dependency detected among services.")
    else .ok m.loopOrder := by
  unfold getStartupOrder
  split
  · rename_i edge hsome
    have hm := List.mem_of_find?_eq_some hsome
    have hmissing := List.find?_some hsome
    exact absurd ⟨edge.1, edge.2, m.mem_dependencyPairs.mp hm, by simpa using hmissing⟩ h
  · rfl

theorem loopOrder_greedy : Greedy m.Needs m.services.keys m.loopOrder ∧
    ∀ name, ¬Available m.Needs m.services.keys m.loopOrder name :=
  loopInvariant_start.loop (by simp)

-- The loop takes all services exactly when there is no cycle.
theorem loopOrder_perm_iff (h : ¬m.MissingDependency) :
    m.loopOrder.Perm m.services.keys ↔ ¬m.Circular := by
  obtain ⟨hgreedy, hmax⟩ := m.loopOrder_greedy
  constructor
  · rintro hperm ⟨name, hcycle⟩
    obtain ⟨next, hneeds, _⟩ := TransGen.head'_iff.mp hcycle
    have hm : name ∈ m.loopOrder := hperm.mem_iff.mpr (mem_keys_of_needs hneeds)
    exact hgreedy.topological.acyclic hgreedy.nodup hm hcycle
  · intro hacyclic
    refine hgreedy.perm_of_maximal m.services.nodup hmax (fun name hc => hacyclic ⟨name, hc⟩) ?_
    intro name dep hneeds
    by_contra hdep
    exact h ⟨name, dep, hneeds, hdep⟩

theorem length_lt_iff : m.loopOrder.length < m.services.size ↔
    ¬m.loopOrder.Perm m.services.keys := by
  obtain ⟨hgreedy, _⟩ := m.loopOrder_greedy
  have hsize : m.services.keys.length = m.services.size := List.length_map _
  rw [← hsize, ← not_le, not_iff_not]
  constructor
  · intro hle
    have hsub := List.subperm_of_subset hgreedy.nodup hgreedy.subset
    exact hsub.perm_of_length_le hle
  · intro hperm
    exact hperm.length_eq.ge

-- The startup order that comes before all others.
def LeastStartupOrder (m : RuntimeServiceManager Service) (order : List ServiceName) : Prop :=
  m.StartupOrder order ∧ ∀ other, m.StartupOrder other → order ≤ other

theorem LeastStartupOrder.unique {order other : List ServiceName} (h : m.LeastStartupOrder order)
    (h' : m.LeastStartupOrder other) : order = other :=
  le_antisymm (h.2 other h'.1) (h'.2 order h.1)

theorem loopOrder_least (h : ¬m.MissingDependency) (hc : ¬m.Circular) :
    m.LeastStartupOrder m.loopOrder := by
  have hperm := (loopOrder_perm_iff h).mpr hc
  have hgreedy := (loopOrder_greedy (m := m)).1
  exact ⟨⟨hperm, hgreedy.topological⟩, fun other ho => hgreedy.le_of_topological hperm ho.1 ho.2⟩

theorem getStartupOrder_ok_iff {order : List ServiceName} : m.getStartupOrder = .ok order ↔
    ¬m.MissingDependency ∧ ¬m.Circular ∧ m.LeastStartupOrder order := by
  constructor
  · intro hok
    have hm : ¬m.MissingDependency := by
      intro hm
      obtain ⟨message, he⟩ := getStartupOrder_missing hm
      rw [he] at hok
      cases hok
    rw [getStartupOrder_complete hm] at hok
    split at hok
    · cases hok
    · rename_i hlen
      rw [length_lt_iff, not_not] at hlen
      have hc := (loopOrder_perm_iff hm).mp hlen
      cases hok
      exact ⟨hm, hc, loopOrder_least hm hc⟩
  · rintro ⟨hm, hc, hleast⟩
    have hlen : ¬m.loopOrder.length < m.services.size := by
      rw [length_lt_iff, not_not]
      exact (loopOrder_perm_iff hm).mpr hc
    rw [getStartupOrder_complete hm, if_neg hlen, (loopOrder_least hm hc).unique hleast]

-- Nothing that decides the order depends on the order of registration.
theorem same_services {m' : RuntimeServiceManager Service}
    (h : ∀ name, m'.metadata.get? name = m.metadata.get? name) :
    (m'.MissingDependency ↔ m.MissingDependency) ∧ (m'.Circular ↔ m.Circular) ∧
      ∀ order, m'.LeastStartupOrder order ↔ m.LeastStartupOrder order := by
  have hneeds : m'.Needs = m.Needs := by
    funext name dep
    simp only [Needs, dependencies, h]
  have hkeys (name : ServiceName) : name ∈ m'.services.keys ↔ name ∈ m.services.keys := by
    rw [← m'.metadata_keys, ← m.metadata_keys, Dict.mem_keys_iff, Dict.mem_keys_iff, h]
  have hperm : m'.services.keys.Perm m.services.keys :=
    (List.perm_ext_iff_of_nodup m'.services.nodup m.services.nodup).mpr hkeys
  have horder (order : List ServiceName) : m'.StartupOrder order ↔ m.StartupOrder order := by
    rw [StartupOrder, StartupOrder, hneeds]
    exact and_congr_left' ⟨fun ho => ho.trans hperm, fun ho => ho.trans hperm.symm⟩
  refine ⟨?_, ?_, fun order => ?_⟩
  · have hservices (name : ServiceName) : name ∈ m'.services ↔ name ∈ m.services := hkeys name
    simp only [MissingDependency, hneeds, hservices]
  · rw [Circular, Circular, hneeds]
  · simp only [LeastStartupOrder, horder]

-- The order of startup is correct, it is found whenever there is one, and it is the least.
theorem startup_order_canonical (m : RuntimeServiceManager Service) :
    ((∃ message, m.getStartupOrder = .error (.missingDependency message)) ↔ m.MissingDependency) ∧
    (¬m.MissingDependency →
      ((∃ message, m.getStartupOrder = .error (.circularDependency message)) ↔ m.Circular)) ∧
    (¬m.MissingDependency → ¬m.Circular →
      ∃ order, m.getStartupOrder = .ok order ∧ m.LeastStartupOrder order) ∧
    ∀ m' : RuntimeServiceManager Service, (∀ name, m'.metadata.get? name = m.metadata.get? name) →
      ∀ order, m'.getStartupOrder = .ok order ↔ m.getStartupOrder = .ok order := by
  refine ⟨⟨?_, getStartupOrder_missing⟩, fun hm => ?_, fun hm hc => ?_, fun m' h order => ?_⟩
  · rintro ⟨message, he⟩
    by_contra hm
    rw [getStartupOrder_complete hm] at he
    split at he <;> cases he
  · rw [getStartupOrder_complete hm]
    have hlen := length_lt_iff.trans (not_congr (loopOrder_perm_iff hm))
    rw [not_not] at hlen
    constructor
    · rintro ⟨message, he⟩
      split at he
      · exact hlen.mp ‹_›
      · cases he
    · intro hc
      exact ⟨_, if_pos (hlen.mpr hc)⟩
  · exact ⟨m.loopOrder, getStartupOrder_ok_iff.mpr ⟨hm, hc, loopOrder_least hm hc⟩, loopOrder_least hm hc⟩
  · obtain ⟨hmissing, hcircular, hleast⟩ := same_services h
    rw [getStartupOrder_ok_iff, getStartupOrder_ok_iff, hmissing, hcircular, hleast]

end Result

end YasinCore.Runtime.RuntimeServiceManager
