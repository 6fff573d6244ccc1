import YasinCore.Library.BreadthFirst
import YasinCore.Library.Dict
import YasinCore.Library.Hoare

namespace YasinCore.Compatibility

open YasinCore.Library

abbrev Edge := String × String

abbrev ObjRef := Nat

-- The dictionaries that the program has made, and all else that a callback can get at
structure World (α ω : Type) where
  dicts : List (Dict String α)
  rest : ω

-- A callback takes a dictionary and returns one; it may do anything on the way. An exception is given by
-- its text.
abbrev Callback (α ω : Type) := ObjRef → EStateM String (World α ω) ObjRef

inductive MigrationFailure
  | migration (message : String)
  | keyError

-- dict(data)
def World.copyDict {α ω ε : Type} (data : ObjRef) : EStateM ε (World α ω) ObjRef := fun w =>
  .ok w.dicts.length { w with dicts := w.dicts ++ [w.dicts[data]?.getD .empty] }

structure SchemaMigrator (α ω : Type) where
  migrations : Dict Edge (Callback α ω)

namespace SchemaMigrator

variable {α ω : Type}

def registerMigration (migrator : SchemaMigrator α ω) (fromVersion toVersion : String)
    (callback : Callback α ω) : SchemaMigrator α ω :=
  ⟨migrator.migrations.set (fromVersion, toVersion) callback⟩

-- The versions to which there is a migration from each version
def graph (migrator : SchemaMigrator α ω) : Dict String (List String) :=
  migrator.migrations.keys.foldl
    (fun graph edge => graph.set edge.1 ((graph.get? edge.1).getD [] ++ [edge.2])) .empty

def noPath (start goal : String) : MigrationFailure :=
  .migration ("No migration path found from version '" ++ start ++ "' to '" ++ goal ++ "'")

def failedMigrating (edge : Edge) (e : String) : MigrationFailure :=
  .migration ("Failed migrating schema from '" ++ edge.1 ++ "' to '" ++ edge.2 ++ "': " ++ e)

-- The nodes of the path that was found give its edges.
def pathOf (start goal : String) : Option (Route String) → Except MigrationFailure (List Edge)
  | none => .error (noPath start goal)
  | some path => .ok path.edges

-- The search goes on while there is fuel; none says that it has not ended.
def findMigrationPath (migrator : SchemaMigrator α ω) (fuel : Nat) (start goal : String) :
    Option (Except MigrationFailure (List Edge)) :=
  if start = goal then some (.ok [])
  else
    (BreadthFirst.search (fun node => (migrator.graph.get? node).getD []) goal fuel
      (BreadthFirst.start start)).map (pathOf start goal)

def runMigrations (migrator : SchemaMigrator α ω) :
    List Edge → ObjRef → EStateM MigrationFailure (World α ω) ObjRef
  | [], data => pure data
  | edge :: path, data =>
      match migrator.migrations.get? edge with
      | none => throw .keyError
      | some callback => fun w =>
          match callback data w with
          | .ok migrated w => runMigrations migrator path migrated w
          | .error e w => .error (failedMigrating edge e) w

-- What the call does, once the search for a path has ended
def migrate (migrator : SchemaMigrator α ω) (fuel : Nat) (data : ObjRef)
    (currentVersion targetVersion : String) : Option (EStateM MigrationFailure (World α ω) ObjRef) :=
  if currentVersion = targetVersion then some (World.copyDict data)
  else
    match migrator.findMigrationPath fuel currentVersion targetVersion with
    | none => none
    | some (.error e) => some (throw e)
    | some (.ok path) => some (do migrator.runMigrations path (← World.copyDict data))

-- There is a migration from the one version to the other.
def Registered (migrator : SchemaMigrator α ω) (fromVersion toVersion : String) : Prop :=
  (fromVersion, toVersion) ∈ migrator.migrations

-- A shortest chain of registered migrations, empty only for equal versions. There is an error only where
-- the goal is out of reach.
def ShortestChain (migrator : SchemaMigrator α ω) (start goal : String) :
    Except MigrationFailure (List Edge) → Prop
  | .ok chain => Linked migrator.Registered start chain goal ∧ (chain = [] ↔ start = goal) ∧
      ∀ other, Linked migrator.Registered start other goal → chain.length ≤ other.length
  | .error e => ¬Relation.ReflTransGen migrator.Registered start goal ∧ e = noPath start goal

-- The copy is a new dictionary with the same entries; nothing else has changed.
structure Copied (data : ObjRef) (w : World α ω) (copy : ObjRef) (w' : World α ω) : Prop where
  fresh : w.dicts.length ≤ copy
  entries : ∀ dict, w.dicts[data]? = some dict → w'.dicts[copy]? = some dict
  others : ∀ ref < w.dicts.length, w'.dicts[ref]? = w.dicts[ref]?
  rest : w'.rest = w.rest

-- The callbacks one after the other, each with what the one before it returned
def compose (callbacks : List (Callback α ω)) (data : ObjRef) : EStateM String (World α ω) ObjRef :=
  callbacks.foldlM (fun data callback => callback data) data

-- How a chain of migrations ends: the composition returns, or all callbacks before one of them return and
-- this one raises. What comes after it leaves no trace in the world.
inductive Migrated (migrator : SchemaMigrator α ω) (chain : List Edge) (data : ObjRef) (w : World α ω) :
    EStateM.Result MigrationFailure (World α ω) ObjRef → Prop
  | returned {callbacks : List (Callback α ω)} {result : ObjRef} {w' : World α ω} :
      chain.map migrator.migrations.get? = callbacks.map some →
      compose callbacks data w = .ok result w' → Migrated migrator chain data w (.ok result w')
  | raised {before after : List Edge} {edge : Edge} {callbacks : List (Callback α ω)}
      {callback : Callback α ω} {data' : ObjRef} {w' w'' : World α ω} {e : String} :
      chain = before ++ edge :: after → before.map migrator.migrations.get? = callbacks.map some →
      migrator.migrations.get? edge = some callback → compose callbacks data w = .ok data' w' →
      callback data' w' = .error e w'' →
      Migrated migrator chain data w (.error (failedMigrating edge e) w'')

-- What the call does with the outcome of the search
def Carries (migrator : SchemaMigrator α ω) (data : ObjRef) (w : World α ω) :
    Except MigrationFailure (List Edge) → EStateM.Result MigrationFailure (World α ω) ObjRef → Prop
  | .error e, outcome => outcome = .error e w
  | .ok chain, outcome => ∃ copy w', Copied data w copy w' ∧ migrator.Migrated chain copy w' outcome

section Search

variable {migrator : SchemaMigrator α ω} {start goal version next : String}

theorem getD_foldl_graph (edges : List Edge) (graph : Dict String (List String)) (version : String) :
    ((edges.foldl (fun graph edge => graph.set edge.1 ((graph.get? edge.1).getD [] ++ [edge.2]))
      graph).get? version).getD [] =
      (graph.get? version).getD [] ++ (edges.filter (·.1 = version)).map Prod.snd := by
  induction edges generalizing graph with
  | nil => simp
  | cons edge edges ih =>
      rw [List.foldl_cons, ih, Dict.get?_set]
      by_cases hedge : edge.1 = version
      · simp [hedge]
      · simp [hedge, Ne.symm hedge]

-- The graph has the registered migrations as its edges.
theorem mem_graph : next ∈ (migrator.graph.get? version).getD [] ↔ migrator.Registered version next := by
  unfold graph Registered
  rw [getD_foldl_graph, Dict.get?_empty, Option.getD_none, List.nil_append]
  change _ ↔ (version, next) ∈ migrator.migrations.keys
  simp

-- What the search finds in the graph is what there is among the migrations.
theorem shortestChain_of_answers (hne : start ≠ goal) {answer : Option (Route String)}
    (h : BreadthFirst.Answers (fun node => (migrator.graph.get? node).getD []) goal start answer) :
    migrator.ShortestChain start goal (pathOf start goal answer) := by
  have hgraph : (fun version next => next ∈ (migrator.graph.get? version).getD []) =
      migrator.Registered := by
    funext version next
    exact propext mem_graph
  have hroute {edges : List Edge} (hlinked : Linked migrator.Registered start edges goal) :
      ∃ path, BreadthFirst.Walk (fun node => (migrator.graph.get? node).getD []) start path ∧
        path.last = goal ∧ path.edges = edges := by
    rw [← hgraph] at hlinked
    exact BreadthFirst.exists_walk hlinked
  cases answer with
  | none =>
      refine ⟨fun hreach => ?_, rfl⟩
      obtain ⟨edges, hlinked⟩ := exists_linked_iff.mpr hreach
      obtain ⟨path, hwalk, hlast, -⟩ := hroute hlinked
      exact h path hwalk hlast
  | some path =>
      obtain ⟨hwalk, hlast, hshortest⟩ := h
      have hlinked := hwalk.linked
      rw [hgraph, hlast] at hlinked
      refine ⟨hlinked, iff_of_false (fun hempty => ?_) hne, fun other hother => ?_⟩
      · rw [hempty] at hlinked
        generalize hedges : ([] : List Edge) = edges at hlinked
        cases hlinked with
        | nil => exact hne rfl
        | snoc _ _ => simp at hedges
      · obtain ⟨route, hroute, hend, rfl⟩ := hroute hother
        rw [Route.length_edges, Route.length_edges]
        exact hshortest route hroute hend

-- The search ends.
theorem exists_findMigrationPath (migrator : SchemaMigrator α ω) (start goal : String) : ∃ result,
    (∀ fuel > migrator.migrations.size + 1, migrator.findMigrationPath fuel start goal = some result) ∧
    migrator.ShortestChain start goal result := by
  unfold findMigrationPath
  by_cases heq : start = goal
  · refine ⟨.ok [], fun fuel hf => if_pos heq, heq ▸ .nil, iff_of_true rfl heq, fun other ho => ?_⟩
    exact Nat.zero_le _
  have hknown (node : String) : ∀ next ∈ (migrator.graph.get? node).getD [],
      next ∈ migrator.migrations.keys.map Prod.snd := by
    intro next hn
    refine List.mem_map.mpr ⟨(node, next), ?_, rfl⟩
    exact (Dict.mem_keys_iff _ _).mpr ((Dict.mem_iff _ _).mp (mem_graph.mp hn))
  obtain ⟨answer, hsearch, hanswer⟩ := BreadthFirst.search_start _ goal start hknown
  refine ⟨pathOf start goal answer, fun fuel hf => ?_, shortestChain_of_answers heq hanswer⟩
  have hlength : (migrator.migrations.keys.map Prod.snd).length = migrator.migrations.size := by
    rw [List.length_map]
    exact List.length_map _
  rw [if_neg heq, hsearch fuel (hlength ▸ hf), Option.map_some]

end Search

section Migration

variable {migrator : SchemaMigrator α ω} {start goal : String} {chain : List Edge} {data : ObjRef}
  {w : World α ω}

theorem compose_cons (callback : Callback α ω) (callbacks : List (Callback α ω)) (data : ObjRef) :
    compose (callback :: callbacks) data = (callback data >>= compose callbacks) := List.foldlM_cons

theorem runMigrations_migrated (h : ∀ edge ∈ chain, edge ∈ migrator.migrations) :
    migrator.Migrated chain data w (migrator.runMigrations chain data w) := by
  have hnone : ([] : List Edge).map migrator.migrations.get? = ([] : List (Callback α ω)).map some := rfl
  induction chain generalizing data w with
  | nil => exact .returned hnone rfl
  | cons edge chain ih =>
      obtain ⟨callback, hget⟩ := (Dict.mem_iff _ _).mp (h edge List.mem_cons_self)
      rw [runMigrations, hget]
      dsimp only
      cases hrun : callback data w with
      | error e w' =>
          exact .raised (List.nil_append _).symm hnone hget rfl hrun
      | ok data' w' =>
          dsimp only
          have hrest : migrator.Migrated chain data' w' (migrator.runMigrations chain data' w') :=
            ih fun other ho => h other (List.mem_cons_of_mem _ ho)
          generalize migrator.runMigrations chain data' w' = outcome at hrest ⊢
          cases hrest with
          | @returned callbacks result w'' hcallbacks hcompose =>
              have hall : (edge :: chain).map migrator.migrations.get? =
                  (callback :: callbacks).map some := by
                rw [List.map_cons, hget, hcallbacks, List.map_cons]
              refine .returned hall ?_
              rw [compose_cons, run_bind_ok hrun, hcompose]
          | @raised before after last callbacks _ _ _ _ _ hchain hcallbacks hlast hcompose hraised =>
              have hall : (edge :: before).map migrator.migrations.get? =
                  (callback :: callbacks).map some := by
                rw [List.map_cons, hget, hcallbacks, List.map_cons]
              refine .raised (congrArg (edge :: ·) hchain) hall hlast ?_ hraised
              rw [compose_cons, run_bind_ok hrun, hcompose]

theorem copied (data : ObjRef) (w : World α ω) : Copied data w w.dicts.length
    { w with dicts := w.dicts ++ [w.dicts[data]?.getD .empty] } where
  fresh := Nat.le_refl _
  entries dict h := by simp [h]
  others ref h := List.getElem?_append_left h
  rest := rfl

theorem Linked.registered {start goal : String} {chain : List Edge}
    (h : Linked migrator.Registered start chain goal) : ∀ edge ∈ chain, edge ∈ migrator.migrations := by
  induction h with
  | nil => simp
  | snoc _ hnext ih =>
      intro edge he
      rcases List.mem_append.mp he with he | he
      · exact ih edge he
      · rw [List.mem_singleton.mp he]
        exact hnext

theorem migrate_carries {fuel : Nat} {result : Except MigrationFailure (List Edge)}
    (hpath : migrator.findMigrationPath fuel start goal = some result)
    (hchain : migrator.ShortestChain start goal result) (data : ObjRef) : ∃ program,
    migrator.migrate fuel data start goal = some program ∧
      ∀ w, migrator.Carries data w result (program w) := by
  unfold migrate
  rw [hpath]
  by_cases heq : start = goal
  · obtain rfl : result = .ok [] := by
      rw [findMigrationPath, if_pos heq] at hpath
      exact (Option.some.inj hpath).symm
    refine ⟨_, if_pos heq, fun w => ⟨_, _, copied data w, ?_⟩⟩
    have hnone : ([] : List Edge).map migrator.migrations.get? = ([] : List (Callback α ω)).map some := rfl
    exact .returned hnone rfl
  rw [if_neg heq]
  cases result with
  | error e => exact ⟨_, rfl, fun w => rfl⟩
  | ok chain =>
      refine ⟨_, rfl, fun w => ⟨_, _, copied data w, ?_⟩⟩
      exact runMigrations_migrated (Linked.registered hchain.1)

end Migration

-- The search for a path always ends, with a shortest chain of registered migrations or, only where there is
-- none, with an error. A call then goes as the chain's callbacks do on a copy of the input.
theorem migration_by_shortest_chain (migrator : SchemaMigrator α ω) (start goal : String) : ∃ result,
    (∀ fuel > migrator.migrations.size + 1, migrator.findMigrationPath fuel start goal = some result) ∧
    migrator.ShortestChain start goal result ∧
    ∀ data, ∃ program,
      (∀ fuel > migrator.migrations.size + 1, migrator.migrate fuel data start goal = some program) ∧
        ∀ w, migrator.Carries data w result (program w) := by
  obtain ⟨result, hpath, hchain⟩ := exists_findMigrationPath migrator start goal
  refine ⟨result, hpath, hchain, fun data => ?_⟩
  have henough := hpath (migrator.migrations.size + 2) (Nat.lt_succ_self _)
  obtain ⟨program, hmigrate, hcarries⟩ := migrate_carries henough hchain data
  refine ⟨program, fun fuel hf => ?_, hcarries⟩
  rw [← hmigrate, migrate, migrate, hpath fuel hf, henough]

end SchemaMigrator

end YasinCore.Compatibility
