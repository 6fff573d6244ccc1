import YasinCore.Library.RoseTree
import YasinCore.Library.Text

namespace YasinCore.Sdk

open YasinCore.Library

structure BoundaryViolation where
  file : String
  line : Nat
  module : String
  statement : String
  reason : String
  deriving DecidableEq

def normalizeModule : Option String → Option String
  | none => none
  | some name => if name = "" then none else some (Text.strip name)

def within (package module : String) : Bool :=
  module = package || Text.startsWith (package ++ ".") module

-- What is allowed wins over what is forbidden; other packages are out of scope.
def isModuleAllowed (module : String) (allowed forbidden : List String) : Bool :=
  if module = "" then true
  else if allowed.any fun package => within package module then true
  else if module = "yasin_core" then false
  else if forbidden.any fun package => within package module then false
  else if Text.startsWith "yasin_core." module then false
  else true

structure Alias where
  name : String
  asname : Option String
  deriving DecidableEq

-- A node of a syntax tree, as far as imports go.
inductive SyntaxNode
  | importNames (names : List Alias) (lineno : Nat)
  | importFrom (module : Option String) (names : List Alias) (level : Option Int) (lineno : Nat)
  | other
  deriving DecidableEq

structure Imported where
  module : String
  lineno : Nat
  statement : String
  deriving DecidableEq

def asPart : Option String → String
  | none => ""
  | some asname => if asname = "" then "" else " as " ++ asname

def isRelative : Option Int → Bool
  | none => false
  | some level => 0 < level

-- A relative import stays inside of the consumer.
def iterImportedModules : SyntaxNode → List Imported
  | .importNames names lineno => names.filterMap fun entry =>
      match normalizeModule (some entry.name) with
      | some module =>
          if module = "" then none
          else some ⟨module, lineno, "import " ++ module ++ asPart entry.asname⟩
      | none => none
  | .importFrom module names level lineno =>
      if isRelative level then []
      else
        match normalizeModule module with
        | some module =>
            if module = "" then []
            else
              let listed := ", ".intercalate (names.map fun entry => entry.name ++ asPart entry.asname)
              [⟨module, lineno, "from " ++ module ++ " import " ++ listed⟩]
        | none => []
  | .other => []

def violation (filename : String) (allowed : List String) (found : Imported) : BoundaryViolation where
  file := filename
  line := found.lineno
  module := found.module
  statement := found.statement
  reason := "consumers must import only from " ++ ", ".intercalate allowed ++ "; '" ++ found.module ++
    "' is outside the supported public SDK boundary"

-- The parser of the language, for sources that it accepts.
abbrev Parser := String → Option (RoseTree SyntaxNode)

def checkSource (parse : Parser) (source filename : String) (allowed forbidden : List String) :
    List BoundaryViolation :=
  match parse source with
  | none => []
  | some tree => tree.walk.flatMap fun node =>
      ((iterImportedModules node).filter fun found =>
        !isModuleAllowed found.module allowed forbidden).map (violation filename allowed)

-- A file with the parts of its whole path; nothing stands for a text that cannot be read.
structure SourceFile where
  name : String
  parts : List String
  source : Option String
  deriving DecidableEq

def checkFile (parse : Parser) (file : SourceFile) (allowed forbidden : List String) :
    List BoundaryViolation :=
  match file.source with
  | none => []
  | some source => checkSource parse source file.name allowed forbidden

-- What a path leads to: a file, a directory with all files in it whose names end in .py, or nothing.
inductive Root
  | file (suffix : String) (file : SourceFile)
  | directory (found : List SourceFile)
  | missing

def skipDirs : List String :=
  [".git", ".hg", ".svn", ".tox", ".venv", "venv", "__pycache__", ".pytest_cache", "node_modules",
    "dist", "build", ".eggs", "egg-info"]

def isSkipped (part : String) : Bool :=
  part ∈ skipDirs || ".egg-info".toList.isSuffixOf part.toList

def iterPythonFiles : Root → List SourceFile
  | .file suffix file => if suffix = ".py" then [file] else []
  | .directory found => found.filter fun file => !file.parts.any isSkipped
  | .missing => []

def checkPaths (parse : Parser) (roots : List Root) (allowed forbidden : List String) :
    List BoundaryViolation :=
  roots.flatMap fun root => (iterPythonFiles root).flatMap fun file =>
    checkFile parse file allowed forbidden

section Policy

-- A module is the package itself or lies somewhere below it.
def Contains (package module : String) : Prop := Text.split '.' package <+: Text.split '.' module

instance (package module : String) : Decidable (Contains package module) :=
  inferInstanceAs (Decidable (_ <+: _))

-- What consumers may import.
def Permitted (allowed forbidden : List String) (module : String) : Prop :=
  (∃ package ∈ allowed, Contains package module) ∨
    ¬Contains "yasin_core" module ∧ ∀ package ∈ forbidden, ¬Contains package module

instance (allowed forbidden : List String) (module : String) :
    Decidable (Permitted allowed forbidden module) := inferInstanceAs (Decidable (_ ∨ _ ∧ _))

theorem within_iff {package module : String} : within package module ↔ Contains package module := by
  rw [Contains, Text.split_prefix_iff, within, Bool.or_eq_true, decide_eq_true_iff]
  rfl

theorem contains_core_iff {module : String} : Contains "yasin_core" module ↔
    module = "yasin_core" ∨ Text.startsWith "yasin_core." module :=
  Text.split_prefix_iff

-- The checks by text are checks along the dots of the names.
theorem isModuleAllowed_iff {allowed forbidden : List String} {module : String} (h : module ≠ "") :
    isModuleAllowed module allowed forbidden ↔ Permitted allowed forbidden module := by
  have hany (packages : List String) : (packages.any fun package => within package module) = true ↔
      ∃ package ∈ packages, Contains package module := by
    simp only [List.any_eq_true, within_iff]
  rw [isModuleAllowed, if_neg h, Permitted]
  by_cases ha : (allowed.any fun package => within package module) = true
  · rw [if_pos ha]
    exact iff_of_true rfl (.inl ((hany allowed).mp ha))
  · rw [if_neg ha, or_iff_right (mt (hany allowed).mpr ha)]
    by_cases hcore : module = "yasin_core"
    · rw [if_pos hcore]
      exact iff_of_false Bool.false_ne_true fun hout => hout.1 (contains_core_iff.mpr (.inl hcore))
    · rw [if_neg hcore]
      by_cases hf : (forbidden.any fun package => within package module) = true
      · rw [if_pos hf]
        obtain ⟨package, hm, hin⟩ := (hany forbidden).mp hf
        exact iff_of_false Bool.false_ne_true fun hout => hout.2 package hm hin
      · rw [if_neg hf]
        have hfree : ∀ package ∈ forbidden, ¬Contains package module := fun package hm hin =>
          hf ((hany forbidden).mpr ⟨package, hm, hin⟩)
        rw [and_iff_left hfree, contains_core_iff, or_iff_right hcore]
        cases Text.startsWith "yasin_core." module <;> simp

theorem mem_imported_ne {node : SyntaxNode} {found : Imported} (h : found ∈ iterImportedModules node) :
    found.module ≠ "" := by
  cases node with
  | importNames names lineno =>
      obtain ⟨entry, -, hentry⟩ := List.mem_filterMap.mp h
      split at hentry
      · next module hmodule =>
          rw [Option.ite_none_left_eq_some] at hentry
          obtain ⟨hne, he⟩ := hentry
          exact (Option.some.inj he) ▸ hne
      · cases hentry
  | importFrom module names level lineno =>
      rw [iterImportedModules] at h
      split at h
      · cases h
      · split at h
        · split at h
          · cases h
          · next hne =>
              rw [List.mem_singleton.mp h]
              exact hne
        · cases h
  | other => cases h

-- The absolute imports of a file in the order of its text, at whatever depth they stand.
def importsOf (parse : Parser) (file : SourceFile) : List Imported :=
  ((file.source.bind parse).map fun tree => tree.preorder.flatMap iterImportedModules).getD []

theorem checkFile_perm (parse : Parser) (file : SourceFile) (allowed forbidden : List String) :
    (checkFile parse file allowed forbidden).Perm
      (((importsOf parse file).filter fun found => ¬Permitted allowed forbidden found.module).map
        (violation file.name allowed)) := by
  unfold checkFile importsOf
  cases file.source with
  | none => exact .refl _
  | some source =>
      simp only [checkSource, Option.bind_some]
      cases parse source with
      | none => exact .refl _
      | some tree =>
          have hnode (node : SyntaxNode) : ((iterImportedModules node).filter fun found =>
              !isModuleAllowed found.module allowed forbidden) =
              (iterImportedModules node).filter fun found => ¬Permitted allowed forbidden found.module := by
            refine List.filter_congr fun found hm => ?_
            rw [decide_not, Bool.not_inj_iff, Bool.eq_iff_iff, decide_eq_true_iff]
            exact isModuleAllowed_iff (mem_imported_ne hm)
          simp only [hnode, Option.map_some, Option.getD_some, List.filter_flatMap, List.map_flatMap]
          exact tree.walk_perm.flatMap_right _

end Policy

end YasinCore.Sdk
