import YasinCore.Library.Isoformat
import YasinCore.Library.Json

namespace YasinCore.Context

open YasinCore.Library

variable {φ ν : Type}

-- A reading of the clock in UTC.
abbrev Utc := { d : DateTime // d.offset = some 0 }

-- A generated identifier.
abbrev Uuid := { s : Str // s ≠ [] }

-- A context object, which may be held on to after the engine has let go of it.
abbrev ContextRef := Nat

inductive Number (φ : Type)
  | int (value : Int)
  | float (value : φ)

-- How many microseconds timedelta(seconds=...) is long; none where it raises.
def Number.micros (timedelta : φ → Option Int) : Number φ → Option Int
  | .int value => some (value * 1000000)
  | .float value => timedelta value

-- A text counts as given when it is neither None nor empty.
def given (text : Option Str) : Option Str := text.filter (· ≠ [])

inductive ContextError
  | overflow
  | recursion
  deriving DecidableEq

structure RuntimeContext (φ ν : Type) where
  id : Str
  parentId : Option Str
  data : Dict Str ν
  metadata : Dict Str ν
  active : Bool
  ttl : Option (Number φ)
  tags : List Str
  createdAt : Str
  updatedAt : Str
  expiresAt : Option Str

namespace RuntimeContext

def expiry (timedelta : φ → Option Int) (now : Utc) (createdAt : Str) (ttl : Option (Number φ)) :
    Option Str → Except ContextError (Option Str)
  | some text => .ok (some text)
  | none =>
      match ttl with
      | none => .ok none
      | some ttl =>
          let created := (DateTime.fromisoformat createdAt).getD now.val
          match (ttl.micros timedelta).bind created.addMicros with
          | some exp => .ok (some exp.isoformat)
          | none => .error .overflow

def init (timedelta : φ → Option Int) (now : Utc) (uuid : Uuid) (contextId parentId : Option Str)
    (data metadata : Option (Dict Str ν)) (ttl : Option (Number φ)) (tags : Option (List Str))
    (createdAt updatedAt expiresAt : Option Str) : Except ContextError (RuntimeContext φ ν) := do
  let created := (given createdAt).getD now.val.isoformat
  let expires ← expiry timedelta now created ttl (given expiresAt)
  return {
    id := (given contextId).getD uuid.val
    parentId := parentId
    data := data.getD .empty
    metadata := metadata.getD .empty
    active := true
    ttl := ttl
    tags := tags.getD []
    createdAt := created
    updatedAt := (given updatedAt).getD now.val.isoformat
    expiresAt := expires }

def deactivate (ctx : RuntimeContext φ ν) : RuntimeContext φ ν := { ctx with active := false }

def isExpired (now : Utc) (ctx : RuntimeContext φ ν) : Bool :=
  match (given ctx.expiresAt).bind DateTime.fromisoformat with
  | some exp => exp.isAware && exp.instant ≤ now.val.instant
  | none => false

-- Every change is followed by this.
def touch (now : Utc) (ctx : RuntimeContext φ ν) : RuntimeContext φ ν :=
  { ctx with updatedAt := now.val.isoformat }

def set (now : Utc) (key : Str) (value : ν) (ctx : RuntimeContext φ ν) : RuntimeContext φ ν :=
  { ctx with data := ctx.data.set key value }.touch now

def delete (now : Utc) (key : Str) (ctx : RuntimeContext φ ν) : RuntimeContext φ ν :=
  { ctx with data := ctx.data.erase key }.touch now

def clear (now : Utc) (ctx : RuntimeContext φ ν) : RuntimeContext φ ν :=
  { ctx with data := .empty }.touch now

def updateData (now : Utc) (data : Dict Str ν) (ctx : RuntimeContext φ ν) : RuntimeContext φ ν :=
  { ctx with data := ctx.data.update data }.touch now

def updateMetadata (now : Utc) (metadata : Dict Str ν) (ctx : RuntimeContext φ ν) :
    RuntimeContext φ ν :=
  { ctx with metadata := ctx.metadata.update metadata }.touch now

def addTags (now : Utc) (tags : List Str) (ctx : RuntimeContext φ ν) : RuntimeContext φ ν :=
  { ctx with
    tags := tags.foldl (fun known tag => if tag ∈ known then known else known ++ [tag])
      ctx.tags }.touch now

end RuntimeContext

-- All context objects in the order in which they were made, and those the engine knows.
structure ContextEngine (φ ν : Type) where
  objects : List (RuntimeContext φ ν)
  contexts : Dict Str ContextRef

namespace ContextEngine

def empty : ContextEngine φ ν := ⟨[], .empty⟩

def find (e : ContextEngine φ ν) (id : Str) : Option (ContextRef × RuntimeContext φ ν) :=
  (e.contexts.get? id).bind fun ref => (e.objects[ref]?).map fun ctx => (ref, ctx)

def update (e : ContextEngine φ ν) (ref : ContextRef)
    (f : RuntimeContext φ ν → RuntimeContext φ ν) : ContextEngine φ ν :=
  { e with objects := e.objects.modify ref f }

-- A new object, known under an identifier.
def add (e : ContextEngine φ ν) (id : Str) (ctx : RuntimeContext φ ν) : ContextEngine φ ν where
  objects := e.objects ++ [ctx]
  contexts := e.contexts.set id e.objects.length

def createContext (timedelta : φ → Option Int) (now : Utc) (uuid : Uuid)
    (data : Option (Dict Str ν)) (parentId : Option Str) (metadata : Option (Dict Str ν))
    (ttl : Option (Number φ)) (tags : Option (List Str)) (e : ContextEngine φ ν) :
    Except ContextError (ContextEngine φ ν) := do
  let ctx ← RuntimeContext.init timedelta now uuid none parentId data metadata ttl tags none none none
  return e.add ctx.id ctx

def handleExpiration (e : ContextEngine φ ν) (ref : ContextRef) (ctx : RuntimeContext φ ν) :
    ContextEngine φ ν :=
  if ctx.id ∈ e.contexts then
    { e.update ref .deactivate with contexts := e.contexts.erase ctx.id }
  else e

def getContext (now : Utc) (id : Str) (e : ContextEngine φ ν) :
    Option ContextRef × ContextEngine φ ν :=
  match e.find id with
  | some (ref, ctx) =>
      if ctx.isExpired now then (none, e.handleExpiration ref ctx) else (some ref, e)
  | none => (none, e)

def deleteContext (id : Str) (e : ContextEngine φ ν) : ContextEngine φ ν :=
  match e.contexts.get? id with
  | some ref => { e.update ref .deactivate with contexts := e.contexts.erase id }
  | none => e

-- RuntimeContext.get, below the given recursion depth and with a reading of the clock at each
-- level; nothing stands for the default.
def get (now : Nat → Utc) :
    Nat → ContextRef → Str → ContextEngine φ ν → Except ContextError (Option ν) × ContextEngine φ ν
  | 0, _, _, e => (.error .recursion, e)
  | depth + 1, ref, key, e =>
      match e.objects[ref]? with
      | none => (.ok none, e)
      | some ctx =>
          match ctx.data.get? key with
          | some value => (.ok (some value), e)
          | none =>
              match given ctx.parentId with
              | none => (.ok none, e)
              | some parentId =>
                  match e.getContext (now depth) parentId with
                  | (some parent, e) => get now depth parent key e
                  | (none, e) => (.ok none, e)

-- What the update methods have in common.
def change (now : Utc) (id : Str) (f : RuntimeContext φ ν → RuntimeContext φ ν)
    (e : ContextEngine φ ν) : ContextEngine φ ν :=
  match e.getContext now id with
  | (some ref, e) => e.update ref f
  | (none, e) => e

def updateContextData (now later : Utc) (id : Str) (data : Dict Str ν) :
    ContextEngine φ ν → ContextEngine φ ν := change now id (.updateData later data)

def updateContextMetadata (now later : Utc) (id : Str) (metadata : Dict Str ν) :
    ContextEngine φ ν → ContextEngine φ ν := change now id (.updateMetadata later metadata)

def addTags (now later : Utc) (id : Str) (tags : List Str) :
    ContextEngine φ ν → ContextEngine φ ν := change now id (.addTags later tags)

end ContextEngine

-- The calls on an engine and on the contexts that it has made; the latter may still be made after
-- the engine has let go of the context.
inductive Action (φ ν : Type)
  | createContext (now : Utc) (uuid : Uuid) (data : Option (Dict Str ν)) (parentId : Option Str)
      (metadata : Option (Dict Str ν)) (ttl : Option (Number φ)) (tags : Option (List Str))
  | set (now : Utc) (ref : ContextRef) (key : Str) (value : ν)
  | delete (now : Utc) (ref : ContextRef) (key : Str)
  | clear (now : Utc) (ref : ContextRef)
  | updateContextData (now later : Utc) (id : Str) (data : Dict Str ν)
  | updateContextMetadata (now later : Utc) (id : Str) (metadata : Dict Str ν)
  | addTags (now later : Utc) (id : Str) (tags : List Str)
  | deleteContext (id : Str)
  | getContext (now : Utc) (id : Str)
  | get (now : Nat → Utc) (depth : Nat) (ref : ContextRef) (key : Str)

-- The same call with other values.
def Action.map {μ : Type} (f : ν → μ) : Action φ ν → Action φ μ
  | .createContext now uuid data parentId metadata ttl tags =>
      .createContext now uuid (data.map (·.mapValues fun _ => f)) parentId
        (metadata.map (·.mapValues fun _ => f)) ttl tags
  | .set now ref key value => .set now ref key (f value)
  | .delete now ref key => .delete now ref key
  | .clear now ref => .clear now ref
  | .updateContextData now later id data =>
      .updateContextData now later id (data.mapValues fun _ => f)
  | .updateContextMetadata now later id metadata =>
      .updateContextMetadata now later id (metadata.mapValues fun _ => f)
  | .addTags now later id tags => .addTags now later id tags
  | .deleteContext id => .deleteContext id
  | .getContext now id => .getContext now id
  | .get now depth ref key => .get now depth ref key

namespace ContextEngine

-- A call that raises leaves the engine as it was.
def perform (timedelta : φ → Option Int) (e : ContextEngine φ ν) : Action φ ν → ContextEngine φ ν
  | .createContext now uuid data parentId metadata ttl tags =>
      match e.createContext timedelta now uuid data parentId metadata ttl tags with
      | .ok e => e
      | .error _ => e
  | .set now ref key value => e.update ref (.set now key value)
  | .delete now ref key => e.update ref (.delete now key)
  | .clear now ref => e.update ref (.clear now)
  | .updateContextData now later id data => e.updateContextData now later id data
  | .updateContextMetadata now later id metadata => e.updateContextMetadata now later id metadata
  | .addTags now later id tags => e.addTags now later id tags
  | .deleteContext id => e.deleteContext id
  | .getContext now id => (e.getContext now id).2
  | .get now depth ref key => (e.get now depth ref key).2

-- A generated identifier is one that no context has and that none names as its parent.
def Fresh {μ : Type} (e : ContextEngine φ ν) : Action φ μ → Prop
  | .createContext _ uuid _ _ _ _ _ =>
      ∀ ctx ∈ e.objects, ctx.id ≠ uuid.val ∧ ctx.parentId ≠ some uuid.val
  | _ => True

instance {μ : Type} (e : ContextEngine φ ν) (act : Action φ μ) : Decidable (e.Fresh act) :=
  match act with
  | .createContext _ uuid _ _ _ _ _ => inferInstanceAs
      (Decidable (∀ ctx ∈ e.objects, ctx.id ≠ uuid.val ∧ ctx.parentId ≠ some uuid.val))
  | .set .. | .delete .. | .clear .. | .updateContextData .. | .updateContextMetadata ..
  | .addTags .. | .deleteContext .. | .getContext .. | .get .. => .isTrue trivial

-- A new engine after some calls.
def performAll (timedelta : φ → Option Int) (acts : List (Action φ ν)) : ContextEngine φ ν :=
  acts.foldl (perform timedelta) empty

end ContextEngine

end YasinCore.Context
