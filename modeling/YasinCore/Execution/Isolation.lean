import YasinCore.Context.Inheritance
import YasinCore.Execution.Propagation

namespace YasinCore.Execution

open YasinCore.Library YasinCore.Context

variable {φ ν : Type}

-- Two jobs that do not carry the same context_id.
def Apart (first second : Author) : Prop :=
  first.job ≠ second.job ∧ (first.contextId = none ∨ first.contextId ≠ second.contextId)

-- The contexts in whose data get looks for a key.
def Sees (e : ContextEngine φ ν) : CurrentContext → CurrentContext → Prop
  | .plain ref, other => other = .plain ref
  | .runtime ref, other => ∃ seen, other = .runtime seen ∧ e.Inherits ref seen

namespace Process

-- What get_current_context().get returns to the code that a worker thread has in hand.
def reads (p : Process φ ν) (thread : ThreadId) (now : Nat → Utc) (depth : Nat) (key : Str) :
    Except ContextError (Option (Authored ν)) :=
  let (context, p) := p.getCurrentContext thread
  (p.read now depth key context).1

-- No target reads what the target of a job apart from it has stored in the same worker thread.
def Isolated (p : Process φ ν) : Prop :=
  ∀ thread reader, p.author thread = some reader → ∀ now depth key value writer,
    p.reads thread now depth key = .ok (some value) → value.author = some writer →
      writer.thread = thread → ¬Apart writer reader

-- The context that a target run in the worker thread itself gets.
def entryContext (p : Process φ ν) (thread : ThreadId) (job : Job) (now : Utc) :
    Option CurrentContext :=
  match (p.liveContext job now).1 with
  | some context => some (.runtime context)
  | none => p.current thread

-- What an access adds to the record of who has stored anything where.
def storesOf (p : Process φ ν) : ProcessAction φ ν → List (Author × CurrentContext)
  | .access thread _ (.set _ _ _) =>
      (p.author thread).toList.map fun writer => (writer, (p.getCurrentContext thread).1)
  | _ => []

end Process

-- A process with the record of which jobs have called set on which contexts.
structure Watched (φ ν : Type) where
  process : Process φ ν
  stores : List (Author × CurrentContext)

namespace Watched

def start (heap : JobRef → Job) : Watched φ ν := ⟨.start heap, []⟩

def step (timedelta : φ → Option Int) (w : Watched φ ν) (act : ProcessAction φ ν) :
    Option (Watched φ ν) :=
  (w.process.step timedelta act).map fun p => ⟨p, w.stores ++ w.process.storesOf act⟩

-- A job without a positive timeout is started in a context in which, and in whose parents, no job
-- apart from it has stored anything from the same worker thread.
def Undisturbed (w : Watched φ ν) : ProcessAction φ ν → Prop
  | .exec (.startJob thread ref _) reading =>
      let job := w.process.exec.heap ref
      job.RunsDirectly → ∀ context, w.process.entryContext thread job reading = some context →
        ∀ writer seen, (writer, seen) ∈ w.stores → writer.thread = thread →
          Sees w.process.engine context seen → ¬Apart writer ⟨thread, ref, Job.given job.contextId⟩
  | _ => True

end Watched

-- The object that a reference names exists.
def Process.Exists (p : Process φ ν) : CurrentContext → Prop
  | .plain ref => ref < p.plain.length
  | .runtime ref => ref < p.engine.objects.length

-- What the guarded steps keep: whatever has an author is on record, and no job has in view what one
-- apart from it has stored from the same thread.
structure Kept (p : Process φ ν) (stores : List (Author × CurrentContext)) : Prop where
  wellFormed : p.engine.WellFormed
  current : ∀ thread context, p.current thread = some context → p.Exists context
  token : ∀ thread run context, p.runs thread = some run → run.token = some (some context) →
    p.Exists context
  pool : ∀ thread run context, p.runs thread = some run → run.pool = some (some context) →
    p.Exists context
  thread : ∀ thread reader, p.author thread = some reader → reader.thread = thread
  stored : ∀ writer context, (writer, context) ∈ stores → p.Exists context
  plain : ∀ (ref : Nat) (data : Dict Str (Authored ν)) key value writer, p.plain[ref]? = some data →
    data.get? key = some value → value.author = some writer → (writer, .plain ref) ∈ stores
  runtime : ∀ (ref : ContextRef) (ctx : RuntimeContext φ (Authored ν)) key value writer,
    p.engine.objects[ref]? = some ctx → ctx.data.get? key = some value →
      value.author = some writer → (writer, .runtime ref) ∈ stores
  undisturbed : ∀ thread reader context, p.author thread = some reader →
    p.variableOf thread = some context → ∀ writer seen, (writer, seen) ∈ stores →
      writer.thread = thread → Sees p.engine context seen → ¬Apart writer reader

section Kept

variable {timedelta : φ → Option Int} {p : Process φ ν} {stores : List (Author × CurrentContext)}
  {thread other : ThreadId} {context : CurrentContext}

theorem Kept.variableOf (h : Kept p stores) (hv : p.variableOf thread = some context) :
    p.Exists context := by
  unfold Process.variableOf at hv
  split at hv
  · rename_i run hr
    cases hpool : run.pool with
    | none =>
        rw [hpool] at hv
        exact h.current thread context hv
    | some variable' =>
        rw [hpool] at hv
        exact h.pool thread run context hr (hpool.trans (congrArg some hv))
  · exact h.current thread context hv

theorem Kept.start (heap : JobRef → Job) : Kept (.start heap : Process φ ν) [] where
  wellFormed := .empty
  current _ _ h := by cases h
  token _ _ _ h _ := by cases h
  pool _ _ _ h _ := by cases h
  thread _ _ h := by cases h
  stored _ _ h := by cases h
  plain _ _ _ _ _ h _ _ := by cases h
  runtime _ _ _ _ _ h _ _ := by cases h
  undisturbed _ _ _ h _ _ _ _ _ _ := by cases h

-- Contexts that a changed engine shows were shown before.
theorem sees_of_evolves {new : Authored ν → Prop} {t : ContextEngine φ (Authored ν)}
    (h : p.engine.Evolves new t) (hw : p.engine.WellFormed) (hexists : p.Exists context)
    {seen : CurrentContext} (hs : Sees t context seen) : Sees p.engine context seen := by
  cases context with
  | plain ref => exact hs
  | runtime ref =>
      obtain ⟨found, hfound, hi⟩ := hs
      exact ⟨found, hfound, (h.inherits hw hi hexists).1⟩

theorem exists_of_evolves {new : Authored ν → Prop} {t : ContextEngine φ (Authored ν)}
    (h : p.engine.Evolves new t) (hexists : p.Exists context) :
    Process.Exists { p with engine := t } context := by
  cases context with
  | plain ref => exact hexists
  | runtime ref => exact hexists.trans_le h.length

-- Objects have been made or changed, and every thread holds what it held.
theorem Kept.objects (h : Kept p stores) {engine : ContextEngine φ (Authored ν)}
    {plain : List (Dict Str (Authored ν))} (hw : engine.WellFormed)
    (hexists : ∀ context, p.Exists context →
      Process.Exists { p with engine := engine, plain := plain } context)
    (hsees : ∀ context seen, p.Exists context → Sees engine context seen → Sees p.engine context seen)
    (hplain : ∀ (ref : Nat) data key value writer, plain[ref]? = some data →
      data.get? key = some value → value.author = some writer → (writer, .plain ref) ∈ stores)
    (hruntime : ∀ (ref : ContextRef) ctx key value writer, engine.objects[ref]? = some ctx →
      ctx.data.get? key = some value → value.author = some writer → (writer, .runtime ref) ∈ stores) :
    Kept { p with engine := engine, plain := plain } stores where
  wellFormed := hw
  current thread context hc := hexists context (h.current thread context hc)
  token thread run context hr ht := hexists context (h.token thread run context hr ht)
  pool thread run context hr hp := hexists context (h.pool thread run context hr hp)
  thread := h.thread
  stored writer context hm := hexists context (h.stored writer context hm)
  plain := hplain
  runtime := hruntime
  undisturbed thread reader context hr hv writer seen hm ht hs :=
    h.undisturbed thread reader context hr hv writer seen hm ht (hsees context seen (h.variableOf hv) hs)

-- Other code has used the engine.
theorem Kept.engine (h : Kept p stores) {t : ContextEngine φ (Authored ν)}
    (he : p.engine.Evolves (fun value => value.author = none) t) (hw : t.WellFormed) :
    Kept { p with engine := t } stores := by
  refine h.objects hw (fun _ => exists_of_evolves he) (fun _ _ hc hs => sees_of_evolves he h.wellFormed hc hs)
    h.plain ?_
  intro ref ctx key value writer ho hv ha
  rcases he.value ref ctx key value ho hv with hnone | ⟨old, hold, hv⟩
  · rw [hnone] at ha
    cases ha
  · exact h.runtime ref old key value writer hold hv ha

-- The job engine has taken a step.
theorem Kept.exec (h : Kept p stores) (exec : State) : Kept { p with exec := exec } stores :=
  ⟨h.wellFormed, h.current, h.token, h.pool, h.thread, h.stored, h.plain, h.runtime, h.undisturbed⟩

theorem author_setVariable : (p.setVariable thread context).author other = p.author other := by
  unfold Process.setVariable Process.author
  cases hr : p.runs thread with
  | none => rfl
  | some run =>
      cases hp : run.pool with
      | none => simp only [hp]
      | some _ =>
          simp only [hp]
          by_cases ho : other = thread
          · rw [ho, Function.update_self, hr]
            rfl
          · rw [Function.update_of_ne ho]

theorem variableOf_setVariable : (p.setVariable thread context).variableOf other =
    if other = thread then some context else p.variableOf other := by
  unfold Process.setVariable Process.variableOf
  by_cases ho : other = thread
  · subst ho
    cases hr : p.runs other with
    | none => simp [hr]
    | some run => cases hp : run.pool <;> simp [hr, hp]
  · cases hr : p.runs thread with
    | none => simp [ho]
    | some run => cases hp : run.pool <;> simp [hp, ho]

theorem setVariable_engine : (p.setVariable thread context).engine = p.engine := by
  unfold Process.setVariable
  split
  · split <;> rfl
  · rfl

theorem setVariable_plain : (p.setVariable thread context).plain = p.plain := by
  unfold Process.setVariable
  split
  · split <;> rfl
  · rfl

theorem current_setVariable {found : CurrentContext}
    (h : (p.setVariable thread context).current other = some found) :
    found = context ∨ p.current other = some found := by
  have hupdate (h : Function.update p.current thread (some context) other = some found) :
      found = context ∨ p.current other = some found := by
    by_cases ho : other = thread
    · rw [ho, Function.update_self] at h
      exact .inl (Option.some.inj h).symm
    · rw [Function.update_of_ne ho] at h
      exact .inr h
  unfold Process.setVariable at h
  cases hr : p.runs thread with
  | none =>
      rw [hr] at h
      exact hupdate h
  | some run =>
      cases hp : run.pool with
      | none =>
          simp only [hr, hp] at h
          exact hupdate h
      | some _ =>
          simp only [hr, hp] at h
          exact .inr h

theorem runs_setVariable {run : TargetRun}
    (h : (p.setVariable thread context).runs other = some run) :
    ∃ old, p.runs other = some old ∧ run.token = old.token ∧
      (run.pool = old.pool ∨ run.pool = some (some context)) := by
  unfold Process.setVariable at h
  cases hr : p.runs thread with
  | none =>
      rw [hr] at h
      exact ⟨run, h, rfl, .inl rfl⟩
  | some old =>
      cases hp : old.pool with
      | none =>
          simp only [hr, hp] at h
          exact ⟨run, h, rfl, .inl rfl⟩
      | some _ =>
          simp only [hr, hp] at h
          by_cases ho : other = thread
          · rw [ho, Function.update_self] at h
            cases h
            exact ⟨old, ho ▸ hr, rfl, .inr rfl⟩
          · rw [Function.update_of_ne ho] at h
            exact ⟨run, h, rfl, .inl rfl⟩

theorem exists_setVariable {found : CurrentContext} :
    (p.setVariable thread context).Exists found ↔ p.Exists found := by
  cases found with
  | plain ref => rw [Process.Exists, Process.Exists, setVariable_plain]
  | runtime ref => rw [Process.Exists, Process.Exists, setVariable_engine]

-- A thread turns to a context in which no job apart from the one in hand has stored anything.
theorem Kept.setVariable (h : Kept p stores) (hexists : p.Exists context)
    (hu : ∀ reader, p.author thread = some reader → ∀ writer seen, (writer, seen) ∈ stores →
      writer.thread = thread → Sees p.engine context seen → ¬Apart writer reader) :
    Kept (p.setVariable thread context) stores where
  wellFormed := by
    rw [setVariable_engine]
    exact h.wellFormed
  current other found hc := by
    rw [exists_setVariable]
    rcases current_setVariable hc with rfl | hc
    · exact hexists
    · exact h.current other found hc
  token other run found hr ht := by
    rw [exists_setVariable]
    obtain ⟨old, hold, htoken, -⟩ := runs_setVariable hr
    exact h.token other old found hold (htoken ▸ ht)
  pool other run found hr hp := by
    rw [exists_setVariable]
    obtain ⟨old, hold, -, hpool | hpool⟩ := runs_setVariable hr
    · exact h.pool other old found hold (hpool ▸ hp)
    · rw [hpool] at hp
      cases hp
      exact hexists
  thread other reader hr := by
    rw [author_setVariable] at hr
    exact h.thread other reader hr
  stored writer found hm := by
    rw [exists_setVariable]
    exact h.stored writer found hm
  plain := by
    rw [setVariable_plain]
    exact h.plain
  runtime := by
    rw [setVariable_engine]
    exact h.runtime
  undisturbed other reader found hr hv writer seen hm ht hs := by
    rw [author_setVariable] at hr
    rw [setVariable_engine] at hs
    rw [variableOf_setVariable] at hv
    split at hv
    · rename_i ho
      cases hv
      rw [ho] at hr ht
      exact hu reader hr writer seen hm ht hs
    · exact h.undisturbed other reader found hr hv writer seen hm ht hs

-- A new Context is made.
theorem Kept.append (h : Kept p stores) : Kept { p with plain := p.plain ++ [.empty] } stores := by
  refine h.objects h.wellFormed (fun context he => ?_) (fun _ _ _ hs => hs) ?_ h.runtime
  · cases context with
    | plain ref =>
        show ref < (p.plain ++ [Dict.empty]).length
        rw [List.length_append]
        exact Nat.lt_add_right _ he
    | runtime ref => exact he
  · intro ref data key value writer ho hv ha
    rw [List.getElem?_append] at ho
    split at ho
    · exact h.plain ref data key value writer ho hv ha
    · have hempty := List.mem_singleton.mp (List.mem_of_getElem? ho)
      rw [hempty] at hv
      cases hv

-- A thread without a context gets a new one, in which nothing has been stored.
theorem Kept.getCurrentContext (h : Kept p stores) (thread : ThreadId) :
    Kept (p.getCurrentContext thread).2 stores := by
  unfold Process.getCurrentContext
  cases hv : p.variableOf thread with
  | some context => exact h
  | none =>
      refine h.append.setVariable ?_ fun reader _ writer seen hm _ hs => ?_
      · show p.plain.length < (p.plain ++ [Dict.empty]).length
        simp
      · have hseen : seen = .plain p.plain.length := hs
        have hlt : p.Exists seen := h.stored writer seen hm
        rw [hseen] at hlt
        exact absurd hlt (lt_irrefl _)

theorem getCurrentContext_variableOf (p : Process φ ν) (thread : ThreadId) :
    (p.getCurrentContext thread).2.variableOf thread = some (p.getCurrentContext thread).1 := by
  unfold Process.getCurrentContext
  cases hv : p.variableOf thread with
  | some context => exact hv
  | none =>
      dsimp only
      rw [variableOf_setVariable, if_pos rfl]

theorem getCurrentContext_author (p : Process φ ν) (thread : ThreadId) :
    (p.getCurrentContext thread).2.author other = p.author other := by
  unfold Process.getCurrentContext
  cases hv : p.variableOf thread with
  | some context => rfl
  | none => exact author_setVariable

-- The part of a process that belongs to one thread is replaced.
theorem Kept.replace (h : Kept p stores) (current : Option CurrentContext) (run : Option TargetRun)
    (hcurrent : ∀ context, current = some context → p.Exists context)
    (htoken : ∀ r context, run = some r → r.token = some (some context) → p.Exists context)
    (hpool : ∀ r context, run = some r → r.pool = some (some context) → p.Exists context)
    (hthread : ∀ r, run = some r → r.author.thread = thread)
    (hu : ∀ r context, run = some r → r.pool.getD current = some context → ∀ writer seen,
      (writer, seen) ∈ stores → writer.thread = thread → Sees p.engine context seen →
        ¬Apart writer r.author) :
    Kept { p with
      current := Function.update p.current thread current
      runs := Function.update p.runs thread run } stores where
  wellFormed := h.wellFormed
  current other context hc := by
    dsimp only at hc
    by_cases ho : other = thread
    · rw [ho, Function.update_self] at hc
      exact hcurrent context hc
    · rw [Function.update_of_ne ho] at hc
      exact h.current other context hc
  token other found context hr ht := by
    dsimp only at hr
    by_cases ho : other = thread
    · rw [ho, Function.update_self] at hr
      exact htoken found context hr ht
    · rw [Function.update_of_ne ho] at hr
      exact h.token other found context hr ht
  pool other found context hr hp := by
    dsimp only at hr
    by_cases ho : other = thread
    · rw [ho, Function.update_self] at hr
      exact hpool found context hr hp
    · rw [Function.update_of_ne ho] at hr
      exact h.pool other found context hr hp
  thread other reader ha := by
    unfold Process.author at ha
    dsimp only at ha
    by_cases ho : other = thread
    · rw [ho, Function.update_self] at ha
      obtain ⟨r, hr, rfl⟩ := Option.map_eq_some_iff.mp ha
      exact (hthread r hr).trans ho.symm
    · rw [Function.update_of_ne ho] at ha
      exact h.thread other reader ha
  stored := h.stored
  plain := h.plain
  runtime := h.runtime
  undisturbed other reader context ha hv writer seen hm ht hs := by
    unfold Process.author at ha
    unfold Process.variableOf at hv
    by_cases ho : other = thread
    · subst ho
      simp only [Function.update_self] at ha hv
      obtain ⟨r, rfl, rfl⟩ := Option.map_eq_some_iff.mp ha
      exact hu r context rfl hv writer seen hm ht hs
    · simp only [Function.update_of_ne ho] at ha hv
      exact h.undisturbed other reader context ha hv writer seen hm ht hs

-- The end of a job.
theorem Kept.leave (h : Kept p stores) (thread : ThreadId) : Kept (p.leave thread) stores := by
  unfold Process.leave
  cases hr : p.runs thread with
  | none => exact h
  | some run =>
      have hreplace (current : Option CurrentContext)
          (hcurrent : ∀ context, current = some context → p.Exists context) :=
        @Kept.replace _ _ p stores thread h current none hcurrent (fun _ _ hn => by cases hn)
          (fun _ _ hn => by cases hn) (fun _ hn => by cases hn) fun _ _ hn => by cases hn
      dsimp only
      cases ht : run.token with
      | some old =>
          refine hreplace old fun context ho => h.token thread run context hr ?_
          rw [ht, ho]
      | none =>
          have hsame := hreplace (p.current thread) fun context hc => h.current thread context hc
          rwa [Function.update_eq_self] at hsame

theorem Kept.leaveIfIdle (h : Kept p stores) (thread : ThreadId) :
    Kept (p.leaveIfIdle thread) stores := by
  unfold Process.leaveIfIdle
  split
  · exact h.leave thread
  · exact h

-- What the lookup of the context of a job does to the engine.
theorem liveContext_spec (p : Process φ ν) (hw : p.engine.WellFormed) (job : Job) (now : Utc) :
    p.engine.Evolves (fun value => value.author = none) (p.liveContext job now).2 ∧
      (p.liveContext job now).2.WellFormed ∧
      ∀ ref, (p.liveContext job now).1 = some ref → ref < p.engine.objects.length := by
  unfold Process.liveContext
  cases Job.given job.contextId with
  | none => exact ⟨.refl, hw, nofun⟩
  | some id =>
      refine ⟨.getContext now _, hw.getContext now _, fun ref hr => ?_⟩
      rcases ContextEngine.getContext_cases now (.ofString id) p.engine with ⟨found, ctx, hf, _, he⟩ |
        ⟨_, he⟩ | ⟨_, _, _, _, he⟩
      · dsimp only at hr
        rw [he] at hr
        cases hr
        exact hw.lt (ContextEngine.find_eq_some.mp hf).1
      · dsimp only at hr
        rw [he] at hr
        cases hr
      · dsimp only at hr
        rw [he] at hr
        cases hr

theorem enter_eq (p : Process φ ν) (thread : ThreadId) (ref : JobRef) (now : Utc) :
    p.enter thread ref now = { p with
      engine := (p.liveContext (p.exec.heap ref) now).2
      current := Function.update p.current thread (p.entryContext thread (p.exec.heap ref) now)
      runs := Function.update p.runs thread (some {
        author := ⟨thread, ref, Job.given (p.exec.heap ref).contextId⟩
        token := (p.liveContext (p.exec.heap ref) now).1.map fun _ => p.current thread
        pool := if (p.exec.heap ref).RunsDirectly then none else some none }) } := by
  unfold Process.enter Process.entryContext
  dsimp only
  cases (p.liveContext (p.exec.heap ref) now).1 with
  | some context => rfl
  | none =>
      dsimp only
      rw [Function.update_eq_self]

-- The start of a job whose context is undisturbed.
theorem Kept.enter (h : Kept p stores) (thread : ThreadId) (ref : JobRef) (now : Utc)
    (hu : (p.exec.heap ref).RunsDirectly → ∀ context,
      p.entryContext thread (p.exec.heap ref) now = some context → ∀ writer seen,
        (writer, seen) ∈ stores → writer.thread = thread → Sees p.engine context seen →
          ¬Apart writer ⟨thread, ref, Job.given (p.exec.heap ref).contextId⟩) :
    Kept (p.enter thread ref now) stores := by
  obtain ⟨hevolves, hwell, hlive⟩ := liveContext_spec p h.wellFormed (p.exec.heap ref) now
  have hentry (context : CurrentContext)
      (hc : p.entryContext thread (p.exec.heap ref) now = some context) : p.Exists context := by
    unfold Process.entryContext at hc
    cases hl : (p.liveContext (p.exec.heap ref) now).1 with
    | some found =>
        rw [hl] at hc
        cases hc
        exact hlive found hl
    | none =>
        rw [hl] at hc
        exact h.current thread context hc
  rw [enter_eq]
  refine (h.engine hevolves hwell).replace _ _ (fun context hc => ?_) (fun r context hr ht => ?_)
    (fun r context hr hp => ?_) (fun r hr => ?_) fun r context hr hv writer seen hm ht hs => ?_
  · exact exists_of_evolves hevolves (hentry context hc)
  · cases hr
    obtain ⟨_, -, hc⟩ := Option.map_eq_some_iff.mp ht
    exact exists_of_evolves hevolves (h.current thread context hc)
  · cases hr
    dsimp only at hp
    split at hp <;> cases hp
  · cases hr
    rfl
  · cases hr
    dsimp only at hv
    split at hv
    · rename_i hd
      have hc : p.entryContext thread (p.exec.heap ref) now = some context := hv
      exact hu hd context hc writer seen hm ht
        (sees_of_evolves hevolves h.wellFormed (hentry context hc) hs)
    · cases hv

-- The steps of a worker thread.
theorem Kept.follow (h : Kept p stores) (now : Utc) {act : Action}
    (hu : ∀ thread ref time, act = .startJob thread ref time →
      (p.exec.heap ref).RunsDirectly → ∀ context,
        p.entryContext thread (p.exec.heap ref) now = some context → ∀ writer seen,
          (writer, seen) ∈ stores → writer.thread = thread → Sees p.engine context seen →
            ¬Apart writer ⟨thread, ref, Job.given (p.exec.heap ref).contextId⟩) :
    Kept (p.follow now act) stores := by
  unfold Process.follow
  split
  · rename_i thread ref time
    exact h.enter thread ref now (hu thread ref time rfl)
  · exact h.leaveIfIdle _
  · exact h.leaveIfIdle _
  · exact h.leaveIfIdle _
  · exact h

theorem not_apart_self (reader : Author) : ¬Apart reader reader := fun h => h.1 rfl

-- The job in hand goes on record for the context that it is in.
theorem Kept.record (h : Kept p stores) (hv : p.variableOf thread = some context) {writer : Author}
    (ha : p.author thread = some writer) : Kept p (stores ++ [(writer, context)]) where
  wellFormed := h.wellFormed
  current := h.current
  token := h.token
  pool := h.pool
  thread := h.thread
  stored found seen hm := by
    rcases List.mem_append.mp hm with hm | hm
    · exact h.stored found seen hm
    · cases List.mem_singleton.mp hm
      exact h.variableOf hv
  plain ref data key value found ho hd hf :=
    List.mem_append_left _ (h.plain ref data key value found ho hd hf)
  runtime ref ctx key value found ho hd hf :=
    List.mem_append_left _ (h.runtime ref ctx key value found ho hd hf)
  undisturbed other reader seen hr hs found sought hm ht hsees := by
    rcases List.mem_append.mp hm with hm | hm
    · exact h.undisturbed other reader seen hr hs found sought hm ht hsees
    · cases List.mem_singleton.mp hm
      have hother : other = thread := ht.symm.trans (h.thread thread writer ha)
      rw [hother, ha] at hr
      cases hr
      exact not_apart_self writer

-- A change of a context whose new values are those of a job on record.
theorem Kept.write (h : Kept p stores) {author : Option Author}
    (hrecord : ∀ writer, author = some writer → (writer, context) ∈ stores)
    {f : Dict Str (Authored ν) → Dict Str (Authored ν)}
    {g : RuntimeContext φ (Authored ν) → RuntimeContext φ (Authored ν)}
    (hf : ∀ data key value, (f data).get? key = some value →
      value.author = author ∨ data.get? key = some value)
    (hg : Harmless g) (hparent : ∀ ctx, (g ctx).parentId = ctx.parentId)
    (hdata : ∀ ctx, (g ctx).data = f ctx.data) : Kept (p.write f g context) stores := by
  cases context with
  | plain ref =>
      refine h.objects h.wellFormed (fun context he => ?_) (fun _ _ _ hs => hs) ?_ h.runtime
      · cases context with
        | plain other =>
            show other < (p.plain.modify ref f).length
            rwa [List.length_modify]
        | runtime other => exact he
      · intro other data key value writer ho hv ha
        rw [List.getElem?_modify] at ho
        obtain ⟨old, hold, hchanged⟩ := Option.map_eq_some_iff.mp ho
        split at hchanged
        · rename_i href
          rw [← hchanged] at hv
          rcases hf old key value hv with hauthor | hv
          · rw [← href]
            exact hrecord writer (hauthor.symm.trans ha)
          · exact h.plain other old key value writer hold hv ha
        · cases hchanged
          exact h.plain other data key value writer hold hv ha
  | runtime ref =>
      have hevolves : p.engine.Evolves (fun _ => True) (p.engine.update ref g) :=
        .update hparent fun _ _ _ _ => .inl trivial
      refine h.objects (h.wellFormed.update hg) (fun _ => exists_of_evolves hevolves)
        (fun _ _ hc hs => sees_of_evolves hevolves h.wellFormed hc hs) h.plain ?_
      intro other ctx key value writer ho hv ha
      rw [ContextEngine.objects_update] at ho
      split at ho
      · rename_i href
        obtain ⟨old, hold, rfl⟩ := Option.map_eq_some_iff.mp ho
        rw [hdata] at hv
        subst href
        rcases hf old.data key value hv with hauthor | hv
        · exact hrecord writer (hauthor.symm.trans ha)
        · exact h.runtime ref old key value writer hold hv ha
      · exact h.runtime other ctx key value writer ho hv ha

theorem Kept.read (h : Kept p stores) (now : Nat → Utc) (depth : Nat) (key : Str)
    (context : CurrentContext) : Kept (p.read now depth key context).2 stores := by
  cases context with
  | plain ref => exact h
  | runtime ref => exact h.engine (.get now depth ref key) (h.wellFormed.get now depth ref key)

-- An access of a target.
theorem Kept.access (h : Kept p stores) (thread : ThreadId) (ref : JobRef) (act : Access ν) :
    Kept (p.access thread act) (stores ++ p.storesOf (.access thread ref act : ProcessAction φ ν)) := by
  have hcurrent := h.getCurrentContext thread
  have hnone : ∀ writer, (none : Option Author) = some writer →
      (writer, (p.getCurrentContext thread).1) ∈ stores := by
    intro writer hn
    cases hn
  -- Only a set goes on record.
  have hquiet {q : Process φ ν} (hq : Kept q stores) : Kept q (stores ++ []) := by
    rwa [List.append_nil]
  unfold Process.access
  cases act with
  | current => exact hquiet hcurrent
  | get now depth key => exact hquiet (hcurrent.read now depth key _)
  | set now key value =>
      have hset (data : Dict Str (Authored ν)) (other : Str) (found : Authored ν)
          (hv : (data.set key ⟨value, p.author thread⟩).get? other = some found) :
          found.author = p.author thread ∨ data.get? other = some found := by
        rw [Dict.get?_set] at hv
        split at hv
        · cases hv
          exact .inl rfl
        · exact .inr hv
      have hharmless : Harmless (RuntimeContext.set now key ⟨value, p.author thread⟩ :
          RuntimeContext φ (Authored ν) → _) := RuntimeContext.set_harmless key _
      show Kept _ (stores ++ (p.author thread).toList.map _)
      cases ha : p.author thread with
      | none =>
          rw [ha] at hset hharmless
          exact hquiet (hcurrent.write hnone hset hharmless (fun _ => rfl) fun _ => rfl)
      | some writer =>
          rw [ha] at hset hharmless
          have hrecord := hcurrent.record (getCurrentContext_variableOf p thread)
            ((getCurrentContext_author p thread).trans ha)
          refine hrecord.write (fun found hf => ?_) hset hharmless (fun _ => rfl) fun _ => rfl
          cases hf
          exact List.mem_append_right _ (List.mem_singleton_self _)
  | delete now key =>
      refine hquiet (hcurrent.write hnone (fun data other found hv => ?_)
        (RuntimeContext.delete_harmless key) (fun _ => rfl) fun _ => rfl)
      rw [Dict.get?_erase] at hv
      split at hv
      · cases hv
      · exact .inr hv
  | clear now =>
      refine hquiet (hcurrent.write hnone (fun data other found hv => ?_)
        RuntimeContext.clear_harmless (fun _ => rfl) fun _ => rfl)
      cases hv

theorem Kept.step {w u : Watched φ ν} {act : ProcessAction φ ν} (h : Kept w.process w.stores)
    (hs : w.step timedelta act = some u) (hg : w.Undisturbed act) : Kept u.process u.stores := by
  obtain ⟨q, hq, rfl⟩ := Option.map_eq_some_iff.mp hs
  cases act with
  | exec act now =>
      obtain ⟨exec, he, rfl⟩ := Option.map_eq_some_iff.mp hq
      show Kept _ (w.stores ++ [])
      rw [List.append_nil]
      refine (h.exec exec).follow now fun thread ref time ha => ?_
      subst ha
      have hjob : (exec.heap ref).timeout = (w.process.exec.heap ref).timeout ∧
          (exec.heap ref).contextId = (w.process.exec.heap ref).contextId := by
        obtain ⟨-, rfl⟩ := State.startJob_eq he
        rw [State.setHand_heap, State.publishJob_heap, State.updateJob_heap_self]
        exact ⟨rfl, rfl⟩
      have hentry : Process.entryContext { w.process with exec := exec } thread (exec.heap ref) now =
          w.process.entryContext thread (w.process.exec.heap ref) now := by
        unfold Process.entryContext Process.liveContext
        rw [hjob.2]
      unfold Job.RunsDirectly
      rw [hjob.1, hentry, hjob.2]
      exact hg
  | access thread ref act =>
      simp only [Process.step, Option.ite_none_right_eq_some, Option.some.injEq] at hq
      obtain ⟨-, rfl⟩ := hq
      exact h.access thread ref act
  | context act =>
      simp only [Process.step, Option.ite_none_right_eq_some, Option.some.injEq] at hq
      obtain ⟨hfresh, rfl⟩ := hq
      show Kept _ (w.stores ++ [])
      rw [List.append_nil]
      have hevolves : w.process.engine.Evolves (fun value => value.author = none)
          (w.process.engine.perform timedelta (act.map fun value => ⟨value, none⟩)) := by
        refine .perform timedelta (fun value => ?_) hfresh
        rfl
      exact h.engine hevolves (h.wellFormed.perform timedelta _)

theorem Kept.isolated (h : Kept p stores) : p.Isolated := by
  intro thread reader hr now depth key value writer hread ha ht
  have hcurrent := h.getCurrentContext thread
  have hvariable := getCurrentContext_variableOf p thread
  have hauthor : (p.getCurrentContext thread).2.author thread = some reader :=
    (getCurrentContext_author p thread).trans hr
  unfold Process.reads at hread
  dsimp only at hread
  revert hread hcurrent hvariable hauthor
  generalize (p.getCurrentContext thread).2 = q
  generalize (p.getCurrentContext thread).1 = context
  intro hread hcurrent hvariable hauthor
  cases context with
  | plain ref =>
      have hfound : (q.plain[ref]?).bind (·.get? key) = some value := by
        injection hread
      obtain ⟨data, hd, hv⟩ := Option.bind_eq_some_iff.mp hfound
      exact hcurrent.undisturbed thread reader _ hauthor hvariable writer _
        (hcurrent.plain ref data key value writer hd hv ha) ht rfl
  | runtime ref =>
      obtain ⟨seen, ctx, hi, ho, hv⟩ := ContextEngine.inherits_of_get hread
      exact hcurrent.undisturbed thread reader _ hauthor hvariable writer _
        (hcurrent.runtime seen ctx key value writer ho hv ha) ht ⟨seen, rfl, hi⟩

end Kept

-- In a run in which every job is started undisturbed no target ever reads what the target of a job
-- apart from it has stored before in the same worker thread.
theorem jobs_isolated (timedelta : φ → Option Int) (heap : JobRef → Job)
    (acts : List (ProcessAction φ ν)) (w : Watched φ ν)
    (hr : Run (Watched.step timedelta) (.start heap) acts w)
    (hm : Meets (Watched.step timedelta) Watched.Undisturbed (.start heap) acts) :
    w.process.Isolated := by
  have hkept : Kept w.process w.stores :=
    hr.invariant (fun w => Kept w.process w.stores) (fun _ _ _ h hg hs => h.step hs hg) hm
      (Kept.start heap)
  exact hkept.isolated

section Samples

def taskJob (timeout : Option Time) (ref : JobRef) : Job :=
  Job.init (.callable "task") .empty (if ref = 0 then "job-0" else "job-1") none 20 0 timeout none 0

-- Two jobs without contexts are processed by one thread; the first stores something, the second
-- asks for it.
def twoTasks : List (ProcessAction Unit String) :=
  [.exec (.submitJob 0 none) midnight, .exec (.submitJob 1 none) midnight,
    .exec (.dequeue 0 0) midnight, .exec (.checkCancelled 0 0 1) midnight,
    .exec (.startJob 0 0 1) midnight, .access 0 0 (.set midnight (.ofString "user") "Jules"),
    .exec (.succeedJob 0 0 "done" 2) midnight, .exec (.dequeue 0 1) midnight,
    .exec (.checkCancelled 0 1 3) midnight, .exec (.startJob 0 1 3) midnight]

theorem timed_tasks_isolated : ∃ w : Watched Unit String,
    Run (Watched.step fun _ => none) (.start (taskJob (some 5))) twoTasks w ∧ w.process.Isolated := by
  have hrun : Run (Watched.step fun _ => none) (.start (taskJob (some 5))) twoTasks _ :=
    Run.of_foldlM rfl
  have hfive : ¬(5 : Time) ≤ 0 := by decide +kernel
  have hmeets : Meets (Watched.step fun _ => none) Watched.Undisturbed
      (.start (taskJob (some 5))) twoTasks :=
    .cons rfl trivial <| .cons rfl trivial <| .cons rfl trivial <| .cons rfl trivial <|
      .cons rfl (fun h => absurd (h 5 rfl) hfive) <| .cons rfl trivial <| .cons rfl trivial <|
        .cons rfl trivial <| .cons rfl trivial <| .cons rfl (fun h => absurd (h 5 rfl) hfive) trivial
  exact ⟨_, hrun, jobs_isolated (fun _ => none) (taskJob (some 5)) twoTasks _ hrun hmeets⟩

-- Without a timeout both run in the default context of the thread.
theorem plain_tasks_share_context : ∃ p : Process Unit String,
    Run (Process.step fun _ => none) (.start (taskJob none)) twoTasks p ∧ ¬p.Isolated := by
  refine ⟨_, Run.of_foldlM rfl, fun h => ?_⟩
  have hread := h 0 ⟨0, 1, none⟩ rfl (fun _ => midnight) 1 (.ofString "user") ⟨"Jules", _⟩
    ⟨0, 0, none⟩ rfl rfl rfl
  exact hread ⟨by decide, .inl rfl⟩

end Samples

end YasinCore.Execution
