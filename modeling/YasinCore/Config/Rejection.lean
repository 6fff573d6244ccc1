import YasinCore.Config.Validation

namespace YasinCore.Config

open YasinCore.Library

variable {α : Type}

-- The calls that validate a change which they have already made.
inductive Change (α : Type)
  | set (key : String) (value : Tree α)
  | registerSchema (key : String) (rule : Rule α)

def Change.key : Change α → String
  | .set key _ | .registerSchema key _ => key

def Change.operation : Change α → Operation α Unit
  | .set key value => Operation.set key value
  | .registerSchema key rule => Operation.registerSchema key rule

-- Neither key is the other one or lies below it.
def Unrelated (key other : String) : Prop :=
  ¬Text.split '.' key <+: Text.split '.' other ∧ ¬Text.split '.' other <+: Text.split '.' key

-- Calls of set with keys that have nothing to do with the given one.
def Later (key : String) (sets : List (String × Tree α)) : Prop :=
  ∀ call ∈ sets, Unrelated key call.1 ∧ call.2.Proper

-- Something that is no dictionary stands above the key.
def Blocked (d : Entries α) (key : String) : Prop :=
  ∃ above rest sub, Text.split '.' key = above ++ rest ∧ rest ≠ [] ∧
    (Tree.dict d).at? above = some sub ∧ ¬sub.IsDict

namespace ConfigurationManager

-- The manager after some calls of set, whether they return or raise.
def after (sets : List (String × Tree α)) (m : ConfigurationManager α) : ConfigurationManager α :=
  sets.foldl (fun m call => finalState (Operation.set call.1 call.2) m) m

def remerged (m : ConfigurationManager α) : ConfigurationManager α :=
  { m with mergedData := m.mergeConfigs }

def withOverrides (overrides : Entries α) (m : ConfigurationManager α) : ConfigurationManager α :=
  { m with overrides := overrides }.remerged

def withRule (key : String) (rule : Rule α) (m : ConfigurationManager α) : ConfigurationManager α :=
  { m with
    schemas := m.schemas.set key rule
    sensitiveKeys := if rule.sensitive then insert key m.sensitiveKeys else m.sensitiveKeys }

-- The rules of all keys but one.
def OthersSatisfied (key : String) (m : ConfigurationManager α) : Prop :=
  ∀ other rule, other ≠ key → m.schemas.get? other = some rule → rule.Accepts (m.get other .null)

-- The rule of a key, if it has one, holds on the value.
def RuleAccepts (key : String) (value : Tree α) (m : ConfigurationManager α) : Prop :=
  ∀ rule, m.schemas.get? key = some rule → rule.Accepts value

-- Some later calls of set bring the rules of all other keys to hold.
def Settleable (key : String) (m : ConfigurationManager α) : Prop :=
  ∃ sets other value overrides, Later key (sets ++ [(other, value)]) ∧
    setDeep (m.after sets).overrides (Text.split '.' other) value = .ok overrides ∧
    ((m.after sets).withOverrides overrides).OthersSatisfied key

end ConfigurationManager

-- A rejected call leaves no trace: the same values, a validation that passes, and the same success or
-- failure of every later set of an unrelated key.
structure NoTrace (key : String) (m m' : ConfigurationManager α) : Prop where
  get : ∀ other default, m'.get other default = m.get other default
  valid : Operation.validate m' = .ok () m'
  later : ∀ sets other value, Later key (sets ++ [(other, value)]) →
    ((returned (Operation.set other value) (m'.after sets)).isSome ↔
      (returned (Operation.set other value) (m.after sets)).isSome)

-- The call is stopped by something on the way of its key, before it has written anything; and the new
-- rule, which is registered by then, holds on the value of the key, as it is and as the layers have it
-- wherever the rule that it replaces does.
def Change.StopsEarly (m : ConfigurationManager α) : Change α → Prop
  | .set key _ => Blocked m.overrides key
  | .registerSchema key rule => rule.default ≠ .null ∧ Blocked m.defaults key ∧
      rule.Accepts (m.get key .null) ∧ (m.Settleable key →
        (rule.Accepts (m.remerged.get key .null) ↔ m.RuleAccepts key (m.remerged.get key .null)))

section Calls

open ConfigurationManager Operation

variable {m : ConfigurationManager α} {key other : String} {rule : Rule α} {value : Tree α}

theorem setDeep_blocked_iff (d : Entries α) (key : String) (value : Tree α) :
    (∃ e, setDeep d (Text.split '.' key) value = .error e) ↔ Blocked d key := by
  have hsome : (Tree.put value (some (.dict d)) (Text.split '.' key)).isSome ↔
      ∃ entries, setDeep d (Text.split '.' key) value = .ok entries := by
    constructor
    · intro h
      obtain ⟨tree, hput⟩ := Option.isSome_iff_exists.mp h
      obtain ⟨entries, rfl⟩ := Tree.dict_of_put (split_ne_nil key) hput
      exact ⟨entries, setDeep_ok_iff.mpr hput⟩
    · rintro ⟨entries, h⟩
      rw [setDeep_ok_iff.mp h]
      rfl
  have hfails : (∃ e, setDeep d (Text.split '.' key) value = .error e) ↔
      ¬∃ entries, setDeep d (Text.split '.' key) value = .ok entries := by
    cases setDeep d (Text.split '.' key) value <;> simp
  rw [hfails, ← hsome, Tree.put_isSome_iff]
  unfold Blocked
  push Not
  rfl

-- A validation reads only, and passes exactly where the rules hold.
theorem validate_cases (m : ConfigurationManager α) :
    (validate m = .ok () m ∧ m.Satisfied) ∨ ∃ e, validate m = .error e m ∧ ¬m.Satisfied := by
  have hmaintains : Maintains (· = m) (validate (α := α)) := validate_maintains
  have hkeeps := hmaintains m rfl
  have hholds := validate_satisfied m trivial
  have hpasses : Triple (fun t => t = m ∧ m.Satisfied) (validate (α := α)) (fun _ _ => True)
      fun _ _ => False := by
    refine .get_bind fun seen => Triple.imp (.forM (fun _ _ => seen.Satisfied)
      fun done entry rest he => ?_) (fun t ht => ?_) (fun _ _ _ => trivial) fun _ _ => id
    · intro t hsatisfied
      have hmem : entry ∈ seen.schemas.entries := by simp [he]
      have haccepts := hsatisfied entry.1 entry.2 ((Dict.mem_entries_iff ..).mp hmem)
      rw [validateRule_ok_iff.mpr haccepts]
      exact hsatisfied
    · obtain ⟨rfl, rfl, hsatisfied⟩ := ht
      exact hsatisfied
  revert hkeeps hholds
  cases hrun : validate m with
  | ok _ t =>
      rintro rfl hsatisfied
      exact .inl ⟨rfl, hsatisfied⟩
  | error e t =>
      rintro rfl -
      refine .inr ⟨e, rfl, fun hsatisfied => ?_⟩
      have hnever := hpasses t ⟨rfl, hsatisfied⟩
      rw [hrun] at hnever
      exact hnever

theorem set_eq (key : String) (value : Tree α) (m : ConfigurationManager α) :
    Operation.set key value m =
    match setDeep m.overrides (Text.split '.' key) value with
    | .ok overrides => validate (m.withOverrides overrides)
    | .error e => .error e m := by
  have hrun : Operation.set key value m = EStateM.bind
      (lift (setDeep m.overrides (Text.split '.' key) value))
      (fun overrides => do
        modify fun m => { m with overrides := overrides }
        remerge
        validate) m := rfl
  rw [hrun]
  unfold EStateM.bind
  cases setDeep m.overrides (Text.split '.' key) value <;> rfl

theorem registerSchema_eq (m : ConfigurationManager α) : Operation.registerSchema key rule m =
    match applyDefault key rule.default (m.withRule key rule) with
    | .ok _ t => validate t.remerged
    | .error e t => .error e t := by
  have hrun : Operation.registerSchema key rule m = EStateM.bind (applyDefault key rule.default)
      (fun _ => do
        remerge
        validate) (m.withRule key rule) := rfl
  rw [hrun]
  unfold EStateM.bind
  cases applyDefault key rule.default (m.withRule key rule) <;> rfl

theorem setDefault_eq (parts : Path) (val : Tree α) (m : ConfigurationManager α) :
    setDefault parts val m =
      match setDeep m.defaults parts val with
      | .ok defaults => .ok () { m with defaults := defaults }
      | .error e => .error e m := by
  have hrun : setDefault parts val m = EStateM.bind (lift (setDeep m.defaults parts val))
      (fun defaults => modify fun m => { m with defaults := defaults }) m := rfl
  rw [hrun]
  unfold EStateM.bind
  cases setDeep m.defaults parts val <;> rfl

-- A default that cannot be written is noticed before anything is written.
theorem applyDefault_cases (key : String) (m : ConfigurationManager α) (default : Tree α) :
    (∃ t, applyDefault key default m = .ok () t ∧ ¬(default ≠ .null ∧ Blocked m.defaults key)) ∨
      ∃ e, applyDefault key default m = .error e m ∧ default ≠ .null ∧ Blocked m.defaults key := by
  have hwrite : (∃ t, setDefault (Text.split '.' key) default m = .ok () t ∧
      ¬Blocked m.defaults key) ∨ ∃ e, setDefault (Text.split '.' key) default m = .error e m ∧
        Blocked m.defaults key := by
    rw [setDefault_eq, ← setDeep_blocked_iff m.defaults key default]
    cases setDeep m.defaults (Text.split '.' key) default with
    | ok defaults =>
        refine .inl ⟨_, rfl, fun h => ?_⟩
        obtain ⟨_, he⟩ := h
        cases he
    | error e => exact .inr ⟨e, rfl, e, rfl⟩
  cases default with
  | null => exact .inl ⟨m, rfl, fun h => h.1 rfl⟩
  | leaf _ =>
      rcases hwrite with ⟨t, ht, hfree⟩ | ⟨e, he, hblocked⟩
      · exact .inl ⟨t, ht, fun h => hfree h.2⟩
      · exact .inr ⟨e, he, by simp, hblocked⟩
  | dict _ =>
      rcases hwrite with ⟨t, ht, hfree⟩ | ⟨e, he, hblocked⟩
      · exact .inl ⟨t, ht, fun h => hfree h.2⟩
      · exact .inr ⟨e, he, by simp, hblocked⟩

end Calls

section Sets

open ConfigurationManager Operation

variable {m : ConfigurationManager α} {key other : String} {rule : Rule α} {value : Tree α}

-- A call of set is either stopped on its way, or it puts its value over the others and says whether
-- the rules hold then.
theorem set_cases (m : ConfigurationManager α) (other : String) (value : Tree α) :
    (∃ e, setDeep m.overrides (Text.split '.' other) value = .error e ∧
      finalState (Operation.set other value) m = m ∧
      ¬(returned (Operation.set other value) m).isSome) ∨
    ∃ overrides, setDeep m.overrides (Text.split '.' other) value = .ok overrides ∧
      finalState (Operation.set other value) m = m.withOverrides overrides ∧
      ((returned (Operation.set other value) m).isSome ↔ (m.withOverrides overrides).Satisfied) := by
  have hrun := set_eq other value m
  unfold finalState returned
  rw [hrun]
  cases setDeep m.overrides (Text.split '.' other) value with
  | error e => exact .inl ⟨e, rfl, rfl, nofun⟩
  | ok overrides =>
      refine .inr ⟨overrides, rfl, ?_⟩
      rcases validate_cases (m.withOverrides overrides) with ⟨hv, hs⟩ | ⟨e, hv, hs⟩
      · simp [hv, hs]
      · simp [hv, hs]

-- A registered rule changes nothing in what a later set writes.
theorem finalState_set_withRule (key : String) (rule : Rule α) (other : String) (value : Tree α)
    (m : ConfigurationManager α) :
    finalState (Operation.set other value) (m.withRule key rule) =
      (finalState (Operation.set other value) m).withRule key rule := by
  rcases set_cases m other value with ⟨e, he, hm, -⟩ | ⟨overrides, ho, hm, -⟩
  · rcases set_cases (m.withRule key rule) other value with ⟨-, -, hm', -⟩ | ⟨overrides', ho', -⟩
    · rw [hm, hm']
    · cases he.symm.trans ho'
  · rcases set_cases (m.withRule key rule) other value with ⟨e, he, -⟩ | ⟨overrides', ho', hm', -⟩
    · cases ho.symm.trans he
    · cases ho.symm.trans ho'
      rw [hm, hm']
      rfl

theorem after_withRule (sets : List (String × Tree α)) (m : ConfigurationManager α) :
    (m.withRule key rule).after sets = (m.after sets).withRule key rule := by
  induction sets generalizing m with
  | nil => rfl
  | cons call sets ih =>
      have hstep := finalState_set_withRule key rule call.1 call.2 m
      unfold after at ih ⊢
      rw [List.foldl_cons, List.foldl_cons, hstep, ih]

theorem satisfied_iff_others (key : String) : m.Satisfied ↔
    m.OthersSatisfied key ∧ m.RuleAccepts key (m.get key .null) := by
  constructor
  · exact fun h => ⟨fun name other _ => h name other, h key⟩
  · rintro ⟨hothers, hown⟩ name found hf
    by_cases hn : name = key
    · subst hn
      exact hown found hf
    · exact hothers name found hn hf

theorem schemas_withRule (key : String) (rule : Rule α) (m : ConfigurationManager α) (other : String) :
    (m.withRule key rule).schemas.get? other = if other = key then some rule else m.schemas.get? other :=
  Dict.get?_set _ _ _ _

theorem withRule_satisfied_iff : (m.withRule key rule).Satisfied ↔
    m.OthersSatisfied key ∧ rule.Accepts (m.get key .null) := by
  rw [satisfied_iff_others key]
  constructor
  · rintro ⟨hothers, hown⟩
    refine ⟨fun name found hn hf => hothers name found hn ?_, hown rule ?_⟩
    · rwa [schemas_withRule, if_neg hn]
    · rw [schemas_withRule, if_pos rfl]
  · rintro ⟨hothers, hown⟩
    refine ⟨fun name found hn hf => hothers name found hn ?_, fun found hf => ?_⟩
    · rwa [schemas_withRule, if_neg hn] at hf
    · rw [schemas_withRule, if_pos rfl] at hf
      exact Option.some.inj hf ▸ hown

-- What the layers make of a key is not changed by an unrelated set.
theorem get_withOverrides {overrides : Entries α} (hproper : m.Proper) (hv : value.Proper)
    (hu : Unrelated key other)
    (ho : setDeep m.overrides (Text.split '.' other) value = .ok overrides) :
    (m.withOverrides overrides).get key .null = m.remerged.get key .null := by
  have hput := setDeep_ok_iff.mp ho
  have hproper' : ConfigurationManager.Proper { m with overrides := overrides } := by
    obtain ⟨hfile, henv, hold⟩ := proper_iff.mp hproper
    exact proper_iff.mpr ⟨hfile, henv,
      Tree.proper_put hv (fun sub hs => Option.some.inj hs ▸ hold) hput⟩
  have hmerged : (m.withOverrides overrides).mergedData =
      ConfigurationManager.mergeConfigs { m with overrides := overrides } := rfl
  have hmerged' : m.remerged.mergedData = m.mergeConfigs := rfl
  rw [get_null, get_null, hmerged, hmerged', at?_mergeConfigs hproper', at?_mergeConfigs hproper]
  exact congrArg (Option.getD · _) (Tree.overlay_put_beside hput hu.1 hu.2 _)

-- The same along later calls.
theorem after_spec {sets : List (String × Tree α)} (hproper : m.Proper) (h : Later key sets) :
    (m.after sets).Proper ∧ (m.after sets).schemas = m.schemas ∧
      (m.after sets).remerged.get key .null = m.remerged.get key .null := by
  induction sets generalizing m with
  | nil => exact ⟨hproper, rfl, rfl⟩
  | cons call sets ih =>
      obtain ⟨hcall, hsets⟩ := List.forall_mem_cons.mp h
      have hnext := (set_proper call.1 hcall.2).finalState hproper
      obtain ⟨hlast, hschemas, hget⟩ := ih hnext hsets
      refine ⟨hlast, hschemas.trans ?_, hget.trans ?_⟩
      · rcases set_cases m call.1 call.2 with ⟨-, -, hm, -⟩ | ⟨overrides, -, hm, -⟩ <;> rw [hm]
        rfl
      · rcases set_cases m call.1 call.2 with ⟨-, -, hm, -⟩ | ⟨overrides, ho, hm, -⟩
        · rw [hm]
        · rw [hm]
          exact get_withOverrides hproper hcall.2 hcall.1 ho

-- Where a new rule is the only difference, the later calls tell it from the old one exactly if
-- one of them gets so far.
theorem later_iff (hproper : m.Proper) :
    (∀ sets other value, Later key (sets ++ [(other, value)]) →
      ((returned (Operation.set other value) ((m.withRule key rule).after sets)).isSome ↔
        (returned (Operation.set other value) (m.after sets)).isSome)) ↔
      (m.Settleable key → (rule.Accepts (m.remerged.get key .null) ↔
        m.RuleAccepts key (m.remerged.get key .null))) := by
  have hcall {sets : List (String × Tree α)} {other : String} {value : Tree α}
      (hlater : Later key (sets ++ [(other, value)])) {overrides : Entries α}
      (ho : setDeep (m.after sets).overrides (Text.split '.' other) value = .ok overrides) :
      ((returned (Operation.set other value) ((m.withRule key rule).after sets)).isSome ↔
        ((m.after sets).withOverrides overrides).OthersSatisfied key ∧
          rule.Accepts (m.remerged.get key .null)) ∧
      ((returned (Operation.set other value) (m.after sets)).isSome ↔
        ((m.after sets).withOverrides overrides).OthersSatisfied key ∧
          m.RuleAccepts key (m.remerged.get key .null)) := by
    obtain ⟨hsets, hlast⟩ := List.forall_mem_append.mp hlater
    obtain ⟨hproper', hschemas, hget⟩ := after_spec hproper hsets
    obtain ⟨hu, hv⟩ := hlast _ List.mem_cons_self
    have hvalue := (get_withOverrides hproper' hv hu ho).trans hget
    constructor
    · rw [after_withRule]
      rcases set_cases ((m.after sets).withRule key rule) other value with ⟨e, he, -⟩ |
        ⟨overrides', ho', -, hreturns⟩
      · cases ho.symm.trans he
      · cases ho.symm.trans ho'
        have hcomm : ((m.after sets).withRule key rule).withOverrides overrides =
            ((m.after sets).withOverrides overrides).withRule key rule := rfl
        rw [hreturns, hcomm, withRule_satisfied_iff, hvalue]
    · rcases set_cases (m.after sets) other value with ⟨e, he, -⟩ | ⟨overrides', ho', -, hreturns⟩
      · cases ho.symm.trans he
      · cases ho.symm.trans ho'
        rw [hreturns, satisfied_iff_others key, hvalue]
        have hrule : ((m.after sets).withOverrides overrides).schemas = m.schemas := hschemas
        unfold RuleAccepts
        rw [hrule]
  constructor
  · rintro h ⟨sets, other, value, overrides, hlater, ho, hothers⟩
    obtain ⟨hnew, hold⟩ := hcall hlater ho
    have hsame := h sets other value hlater
    rwa [hnew, hold, and_iff_right hothers, and_iff_right hothers] at hsame
  · intro h sets other value hlater
    rcases set_cases (m.after sets) other value with ⟨e, he, -, hraises⟩ | ⟨overrides, ho, -⟩
    · rw [after_withRule]
      rcases set_cases ((m.after sets).withRule key rule) other value with ⟨-, -, -, hraises'⟩ |
        ⟨overrides', ho', -⟩
      · exact iff_of_false hraises' hraises
      · cases he.symm.trans ho'
    · obtain ⟨hnew, hold⟩ := hcall hlater ho
      rw [hnew, hold]
      exact and_congr_right fun hothers => h ⟨sets, other, value, overrides, hlater, ho, hothers⟩

end Sets

section Rejected

open ConfigurationManager Operation

variable {m m' : ConfigurationManager α} {key : String} {change : Change α}

theorem validate_ok_iff : validate m = .ok () m ↔ m.Satisfied := by
  rcases validate_cases m with ⟨hv, hs⟩ | ⟨e, hv, hs⟩
  · exact iff_of_true hv hs
  · exact iff_of_false (by rw [hv]; nofun) hs

theorem NoTrace.refl (h : m.Satisfied) : NoTrace key m m :=
  ⟨fun _ _ => rfl, validate_ok_iff.mpr h, fun _ _ _ _ => .rfl⟩

-- A rejected change leaves no trace exactly where it is stopped early.
theorem noTrace_iff_stopsEarly (hproper : m.Proper) (hm : m.Satisfied) {e : ConfigError α}
    (h : change.operation m = .error e m') : NoTrace change.key m m' ↔ change.StopsEarly m := by
  have hinvalid {t : ConfigurationManager α} (hv : validate t = .error e m') :
      ¬NoTrace change.key m m' := by
    intro htrace
    rcases validate_cases t with ⟨hok, -⟩ | ⟨_, herror, hs⟩
    · cases hv.symm.trans hok
    · cases hv.symm.trans herror
      exact hs (validate_ok_iff.mp htrace.valid)
  cases change with
  | set key value =>
      rw [Change.operation, set_eq] at h
      have hblocked := setDeep_blocked_iff m.overrides key value
      revert h hblocked
      cases setDeep m.overrides (Text.split '.' key) value with
      | error e' =>
          intro h hblocked
          cases h
          exact iff_of_true (.refl hm) (hblocked.mp ⟨_, rfl⟩)
      | ok overrides =>
          intro h hblocked
          exact iff_of_false (hinvalid h) fun hb => nomatch hblocked.mpr hb
  | registerSchema key rule =>
      rw [Change.operation, registerSchema_eq] at h
      rcases applyDefault_cases key (m.withRule key rule) rule.default with
        ⟨t, ht, hfree⟩ | ⟨e', he, hdefault, hblocked⟩
      · rw [ht] at h
        exact iff_of_false (hinvalid h) fun hs => hfree ⟨hs.1, hs.2.1⟩
      · rw [he] at h
        cases h
        have hget (other : String) (default : Tree α) :
            (m.withRule key rule).get other default = m.get other default := rfl
        have hvalid : validate (m.withRule key rule) = .ok () (m.withRule key rule) ↔
            rule.Accepts (m.get key .null) := by
          rw [validate_ok_iff, withRule_satisfied_iff]
          exact and_iff_right ((satisfied_iff_others key).mp hm).1
        constructor
        · intro htrace
          exact ⟨hdefault, hblocked, hvalid.mp htrace.valid, (later_iff hproper).mp htrace.later⟩
        · rintro ⟨-, -, haccepts, hlater⟩
          exact ⟨hget, hvalid.mpr haccepts, (later_iff hproper).mpr hlater⟩

-- As long as the merged data is that of the layers, a rule which holds on the value of its key is all
-- that an early stop needs.
theorem stopsEarly_of_merged {rule : Rule α} (hmerged : m.Merged) (hm : m.Satisfied)
    (hdefault : rule.default ≠ .null) (hblocked : Blocked m.defaults key)
    (haccepts : rule.Accepts (m.get key .null)) :
    (Change.registerSchema key rule).StopsEarly m := by
  have hcurrent : m.remerged = m := by
    unfold remerged
    rw [← hmerged]
  refine ⟨hdefault, hblocked, haccepts, fun _ => ?_⟩
  rw [hcurrent]
  exact iff_of_true haccepts ((satisfied_iff_others _).mp hm).2

-- A mode that was set, and a level below it.
def modeSet : ConfigurationManager Scalar :=
  { blank with
    overrides := [("mode", .leaf (.text "test"))]
    mergedData := [("mode", .leaf (.text "test"))] }

def levelBelowMode : Change Scalar := .set "mode.level" (.leaf (.int 1))

theorem level_leaves_no_trace : NoTrace "mode.level" modeSet modeSet := by
  have hpath : Text.split '.' "mode.level" = ["mode", "level"] := by decide +kernel
  have hproper : modeSet.Proper := by
    simp [ConfigurationManager.Proper, layers, modeSet, blank, Tree.Proper, Tree.ProperEntries]
  have hraises : levelBelowMode.operation modeSet = .error (.noDict ["mode", "level"]) modeSet := by
    rw [levelBelowMode, Change.operation, set_eq, hpath]
    rfl
  have hearly : levelBelowMode.StopsEarly modeSet :=
    ⟨["mode"], ["level"], .leaf (.text "test"), hpath, List.cons_ne_nil _ _, rfl, id⟩
  exact (noTrace_iff_stopsEarly hproper (fun _ _ hr => by cases hr) hraises).mpr hearly

theorem trace_of_get {prog : Operation α Unit} (hraises : ¬(returned prog m).isSome)
    (hget : (finalState prog m).get key .null ≠ m.get key .null) :
    ∃ e m', prog m = .error e m' ∧ ¬NoTrace key m m' := by
  revert hraises hget
  unfold returned finalState
  cases prog m with
  | ok _ t => exact fun hraises => absurd rfl hraises
  | error e t => exact fun _ hget => ⟨e, t, rfl, fun htrace => hget (htrace.get key .null)⟩

-- A text for a port is rejected, but it stays.
def textForPort : Change Scalar := .set "app.port" (.leaf (.text "invalid-port-string"))

theorem rejected_text_stays : ∃ e m', (managerAfter portRegistered).Satisfied ∧
    textForPort.operation (managerAfter portRegistered) = .error e m' ∧
      ¬NoTrace "app.port" (managerAfter portRegistered) m' := by
  have hregister : Succeeds ([.reload packaged] ++ [.registerSchema "app.port" (portRule 8080)]) := by
    unfold Succeeds
    decide +kernel
  have hs : step sampleHost (managerAfter [.reload packaged])
      (.registerSchema "app.port" (portRule 8080)) = some (managerAfter portRegistered) :=
    managerAfter_step hregister
  have hsatisfied : (managerAfter portRegistered).Satisfied :=
    step_triple (registerSchema_satisfied _ _) hs trivial
  have hraises : ¬(returned textForPort.operation (managerAfter portRegistered)).isSome := by
    decide +kernel
  have hbefore : (managerAfter portRegistered).get "app.port" .null = .leaf (.int 8080) := by
    decide +kernel
  have hafter : (finalState textForPort.operation (managerAfter portRegistered)).get "app.port" .null =
      .leaf (.text "invalid-port-string") := by
    decide +kernel
  obtain ⟨e, m', hrun, htrace⟩ := trace_of_get hraises
    (by rw [hbefore, hafter]; nofun)
  exact ⟨e, m', hsatisfied, hrun, htrace⟩

end Rejected

end YasinCore.Config
