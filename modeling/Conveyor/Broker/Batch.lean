import Conveyor.Broker.Call
import Conveyor.Broker.Initial

/-!
# Batches against single commits

A batch stages its members against the store as it was, with two tables of the ids and the keys staged so far;
committing the members one after the other shows each of them the rows of the earlier ones. The tables say that
an id is taken, that it is still open, and that its key is claimed. They differ from the rows where a member is
committed canceled, and where its claim has lapsed from the start.
-/

namespace Conveyor

open Lib

namespace Broker

/-- Commit the tasks one after the other; an error names the index it occurred at. -/
def enqueueEach (b : Broker) (now : Time) : List TaskEnvelope → Nat → Except BrokerError Broker
  | [], _ => .ok b
  | task :: rest, index =>
    match b.enqueue now task with
    | .error e => .error (.batch index task.id e)
    | .ok after => after.enqueueEach now rest (index + 1)

/-- What the declared edges of a new task come to if its dependencies are seen in these states. -/
def edgesUnder (state : String → Option TaskState) (task : TaskEnvelope) :
    GoMap String DependencyFailurePolicy × Bool :=
  let edges := task.options.dependsOn
  if edges.any fun edge => edge.counts task.id && doomsIn (state edge.taskId) (dependencyPolicy edge.onFailure) then
    (∅, true)
  else
    (edges.foldl (fun deps edge =>
      if edge.counts task.id && keptIn (state edge.taskId) (dependencyPolicy edge.onFailure) then
        deps.insert edge.taskId (dependencyPolicy edge.onFailure)
      else deps) ∅, false)

/-- Whether two such results are the same. -/
def sameEdges (one other : GoMap String DependencyFailurePolicy × Bool) : Bool :=
  decide (one.1.entries = other.1.entries) && one.2 == other.2

theorem sameEdges_iff {one other : GoMap String DependencyFailurePolicy × Bool} :
    sameEdges one other = true ↔ one = other := by
  rw [sameEdges, Bool.and_eq_true, decide_eq_true_eq, beq_iff_eq, Prod.ext_iff, AList.ext_iff]

/-- The states the store shows once some new tasks are committed canceled. -/
def stateSeen (b : Broker) (canceled : List String) (t : String) : Option TaskState :=
  if t ∈ canceled then some .canceled else b.stateOf t

/-- Whether a committed task keeps others from its key. -/
def claims (now : Time) (canceled : List String) (task : TaskEnvelope) : Bool :=
  decide (task.id ∉ canceled) &&
    task.options.uniqueTtl.all fun ttl => isZero (now + ttl) || decide (now + ttl > now)

/-- Whether a task is refused for its key, which the store claims or one of the given tasks. -/
def keyTaken (b : Broker) (now : Time) (earlier : List TaskEnvelope) (task : TaskEnvelope) : Bool :=
  decide (task.options.uniqueKey ≠ "") && (b.uniqueKeyClaimed task.options.uniqueKey now ||
    earlier.any fun other => other.options.uniqueKey == task.options.uniqueKey)

/-- Whether a task is refused for a group and a time in the future. -/
def groupedLater (now : Time) (task : TaskEnvelope) : Bool :=
  decide (task.options.group ≠ "" ∧ task.options.processAt.getD now > now)

/-- Whether a batch comes to the same as single commits. `done` are the members accepted so far, those in `canceled` are
committed canceled one by one, and `same` says whether the rows agree so far. A member whose key the batch finds in its
table must find it claimed on its own; if no member is refused, the edges of each new member must come to the same
whether the canceled ones are seen as canceled or not at all. -/
def alike (b : Broker) (now : Time) : List TaskEnvelope → (done : List TaskEnvelope) → (canceled : List String) →
    (same : Bool) → Bool
  | [], _, _, same => same
  | task :: rest, done, canceled, same =>
    if task.id ∈ b.tasks ∨ task.id ∈ done.map TaskEnvelope.id then b.alike now rest done canceled same
    else if b.keyTaken now done task then b.keyTaken now (done.filter (claims now canceled)) task
    else if groupedLater now task then true
    else
      let seen := edgesUnder (b.stateSeen canceled) task
      b.alike now rest (task :: done) (if seen.2 then task.id :: canceled else canceled)
        (same && sameEdges seen (edgesUnder b.stateOf task))

section Row

variable {b : Broker} {task : TaskEnvelope} {now : Time}

theorem stagedTask_row : (b.stagedTask task now).row =
    initialRow task now (edgesUnder b.stateOf task).1 (edgesUnder b.stateOf task).2 := by
  rw [stagedTask, resolveInitialDeps, resolveInitialDepsFrom_eq]
  rfl

theorem stagedTask_congr {c : Broker} (h : edgesUnder c.stateOf task = edgesUnder b.stateOf task) :
    c.stagedTask task now = b.stagedTask task now := by
  have hdeps : c.resolveInitialDeps task.id task.options.dependsOn = b.resolveInitialDeps task.id task.options.dependsOn := by
    rw [resolveInitialDeps, resolveInitialDeps, resolveInitialDepsFrom_eq, resolveInitialDepsFrom_eq]
    exact h
  rw [stagedTask, stagedTask, hdeps]

/-- States that doom and keep the same edges come to the same. -/
theorem edgesUnder_congr {state state' : String → Option TaskState}
    (h : ∀ t policy, doomsIn (state t) policy = doomsIn (state' t) policy ∧ keptIn (state t) policy = keptIn (state' t) policy) :
    edgesUnder state task = edgesUnder state' task := by
  simp only [edgesUnder, fun t policy => (h t policy).1, fun t policy => (h t policy).2]

variable {deps deps' : GoMap String DependencyFailurePolicy} {cancel cancel' : Bool}

/-- A new row is canceled, or it is open. -/
theorem initialRow_state : (initialRow task now deps cancel).state = .canceled ∧ cancel = true ∨
    incomplete (initialRow task now deps cancel).state = true ∧ cancel = false := by
  cases cancel with
  | true => exact .inl ⟨rfl, rfl⟩
  | false =>
    refine .inr ⟨?_, rfl⟩
    simp only [initialRow, initialState]
    split_ifs <;> simp_all [incomplete]

/-- The row shows what the edges came to. -/
theorem initialRow_inj (h : initialRow task now deps cancel = initialRow task now deps' cancel') :
    (deps, cancel) = (deps', cancel') := by
  have hdeps : deps = deps' := congrArg TaskRow.deps h
  have hstate := congrArg TaskRow.state h
  have hcancel : cancel = cancel' := by
    rcases @initialRow_state task now deps cancel with ⟨hcanceled, hc⟩ | ⟨hopen, hc⟩ <;>
      rcases @initialRow_state task now deps' cancel' with ⟨hcanceled', hc'⟩ | ⟨hopen', hc'⟩ <;>
      simp_all [incomplete]
  rw [hdeps, hcancel]

/-- A new row claims a key if it is the row's own, the row is open and the claim does not lapse at once. -/
theorem holdsClaim_initialRow {key : String} (hkey : key ≠ "") :
    holdsClaim (initialRow task now deps cancel) key now = true ↔ task.options.uniqueKey = key ∧ cancel = false ∧
      (task.options.uniqueTtl.all fun ttl => isZero (now + ttl) || decide (now + ttl > now)) = true := by
  have hopen : incomplete (initialRow task now deps cancel).state = true ↔ cancel = false := by
    rcases @initialRow_state task now deps cancel with ⟨hcanceled, hc⟩ | ⟨hopen, hc⟩ <;> simp_all [incomplete]
  have hclaim : task.options.uniqueKey ≠ "" →
      ((isZero (initialRow task now deps cancel).uniqueExpiresAt ||
        decide ((initialRow task now deps cancel).uniqueExpiresAt > now)) = true ↔
        (task.options.uniqueTtl.all fun ttl => isZero (now + ttl) || decide (now + ttl > now)) = true) := by
    intro hown
    simp only [initialRow, if_neg hown]
    cases task.options.uniqueTtl <;> simp [isZero]
  rw [holdsClaim, Bool.and_eq_true, Bool.and_eq_true, beq_iff_eq, hopen, and_assoc]
  refine and_congr_right fun hsame => and_congr_right fun _ => hclaim ?_
  rw [show task.options.uniqueKey = key from hsame]
  exact hkey

end Row

/-- The store of single commits, against the store before them: the accepted tasks have their rows, and the canceled
ones among them are known. -/
structure Ahead (b c : Broker) (now : Time) (done : List TaskEnvelope) (canceled : List String) : Prop where
  old : ∀ t, t ∉ done.map TaskEnvelope.id → c.tasks.lookup t = b.tasks.lookup t
  new : ∀ task ∈ done, task.id ∉ b.tasks ∧ ∃ deps cancel,
    c.tasks.lookup task.id = some (initialRow task now deps cancel) ∧ (task.id ∈ canceled ↔ cancel = true)
  known : ∀ t ∈ canceled, t ∈ done.map TaskEnvelope.id

/-- The tables of a batch hold the ids and keys of the accepted tasks. -/
structure Tabled (done : List TaskEnvelope) (batchIDs batchKeys : GoSet String) : Prop where
  ids : ∀ t, t ∈ batchIDs ↔ t ∈ done.map TaskEnvelope.id
  keys : ∀ key, key ≠ "" → (key ∈ batchKeys ↔ ∃ task ∈ done, task.options.uniqueKey = key)

section Ahead

variable {b c d : Broker} {now : Time} {batchIDs batchKeys : GoSet String} {task : TaskEnvelope}
  {done : List TaskEnvelope} {canceled : List String}

/-- An id is taken exactly if it was, or an accepted task has it. -/
theorem Ahead.mem_tasks (h : Ahead b c now done canceled) (t : String) :
    t ∈ c.tasks ↔ t ∈ b.tasks ∨ t ∈ done.map TaskEnvelope.id := by
  by_cases hdone : t ∈ done.map TaskEnvelope.id
  · obtain ⟨task, htask, rfl⟩ := List.mem_map.mp hdone
    obtain ⟨-, _, _, hrow, -⟩ := h.new task htask
    exact iff_of_true (GoMap.mem_of_lookup hrow) (.inr hdone)
  · rw [or_iff_left hdone, ← AList.lookup_isSome, ← AList.lookup_isSome, h.old t hdone]

/-- A task is refused for its key exactly if the key was claimed, or an accepted task claims it. -/
theorem Ahead.keyTaken_eq (h : Ahead b c now done canceled) (task : TaskEnvelope) :
    c.keyTaken now [] task = b.keyTaken now (done.filter (claims now canceled)) task := by
  rw [keyTaken, keyTaken, List.any_nil, Bool.or_false]
  by_cases hkey : task.options.uniqueKey = ""
  · simp [hkey]
  rw [decide_eq_true hkey, Bool.true_and, Bool.true_and, Bool.eq_iff_iff, Bool.or_eq_true, uniqueKeyClaimed_iff,
    uniqueKeyClaimed_iff, List.any_eq_true]
  simp only [List.mem_filter, beq_iff_eq]
  constructor
  · rintro ⟨t, row, hrow, hholds⟩
    by_cases hdone : t ∈ done.map TaskEnvelope.id
    · obtain ⟨earlier, hearlier, rfl⟩ := List.mem_map.mp hdone
      obtain ⟨-, deps, cancel, hown, hcanceled⟩ := h.new earlier hearlier
      cases hrow.symm.trans hown
      obtain ⟨hsame, hopen, httl⟩ := (holdsClaim_initialRow hkey).mp hholds
      have hclaims : claims now canceled earlier = true := by
        rw [claims, Bool.and_eq_true, decide_eq_true_eq, hcanceled, Bool.not_eq_true]
        exact ⟨hopen, httl⟩
      exact .inr ⟨earlier, ⟨hearlier, hclaims⟩, hsame⟩
    · exact .inl ⟨t, row, (h.old t hdone).symm.trans hrow, hholds⟩
  · rintro (⟨t, row, hrow, hholds⟩ | ⟨earlier, ⟨hearlier, hclaims⟩, hsame⟩)
    · refine ⟨t, row, (h.old t fun hdone => ?_).trans hrow, hholds⟩
      obtain ⟨earlier, hearlier, rfl⟩ := List.mem_map.mp hdone
      exact (h.new earlier hearlier).1 (GoMap.mem_of_lookup hrow)
    · obtain ⟨-, deps, cancel, hown, hcanceled⟩ := h.new earlier hearlier
      rw [claims, Bool.and_eq_true, decide_eq_true_eq, hcanceled, Bool.not_eq_true] at hclaims
      exact ⟨earlier.id, _, hown, (holdsClaim_initialRow hkey).mpr ⟨hsame, hclaims⟩⟩

/-- The edges of a task come to what they do if the canceled tasks are seen as canceled and the other accepted ones, which
are open, not at all. -/
theorem Ahead.edgesUnder_eq (h : Ahead b c now done canceled) (task : TaskEnvelope) :
    edgesUnder c.stateOf task = edgesUnder (b.stateSeen canceled) task := by
  apply edgesUnder_congr
  intro t policy
  rw [stateSeen]
  by_cases hdone : t ∈ done.map TaskEnvelope.id
  · obtain ⟨earlier, hearlier, rfl⟩ := List.mem_map.mp hdone
    obtain ⟨hfresh, deps, cancel, hown, hcanceled⟩ := h.new earlier hearlier
    have hstored : b.stateOf earlier.id = none := by rw [stateOf, AList.lookup_eq_none.mpr hfresh]; rfl
    have hseen : c.stateOf earlier.id = some (initialRow earlier now deps cancel).state := by rw [stateOf, hown]; rfl
    rw [hstored, hseen]
    rcases @initialRow_state earlier now deps cancel with ⟨hstate, hcancel⟩ | ⟨hopen, hcancel⟩
    · rw [if_pos (hcanceled.mpr hcancel), hstate]
      exact ⟨rfl, rfl⟩
    · rw [if_neg fun hmem => Bool.false_ne_true (hcancel.symm.trans (hcanceled.mp hmem))]
      cases hstate : (initialRow earlier now deps cancel).state <;> simp_all [doomsIn, keptIn, incomplete, failedDependency]
  · rw [if_neg fun hcanceled => hdone (h.known t hcanceled), stateOf, stateOf, h.old t hdone]
    exact ⟨rfl, rfl⟩

/-- Staging in terms of the two tests. -/
theorem stageEnqueue_tests (b : Broker) (task : TaskEnvelope) (now : Time) (htables : Tabled done batchIDs batchKeys) :
    b.stageEnqueue task now batchIDs batchKeys =
      if task.id ∈ b.tasks ∨ task.id ∈ done.map TaskEnvelope.id then .ok none
      else if b.keyTaken now done task then .error .duplicateTask
      else if groupedLater now task then .error .groupedSchedule
      else .ok (some (b.stagedTask task now)) := by
  have hkey : (task.options.uniqueKey ≠ "" ∧ (b.uniqueKeyClaimed task.options.uniqueKey now = true ∨
      task.options.uniqueKey ∈ batchKeys)) ↔ b.keyTaken now done task = true := by
    simp only [keyTaken, Bool.and_eq_true, decide_eq_true_eq, Bool.or_eq_true, List.any_eq_true, beq_iff_eq]
    exact and_congr_right fun hne => or_congr_right (htables.keys _ hne)
  simp only [stageEnqueue, htables.ids, hkey, groupedLater, decide_eq_true_eq]
  by_cases hstored : task.id ∈ b.tasks
  · simp only [hstored, true_or, if_true]
  · simp only [hstored, false_or, if_false]

theorem keyTaken_mono {earlier more : List TaskEnvelope} (hsub : ∀ other ∈ earlier, other ∈ more)
    (h : b.keyTaken now earlier task = true) : b.keyTaken now more task = true := by
  simp only [keyTaken, Bool.and_eq_true, Bool.or_eq_true, List.any_eq_true] at h ⊢
  exact ⟨h.1, h.2.imp_right fun ⟨other, hother, hsame⟩ => ⟨other, hsub other hother, hsame⟩⟩

theorem lookup_applyStaged (c d : Broker) (task : TaskEnvelope) (now : Time) (t : String) :
    (c.applyStaged (d.stagedTask task now) now).tasks.lookup t =
      if t = task.id then some (d.stagedTask task now).row else c.tasks.lookup t := by
  rw [applyStaged_tasks]
  exact GoMap.lookup_insert_eq_ite _ _ _ _

/-- Committing an accepted task. -/
theorem Ahead.apply (h : Ahead b c now done canceled) (hfresh : task.id ∉ b.tasks)
    (hnew : task.id ∉ done.map TaskEnvelope.id) :
    Ahead b (c.applyStaged (c.stagedTask task now) now) now (task :: done)
      (if (edgesUnder (b.stateSeen canceled) task).2 then task.id :: canceled else canceled) := by
  have hcanceled : ∀ t, t ∈ (if (edgesUnder (b.stateSeen canceled) task).2 then task.id :: canceled else canceled) ↔
      t ∈ canceled ∨ t = task.id ∧ (edgesUnder (b.stateSeen canceled) task).2 = true := by
    intro t
    split
    · rename_i hcancel
      rw [hcancel, List.mem_cons, or_comm, and_iff_left rfl]
    · rename_i hcancel
      simp [hcancel]
  refine ⟨fun t ht => ?_, fun earlier hearlier => ?_, fun t ht => ?_⟩
  · rw [List.map_cons, List.mem_cons, not_or] at ht
    rw [lookup_applyStaged, if_neg ht.1, h.old t ht.2]
  · rw [hcanceled, lookup_applyStaged]
    rcases List.mem_cons.mp hearlier with rfl | hdone
    · refine ⟨hfresh, _, _, by rw [if_pos rfl, stagedTask_row, h.edgesUnder_eq], ?_⟩
      rw [or_iff_right fun hmem => hnew (h.known _ hmem), and_iff_right rfl]
    · have hne : earlier.id ≠ task.id := fun heq => hnew (heq ▸ List.mem_map_of_mem hdone)
      obtain ⟨hold, deps, cancel, hrow, hcancel⟩ := h.new earlier hdone
      exact ⟨hold, deps, cancel, by rw [if_neg hne, hrow], by simp [hne, hcancel]⟩
  · rw [List.map_cons, List.mem_cons]
    exact ((hcanceled t).mp ht).symm.imp And.left (h.known t)

/-- Entering an accepted task in the tables. -/
theorem Tabled.insert (h : Tabled done batchIDs batchKeys) (task : TaskEnvelope) :
    Tabled (task :: done) (batchIDs.insert task.id ())
      (if task.options.uniqueKey ≠ "" then batchKeys.insert task.options.uniqueKey () else batchKeys) := by
  refine ⟨fun t => ?_, fun key hkey => ?_⟩
  · rw [AList.mem_insert, h.ids, List.map_cons, List.mem_cons]
  · rw [List.exists_mem_cons_iff, ← h.keys key hkey]
    by_cases hempty : task.options.uniqueKey = ""
    · rw [if_neg (not_not.mpr hempty), hempty, or_iff_right hkey.symm]
    · rw [if_pos hempty, AList.mem_insert, @eq_comm _ key]

/-- Single commits fail at the index they start at, or later. -/
theorem enqueueEach_error (tasks : List TaskEnvelope) {index : Nat} {e : BrokerError}
    (h : c.enqueueEach now tasks index = .error e) : ∃ at_ t cause, e = .batch at_ t cause ∧ index ≤ at_ := by
  induction tasks generalizing c index with
  | nil => cases h
  | cons task rest ih =>
    rw [enqueueEach] at h
    split at h
    · cases h
      exact ⟨_, _, _, rfl, le_rfl⟩
    · obtain ⟨at_, t, cause, rfl, hle⟩ := ih h
      exact ⟨at_, t, cause, rfl, by omega⟩

/-- The stores of the batch and of single commits agree, or differ in the row of an accepted task. -/
structure Compared (c d : Broker) (done : List TaskEnvelope) (same : Bool) : Prop where
  equal : same = true → d = c
  differ : same = false → ∃ t ∈ done.map TaskEnvelope.id, d.tasks.lookup t ≠ c.tasks.lookup t

/-- Accepting a task on both sides: its rows are equal exactly if its edges come to the same. -/
theorem Compared.apply {same : Bool} (hcompared : Compared c d done same) (h : Ahead b c now done canceled)
    (hnew : task.id ∉ done.map TaskEnvelope.id) :
    Compared (c.applyStaged (c.stagedTask task now) now) (d.applyStaged (b.stagedTask task now) now) (task :: done)
      (same && sameEdges (edgesUnder (b.stateSeen canceled) task) (edgesUnder b.stateOf task)) := by
  refine ⟨fun hsame => ?_, fun hdiffer => ?_⟩
  · rw [Bool.and_eq_true, sameEdges_iff, ← h.edgesUnder_eq] at hsame
    rw [hcompared.equal hsame.1, stagedTask_congr hsame.2]
  · rw [Bool.and_eq_false_iff, ← Bool.not_eq_true (sameEdges _ _), sameEdges_iff, ← h.edgesUnder_eq] at hdiffer
    rcases hdiffer with hbefore | hedges
    · obtain ⟨t, ht, hrows⟩ := hcompared.differ hbefore
      have hne : t ≠ task.id := fun heq => hnew (heq ▸ ht)
      refine ⟨t, .tail _ ht, ?_⟩
      rwa [lookup_applyStaged, lookup_applyStaged, if_neg hne, if_neg hne]
    · refine ⟨task.id, .head _, ?_⟩
      rw [lookup_applyStaged, lookup_applyStaged, if_pos rfl, if_pos rfl, stagedTask_row, stagedTask_row]
      exact fun heq => hedges (initialRow_inj (Option.some.inj heq)).symm

/-- The rest of a batch, staged against the tables and applied to the store of the batch, is what committing it one by
one comes to, exactly if the two are alike. -/
theorem Ahead.stageBatch_iff (tasks : List TaskEnvelope) (index : Nat) {same : Bool} (h : Ahead b c now done canceled)
    (htables : Tabled done batchIDs batchKeys) (hcompared : Compared c d done same) :
    (b.stageBatch now tasks index batchIDs batchKeys).map
        (fun staged => staged.foldl (fun d entry => d.applyStaged entry now) d) = c.enqueueEach now tasks index ↔
      b.alike now tasks done canceled same = true := by
  -- by induction on the members still to be staged, the store of single commits staying ahead
  induction tasks generalizing c d index batchIDs batchKeys done canceled same with
  | nil =>
    rw [alike]
    cases same with
    | true => exact iff_of_true (congrArg Except.ok (hcompared.equal rfl)) rfl
    | false =>
      refine iff_of_false (fun heq => ?_) Bool.false_ne_true
      obtain ⟨t, -, hrows⟩ := hcompared.differ rfl
      exact hrows (congrArg (fun store => AList.lookup t store.tasks) (Except.ok.inj heq))
  | cons task rest ih =>
    have hempty : Tabled [] (∅ : GoSet String) ∅ := by constructor <;> simp
    rw [stageBatch, enqueueEach, enqueue, stageEnqueue_tests b task now htables, stageEnqueue_tests c task now hempty,
      h.keyTaken_eq, alike]
    simp only [h.mem_tasks]
    by_cases htaken : task.id ∈ b.tasks ∨ task.id ∈ done.map TaskEnvelope.id
    · simp only [htaken, true_or, if_true]
      exact ih (index + 1) h htables hcompared
    simp only [htaken, false_or, List.map_nil, List.not_mem_nil, if_false]
    obtain ⟨hfresh, hnew⟩ := not_or.mp htaken
    cases hkey : b.keyTaken now done task with
    | true =>
      simp only [if_true]
      cases hclaimed : b.keyTaken now (done.filter (claims now canceled)) task with
      | true => exact iff_of_true rfl rfl
      | false =>
        -- the single commits go on, or fail for another reason
        refine iff_of_false (fun heq => ?_) Bool.false_ne_true
        simp only [Bool.false_eq_true, if_false] at heq
        split at heq
        · cases heq
          cases hgrouped : groupedLater now task <;> simp_all
        · obtain ⟨at_, t, cause, hbatch, hle⟩ := enqueueEach_error rest heq.symm
          cases hbatch
          omega
    | false =>
      have hfree : b.keyTaken now (done.filter (claims now canceled)) task = false := by
        by_contra hclaimed
        rw [keyTaken_mono (fun other hother => (List.mem_filter.mp hother).1) (Bool.not_eq_false _ ▸ hclaimed)] at hkey
        cases hkey
      simp only [hfree, Bool.false_eq_true, if_false]
      cases hgrouped : groupedLater now task with
      | true => exact iff_of_true rfl rfl
      | false =>
        simp only [Bool.false_eq_true, if_false]
        refine Iff.trans ?_ (ih (index + 1) (h.apply hfresh hnew) (htables.insert task) (hcompared.apply h hnew))
        rw [show (b.stagedTask task now).id = task.id from rfl,
          show (b.stagedTask task now).row.uniqueKey = task.options.uniqueKey from rfl]
        cases b.stageBatch now rest (index + 1) (batchIDs.insert task.id ())
          (if task.options.uniqueKey ≠ "" then batchKeys.insert task.options.uniqueKey () else batchKeys) <;> rfl

end Ahead

/-- A batch is committed as its members would be one by one, with the store they would leave, or fails where the
first of them would, with the same error and without changing the store, exactly if the two are alike. -/
theorem enqueueBatch_eq_enqueueEach (b : Broker) (now : Time) (tasks : List TaskEnvelope) :
    (b.enqueueBatch now tasks = b.enqueueEach now tasks 0 ∧
      ∀ e, b.enqueueEach now tasks 0 = .error e → b.exec ⟨now, .enqueueBatch tasks, {}⟩ = (b, .error e)) ↔
      b.alike now tasks [] [] true = true := by
  have hstart : Ahead b b now [] [] := by constructor <;> simp
  have htables : Tabled [] (∅ : GoSet String) ∅ := by constructor <;> simp
  have hcompared : Compared b b [] true := ⟨fun _ => rfl, fun h => absurd h.symm Bool.false_ne_true⟩
  rw [← hstart.stageBatch_iff tasks 0 htables hcompared]
  have hbatch : b.enqueueBatch now tasks = (b.stageBatch now tasks 0 ∅ ∅).map
      fun staged => staged.foldl (fun d entry => d.applyStaged entry now) b := by
    rw [enqueueBatch]
    cases b.stageBatch now tasks 0 ∅ ∅ <;> rfl
  rw [← hbatch]
  refine ⟨And.left, fun heq => ⟨heq, fun e he => ?_⟩⟩
  simp only [exec, heq, he, outcome]

/-- A batch whose second member waits for the first, under another key. -/
def chainedBatch : List TaskEnvelope :=
  [{ id := "a", queue := "q", options := { uniqueKey := "k" } },
   { id := "b", queue := "q", options := { uniqueKey := "l", dependsOn := [⟨"a", .cascadeCancel⟩] } }]

/-- The batch is committed as its members would be one by one. -/
theorem enqueueBatch_eq_enqueueEach_chained :
    ((empty.enqueueBatch 1 chainedBatch).toOption.bind fun after => after.stateOf "b") = some .blocked ∧
      empty.enqueueBatch 1 chainedBatch = empty.enqueueEach 1 chainedBatch 0 :=
  ⟨by decide, ((enqueueBatch_eq_enqueueEach empty 1 chainedBatch).mpr (by decide +kernel)).1⟩

/-- A member that is committed canceled. The later member that goes on when it fails is committed pending on its own,
and waits for the canceled task in a batch. -/
theorem enqueueBatch_strands_dependent :
    let b := empty.run [⟨1, .enqueue { id := "x", queue := "q" }, {}⟩, ⟨1, .cancelTask "x", {}⟩]
    let tasks : List TaskEnvelope :=
      [{ id := "a", queue := "q", options := { dependsOn := [⟨"x", .cascadeCancel⟩] } },
       { id := "b", queue := "q", options := { dependsOn := [⟨"a", .continue_⟩] } }]
    ((b.enqueueEach 1 tasks 0).toOption.bind fun after => after.stateOf "b") = some .pending ∧
      ((b.enqueueBatch 1 tasks).toOption.bind fun after => after.stateOf "b") = some .blocked := by
  decide

end Broker

end Conveyor
