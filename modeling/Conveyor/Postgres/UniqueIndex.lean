import Conveyor.Postgres.Safety

/-!
# Unique keys and the partial unique index

The index covers scheduled, pending, active and retry rows. A blocked or aggregating task holds its
unique key as well, but outside the index, so two of them may hold one key and collide only when a
later statement moves the second one into the index.

The invariant that rules this out is that every key is claimed by at most one incomplete row,
inside or outside the index. A statement takes a key for a row only by inserting it or by reviving
it from the archive; every other statement leaves the claims alone or drops some of them.
-/

namespace Conveyor.Postgres

open Lib SessionM

/-- An incomplete task holds the key. -/
def Claims (db : Database) (taskID key : String) : Prop :=
  ∃ row, db.tasks.lookup taskID = some row ∧ incomplete row.state = true ∧ row.uniqueKey = some key

/-- Every key is claimed by at most one task. -/
def ClaimedOnce (db : Database) : Prop :=
  ∀ key t u, Claims db t key → Claims db u key → t = u

/-- A row in the index claims its key. -/
theorem incomplete_of_indexed {state : TaskState} (h : indexed state = true) : incomplete state = true := by
  cases state <;> simp_all [indexed, incomplete]

variable {row : Row}

/-- The index key of a row is the unique key of a row in an indexed state. -/
theorem indexKey_eq_some {key : String} :
    row.indexKey = some key ↔ indexed row.state = true ∧ row.uniqueKey = some key := by
  unfold Row.indexKey
  split <;> simp_all

/-- The index accepts a content exactly when no two of its rows have one key. -/
theorem violates_eq_false_iff (db : Database) :
    Statements.violates Query db = false ↔ ∀ t u row other key, db.tasks.lookup t = some row → db.tasks.lookup u =
      some other → row.indexKey = some key → other.indexKey = some key → t = u := by
  have hnodup : Statements.violates Query db = false ↔ db.indexKeys.Nodup := by
    simp [Statements.violates]
  rw [hnodup, Database.indexKeys, List.Nodup, List.pairwise_filterMap]
  constructor
  · intro hpair t u row other key ht hu hrow hother
    by_contra hne
    have hsymm : Std.Symm fun a b : Sigma fun _ : String => Row =>
        ∀ k, a.2.indexKey = some k → ∀ k', b.2.indexKey = some k' → k ≠ k' :=
      ⟨fun a b h k hk k' hk' heq => h k' hk' k hk heq.symm⟩
    have hentry : (⟨t, row⟩ : Sigma fun _ : String => Row) ≠ ⟨u, other⟩ := fun heq => hne (congrArg Sigma.fst heq)
    exact hpair.forall (List.of_mem_dlookup ht) (List.of_mem_dlookup hu) hentry key hrow key hother rfl
  · intro h
    refine db.tasks.nodupKeys.pairwise_ne.imp_of_mem ?_
    intro a b ha hb hne key hkey key' hkey' heq
    subst heq
    exact hne (h a.1 b.1 a.2 b.2 key (List.mem_dlookup db.tasks.nodupKeys ha)
      (List.mem_dlookup db.tasks.nodupKeys hb) hkey hkey')

variable {db : Database}

/-- Keys claimed once do not collide in the index. -/
theorem ClaimedOnce.violates_eq_false (h : ClaimedOnce db) : Statements.violates Query db = false := by
  rw [violates_eq_false_iff]
  intro t u row other key ht hu hrow hother
  obtain ⟨hrow, hkey⟩ := indexKey_eq_some.mp hrow
  obtain ⟨hother, hkey'⟩ := indexKey_eq_some.mp hother
  exact h key t u ⟨row, ht, incomplete_of_indexed hrow, hkey⟩
    ⟨other, hu, incomplete_of_indexed hother, hkey'⟩

variable {id : String}

/-- The rows a limited statement selects are stored and satisfy its condition. -/
theorem mem_selectForUpdate {scan : Scan} {limit : Int} {cond : String → Row → Bool}
    {orderBy : String × Row → String × Row → Int}     (h : id ∈ db.selectForUpdate scan limit cond orderBy)
    (hrow : db.tasks.lookup id = some row) : cond id row = true := by
  obtain ⟨⟨id', row'⟩, hmem, rfl⟩ := List.mem_map.mp h
  have hmem := (mem_sortFunc _ _ _).mp (List.mem_of_mem_take hmem)
  obtain ⟨_, _, hfound⟩ := List.mem_filterMap.mp hmem
  obtain ⟨stored, hstored, hpair⟩ := Option.map_eq_some_iff.mp hfound
  cases hpair
  obtain ⟨hlookup, hcond⟩ := Option.filter_eq_some_iff.mp hstored
  rw [hlookup] at hrow
  cases hrow
  exact hcond

/-- A row change that takes no key: the key stays or is dropped, and an incomplete row was incomplete
before. -/
def Row.Keeps (row row' : Row) : Prop :=
  (row'.uniqueKey = row.uniqueKey ∨ row'.uniqueKey = none) ∧
    (incomplete row'.state = true → incomplete row.state = true)

variable {query : Query}

/-- Every update keeps the claims of the rows it matches, except that an archived task may be made
due again. -/
theorem update_keeps {cond : Database → String → Row → Bool} {set : Row → Row}
    (hquery : query.statement = .update cond set)
    (hrow : db.tasks.lookup id = some row) (hcond : cond db id row = true) :
    row.Keeps (set row) ∨ ∃ now, query = .runTaskNow id now ∧ row.state = .archived ∧
      (set row).uniqueKey = row.uniqueKey := by
  -- A change to a state that is not incomplete, or of other columns, takes no key whatever it met.
  have hclosed : ∀ row' : Row, row'.uniqueKey = row.uniqueKey ∨ row'.uniqueKey = none →
      incomplete row'.state = false ∨ row'.state = row.state → row.Keeps row' := by
    rintro row' hkey (hstate | hstate)
    · exact ⟨hkey, fun h => by rw [hstate] at h; cases h⟩
    · exact ⟨hkey, fun h => by rwa [hstate] at h⟩
  -- A change between incomplete states takes no key if the row met was incomplete.
  have hopen : ∀ row' : Row, row'.uniqueKey = row.uniqueKey → incomplete row.state = true →
      row.Keeps row' := fun row' hkey hstate => ⟨.inl hkey, fun _ => hstate⟩
  cases query <;> simp only [Query.statement, updateTask, reduceCtorEq, Statement.update.injEq] at hquery
  all_goals obtain ⟨rfl, rfl⟩ := hquery
  case lease | leaseGroup | reap | promote | promoteOrphanBlocked =>
    have hsel := mem_selectForUpdate (of_decide_eq_true hcond) hrow
    refine .inl (hopen _ rfl ?_)
    cases hstate : row.state <;> simp_all [dispatchable, incomplete]
  case promoteDependent | fail | release | reschedule =>
    refine .inl (hopen _ rfl ?_)
    cases hstate : row.state <;> simp_all [Row.activeUnder, incomplete]
  case runTaskNow taskID now =>
    by_cases harchived : row.state = .archived
    · simp only [Bool.and_eq_true, beq_iff_eq] at hcond
      exact .inr ⟨now, by rw [hcond.1], harchived, rfl⟩
    · refine .inl (hopen _ rfl ?_)
      cases hstate : row.state <;> simp_all [incomplete]
  case releaseLapsedUnique | releaseAllLapsed => exact .inl (hclosed _ (.inr rfl) (.inr rfl))
  case extendLease | setProgress | stampCanceled => exact .inl (hclosed _ (.inl rfl) (.inr rfl))
  all_goals exact .inl (hclosed _ (.inl rfl) (.inl rfl))

/-- The query gives the task a key it did not hold: it inserts the row or revives an archived one. -/
def Query.Takes (query : Query) (db : Database) (taskID key : String) : Prop :=
  (∃ row, query = .insertTask taskID row ∧ taskID ∉ db.tasks ∧ incomplete row.state = true ∧
      row.uniqueKey = some key) ∨
    ∃ now row, query = .runTaskNow taskID now ∧ db.tasks.lookup taskID = some row ∧
      row.state = .archived ∧ row.uniqueKey = some key

/-- A claim after a statement was there before or was taken by it. -/
theorem claims_effect {taskID key : String}
    (h : Claims (Statements.effect query db) taskID key) : Claims db taskID key ∨ query.Takes db taskID key := by
  obtain ⟨row', hrow', hstate, hkey⟩ := h
  simp only [Statements.effect] at hrow'
  cases hquery : query.statement with
  | insertTask id row =>
    have hins : query = .insertTask id row := by
      cases query <;> simp_all [Query.statement, updateTask]
    rw [hquery, Statement.effect] at hrow'
    split at hrow'
    · exact .inl ⟨row', hrow', hstate, hkey⟩
    · rename_i hnew
      rw [GoMap.lookup_insert_eq_ite] at hrow'
      split at hrow'
      · rename_i heq
        subst heq
        cases hrow'
        exact .inr (.inl ⟨row', hins, hnew, hstate, hkey⟩)
      · exact .inl ⟨row', hrow', hstate, hkey⟩
  | insertEdge edge =>
    rw [hquery, Statement.effect] at hrow'
    split at hrow' <;> exact .inl ⟨row', hrow', hstate, hkey⟩
  | deleteEdges cond =>
    rw [hquery, Statement.effect] at hrow'
    exact .inl ⟨row', hrow', hstate, hkey⟩
  | delete cond =>
    rw [hquery, Statement.effect, GoMap.lookup_filterEntries_eq_some] at hrow'
    exact .inl ⟨row', hrow'.1, hstate, hkey⟩
  | update cond set =>
    rw [hquery, Statement.effect, GoMap.lookup_mapValues] at hrow'
    obtain ⟨row, hrow, hset⟩ := Option.map_eq_some_iff.mp hrow'
    split at hset
    · rename_i hcond
      subst hset
      rcases update_keeps hquery hrow hcond with ⟨hkeeps, hinc⟩ | ⟨now, hrun, harchived, hsame⟩
      · refine .inl ⟨row, hrow, hinc hstate, ?_⟩
        rcases hkeeps with heq | heq
        · rw [← heq, hkey]
        · rw [heq] at hkey
          cases hkey
      · exact .inr (.inr ⟨now, row, hrun, hrow, harchived, by rw [← hsame, hkey]⟩)
    · subst hset
      exact .inl ⟨row, hrow, hstate, hkey⟩

/-- The row a query inserts. -/
def Query.inserted : Query → Option (String × Row)
  | .insertTask id row => some (id, row)
  | _ => none

/-- The task a query makes due. -/
def Query.madeDue : Query → Option String
  | .runTaskNow id _ => some id
  | _ => none

/-- A new incomplete row meets another incomplete holder of its key only if the index covers both. -/
def InsertCovered (db : Database) (id : String) (row : Row) : Prop :=
  id ∉ db.tasks → incomplete row.state = true → row.uniqueKey ≠ none →
    ∀ holder ∈ db.tasks.entries, incomplete holder.2.state = true →
      holder.2.uniqueKey = row.uniqueKey → indexed row.state = true ∧ indexed holder.2.state = true

/-- No other incomplete row holds the key of an archived row. -/
def RevivalCovered (db : Database) (id : String) : Prop :=
  ∀ row ∈ db.tasks.lookup id, row.state = .archived → row.uniqueKey ≠ none →
    ∀ holder ∈ db.tasks.entries, holder.1 ≠ id → incomplete holder.2.state = true → holder.2.uniqueKey ≠ row.uniqueKey

instance (db : Database) (id : String) (row : Row) : Decidable (InsertCovered db id row) := by
  unfold InsertCovered; infer_instance

instance (db : Database) (id : String) : Decidable (RevivalCovered db id) := by
  unfold RevivalCovered; infer_instance

/-- A statement takes no key out of the index's sight: an inserted row is covered, and so is an
archived row that is made due again. -/
def KeyCovered (entry : Issued Database Query) : Prop :=
  (∀ task ∈ entry.statement.inserted, InsertCovered entry.before task.1 task.2) ∧
    ∀ id ∈ entry.statement.madeDue, RevivalCovered entry.before id

instance (entry : Issued Database Query) : Decidable (KeyCovered entry) := by
  unfold KeyCovered; infer_instance

/-- Only insertions are rejected. -/
def RejectsOnlyInserts (entry : Issued Database Query) : Prop :=
  entry.rejected = true → ∃ id row, entry.statement = .insertTask id row

/-- A key that was claimed once is claimed once after a statement that takes only free keys. -/
theorem ClaimedOnce.effect (h : ClaimedOnce db) (hfree : ∀ key t u, query.Takes db t key → Claims db u key → t = u)
    (hone : ∀ key t u, query.Takes db t key → query.Takes db u key → t = u) :
    ClaimedOnce (Statements.effect query db) := by
  intro key t u ht hu
  rcases claims_effect ht with ht | ht <;> rcases claims_effect hu with hu | hu
  · exact h key t u ht hu
  · exact (hfree key u t hu ht).symm
  · exact hfree key t u ht hu
  · exact hone key t u ht hu

/-- A query takes a key for one task at most. -/
theorem Query.Takes.unique {t u key : String} (ht : query.Takes db t key) (hu : query.Takes db u key) : t = u := by
  rcases ht with ⟨row, rfl, -⟩ | ⟨now, row, rfl, -⟩ <;> rcases hu with ⟨_, heq, -⟩ | ⟨_, _, heq, -⟩ <;>
    cases heq <;> rfl

/-- A covered statement is accepted unless it inserts a row, and leaves every key claimed once. -/
theorem stepsSafely_keyCovered : StepsSafely KeyCovered RejectsOnlyInserts ClaimedOnce := by
  intro db query h hcovered
  by_cases hins : ∃ id row, query = .insertTask id row
  · obtain ⟨id, row, rfl⟩ := hins
    refine ⟨fun _ => ⟨id, row, rfl⟩, fun haccepted => h.effect ?_ fun key t u => Query.Takes.unique⟩
    rintro key t u (⟨row', heq, hnew, hstate, hkey⟩ | ⟨_, _, heq, -⟩) hu
    · cases heq
      obtain ⟨holder, hholder, hincomplete, hsame⟩ := hu
      obtain ⟨hrow, hindexed⟩ := hcovered.1 (id, row) rfl hnew hstate (by rw [hkey]; exact nofun)
        ⟨u, holder⟩ (List.of_mem_dlookup hholder) hincomplete (hsame.trans hkey.symm)
      -- both rows stand in the index under one key, so an accepted insertion makes them one row
      have hne : u ≠ id := fun heq => hnew (heq ▸ GoMap.mem_of_lookup hholder)
      have hlookup : ∀ t, (Statements.effect (Query.insertTask id row) db).tasks.lookup t =
          if t = id then some row else db.tasks.lookup t := fun t => by
        simp only [Statements.effect, Query.statement, Statement.effect, if_neg hnew, GoMap.lookup_insert_eq_ite]
      refine (violates_eq_false_iff _).mp haccepted id u row holder key ?_ ?_ ?_ ?_
      · rw [hlookup, if_pos rfl]
      · rw [hlookup, if_neg hne, hholder]
      · exact indexKey_eq_some.mpr ⟨hrow, hkey⟩
      · exact indexKey_eq_some.mpr ⟨hindexed, hsame⟩
    · cases heq
  · have hafter : ClaimedOnce (Statements.effect query db) := by
      refine h.effect ?_ fun key t u => Query.Takes.unique
      rintro key t u (⟨row, rfl, -⟩ | ⟨now, row, rfl, hrow, harchived, hkey⟩) hu
      · exact absurd ⟨t, row, rfl⟩ hins
      · by_contra hne
        obtain ⟨holder, hholder, hincomplete, hsame⟩ := hu
        exact hcovered.2 t rfl row hrow harchived (by rw [hkey]; exact nofun) ⟨u, holder⟩
          (List.of_mem_dlookup hholder) (Ne.symm hne) hincomplete (hsame.trans hkey.symm)
    refine ⟨fun hrejected => ?_, fun _ => hafter⟩
    have haccepted : (issued db query).rejected = false := hafter.violates_eq_false
    rw [haccepted] at hrejected
    cases hrejected

/-- In every run and for every statement it issues: if this statement and the ones before it take
keys only under the index's eyes, the index rejects it only if it inserts a row. In particular it
rejects no statement that moves a stored task between states. -/
theorem unique_index_rejects_only_inserts (invocations : List Invocation) (first rest : List (Issued Database Query))
    (entry : Issued Database Query) (hlog : (run invocations).log = first ++ entry :: rest)
    (hcovered : ∀ e ∈ first ++ [entry], KeyCovered e) :
    (entry.statement.moves = true → entry.rejected = false) ∧
      (entry.rejected = true → ∃ id row, entry.statement = .insertTask id row) := by
  have hempty : ClaimedOnce {} := by
    rintro key t u ⟨row, hrow, -⟩
    cases hrow
  have hok : RejectsOnlyInserts entry :=
    (run_sound stepsSafely_keyCovered hempty invocations).ok first entry rest hlog hcovered
  refine ⟨fun hmoves => ?_, hok⟩
  by_contra hrejected
  obtain ⟨id, row, hinsert⟩ := hok (Bool.eq_true_of_not_eq_false hrejected)
  rw [hinsert] at hmoves
  cases hmoves

/-- A task with a unique key, a rejected duplicate of it, and a task that waits on the first one. -/
def coveredRun : List Invocation :=
  [ { now := 1, call := .enqueue { id := "d", queue := "q", options := { uniqueKey := "k" } } },
    { now := 1, call := .enqueue { id := "e", queue := "q", options := { uniqueKey := "k" } } },
    { now := 1, call := .enqueue
        { id := "t", queue := "q", options := { uniqueKey := "l", dependsOn := [{ taskId := "d" }] } } },
    { now := 2, call := .lease "q" 10 30 "lease" },
    { now := 3, call := .ack "d" "lease" },
    { now := 4, call := .resolveDependents "d" } ]

/-- A covered run rejects the duplicate at its insertion and promotes the waiting task. -/
theorem unique_index_rejects_only_inserts_coveredRun :
    (∀ e ∈ (run coveredRun).log, KeyCovered e) ∧ (∃ e ∈ (run coveredRun).log, e.rejected = true) ∧
      (∃ e ∈ (run coveredRun).log, e.statement.moves = true) ∧ ∀ e ∈ (run coveredRun).log, e.statement.moves = true →
      e.rejected = false := by
  have hcovered : ∀ e ∈ (run coveredRun).log, KeyCovered e := by decide
  refine ⟨hcovered, by decide, by decide, fun e he => ?_⟩
  obtain ⟨first, rest, hlog⟩ := List.append_of_mem he
  refine (unique_index_rejects_only_inserts coveredRun first rest e hlog fun x hx => ?_).1
  exact hcovered x (by rw [hlog]; exact (List.prefix_append_right_inj first |>.mpr ⟨rest, rfl⟩).subset hx)

/-- A dependency, and two tasks that wait on it under one unique key. -/
def twoBlockedHolders : List Invocation :=
  [ { now := 1, call := .enqueue { id := "d", queue := "q" } },
    { now := 1, call := .enqueue
        { id := "t", queue := "q", options := { uniqueKey := "k", dependsOn := [{ taskId := "d" }] } } },
    { now := 1, call := .enqueue
        { id := "u", queue := "q", options := { uniqueKey := "k", dependsOn := [{ taskId := "d" }] } } },
    { now := 2, call := .lease "q" 10 30 "lease" },
    { now := 3, call := .ack "d" "lease" },
    { now := 4, call := .resolveDependents "d" } ]

/-- Both enqueues are accepted; the promotion of the second holder is rejected and takes the first
one's promotion with it, so both stay blocked on a completed dependency. -/
theorem unique_index_rejects_promotion :
    (∃ e ∈ (run twoBlockedHolders).log, e.statement.moves = true ∧ e.rejected = true) ∧
      ((run twoBlockedHolders).db.tasks.lookup "d").map Row.state = some .completed ∧
      ((run twoBlockedHolders).db.tasks.lookup "t").map Row.state = some .blocked ∧
      ((run twoBlockedHolders).db.tasks.lookup "u").map Row.state = some .blocked := by
  decide

end Conveyor.Postgres
