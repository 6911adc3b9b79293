import Conveyor.Broker.Cascade
import Conveyor.Postgres.UniqueIndex

/-!
# Dependency resolution in the Postgres broker as a cascade

The task rows and the edge rows form the same kind of waiting net as the store of the in-memory
broker. A round of `resolveWithin` cancels the dependents of cascading edges, drops the satisfied edges in
one statement and then promotes each released dependent; together this is one visit of the finished
task, where canceling changes a row only if it is blocked. No statement of a resolution is
rejected as long as no row it promotes brings a unique key into the index that is there already or comes in too.
-/

namespace Conveyor.Postgres

open Lib SessionM

/-- The view of a stored row. -/
def Row.view (row : Row) : TaskView :=
  { queue := row.queue, group := row.groupKey, processAt := row.processAt, state := row.state
    lastError := row.lastError, completedAt := row.completedAt.getD 0 }

/-- What a policy column does with an edge whose dependency failed. -/
def columnOnFailure (policy : Int16) : OnFailure :=
  if policy = 1 then .keep else if policy = 2 then .cancel else .release

/-- The lifecycle of a task row: the statement that cancels a dependent leaves a row alone that is not blocked. -/
def tableLifecycle (now : Time) : Lifecycle TaskView :=
  { taskLifecycle now with
    cancel := fun view => if view.state = .blocked then (taskLifecycle now).cancel view else view }

/-- The primary key of an edge row. -/
def Edge.key (edge : Edge) : String × String := (edge.dependentID, edge.dependencyID)

/-- Whether a row is in the partial unique index, or enters it if it is promoted; a promoted task of a group does not. -/
def Row.Enters (row : Row) (promoted : Prop) : Prop :=
  indexed row.state = true ∨ row.state = .blocked ∧ row.groupKey = "" ∧ promoted

namespace Database

/-- The task rows, and the edge rows between them. -/
def net (db : Database) : Net String TaskView where
  row t := (db.tasks.lookup t).map Row.view
  edge t d := (db.deps.find? fun edge => edge.key == (t, d)).map fun edge => columnOnFailure edge.onFailure

/-- No two rows that are in the unique index, or enter it when the tasks in `P` are promoted, have one key. -/
def KeysApart (db : Database) (P : Set String) : Prop :=
  ∀ t u row other key, db.tasks.lookup t = some row → db.tasks.lookup u = some other → row.Enters (t ∈ P) →
    other.Enters (u ∈ P) → row.uniqueKey = some key → other.uniqueKey = some key → t = u

/-- The edge table respects its primary key and, where that is allowed, promoting the tasks in `P` does not break the
unique index. -/
structure Sound (allowed : Prop) (P : Set String) (db : Database) : Prop where
  edges : (db.deps.map Edge.key).Nodup
  keys : allowed → db.KeysApart P

end Database

variable {cond : Database → String → Row → Bool} {set : Row → Row} {P : Set String} {allowed : Prop}

section Content

variable {db : Database}

/-- An update that brings no key into the index, except of a task that may be promoted. -/
theorem update_sound (h : db.Sound allowed P)
    (hset : ∀ id row, db.tasks.lookup id = some row → cond db id row = true → (set row).Enters (id ∈ P) →
      row.Enters (id ∈ P) ∧ (set row).uniqueKey = row.uniqueKey) : ((Statement.update cond set).effect db).Sound allowed P := by
  have hrow : ∀ t row', ((Statement.update cond set).effect db).tasks.lookup t = some row' → row'.Enters (t ∈ P) →
      ∃ row, db.tasks.lookup t = some row ∧ row.Enters (t ∈ P) ∧ row'.uniqueKey = row.uniqueKey := by
    intro t row' hrow' henters
    rw [Statement.effect, GoMap.lookup_mapValues, Option.map_eq_some_iff] at hrow'
    obtain ⟨row, hrow, rfl⟩ := hrow'
    refine ⟨row, hrow, ?_⟩
    split at henters
    · rename_i hcond
      rw [if_pos hcond]
      exact hset t row hrow hcond henters
    · rename_i hcond
      rw [if_neg hcond]
      exact ⟨henters, rfl⟩
  refine ⟨h.edges, fun hallowed t u row' other' key ht hu hrow' hother' hkey hkey' => ?_⟩
  obtain ⟨row, hlookup, henters, hsame⟩ := hrow t row' ht hrow'
  obtain ⟨other, hlookup', henters', hsame'⟩ := hrow u other' hu hother'
  exact h.keys hallowed t u row other key hlookup hlookup' henters henters' (hsame ▸ hkey) (hsame' ▸ hkey')

/-- Deleting edges. -/
theorem deleteEdges_sound {cond : Database → Edge → Bool} (h : db.Sound allowed P) :
    ((Statement.deleteEdges cond).effect db).Sound allowed P :=
  ⟨h.edges.sublist (List.filter_sublist.map _), h.keys⟩

/-- The row of a task after an update. -/
theorem update_row (t : String) :
    ((Statement.update cond set).effect db).net.row t =
      (db.tasks.lookup t).map fun row => (if cond db t row then set row else row).view := by
  simp [Database.net, Statement.effect, GoMap.lookup_mapValues, Function.comp_def]

/-- The edges of a task after a deletion of edges. -/
theorem deleteEdges_edge {cond : Database → Edge → Bool} (t d : String) (gone : Prop) [Decidable gone]
    (hcond : ∀ edge, edge.key = (t, d) → (cond db edge = true ↔ gone)) :
    ((Statement.deleteEdges cond).effect db).net.edge t d = if gone then none else db.net.edge t d := by
  simp only [Database.net, Statement.effect, List.find?_filter]
  by_cases hgone : gone
  · rw [if_pos hgone, Option.map_eq_none_iff, List.find?_eq_none]
    intro edge _ hmatch
    simp only [Bool.not_eq_true', beq_iff_eq, decide_eq_true_eq] at hmatch
    rw [(hcond edge hmatch.2).mpr hgone] at hmatch
    cases hmatch.1
  · rw [if_neg hgone]
    congr 2
    funext edge
    by_cases hkey : edge.key = (t, d)
    · have hkept : cond db edge = false := by simpa [hgone] using hcond edge hkey
      simp [hkey, hkept]
    · simp [hkey]

/-- A task without edges in the net has none in the table. -/
theorem waits_eq_false {t : String} : db.waits t = false ↔ ∀ d, db.net.edge t d = none := by
  simp only [Database.waits, Database.net, List.any_eq_false, Option.map_eq_none_iff, List.find?_eq_none,
    Edge.key, beq_iff_eq, Prod.mk.injEq]
  constructor
  · rintro h d edge hedge ⟨hdependent, -⟩
    exact h edge hedge hdependent
  · intro h edge hedge hdependent
    exact h edge.dependencyID edge hedge ⟨hdependent, rfl⟩

/-- An edge row is an edge of the net. -/
theorem net_edge_of_mem (h : (db.deps.map Edge.key).Nodup) {edge : Edge} (hedge : edge ∈ db.deps) :
    db.net.edge edge.dependentID edge.dependencyID = some (columnOnFailure edge.onFailure) := by
  have hfound : (db.deps.find? fun other => other.key == edge.key) = some edge := by
    cases hfind : db.deps.find? fun other => other.key == edge.key with
    | none =>
      rw [List.find?_eq_none] at hfind
      exact absurd (beq_self_eq_true edge.key) (hfind edge hedge)
    | some other =>
      have hkey : other.key = edge.key := by simpa using List.find?_some hfind
      rw [List.inj_on_of_nodup_map h (List.mem_of_find?_eq_some hfind) hedge hkey]
  simp only [Database.net]
  rw [show (edge.dependentID, edge.dependencyID) = edge.key from rfl, hfound]
  rfl

end Content

section Statements

variable {s : Net String TaskView} {now : Time} {failed : Bool} {f t : String}

variable {db : Database}

/-- A statement that keeps the table sound is not rejected. -/
theorem violates_eq_false (h : db.Sound allowed P) (hallowed : allowed) : Statements.violates Query db = false := by
  rw [violates_eq_false_iff]
  intro t u row other key ht hu hrow hother
  obtain ⟨hrow, hkey⟩ := indexKey_eq_some.mp hrow
  obtain ⟨hother, hkey'⟩ := indexKey_eq_some.mp hother
  exact h.keys hallowed t u row other key ht hu (.inl hrow) (.inl hother) hkey hkey'

/-- The table content of a net. -/
def Holds (allowed : Prop) (P : Set String) (s : Net String TaskView) (db : Database) : Prop := db.Sound allowed P ∧ db.net = s

/-- The net after the two statements that cancel a dependent. -/
theorem cascadeCancel_net (t : String) (now : Time) (db : Database) :
    (Statements.effect (Query.dropDependentEdges t)
      (Statements.effect (Query.cascadeCancel t now cascadeCanceledMessage) db)).net =
        db.net.cancelOn (tableLifecycle now) {t} := by
  refine Net.ext (funext fun x => ?_) (funext fun x => funext fun d => ?_)
  · change ((Query.cascadeCancel t now cascadeCanceledMessage).statement.effect db).net.row x = _
    rw [Query.statement, updateTask, update_row]
    rcases eq_or_ne x t with rfl | hx
    · cases hrow : db.tasks.lookup x with
      | none => simp [Database.net, Net.cancelOn, hrow]
      | some row =>
        by_cases hblocked : row.state = .blocked
        · simp [Database.net, Net.cancelOn, hrow, hblocked, Row.view, tableLifecycle, taskLifecycle]
        · simp [Database.net, Net.cancelOn, hrow, hblocked, Row.view, tableLifecycle]
    · simp [Net.cancelOn, hx, Database.net]
  · refine (deleteEdges_edge x d (x = t) fun edge hkey => ?_).trans ?_
    · rw [show edge.dependentID = x from congrArg Prod.fst hkey, beq_iff_eq]
    · by_cases hx : x = t
      · simp [Net.cancelOn, hx]
      · simp only [Net.cancelOn, Set.mem_singleton_iff, hx, if_false]
        rfl

/-- Canceling a dependent. -/
theorem cascadeCancel_returns (t : String) (now : Time) (s : Net String TaskView) :
    Returns allowed (Holds allowed P s) (cascadeCancel t now) fun _ => Holds allowed P (s.cancelOn (tableLifecycle now) {t}) := by
  have hsound : ∀ db : Database, db.Sound allowed P →
      (Statements.effect (Query.cascadeCancel t now cascadeCanceledMessage) db).Sound allowed P := by
    intro db hdb
    refine update_sound hdb fun id row _ _ henters => ?_
    simp [Row.Enters, indexed] at henters
  have hdrop : ∀ db : Database, db.Sound allowed P → (Statements.effect (Query.dropDependentEdges t) db).Sound allowed P :=
    fun db hdb => deleteEdges_sound hdb
  refine returns_bind (fun _ db' => ∃ db, Holds allowed P s db ∧
      db' = Statements.effect (Query.cascadeCancel t now cascadeCanceledMessage) db) ?_ fun _ => returns_issue ?_ ?_
  · exact returns_issue (fun db h => violates_eq_false (hsound db h.1)) fun db h => ⟨db, h, rfl⟩
  · rintro _ ⟨db, h, rfl⟩
    exact violates_eq_false (hdrop _ (hsound db h.1))
  · rintro _ ⟨db, ⟨hdb, rfl⟩, rfl⟩
    exact ⟨hdrop _ (hsound db hdb), cascadeCancel_net t now db⟩

/-- The dependents of the edges that the end of a task releases. -/
def releasedBy (failed : Bool) (edges : List Edge) : List String :=
  (edges.filter fun edge => !(failed && (edge.onFailure == 1 || edge.onFailure == 2))).map
    Edge.dependentID

/-- The dependents of the edges that the end of a task cancels. -/
def canceledBy (failed : Bool) (edges : List Edge) : List String :=
  (edges.filter fun edge => failed && edge.onFailure == 2).map Edge.dependentID

/-- The edges are edges on `f` of the net, one for each dependent. -/
structure EdgesOn (s : Net String TaskView) (f : String) (edges : List Edge) : Prop where
  nodup : (edges.map Edge.dependentID).Nodup
  edge : ∀ edge ∈ edges, s.edge edge.dependentID f = some (columnOnFailure edge.onFailure)

variable {edges : List Edge}

theorem EdgesOn.mem_canceledBy (h : EdgesOn s f edges) :
    t ∈ canceledBy failed edges ↔ t ∈ edges.map Edge.dependentID ∧ s.Cancels failed f t := by
  simp only [canceledBy, List.mem_map, List.mem_filter]
  constructor
  · rintro ⟨edge, ⟨hmem, hcancel⟩, rfl⟩
    rw [Bool.and_eq_true, beq_iff_eq] at hcancel
    refine ⟨⟨edge, hmem, rfl⟩, hcancel.1, ?_⟩
    rw [h.edge edge hmem, hcancel.2]
    rfl
  · rintro ⟨⟨edge, hmem, rfl⟩, hfailed, hedge⟩
    refine ⟨edge, ⟨hmem, ?_⟩, rfl⟩
    rw [h.edge edge hmem, Option.some.injEq, columnOnFailure] at hedge
    split_ifs at hedge with hblock hcascade
    simp [hfailed, hcascade]

theorem EdgesOn.mem_releasedBy (h : EdgesOn s f edges) :
    t ∈ releasedBy failed edges ↔ t ∈ edges.map Edge.dependentID ∧ s.Releases failed f t := by
  simp only [releasedBy, List.mem_map, List.mem_filter]
  constructor
  · rintro ⟨edge, ⟨hmem, hrelease⟩, rfl⟩
    refine ⟨⟨edge, hmem, rfl⟩, columnOnFailure edge.onFailure, h.edge edge hmem, fun hfailed => ?_⟩
    simp only [hfailed, Bool.true_and, Bool.not_eq_true', Bool.or_eq_false_iff, beq_eq_false_iff_ne] at hrelease
    rw [columnOnFailure, if_neg hrelease.1, if_neg hrelease.2]
  · rintro ⟨⟨edge, hmem, rfl⟩, policy, hpolicy, hrelease⟩
    refine ⟨edge, ⟨hmem, ?_⟩, rfl⟩
    rw [h.edge edge hmem, Option.some.injEq] at hpolicy
    cases failed with
    | false => rfl
    | true =>
      rw [hrelease rfl, columnOnFailure] at hpolicy
      split_ifs at hpolicy with hblock hcascade
      simp [hblock, hcascade]

/-- Applying the policies cancels the dependents of the cascading edges and names the others. -/
theorem applyPolicies_returns (edges : List Edge) (s : Net String TaskView) (hnodup : (edges.map Edge.dependentID).Nodup) :
    Returns allowed (Holds allowed P s) (applyPolicies failed now edges) fun outcome db => outcome =
      (releasedBy failed edges, canceledBy failed edges) ∧
      Holds allowed P (s.cancelOn (tableLifecycle now) {t | t ∈ canceledBy failed edges}) db := by
  induction edges generalizing s with
  | nil =>
    refine returns_pure fun db h => ⟨rfl, ?_⟩
    have hempty : {t : String | t ∈ canceledBy failed []} = ∅ := by
      ext
      simp [canceledBy]
    rw [hempty, Net.cancelOn_empty]
    exact h
  | cons edge rest ih =>
    obtain ⟨hnew, hnodup⟩ := List.nodup_cons.mp hnodup
    refine returns_ite (fun hblock => ?_) fun hblock => returns_ite (fun hcascade => ?_) fun hcascade => ?_
    · -- a blocking edge stays
      obtain ⟨hfailed, hpolicy⟩ : failed = true ∧ edge.onFailure = 1 := by simpa using hblock
      have hreleased : releasedBy failed (edge :: rest) = releasedBy failed rest := by
        simp [releasedBy, hfailed, hpolicy]
      have hcanceled : canceledBy failed (edge :: rest) = canceledBy failed rest := by
        simp [canceledBy, hpolicy]
      rw [hreleased, hcanceled]
      exact ih s hnodup
    · -- a cascading edge cancels its dependent
      obtain ⟨hfailed, hpolicy⟩ : failed = true ∧ edge.onFailure = 2 := by simpa using hcascade
      have hreleased : releasedBy failed (edge :: rest) = releasedBy failed rest := by
        simp [releasedBy, hfailed, hpolicy]
      have hcanceled : canceledBy failed (edge :: rest) = edge.dependentID :: canceledBy failed rest := by
        simp [canceledBy, hfailed, hpolicy]
      have hset : {t | t ∈ canceledBy failed (edge :: rest)} =
          {edge.dependentID} ∪ {t | t ∈ canceledBy failed rest} := by
        ext t
        simp [hcanceled]
      refine returns_bind _ (cascadeCancel_returns edge.dependentID now s) fun _ => ?_
      refine returns_bind _ (ih _ hnodup) fun outcome => returns_pure ?_
      rintro db ⟨rfl, hdb⟩
      have hdisjoint : ∀ t ∈ {t | t ∈ canceledBy failed rest}, t ∉ ({edge.dependentID} : Set String) :=
        fun t ht heq => hnew (Set.mem_singleton_iff.mp heq ▸ (List.filter_sublist.map _).subset ht)
      rw [Net.cancelOn_union hdisjoint] at hdb
      rw [hset, hreleased]
      exact ⟨by rw [hcanceled], hdb⟩
    · -- every other edge is released
      have hreleased : releasedBy failed (edge :: rest) = edge.dependentID :: releasedBy failed rest := by
        cases failed <;> simp_all [releasedBy]
      have hcanceled : canceledBy failed (edge :: rest) = canceledBy failed rest := by
        cases failed <;> simp_all [canceledBy]
      refine returns_bind _ (ih s hnodup) fun outcome => returns_pure ?_
      rintro db ⟨rfl, hdb⟩
      rw [hreleased, hcanceled]
      exact ⟨rfl, hdb⟩

/-- The row an update of one task matches, if any. -/
theorem affected_head? (db : Database) (query : Query) (t : String)
    (hquery : query.statement = .update cond set) (hone : ∀ id row, cond db id row = true → id = t) :
    (query.affected db).head? = if (db.tasks.lookup t).any (cond db t) then some t else none := by
  have haffected : query.affected db =
      (db.tasks.entries.filter fun entry => cond db entry.1 entry.2).map Sigma.fst := by
    rw [Query.affected, hquery]
  rw [haffected, List.head?_map, List.head?_filter]
  cases hfind : db.tasks.entries.find? fun entry => cond db entry.1 entry.2 with
  | none =>
    rw [if_neg]
    · rfl
    · intro hmatch
      obtain ⟨row, hrow, hcond⟩ := (Option.any_eq_true _ _).mp hmatch
      exact List.find?_eq_none.mp hfind ⟨t, row⟩ (AList.mem_lookup_iff.mp hrow) hcond
  | some entry =>
    have hcond := List.find?_some hfind
    obtain rfl := hone entry.1 entry.2 hcond
    rw [if_pos]
    · rfl
    · exact (Option.any_eq_true _ _).mpr ⟨entry.2, AList.mem_lookup_iff.mpr (List.mem_of_find?_eq_some hfind), hcond⟩

/-- The promotion of a task in `P` keeps the tables sound. -/
theorem promoteDependent_sound (h : db.Sound allowed P)
    (hP : ((db.tasks.lookup t).any fun row => t == t && row.state == .blocked && !db.waits t) = true → t ∈ P) :
    (Statements.effect (Query.promoteDependent t now) db).Sound allowed P := by
  refine update_sound h fun id row hrow hcond henters => ⟨?_, rfl⟩
  obtain ⟨⟨rfl, hblocked⟩, hwaits⟩ : (id = t ∧ row.state = .blocked) ∧ db.waits id = false := by simpa using hcond
  have hgroup : row.groupKey = "" := by
    by_contra hgroup
    simp [Row.Enters, unblockedState, hgroup, indexed] at henters
  exact .inr ⟨hblocked, hgroup, hP ((Option.any_eq_true _ _).mpr ⟨row, hrow, hcond⟩)⟩

/-- A task is promoted when it is blocked and no edge of it is left. -/
theorem promoteDependent_ready (now : Time) :
    ((db.tasks.lookup t).any fun row => t == t && row.state == .blocked && !db.waits t) = true ↔
      db.net.Ready (tableLifecycle now) t := by
  rw [Option.any_eq_true]
  simp only [beq_self_eq_true, Bool.true_and, Bool.and_eq_true, Bool.not_eq_true', waits_eq_false]
  constructor
  · rintro ⟨row, hrow, hblocked, hnone⟩
    exact ⟨⟨row.view, by simp [Database.net, hrow], hblocked⟩, hnone⟩
  · rintro ⟨⟨view, hview, hblocked⟩, hnone⟩
    obtain ⟨row, hrow, rfl⟩ := Option.map_eq_some_iff.mp hview
    exact ⟨row, hrow, hblocked, hnone⟩

section Promotion

/-- The net after the promotion of one dependent. -/
theorem promoteDependent_net (t : String) (now : Time) (db : Database) :
    (Statements.effect (Query.promoteDependent t now) db).net = db.net.promoteOn (tableLifecycle now) {t} := by
  refine Net.ext (funext fun x => ?_) rfl
  change ((Query.promoteDependent t now).statement.effect db).net.row x = _
  rw [Query.statement, update_row]
  rcases eq_or_ne x t with rfl | hx
  · have hready : _ ↔ db.net.Ready (tableLifecycle now) x := promoteDependent_ready now
    simp only [Net.promoteOn, Set.mem_singleton_iff, true_and, ← hready]
    cases hlookup : db.tasks.lookup x with
    | none => simp [Database.net, hlookup]
    | some row =>
      simp only [Database.net, hlookup, Option.map_some, Option.any_some]
      split <;> rfl
  · simp [Database.net, Net.promoteOn, hx]

/-- The queue that the promotion of one dependent reports. -/
theorem promoteDependent_queue (t : String) (now : Time) (db : Database) (name : String) :
    ((Query.promoteDependent t now).affected db).head?.bind
        (fun id => ((Statements.effect (Query.promoteDependent t now) db).tasks.lookup id).map Row.queue) =
      some name ↔ db.net.Ready (tableLifecycle now) t ∧ ∃ view ∈ db.net.row t, view.queue = name := by
  rw [affected_head? db (Query.promoteDependent t now) t rfl fun id row hcond => by
    simp only [Bool.and_eq_true, beq_iff_eq] at hcond
    exact hcond.1.1, ← promoteDependent_ready]
  split
  · rename_i hready
    obtain ⟨row, hlookup, hcond⟩ := (Option.any_eq_true _ _).mp hready
    have hafter : ((Statements.effect (Query.promoteDependent t now) db).tasks.lookup t).map Row.queue =
        some row.queue := by
      change ((GoMap.mapValues _ db.tasks).lookup t).map Row.queue = _
      rw [GoMap.lookup_mapValues, hlookup, Option.map_some, Option.map_some]
      split <;> rfl
    rw [Option.bind_some, hafter, and_iff_right hready]
    simp [Database.net, hlookup, Row.view]
  · rename_i hready
    exact iff_of_false nofun fun h => hready h.1

/-- Promoting one dependent, with the queue it reports. -/
theorem promoteDependent_returns (hP : s.Ready (tableLifecycle now) t → t ∈ P) :
    Returns allowed (Holds allowed P s) (promoteDependent t now) fun queue db =>
      Holds allowed P (s.promoteOn (tableLifecycle now) {t}) db ∧ ∀ name, queue = some name ↔
      s.Ready (tableLifecycle now) t ∧ ∃ view ∈ s.row t, view.queue = name := by
  have hsound : ∀ db, Holds allowed P s db → (Statements.effect (Query.promoteDependent t now) db).Sound allowed P :=
    fun db h => promoteDependent_sound h.1 fun hready => hP (h.2 ▸ (promoteDependent_ready now).mp hready)
  refine returns_bind (fun locked db => Holds allowed P s db ∧
    (locked = true ↔ ∃ r ∈ s.row t, (tableLifecycle now).blocked r = true)) ?_ fun locked => ?_
  · refine returns_read fun db h => ⟨h, ?_⟩
    rw [← h.2]
    simp [Database.stateIs, Database.net, tableLifecycle, taskLifecycle, Row.view, Option.any_eq_true]
  · refine returns_ite (fun hlocked => ?_) fun hlocked => ?_
    · refine returns_bind (fun affected db => Holds allowed P s db ∧
        affected = (Query.promoteDependent t now).affected db) (returns_read fun db h => ⟨h.1, rfl⟩)
        fun affected => ?_
      refine returns_bind (fun _ db' => ∃ db, Holds allowed P s db ∧
        affected = (Query.promoteDependent t now).affected db ∧
          db' = Statements.effect (Query.promoteDependent t now) db)
        (returns_issue (fun db h => violates_eq_false (hsound db h.1))
          fun db h => ⟨db, h.1, h.2, rfl⟩) fun _ => returns_read ?_
      rintro _ ⟨db, hdb, rfl, rfl⟩
      obtain rfl := hdb.2
      exact ⟨⟨hsound db hdb, promoteDependent_net t now db⟩, promoteDependent_queue t now db⟩
    · refine returns_pure fun db h => ?_
      have hnot : ¬ s.Ready (tableLifecycle now) t := fun hready => hlocked (h.2.mpr hready.1)
      have hsame : s.promoteOn (tableLifecycle now) {t} = s := by
        refine Net.ext (funext fun x => if_neg ?_) rfl
        rintro ⟨rfl, hready⟩
        exact hnot hready
      rw [hsame]
      exact ⟨h.1, fun name => by simp [hnot]⟩

/-- Promoting dependents one after the other. -/
theorem promoteEach_returns (ids : List String) (s : Net String TaskView) (queues : GoSet String) (hnodup : ids.Nodup)
    (hP : ∀ t ∈ ids, s.Ready (tableLifecycle now) t → t ∈ P) :
    Returns allowed (Holds allowed P s) (promoteEach now ids queues) fun woken db =>
      Holds allowed P (s.promoteOn (tableLifecycle now) {t | t ∈ ids}) db ∧ ∀ name, name ∈ woken ↔ name ∈ queues ∨
      ∃ t ∈ ids, s.Ready (tableLifecycle now) t ∧ ∃ view ∈ s.row t, view.queue = name := by
  induction ids generalizing s queues with
  | nil =>
    refine returns_pure fun db h => ⟨?_, fun name => by simp⟩
    rw [show {t : String | t ∈ ([] : List String)} = ∅ by ext; simp, Net.promoteOn_empty]
    exact h
  | cons t rest ih =>
    obtain ⟨hnew, hnodup⟩ := List.nodup_cons.mp hnodup
    have hrest : ∀ x ∈ {x | x ∈ rest}, x ∉ ({t} : Set String) := fun x hx heq => hnew (heq ▸ hx)
    have hsame := fun x hx => Net.promoteOn_of_notMem (L := tableLifecycle now) (s := s) (hrest x hx)
    refine returns_bind _ (promoteDependent_returns (hP t (.head _))) fun queue => ?_
    refine returns_of_fact (fun db h => h.2) fun hqueue => ?_
    refine returns_mono (ih _ _ hnodup fun x hx hready => hP x (.tail t hx) ((hsame x hx).2.mp hready))
      (fun db h => h.1) fun woken db h => ?_
    have hset : {x | x ∈ t :: rest} = {t} ∪ {x | x ∈ rest} := by
      ext x
      simp
    rw [hset, ← Net.promoteOn_union hrest]
    refine ⟨h.1, fun name => (h.2 name).trans ?_⟩
    rw [List.exists_mem_cons_iff, ← hqueue, ← or_assoc]
    refine or_congr ?_ (exists_congr fun x => and_congr_right fun hx => ?_)
    · cases queue <;> simp [or_comm, eq_comm]
    · rw [(hsame x hx).1, (hsame x hx).2]

end Promotion

/-- The edges that wait on a task, as the net has them. -/
theorem edgesOn_edgesWaitingOn (h : (db.deps.map Edge.key).Nodup) :
    EdgesOn db.net f (db.edgesWaitingOn f) ∧
      ∀ t, t ∈ (db.edgesWaitingOn f).map Edge.dependentID ↔ db.net.edge t f ≠ none := by
  have hmem : ∀ edge, edge ∈ db.edgesWaitingOn f ↔ edge ∈ db.deps ∧ edge.dependencyID = f := by
    intro edge
    rw [Database.edgesWaitingOn, (sortFunc_perm _ _).mem_iff, List.mem_filter, beq_iff_eq]
  have hnodup : (db.edgesWaitingOn f).Nodup :=
    (sortFunc_perm _ _).nodup_iff.mpr (h.of_map.sublist List.filter_sublist)
  refine ⟨⟨hnodup.map_on fun x hx y hy heq => ?_, fun edge hedge => ?_⟩, fun t => ?_⟩
  · obtain ⟨hxmem, hxf⟩ := (hmem x).mp hx
    obtain ⟨hymem, hyf⟩ := (hmem y).mp hy
    exact List.inj_on_of_nodup_map h hxmem hymem (Prod.ext heq (hxf.trans hyf.symm))
  · obtain ⟨hdeps, rfl⟩ := (hmem edge).mp hedge
    exact net_edge_of_mem h hdeps
  · rw [List.mem_map]
    constructor
    · rintro ⟨edge, hedge, rfl⟩
      obtain ⟨hdeps, rfl⟩ := (hmem edge).mp hedge
      rw [net_edge_of_mem h hdeps]
      nofun
    · intro hne
      cases hfind : db.deps.find? fun edge => edge.key == (t, f) with
      | none => simp [Database.net, hfind] at hne
      | some edge =>
        have hkey : edge.key = (t, f) := by simpa using List.find?_some hfind
        exact ⟨edge, (hmem edge).mpr ⟨List.mem_of_find?_eq_some hfind, congrArg Prod.snd hkey⟩, congrArg Prod.fst hkey⟩

/-- Dropping the satisfied edges in one statement. -/
theorem dropSatisfied_net (f : String) (ids : List String) (db : Database) :
    (Statements.effect (Query.dropSatisfiedEdges f ids) db).net = db.net.dropOn f {t | t ∈ ids} := by
  refine Net.ext rfl (funext fun x => funext fun d => ?_)
  refine (deleteEdges_edge x d (d = f ∧ x ∈ ids) fun edge hkey => ?_).trans (by simp only [Net.dropOn]; congr)
  rw [show edge.dependentID = x from congrArg Prod.fst hkey, show edge.dependencyID = d from congrArg Prod.snd hkey]
  simp

/-- One round of the loop is a visit of the finished task. -/
theorem resolveFinished_returns (hP : ∀ t, s.Frees (tableLifecycle now) f t → t ∈ P) (queues : GoSet String) :
    Returns allowed (Holds allowed P s) (resolveFinished now f queues) fun outcome db =>
      Holds allowed P (s.visit (tableLifecycle now) f) db ∧
      (∀ t, t ∈ outcome.1 ↔ s.Cancels (s.failedAt (tableLifecycle now) f) f t) ∧ ∀ name, name ∈ outcome.2 ↔
      name ∈ queues ∨ ∃ t, s.Frees (tableLifecycle now) f t ∧ ∃ view ∈ s.row t, view.queue = name := by
  -- the state read first says whether the task has ended, and how
  refine returns_bind (fun state db => Holds allowed P s db ∧ terminal state = s.endedAt (tableLifecycle now) f ∧
    (terminal state = true → (state != .completed) = s.failedAt (tableLifecycle now) f))
    (returns_read fun db h => ⟨h, ?_⟩) fun state => ?_
  · rw [← h.2]
    cases hlookup : db.tasks.lookup f with
    | none => simp [Net.endedAt, Database.net, hlookup, terminal]
    | some row =>
      simp only [Net.endedAt, Net.failedAt, Database.net, hlookup, Option.map_some, Option.getD_some, Option.any_some]
      refine ⟨rfl, fun hterminal => ?_⟩
      simp only [tableLifecycle, taskLifecycle, Row.view]
      cases hs : row.state <;> simp [hs, terminal] at hterminal <;> rfl
  refine returns_of_fact (fun db h => h.2) ?_
  rintro ⟨hended, hkind⟩
  refine returns_ite (fun hterminal => ?_) fun hopen => returns_pure fun db h => ?_
  swap
  · have hnot : s.endedAt (tableLifecycle now) f ≠ true := hended ▸ hopen
    have hfalse : s.failedAt (tableLifecycle now) f = false :=
      Bool.eq_false_iff.mpr fun hfailed => hnot (Net.endedAt_of_failedAt hfailed)
    rw [Net.visit, if_neg hnot]
    exact ⟨h.1, fun t => by simp [Net.Cancels, hfalse], fun name => by simp [Net.Frees, hnot]⟩
  rw [hkind hterminal]
  rw [hterminal] at hended
  simp only [Net.visit, Net.Frees, ← hended, true_and, if_true] at hP ⊢
  generalize s.failedAt (tableLifecycle now) f = failed at *
  refine returns_bind (fun edges db => Holds allowed P s db ∧ EdgesOn s f edges ∧
    ∀ t, t ∈ edges.map Edge.dependentID ↔ s.edge t f ≠ none) (returns_read ?_) fun edges => ?_
  · rintro db ⟨hdb, -⟩
    exact ⟨hdb, hdb.2 ▸ edgesOn_edgesWaitingOn hdb.1.edges⟩
  refine returns_of_fact (fun db h => h.2) ?_
  rintro ⟨hedges, hall⟩
  have hcancels : ∀ t, t ∈ canceledBy failed edges ↔ s.Cancels failed f t := fun t =>
    hedges.mem_canceledBy.trans (and_iff_right_of_imp fun h => (hall t).mpr (by rw [h.2]; rintro ⟨⟩))
  have hreleases : ∀ t, t ∈ releasedBy failed edges ↔ s.Releases failed f t := fun t =>
    hedges.mem_releasedBy.trans (and_iff_right_of_imp fun h => (hall t).mpr (by
      obtain ⟨policy, hpolicy, -⟩ := h
      rw [hpolicy]
      rintro ⟨⟩))
  obtain ⟨hnet, hready⟩ := Net.resolve_steps (L := tableLifecycle now) (C := {t | t ∈ canceledBy failed edges})
    (S := {t | t ∈ releasedBy failed edges}) hcancels hreleases
  refine returns_bind _ (returns_mono (applyPolicies_returns edges s hedges.nodup) (fun db h => h.1) fun _ _ h => h)
    fun outcome => returns_of_fact (fun db h => h.1) ?_
  rintro rfl
  refine returns_ite (fun hnone => returns_pure fun db h => ?_) fun hsome => ?_
  · -- nothing is released: the other two steps have nothing to do
    rw [show releasedBy failed edges = [] from hnone] at hnet hreleases
    refine ⟨?_, hcancels, fun name => ⟨.inl, fun hname => hname.resolve_right ?_⟩⟩
    · rw [← hnet]
      simpa [Net.dropOn] using h.2
    · rintro ⟨t, hpromotes, -⟩
      exact List.not_mem_nil ((hreleases t).mpr hpromotes.1)
  · refine returns_bind (fun _ => Holds allowed P ((s.cancelOn (tableLifecycle now)
        {t | t ∈ canceledBy failed edges}).dropOn f {t | t ∈ releasedBy failed edges}))
      (returns_issue (fun db h => violates_eq_false (deleteEdges_sound h.2.1)) fun db h =>
        ⟨deleteEdges_sound h.2.1, by rw [dropSatisfied_net, h.2.2]⟩) fun _ => ?_
    refine returns_bind _ (promoteEach_returns (releasedBy failed edges) _ queues
      (hedges.nodup.sublist (List.filter_sublist.map _)) fun t ht h => hP t ((hready t ht).2.mp h)) fun woken =>
        returns_pure ?_
    rintro db ⟨hdb, hqueues⟩
    refine ⟨hnet ▸ hdb, hcancels, fun name => (hqueues name).trans (or_congr_right (exists_congr fun t => ?_))⟩
    by_cases ht : t ∈ releasedBy failed edges
    · rw [(hready t ht).1, (hready t ht).2, and_iff_right ht]
    · exact iff_of_false (fun h => ht h.1) fun h => ht ((hreleases t).mpr h.1.1)

/-- The net after a resolution. -/
noncomputable def resolvedNet (s : Net String TaskView) (now : Time) (kind : String → Bool) (E : Set String)
    (seeds : List String) : Net String TaskView :=
  s.stage (tableLifecycle now) kind {t | s.Reached kind {d | d ∈ seeds} t} (s.sources kind E {d | d ∈ seeds})

/-- The tasks a resolution promotes. -/
def promotedIn (s : Net String TaskView) (now : Time) (kind : String → Bool) (E : Set String) (seeds : List String) :
    Set String :=
  {t | s.Freed (tableLifecycle now) kind (s.sources kind E {d | d ∈ seeds}) t}

variable {kind : String → Bool} {E : Set String} {seeds : List String}

/-- The worklist loop ends in the last stage of the cascade, with the queues of the promoted tasks. -/
theorem drain_returns {s₀ : Net String TaskView} {X : Set String}
    (hsources : Net.Sources (tableLifecycle now) s₀ kind E {d | d ∈ seeds}) (hP : promotedIn s₀ now kind E seeds ⊆ P)
    (fuel : Nat) (worklist seen : List String) (queues : GoSet String) (s : Net String TaskView)
    (hstaged : Net.Staged (tableLifecycle now) s₀ kind E {d | d ∈ seeds} X {x | x ∈ seen} s worklist)
    (hqueues : ∀ name, name ∈ queues ↔ s₀.Wakes (tableLifecycle now) kind ({x | x ∈ seen} ∩ E) (·.queue = name)) :
    Returns allowed (fun db => Holds allowed P s db ∧ worklist.length + unvisitedEdges db.deps seen ≤ fuel)
      (drain now fuel worklist seen queues) fun woken db => Holds allowed P (resolvedNet s₀ now kind E seeds) db ∧
        ∀ name, name ∈ woken ↔ ∃ t ∈ promotedIn s₀ now kind E seeds, ∃ view ∈ s₀.row t, view.queue = name := by
  have hend : ∀ {s X} {seen : List String} {queues : GoSet String} {db : Database},
      Net.Staged (tableLifecycle now) s₀ kind E {d | d ∈ seeds} X {x | x ∈ seen} s [] →
      (∀ name, name ∈ queues ↔ s₀.Wakes (tableLifecycle now) kind ({x | x ∈ seen} ∩ E) (·.queue = name)) →
      Holds allowed P s db → Holds allowed P (resolvedNet s₀ now kind E seeds) db ∧
        ∀ name, name ∈ queues ↔ ∃ t ∈ promotedIn s₀ now kind E seeds, ∃ view ∈ s₀.row t, view.queue = name := by
    intro s X seen queues db hstaged hqueues hdb
    obtain ⟨rfl, hsame⟩ := hstaged.done
    rw [hsame] at hqueues
    exact ⟨hdb, hqueues⟩
  induction fuel generalizing worklist seen queues s X with
  | zero =>
    refine returns_pure ?_
    rintro db ⟨hdb, hfuel⟩
    obtain rfl : worklist = [] := List.eq_nil_of_length_eq_zero (by omega)
    exact hend hstaged hqueues hdb
  | succ fuel ih =>
    cases worklist with
    | nil => exact returns_pure fun db h => hend hstaged hqueues h.1
    | cons f rest =>
      have hinsert : {x | x ∈ f :: seen} = insert f {x | x ∈ seen} := by
        ext x
        simp
      simp only [List.length_cons]
      refine returns_ite (fun hseen => ?_) fun hseen => returns_at ?_
      · exact returns_mono (ih rest seen queues s (hstaged.skip hseen) hqueues) (fun db h => ⟨h.1, by omega⟩)
          fun _ _ h => h
      rintro start ⟨hstart, hfuel⟩
      have hround : Returns allowed (fun db => db = start) (resolveFinished now f queues) _ := returns_ensures
        (returns_mono (resolveFinished_returns (fun t ht =>
          hP ((hstaged.frees hsources hseen).2 ((hstaged.frees hsources hseen).1.mp ht).1)) queues)
          (fun db h => h ▸ hstart) fun _ _ h => h)
        (resolveFinished_ensures start now f queues)
      refine returns_bind _ hround fun outcome => ?_
      refine returns_of_fact (fun db h => And.intro h.1.2 h.2.2) ?_
      rintro ⟨⟨hcanceled, hwoken⟩, hlength⟩
      have hnext := hstaged.visit hsources hseen fun x =>
        List.mem_append.trans (or_congr_right (hcanceled x))
      have hwakes := fun name => hstaged.wakes hsources hseen (·.queue = name)
      rw [← hinsert] at hnext
      simp only [← hinsert, ← hqueues, ← hwoken] at hwakes
      refine returns_mono (ih (rest ++ outcome.1) (f :: seen) outcome.2 _ hnext fun name => (hwakes name).symm)
        (fun db h => ⟨h.1.1, ?_⟩) fun _ _ h => h
      have hvisit := unvisitedEdges_cons_add h.2.1.deps hseen
      rw [List.length_append]
      omega

section Resolution

/-- A resolution is one run over the net. -/
theorem resolveWithin_returns (hsources : Net.Sources (tableLifecycle now) s kind E {d | d ∈ seeds})
    (hP : promotedIn s now kind E seeds ⊆ P) :
    Returns allowed (Holds allowed P s) (resolveWithin now seeds) fun woken db => Holds allowed P (resolvedNet s now kind E seeds) db ∧
      ∀ name, name ∈ woken ↔ ∃ t ∈ promotedIn s now kind E seeds, ∃ view ∈ s.row t, view.queue = name := by
  have hseen : {x : String | x ∈ ([] : List String)} = ∅ := by
    ext x
    simp
  have hstart := Net.Staged.start (tableLifecycle now) s kind E seeds
  rw [← hseen] at hstart
  refine returns_bind (fun fuel db => Holds allowed P s db ∧ fuel = seeds.length + db.deps.length)
    (returns_read fun db h => ⟨h, rfl⟩) fun fuel => ?_
  refine returns_mono (drain_returns hsources hP fuel seeds [] ∅ s hstart fun name => ?_) (fun db h => ⟨h.1, ?_⟩)
    fun _ _ h => h
  · simp [Net.Wakes, Net.Freed]
  · rw [h.2]
    exact Nat.add_le_add_left (List.length_filter_le _ _) _

end Resolution

end Statements

end Conveyor.Postgres
