import Conveyor.Postgres.Cascade

/-!
# Dependency resolution in the Postgres broker as a least fixpoint

The seeds of a resolution and the tasks its cascade reaches are resolved; the resolved tasks that had failed or were
blocked when they were reached have failed. These are the smallest sets closed under the four rules of `Closed`. The
tables after the resolution are described by them alone, whatever the order of the rounds. The same sets say which
tasks are promoted, and so whether a promotion brings a second row with one key into the unique index, in which case
the resolution fails.
-/

namespace Conveyor.Postgres

open Lib SessionM

namespace Database

/-- Whether the task is stored with the given state. -/
def HasState (db : Database) (t : String) (state : TaskState) : Prop :=
  ∃ row, db.tasks.lookup t = some row ∧ row.state = state

/-- The rules of a resolution: the seeds are resolved, a resolved task that was archived or canceled has failed, and a
task with a cascading edge on a failed one is resolved, and has failed if it was blocked. -/
structure Closed (db : Database) (seeds : List String) (R F : Set String) : Prop where
  seed : ∀ t ∈ seeds, t ∈ R
  ended : ∀ t ∈ R, db.HasState t .archived ∨ db.HasState t .canceled → t ∈ F
  reached : ∀ t d, d ∈ F → ⟨t, d, 2⟩ ∈ db.deps → t ∈ R
  blocked : ∀ t d, d ∈ F → ⟨t, d, 2⟩ ∈ db.deps → db.HasState t .blocked → t ∈ F

/-- The smallest set of resolved tasks. -/
def resolvedFrom (db : Database) (seeds : List String) : Set String := {t | ∀ R F, db.Closed seeds R F → t ∈ R}

/-- The smallest set of failed tasks. -/
def failedFrom (db : Database) (seeds : List String) : Set String := {t | ∀ R F, db.Closed seeds R F → t ∈ F}

/-- The smallest sets follow the rules. -/
theorem closed_smallest (db : Database) (seeds : List String) :
    db.Closed seeds (db.resolvedFrom seeds) (db.failedFrom seeds) where
  seed t ht _ _ h := h.seed t ht
  ended t ht hstate _ _ h := h.ended t (ht _ _ h) hstate
  reached t d hd hedge _ _ h := h.reached t d (hd _ _ h) hedge
  blocked t d hd hedge hstate _ _ h := h.blocked t d (hd _ _ h) hedge hstate

/-- Whether the task has a cascading edge on a failed one. -/
def Cascaded (db : Database) (seeds : List String) (t : String) : Prop :=
  ∃ d ∈ db.failedFrom seeds, ⟨t, d, 2⟩ ∈ db.deps

/-- The edges a resolution deletes: all edges of a cascaded task, and of any other task those on completed resolved
tasks and the continuing ones on failed tasks, which are those that neither block nor cascade. -/
def Lost (db : Database) (seeds : List String) (edge : Edge) : Prop :=
  db.Cascaded seeds edge.dependentID ∨
    (edge.dependencyID ∈ db.resolvedFrom seeds ∧ db.HasState edge.dependencyID .completed) ∨
    (edge.dependencyID ∈ db.failedFrom seeds ∧ edge.onFailure ≠ 1 ∧ edge.onFailure ≠ 2)

/-- The blocked tasks that have not failed, lose an edge and keep none. -/
def unblocked (db : Database) (seeds : List String) : Set String :=
  {t | db.HasState t .blocked ∧ t ∉ db.failedFrom seeds ∧ (∃ edge ∈ db.deps, edge.dependentID = t) ∧
    ∀ edge ∈ db.deps, edge.dependentID = t → db.Lost seeds edge}

/-- How a task counts once the cascade has reached it. -/
def countsFailed (db : Database) (t : String) : Bool :=
  (db.tasks.lookup t).any fun row => row.state == .blocked || failedDependency row.state

/-- The tasks that have ended once the cascade has reached them. -/
def endsReached (db : Database) : Set String :=
  {t | ∃ row, db.tasks.lookup t = some row ∧ (row.state = .blocked ∨ terminal row.state = true)}

/-- Seeds that are stored and terminal. -/
def Seeds (db : Database) (seeds : List String) : Prop :=
  ∀ t ∈ seeds, ∃ row, db.tasks.lookup t = some row ∧ terminal row.state = true

end Database

section Sources

variable {db : Database} {seeds : List String} {now : Time} {t d : String}

theorem countsFailed_eq_true : db.countsFailed t = true ↔
    db.HasState t .blocked ∨ db.HasState t .archived ∨ db.HasState t .canceled := by
  rw [Database.countsFailed, Option.any_eq_true]
  constructor
  · rintro ⟨row, hrow, hstate⟩
    have hcases : row.state = .blocked ∨ row.state = .archived ∨ row.state = .canceled := by
      simpa [failedDependency] using hstate
    rcases hcases with h | h | h
    · exact .inl ⟨row, hrow, h⟩
    · exact .inr (.inl ⟨row, hrow, h⟩)
    · exact .inr (.inr ⟨row, hrow, h⟩)
  · rintro (⟨row, hrow, h⟩ | ⟨row, hrow, h⟩ | ⟨row, hrow, h⟩)
    all_goals exact ⟨row, hrow, by rw [h]; rfl⟩

/-- A row that was reached counts as its canceled form. -/
theorem cancel_view (now : Time) (row : Row) :
    (tableLifecycle now).failed ((tableLifecycle now).cancel row.view) = (row.state == .blocked || failedDependency row.state) ∧
      ((tableLifecycle now).terminal ((tableLifecycle now).cancel row.view) = true ↔
        row.state = .blocked ∨ terminal row.state = true) := by
  by_cases hblocked : row.state = .blocked
  · have hcancel : (tableLifecycle now).cancel row.view = (taskLifecycle now).cancel row.view := if_pos hblocked
    rw [hcancel, hblocked]
    exact ⟨rfl, fun _ => .inl rfl, fun _ => rfl⟩
  · have hcancel : (tableLifecycle now).cancel row.view = row.view := if_neg hblocked
    rw [hcancel]
    refine ⟨?_, fun h => .inr h, fun h => h.resolve_left hblocked⟩
    rw [beq_false_of_ne hblocked, Bool.false_or]
    rfl

/-- A terminal row is not blocked and keeps its view. -/
theorem terminal_view {row : Row} (h : terminal row.state = true) :
    (tableLifecycle now).failed row.view = (row.state == .blocked || failedDependency row.state) := by
  have hne : row.state ≠ .blocked := by
    rintro heq
    rw [heq] at h
    cases h
  rw [beq_false_of_ne hne, Bool.false_or]
  rfl

/-- How the sources of a resolution from terminal seeds count. -/
theorem net_sources (hseeds : db.Seeds seeds) (now : Time) :
    Net.Sources (tableLifecycle now) db.net db.countsFailed db.endsReached {t | t ∈ seeds} where
  seed t ht := by
    obtain ⟨row, hrow, hterminal⟩ := hseeds t ht
    have hview : db.net.row t = some row.view := by simp [Database.net, hrow]
    rw [Net.failedAt, Net.endedAt, hview, Option.any_some, Option.any_some, terminal_view hterminal,
      Database.countsFailed, hrow]
    exact ⟨rfl, fun _ => ⟨row, hrow, .inr hterminal⟩, fun _ => hterminal⟩
  hit t _ := by
    cases hrow : db.tasks.lookup t with
    | none => simp [Database.net, Database.countsFailed, Database.endsReached, hrow]
    | some row =>
      obtain ⟨hfailed, hterminal⟩ := cancel_view now row
      simp [Database.net, Database.countsFailed, Database.endsReached, hrow, hfailed, hterminal]

/-- A cascading edge row is a canceling edge of the net. -/
theorem net_edge_cancel (h : (db.deps.map Edge.key).Nodup) : db.net.edge t d = some .cancel ↔ ⟨t, d, 2⟩ ∈ db.deps := by
  constructor
  · intro hedge
    obtain ⟨edge, hfind, hpolicy⟩ := Option.map_eq_some_iff.mp hedge
    have hkey : edge.key = (t, d) := by simpa using List.find?_some hfind
    obtain ⟨x, y, policy⟩ := edge
    obtain ⟨rfl, rfl⟩ := Prod.mk.inj hkey
    have hcascade : policy = 2 := by
      rw [columnOnFailure] at hpolicy
      split_ifs at hpolicy with hblock hcascade
      exact hcascade
    exact hcascade ▸ List.mem_of_find?_eq_some hfind
  · exact net_edge_of_mem h

variable (h : (db.deps.map Edge.key).Nodup)

include h

/-- A task with a cascading edge on a failed source is reached. -/
theorem reached_of_edge (hd : d ∈ seeds ∨ db.net.Reached db.countsFailed {t | t ∈ seeds} d)
    (hfailed : db.countsFailed d = true) (hedge : ⟨t, d, 2⟩ ∈ db.deps) :
    db.net.Reached db.countsFailed {t | t ∈ seeds} t := by
  have hcancels : db.net.Cancels (db.countsFailed d) d t := ⟨hfailed, (net_edge_cancel h).mpr hedge⟩
  exact hd.elim (fun hseed => .first hseed hcancels) fun hreached => .next hreached hcancels

variable (hseeds : db.Seeds seeds)

include hseeds

/-- The seeds and the reached tasks are the smallest sets. -/
theorem smallest_eq :
    db.resolvedFrom seeds = {t | t ∈ seeds ∨ db.net.Reached db.countsFailed {t | t ∈ seeds} t} ∧ db.failedFrom seeds =
      {t | (t ∈ seeds ∨ db.net.Reached db.countsFailed {t | t ∈ seeds} t) ∧ db.countsFailed t = true} := by
  have hclosed : db.Closed seeds {t | t ∈ seeds ∨ db.net.Reached db.countsFailed {t | t ∈ seeds} t}
      {t | (t ∈ seeds ∨ db.net.Reached db.countsFailed {t | t ∈ seeds} t) ∧ db.countsFailed t = true} := by
    refine ⟨fun t ht => .inl ht, fun t ht hstate => ⟨ht, countsFailed_eq_true.mpr (.inr hstate)⟩, ?_, ?_⟩
    · intro t d hd hedge
      exact .inr (reached_of_edge h hd.1 hd.2 hedge)
    · intro t d hd hedge hstate
      exact ⟨.inr (reached_of_edge h hd.1 hd.2 hedge), countsFailed_eq_true.mpr (.inl hstate)⟩
  -- every closed pair contains the seeds and what is reached from them
  have hseed : ∀ R F, db.Closed seeds R F → ∀ t ∈ seeds, db.countsFailed t = true → t ∈ F := by
    intro R F hRF t ht hfailed
    obtain ⟨row, hrow, hterminal⟩ := hseeds t ht
    refine hRF.ended t (hRF.seed t ht) ((countsFailed_eq_true.mp hfailed).resolve_left ?_)
    rintro ⟨row', hrow', hblocked⟩
    cases hrow.symm.trans hrow'
    rw [hblocked] at hterminal
    cases hterminal
  have hnext : ∀ R F, db.Closed seeds R F → ∀ t d, d ∈ F → ⟨t, d, 2⟩ ∈ db.deps →
      t ∈ R ∧ (db.countsFailed t = true → t ∈ F) := by
    intro R F hRF t d hd hedge
    have hR := hRF.reached t d hd hedge
    refine ⟨hR, fun hfailed => ?_⟩
    exact (countsFailed_eq_true.mp hfailed).elim (hRF.blocked t d hd hedge) (hRF.ended t hR)
  have hall : ∀ R F, db.Closed seeds R F → ∀ t, db.net.Reached db.countsFailed {t | t ∈ seeds} t →
      t ∈ R ∧ (db.countsFailed t = true → t ∈ F) := by
    intro R F hRF t ht
    induction ht with
    | @first d t hd hcancels =>
      exact hnext R F hRF t d (hseed R F hRF d hd hcancels.1) ((net_edge_cancel h).mp hcancels.2)
    | @next d t _ hcancels ih => exact hnext R F hRF t d (ih.2 hcancels.1) ((net_edge_cancel h).mp hcancels.2)
  constructor
  · refine Set.Subset.antisymm (fun t ht => ht _ _ hclosed) fun t ht R F hRF => ?_
    exact ht.elim (hRF.seed t) fun hreached => (hall R F hRF t hreached).1
  · refine Set.Subset.antisymm (fun t ht => ht _ _ hclosed) fun t ht R F hRF => ?_
    exact ht.1.elim (fun hmem => hseed R F hRF t hmem ht.2) fun hreached => (hall R F hRF t hreached).2 ht.2

/-- The cascaded tasks are the reached ones. -/
theorem cascaded_iff : db.Cascaded seeds t ↔ db.net.Reached db.countsFailed {t | t ∈ seeds} t := by
  rw [Database.Cascaded, (smallest_eq h hseeds).2]
  constructor
  · rintro ⟨d, ⟨hd, hfailed⟩, hedge⟩
    exact reached_of_edge h hd hfailed hedge
  · intro ht
    cases ht with
    | first hd hcancels => exact ⟨_, ⟨.inl hd, hcancels.1⟩, (net_edge_cancel h).mp hcancels.2⟩
    | next hd hcancels => exact ⟨_, ⟨.inr hd, hcancels.1⟩, (net_edge_cancel h).mp hcancels.2⟩

end Sources

section Outcome

variable {db after : Database} {seeds : List String} {now : Time} {t : String}

theorem drain_ensures (now : Time) (fuel : Nat) (base : Database) (worklist seen : List String) (queues : GoSet String) :
    Ensures (Resolving base) (drain now fuel worklist seen queues) fun _ => Resolving base := by
  induction fuel generalizing worklist seen queues with
  | zero => exact ensures_pure fun _ h => h
  | succ fuel ih =>
    cases worklist with
    | nil => exact ensures_pure fun _ h => h
    | cons finishedID rest =>
      refine ensures_ite (ih rest seen queues) (ensures_bind (fun _ => Resolving base) ?_ fun outcome => ih _ _ _)
      intro session hsession outcome after hrun
      obtain ⟨hround, -⟩ := resolveFinished_ensures session.db now finishedID queues session rfl outcome after hrun
      exact ⟨hround.deps.trans hsession.deps, fun t => (hround.keys t).trans (hsession.keys t)⟩

theorem resolveWithin_ensures (now : Time) (base : Database) (seeds : List String) :
    Ensures (fun db => db = base) (resolveWithin now seeds) fun _ => Resolving base := by
  refine ensures_bind (fun _ => Resolving base) (ensures_read ?_) fun fuel => drain_ensures now fuel base seeds [] ∅
  rintro _ rfl
  exact ⟨List.Sublist.refl _, fun _ => rfl⟩

/-- A resolution that returns leaves a content the unique index admits. -/
theorem resolveWithin_admitted {session after : Session Database Query} {woken : GoSet String}
    (hindex : Statements.violates Query session.db = false) (hrun : resolveWithin now seeds session = (.ok woken, after)) :
    Statements.violates Query after.db = false := by
  have hsafe : Safe (fun _ => True) (fun _ => True) (fun db => Statements.violates Query db = false)
      (resolveWithin now seeds) := resolveWithin_safe (fun _ _ _ _ => ⟨trivial, fun h => h⟩) now seeds
  have hafter := hsafe session ⟨fun _ => hindex, fun _ _ _ _ _ => trivial⟩
  rw [hrun] at hafter
  exact hafter.1.inv fun _ _ => trivial

/-- What the tables look like after a resolution. -/
structure Final (db after : Database) (now : Time) (seeds : List String) : Prop where
  resolving : Resolving db after
  net : after.net = resolvedNet db.net now db.countsFailed db.endsReached seeds

/-- No row is added. -/
theorem Final.row_none (hfinal : Final db after now seeds) (hnone : db.tasks.lookup t = none) :
    after.tasks.lookup t = none := by
  have hafter := congrArg (fun net => net.row t) hfinal.net
  have hrow : db.net.row t = none := by simp [Database.net, hnone]
  simp only [resolvedNet, Net.stage, hrow, Option.map_none, ite_self] at hafter
  exact Option.map_eq_none_iff.mp hafter

/-- What a resolution makes of one task row. -/
structure RowResolved (db : Database) (now : Time) (seeds : List String) (t : String) (row row' : Row) : Prop where
  canceled : row.state ≠ .canceled ∧ row'.state = .canceled ↔ t ∈ db.failedFrom seeds ∧ row.state = .blocked
  message : row.state ≠ .canceled ∧ row'.state = .canceled → row'.lastError = cascadeCanceledMessage
  promoted : t ∈ db.unblocked seeds → row'.state = unblockedState row now
  unchanged : ¬ (t ∈ db.failedFrom seeds ∧ row.state = .blocked) → t ∉ db.unblocked seeds → row'.state = row.state

/-- A row that keeps its state was neither to be canceled nor to be promoted. -/
theorem RowResolved.of_same {row row' : Row} (hstate : row'.state = row.state)
    (hfailed : ¬ (t ∈ db.failedFrom seeds ∧ row.state = .blocked)) (hopen : t ∉ db.unblocked seeds) :
    RowResolved db now seeds t row row' := by
  have hnew : ¬ (row.state ≠ .canceled ∧ row'.state = .canceled) := fun hnew => hnew.1 (hstate ▸ hnew.2)
  exact ⟨iff_of_false hnew hfailed, fun hnew' => absurd hnew' hnew, fun hfree => absurd hfree hopen, fun _ _ => hstate⟩

section Words

variable (h : (db.deps.map Edge.key).Nodup) (hseeds : db.Seeds seeds)

include h hseeds

/-- The edges that the end of a source lets go, in the words of the edge table. -/
theorem released_iff {edge : Edge} (hedge : edge ∈ db.deps) :
    (edge.dependencyID ∈ db.net.sources db.countsFailed db.endsReached {t | t ∈ seeds} ∧
        db.net.Releases (db.countsFailed edge.dependencyID) edge.dependencyID edge.dependentID) ↔
      (edge.dependencyID ∈ db.resolvedFrom seeds ∧ db.HasState edge.dependencyID .completed) ∨
        (edge.dependencyID ∈ db.failedFrom seeds ∧ edge.onFailure ≠ 1 ∧ edge.onFailure ≠ 2) := by
  have hcontinue : columnOnFailure edge.onFailure = .release ↔ edge.onFailure ≠ 1 ∧ edge.onFailure ≠ 2 := by
    rw [columnOnFailure]
    split_ifs <;> simp_all
  have hreleases : db.net.Releases (db.countsFailed edge.dependencyID) edge.dependencyID edge.dependentID ↔
      (db.countsFailed edge.dependencyID = true → edge.onFailure ≠ 1 ∧ edge.onFailure ≠ 2) := by
    rw [Net.Releases, net_edge_of_mem h hedge, ← hcontinue]
    constructor
    · rintro ⟨policy, heq, hrelease⟩ hfailed
      exact (Option.some.inj heq).trans (hrelease hfailed)
    · exact fun hrelease => ⟨_, rfl, hrelease⟩
  rw [hreleases, (smallest_eq h hseeds).1, (smallest_eq h hseeds).2]
  cases hfailed : db.countsFailed edge.dependencyID with
  | true =>
    have hopen : ¬ db.HasState edge.dependencyID .completed := by
      rintro ⟨row, hrow, hstate⟩
      rw [Database.countsFailed, hrow] at hfailed
      simp [hstate, failedDependency] at hfailed
    have hended : edge.dependencyID ∈ db.endsReached := by
      rcases countsFailed_eq_true.mp hfailed with ⟨row, hrow, hstate⟩ | ⟨row, hrow, hstate⟩ | ⟨row, hrow, hstate⟩
      · exact ⟨row, hrow, .inl hstate⟩
      · exact ⟨row, hrow, .inr (by rw [hstate]; rfl)⟩
      · exact ⟨row, hrow, .inr (by rw [hstate]; rfl)⟩
    simp [Net.sources, hopen, hended, hfailed]
  | false =>
    have hended : edge.dependencyID ∈ db.endsReached ↔ db.HasState edge.dependencyID .completed := by
      constructor
      · rintro ⟨row, hrow, hstate⟩
        refine ⟨row, hrow, ?_⟩
        rw [Database.countsFailed, hrow] at hfailed
        cases hs : row.state <;> simp [hs, failedDependency, terminal] at hfailed hstate ⊢
      · rintro ⟨row, hrow, hstate⟩
        exact ⟨row, hrow, .inr (by rw [hstate]; rfl)⟩
    simp [Net.sources, hended, hfailed]

/-- An edge is lost exactly if its task is reached or its dependency lets it go. -/
theorem lost_iff {edge : Edge} (hedge : edge ∈ db.deps) :
    db.Lost seeds edge ↔ db.net.Reached db.countsFailed {t | t ∈ seeds} edge.dependentID ∨
      (edge.dependencyID ∈ db.net.sources db.countsFailed db.endsReached {t | t ∈ seeds} ∧
        db.net.Releases (db.countsFailed edge.dependencyID) edge.dependencyID edge.dependentID) := by
  rw [Database.Lost, cascaded_iff h hseeds, released_iff h hseeds hedge]

/-- The edges that are left. -/
theorem Final.mem_deps (hfinal : Final db after now seeds) (edge : Edge) :
    edge ∈ after.deps ↔ edge ∈ db.deps ∧ ¬ db.Lost seeds edge := by
  by_cases hedge : edge ∈ db.deps
  swap
  · exact ⟨fun hafter => absurd (hfinal.resolving.deps.subset hafter) hedge, fun hbefore => absurd hbefore.1 hedge⟩
  have hgone := lost_iff h hseeds hedge
  have hlost : db.Lost seeds edge → after.net.edge edge.dependentID edge.dependencyID = none := by
    intro hlost
    rw [hfinal.net]
    exact if_pos (hgone.mp hlost)
  have hkept : ¬ db.Lost seeds edge →
      after.net.edge edge.dependentID edge.dependencyID = some (columnOnFailure edge.onFailure) := by
    intro hkept
    rw [hfinal.net, ← net_edge_of_mem h hedge]
    exact if_neg fun hgone' => hkept (hgone.mpr hgone')
  constructor
  · intro hafter
    refine ⟨hedge, fun hgone' => ?_⟩
    have hnet := hlost hgone'
    rw [net_edge_of_mem (h.sublist (hfinal.resolving.deps.map _)) hafter] at hnet
    cases hnet
  · rintro ⟨-, hkept'⟩
    obtain ⟨other, hfind, -⟩ := Option.map_eq_some_iff.mp (hkept hkept')
    have hkey : other.key = edge.key := by simpa [Edge.key] using List.find?_some hfind
    have hafter := List.mem_of_find?_eq_some hfind
    obtain rfl := List.inj_on_of_nodup_map h (hfinal.resolving.deps.subset hafter) hedge hkey
    exact hafter

/-- A blocked task has failed exactly if it was reached. -/
theorem mem_failedFrom_of_blocked (hblocked : db.HasState t .blocked) :
    t ∈ db.failedFrom seeds ↔ db.net.Reached db.countsFailed {t | t ∈ seeds} t := by
  rw [(smallest_eq h hseeds).2]
  refine ⟨fun ht => ht.1.resolve_left fun hmem => ?_, fun ht => ⟨.inr ht, countsFailed_eq_true.mpr (.inl hblocked)⟩⟩
  obtain ⟨row, hrow, hterminal⟩ := hseeds t hmem
  obtain ⟨row', hrow', hstate⟩ := hblocked
  cases hrow.symm.trans hrow'
  rw [hstate] at hterminal
  cases hterminal

/-- The promoted tasks are the unblocked ones. -/
theorem promotedIn_eq (now : Time) :
    promotedIn db.net now db.countsFailed db.endsReached seeds = db.unblocked seeds := by
  ext t
  have hblocked : (∃ r ∈ db.net.row t, (tableLifecycle now).blocked r = true) ↔ db.HasState t .blocked := by
    simp [Database.net, Database.HasState, tableLifecycle, taskLifecycle, Row.view]
  have hmem : ∀ d, db.net.edge t d ≠ none → ∃ edge ∈ db.deps, edge.dependentID = t ∧ edge.dependencyID = d := by
    intro d hedge
    obtain ⟨policy, hpolicy⟩ := Option.ne_none_iff_exists'.mp hedge
    obtain ⟨edge, hfind, -⟩ := Option.map_eq_some_iff.mp hpolicy
    have hkey : edge.key = (t, d) := by simpa using List.find?_some hfind
    exact ⟨edge, List.mem_of_find?_eq_some hfind, congrArg Prod.fst hkey, congrArg Prod.snd hkey⟩
  constructor
  · rintro hfreed
    obtain ⟨hstate, ⟨d, hd, hreleases⟩, hall⟩ := id hfreed
    rw [hblocked] at hstate
    refine ⟨hstate, fun hfailed => ?_, ?_, ?_⟩
    · exact Net.not_freed_of_reached ((mem_failedFrom_of_blocked h hseeds hstate).mp hfailed) hfreed
    · obtain ⟨policy, hpolicy, -⟩ := hreleases
      obtain ⟨edge, hedge, heq, -⟩ := hmem d (by rw [hpolicy]; rintro ⟨⟩)
      exact ⟨edge, hedge, heq⟩
    · rintro edge hedge rfl
      exact (lost_iff h hseeds hedge).mpr (.inr (hall edge.dependencyID (by rw [net_edge_of_mem h hedge]; rintro ⟨⟩)))
  · rintro ⟨hstate, hfailed, ⟨edge, hedge, rfl⟩, hlost⟩
    have hgone : ∀ other ∈ db.deps, other.dependentID = edge.dependentID →
        other.dependencyID ∈ db.net.sources db.countsFailed db.endsReached {t | t ∈ seeds} ∧
          db.net.Releases (db.countsFailed other.dependencyID) other.dependencyID other.dependentID := by
      intro other hother heq
      refine ((lost_iff h hseeds hother).mp (hlost other hother heq)).resolve_left fun hreached => ?_
      exact hfailed ((mem_failedFrom_of_blocked h hseeds hstate).mpr (heq ▸ hreached))
    refine ⟨hblocked.mpr hstate, ⟨edge.dependencyID, hgone edge hedge rfl⟩, fun d hd => ?_⟩
    obtain ⟨other, hother, heq, rfl⟩ := hmem d hd
    exact heq ▸ hgone other hother heq

theorem Final.row (hfinal : Final db after now seeds) {row : Row} (hrow : db.tasks.lookup t = some row) :
    ∃ row', after.tasks.lookup t = some row' ∧ RowResolved db now seeds t row row' := by
  have hview : db.net.row t = some row.view := by simp [Database.net, hrow]
  have hstates : ∀ state, db.HasState t state ↔ row.state = state := by
    intro state
    refine ⟨?_, fun hstate => ⟨row, hrow, hstate⟩⟩
    rintro ⟨row', hrow', rfl⟩
    rw [Option.some.inj (hrow.symm.trans hrow')]
  have hunblocked : db.net.Freed (tableLifecycle now) db.countsFailed
      (db.net.sources db.countsFailed db.endsReached {t | t ∈ seeds}) t ↔ t ∈ db.unblocked seeds :=
    Set.ext_iff.mp (promotedIn_eq h hseeds now) t
  have hafter := congrArg (fun net => net.row t) hfinal.net
  simp only [resolvedNet, Net.stage, Set.mem_ofPred_eq] at hafter
  by_cases hreached : db.net.Reached db.countsFailed {t | t ∈ seeds} t
  · have hnot : t ∉ db.unblocked seeds :=
      fun hfree => Net.not_freed_of_reached hreached (hunblocked.mpr hfree)
    rw [if_pos hreached, hview, Option.map_some] at hafter
    obtain ⟨row', hrow', hsame⟩ := Option.map_eq_some_iff.mp hafter
    by_cases hblocked : row.state = .blocked
    · have hcancel : (tableLifecycle now).cancel row.view = (taskLifecycle now).cancel row.view := if_pos hblocked
      rw [hcancel] at hsame
      have hstate := congrArg TaskView.state hsame
      have hfailed := (mem_failedFrom_of_blocked h hseeds ((hstates .blocked).mpr hblocked)).mpr hreached
      have hne : row.state ≠ .canceled := by
        rw [hblocked]
        decide
      exact ⟨row', hrow', iff_of_true ⟨hne, hstate⟩ ⟨hfailed, hblocked⟩, fun _ => congrArg TaskView.lastError hsame, fun hfree => absurd hfree hnot,
        fun hother => absurd ⟨hfailed, hblocked⟩ hother⟩
    · have hcancel : (tableLifecycle now).cancel row.view = row.view := if_neg hblocked
      rw [hcancel] at hsame
      exact ⟨row', hrow', .of_same (congrArg TaskView.state hsame) (fun hfailed => hblocked hfailed.2) hnot⟩
  · have hfailed : ¬ (t ∈ db.failedFrom seeds ∧ row.state = .blocked) := fun hfailed =>
      hreached ((mem_failedFrom_of_blocked h hseeds ((hstates .blocked).mpr hfailed.2)).mp hfailed.1)
    rw [if_neg hreached] at hafter
    by_cases hfree : t ∈ db.unblocked seeds
    · rw [if_pos (hunblocked.mpr hfree), hview, Option.map_some] at hafter
      obtain ⟨row', hrow', hsame⟩ := Option.map_eq_some_iff.mp hafter
      have hstate : row'.state = unblockedState row now := congrArg TaskView.state hsame
      have hnew : row'.state ≠ .canceled := by
        rw [hstate, unblockedState]
        split_ifs <;> decide
      exact ⟨row', hrow', iff_of_false (fun hnew' => hnew hnew'.2) hfailed, fun hnew' => absurd hnew'.2 hnew, fun _ => hstate, fun _ hnot => absurd hfree hnot⟩
    · rw [if_neg fun hfreed => hfree (hunblocked.mp hfreed), hview] at hafter
      obtain ⟨row', hrow', hsame⟩ := Option.map_eq_some_iff.mp hafter
      exact ⟨row', hrow', .of_same (congrArg TaskView.state hsame) hfailed hfree⟩

end Words

/-- Rows that are in the index, or enter it, stand in it after the resolution with their keys. -/
theorem keysApart_of_rows (hresolving : Resolving db after) (hindex : Statements.violates Query after = false)
    (hrows : ∀ t row, db.tasks.lookup t = some row → ∃ row', after.tasks.lookup t = some row' ∧
      RowResolved db now seeds t row row') : db.KeysApart (db.unblocked seeds) := by
  have hindexed : ∀ t row key, db.tasks.lookup t = some row → row.Enters (t ∈ db.unblocked seeds) →
      row.uniqueKey = some key → ∃ row', after.tasks.lookup t = some row' ∧ row'.indexKey = some key := by
    intro t row key hrow henters hkey
    obtain ⟨row', hrow', hresolved⟩ := hrows t row hrow
    refine ⟨row', hrow', indexKey_eq_some.mpr ⟨?_, ?_⟩⟩
    · rcases henters with hstays | ⟨-, hgroup, hpromoted⟩
      · have hopen : row.state ≠ .blocked := by
          intro heq
          rw [heq] at hstays
          cases hstays
        rw [hresolved.unchanged (fun h => hopen h.2) ?_]
        · exact hstays
        · rintro ⟨⟨other, hother, hblocked⟩, -⟩
          cases hrow.symm.trans hother
          exact hopen hblocked
      · rw [hresolved.promoted hpromoted, unblockedState, if_neg (not_not.mpr hgroup)]
        split_ifs <;> rfl
    · have hsame := hresolving.keys t
      rw [hrow, hrow', Option.map_some, Option.map_some, Option.some.injEq] at hsame
      rw [hsame, hkey]
  intro t u row other key ht hu henters henters' hkey hkey'
  obtain ⟨row', hrow', hrowKey⟩ := hindexed t row key ht henters hkey
  obtain ⟨other', hother', hotherKey⟩ := hindexed u other key hu henters' hkey'
  exact (violates_eq_false_iff after).mp hindex t u row' other' key hrow' hother' hrowKey hotherKey

end Outcome

/-- On any content of the tables that respects its two constraints, cyclic ones included, a resolution from terminal
seeds returns after a bounded number of rounds and leaves what the smallest sets of resolved and failed tasks say,
exactly if no two rows that are in the unique index, or enter it by being unblocked, share a key. -/
theorem resolveWithin_least_fixpoint (now : Time) (seeds : List String) (session : Session Database Query)
    (hedges : (session.db.deps.map Edge.key).Nodup) (hindex : session.db.indexKeys.Nodup)
    (hseeds : session.db.Seeds seeds) :
    (∃ woken after, resolveWithin now seeds session = (.ok woken, after) ∧
      (∀ extra, drain now (seeds.length + session.db.deps.length + extra) seeds [] ∅ session = (.ok woken, after)) ∧
      (∀ edge, edge ∈ after.db.deps ↔ edge ∈ session.db.deps ∧ ¬ session.db.Lost seeds edge) ∧
      (∀ t, session.db.tasks.lookup t = none → after.db.tasks.lookup t = none) ∧ ∀ t row, session.db.tasks.lookup t =
      some row → ∃ row', after.db.tasks.lookup t = some row' ∧ RowResolved session.db now seeds t row row') ↔
      session.db.KeysApart (session.db.unblocked seeds) := by
  have hresolving : ∀ woken after, resolveWithin now seeds session = (.ok woken, after) → Resolving session.db after.db :=
    resolveWithin_ensures now session.db seeds session rfl
  constructor
  · rintro ⟨woken, after, hrun, -, -, -, hrows⟩
    have hadmitted : Statements.violates Query session.db = false := by simpa [Statements.violates] using hindex
    exact keysApart_of_rows (hresolving woken after hrun) (resolveWithin_admitted hadmitted hrun) hrows
  · intro hkeys
    obtain ⟨woken, after, hrun, ⟨-, hnet⟩, -⟩ := (resolveWithin_returns (net_sources hseeds now)
      (promotedIn_eq hedges hseeds now).subset).ok hkeys ⟨⟨hedges, id⟩, rfl⟩
    have hfinal : Final session.db after.db now seeds := ⟨hresolving woken after hrun, hnet⟩
    refine ⟨woken, after, hrun, fun extra => ?_, hfinal.mem_deps hedges hseeds, fun t hnone => hfinal.row_none hnone,
      fun t row hrow => hfinal.row hedges hseeds hrow⟩
    rw [← resolveWithin_fuel, hrun]

/-- A row of the samples. -/
def sampleRow (state : TaskState) : Row where
  queue := "q"
  type := ""
  state := state
  priority := 0
  payload := { id := "" }
  uniqueKey := none
  uniqueExpiresAt := none
  processAt := 0
  maxRetry := 0
  retried := 0
  lastError := ""
  retention := 0
  enqueuedAt := 0
  groupKey := ""
  expiresAt := none

/-- Two tasks under one key that cascade on each other, the first of them on an archived task too, and a task that
goes on when the second fails. -/
def cyclicDatabase : Database where
  tasks := ((((∅ : GoMap String Row).insert "a" (sampleRow .archived)).insert "t"
    { sampleRow .blocked with uniqueKey := some "k" }).insert "u"
    { sampleRow .blocked with uniqueKey := some "k" }).insert "v" (sampleRow .blocked)
  deps := [⟨"t", "a", 2⟩, ⟨"t", "u", 2⟩, ⟨"u", "t", 2⟩, ⟨"v", "u", 3⟩]

/-- The two tasks under one key have failed, so none of them is unblocked. -/
theorem cyclicDatabase_keysApart : cyclicDatabase.KeysApart (cyclicDatabase.unblocked ["a"]) := by
  have hclosed := cyclicDatabase.closed_smallest ["a"]
  have ha := hclosed.ended "a" (hclosed.seed "a" (.head _)) (.inl ⟨_, rfl, rfl⟩)
  have ht := hclosed.blocked "t" "a" ha (by decide) ⟨_, rfl, rfl⟩
  have hu := hclosed.blocked "u" "t" ht (by decide) ⟨_, rfl, rfl⟩
  have hkeyed : ∀ entry ∈ cyclicDatabase.tasks.entries, entry.2.uniqueKey ≠ none →
      indexed entry.2.state = false ∧ (entry.1 = "t" ∨ entry.1 = "u") := by decide
  intro t _ row _ key hrow _ henters _ hkey _
  obtain ⟨hstate, hid⟩ := hkeyed ⟨t, row⟩ (AList.mem_lookup_iff.mp hrow) (by rw [hkey]; rintro ⟨⟩)
  rcases henters with hindexed | ⟨-, -, -, hopen, -⟩
  · exact absurd (hstate.symm.trans hindexed) Bool.false_ne_true
  · rcases hid with rfl | rfl
    · exact absurd ht hopen
    · exact absurd hu hopen

/-- The cascade runs around the cycle and the fourth task is promoted. -/
theorem resolveWithin_least_fixpoint_cyclic :
    (cyclicDatabase.deps.map Edge.key).Nodup ∧ cyclicDatabase.indexKeys.Nodup ∧ cyclicDatabase.Seeds ["a"] ∧
      ∃ woken after, resolveWithin 4 ["a"] ⟨cyclicDatabase, []⟩ = (.ok woken, after) ∧
      (∀ edge, edge ∈ after.db.deps ↔ edge ∈ cyclicDatabase.deps ∧ ¬ cyclicDatabase.Lost ["a"] edge) ∧
      (after.db.tasks.lookup "u").map Row.state = some .canceled ∧ (after.db.tasks.lookup "v").map Row.state =
      some .pending := by
  have hseeds : cyclicDatabase.Seeds ["a"] := by
    intro t ht
    obtain rfl := List.mem_singleton.mp ht
    exact ⟨sampleRow .archived, rfl, rfl⟩
  obtain ⟨woken, after, hrun, -, hdeps, -, -⟩ := (resolveWithin_least_fixpoint 4 ["a"] ⟨cyclicDatabase, []⟩
    (by decide) (by decide) hseeds).mpr cyclicDatabase_keysApart
  refine ⟨by decide, by decide, hseeds, woken, after, hrun, hdeps, ?_⟩
  rw [show after = (resolveWithin 4 ["a"] ⟨cyclicDatabase, []⟩).2 from (congrArg Prod.snd hrun).symm]
  decide

/-- In a reachable content, two blocked tasks under one unique key wait on a completed task: the promotion of the
second is rejected, the resolution fails and both stay blocked. -/
theorem resolveWithin_fails_on_shared_key :
    let session : Session Database Query := ⟨(run (twoBlockedHolders.take 5)).db, []⟩
    (session.db.deps.map Edge.key).Nodup ∧ session.db.indexKeys.Nodup ∧
      (∀ edge ∈ session.db.deps, edge.onFailure = 1 ∨ edge.onFailure = 2 ∨ edge.onFailure = 3) ∧
      session.db.Seeds ["d"] ∧
      (∀ woken after, resolveWithin 4 ["d"] session ≠ (.ok woken, after)) ∧
      ((resolveDependents 4 .listed "d" session).2.db.tasks.lookup "t").map Row.state = some .blocked ∧
      ((resolveDependents 4 .listed "d" session).2.db.tasks.lookup "u").map Row.state = some .blocked := by
  intro session
  have hfails : (resolveWithin 4 ["d"] session).1.toBool = false := by decide
  refine ⟨by decide, by decide, by decide, ?_, ?_, by decide, by decide⟩
  · intro t ht
    obtain rfl := List.mem_singleton.mp ht
    have hstate : (session.db.tasks.lookup "d").any (fun row => terminal row.state) = true := by decide
    rwa [Option.any_eq_true] at hstate
  · intro woken after hrun
    rw [hrun] at hfails
    cases hfails

end Conveyor.Postgres
