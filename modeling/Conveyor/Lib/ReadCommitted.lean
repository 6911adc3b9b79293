import Mathlib.Data.List.Perm.Basic
import Mathlib.Logic.Function.Basic
import Mathlib.Logic.Relation
import Mathlib.Order.Basic

/-!
# Interleaved transactions under read committed

Transactions run statement by statement over rows of any kind. A statement sees what was committed before
it started, together with the transaction's own writes. A statement that writes first finds its target rows
in what it sees, and then takes the row locks one by one, in any order; a row that another transaction has
locked is waited for, and once the lock is taken the statement looks at the latest content of the row again.
An insertion waits in the same way, and leaves a row that is already there alone. Locks and writes are kept
until the transaction commits or is rolled back.
-/

namespace Conveyor.Lib.ReadCommitted

/-- The rows a statement sees. -/
abbrev View (K V : Type) := K → Option V

/-- A statement that locks rows. `change` gives the new content of a target row from its latest content;
without a new content the row is only locked. A limited statement may leave out targets. -/
structure Write (K V : Type) where
  targets : View K V → K → Bool
  change : View K V → K → Option V → Option (Option V)
  limited : Bool := false

/-- The next statement of a transaction, and where it goes on. An insertion goes on with whether it has
inserted the row. -/
inductive Statement (K V L : Type) where
  | read (resume : View K V → L)
  | write (write : Write K V) (resume : List (K × Option V) → L)
  | insert (key : K) (content : V) (resume : Bool → L)
  | commit (next : L)
  | finished

/-- The statement with its points placed among others. -/
def Statement.map {K V L M : Type} (f : L → M) : Statement K V L → Statement K V M
  | .read resume => .read fun rows => f (resume rows)
  | .write w resume => .write w fun affected => f (resume affected)
  | .insert key content resume => .insert key content fun inserted => f (resume inserted)
  | .commit next => .commit (f next)
  | .finished => .finished

section Map

variable {K V L M : Type} {f : L → M} {statement : Statement K V L}

/-- A renamed read is a read. -/
theorem Statement.map_eq_read {resume : View K V → M} (h : statement.map f = .read resume) :
    ∃ resume', statement = .read resume' ∧ resume = fun rows => f (resume' rows) := by
  cases statement <;> cases h
  exact ⟨_, rfl, rfl⟩

/-- A renamed write is the same write. -/
theorem Statement.map_eq_write {w : Write K V} {resume : List (K × Option V) → M}
    (h : statement.map f = .write w resume) :
    ∃ resume', statement = .write w resume' ∧ resume = fun affected => f (resume' affected) := by
  cases statement <;> cases h
  exact ⟨_, rfl, rfl⟩

/-- A renamed insertion inserts the same row. -/
theorem Statement.map_eq_insert {k : K} {content : V} {resume : Bool → M}
    (h : statement.map f = .insert k content resume) :
    ∃ resume', statement = .insert k content resume' ∧ resume = fun inserted => f (resume' inserted) := by
  cases statement <;> cases h
  exact ⟨_, rfl, rfl⟩

/-- A renamed commit is a commit. -/
theorem Statement.map_eq_commit {next : M} (h : statement.map f = .commit next) :
    ∃ next', statement = .commit next' ∧ next = f next' := by
  cases statement <;> cases h
  exact ⟨_, rfl, rfl⟩

end Map

/-- A writing statement in progress: what it saw when it started, the rows it has yet to lock, and the rows
it has changed. -/
structure Working (K V : Type) where
  snapshot : View K V
  pending : List K
  affected : List (K × Option V)

/-- One transaction: where its program stands, and what it has not committed. -/
structure Tx (K V L : Type) where
  point : L
  working : Option (Working K V) := none
  writes : K → Option (Option V) := fun _ => none
  aborted : Bool := false

/-- The committed rows, the owners of the row locks, and the transactions. -/
structure State (I K V L : Type) where
  committed : View K V
  owner : K → Option I := fun _ => none
  tx : I → Tx K V L

/-- The row keys that can occur, and the programs of the transactions. -/
structure System (I K V L : Type) where
  keys : List K
  program : I → L → Statement K V L

/-- One step of one transaction. A statement that starts is given the order in which it meets its rows. -/
inductive Event (I K : Type) where
  | read (i : I)
  | start (i : I) (scan : List K)
  | row (i : I)
  | skip (i : I)
  | finish (i : I)
  | insert (i : I)
  | commit (i : I)
  | abort (i : I)

variable {I K V L : Type}

/-- What the transaction sees: its own writes over the committed rows. -/
def State.view (s : State I K V L) (i : I) : View K V :=
  fun k => ((s.tx i).writes k).getD (s.committed k)

variable [DecidableEq I]

/-- Replace one transaction. -/
def State.setTx (s : State I K V L) (i : I) (tx : Tx K V L) : State I K V L :=
  { s with tx := Function.update s.tx i tx }

/-- The locks without those of a transaction. -/
def State.released (s : State I K V L) (i : I) : K → Option I :=
  fun k => if s.owner k = some i then none else s.owner k

/-- The transaction commits and goes on. -/
def State.commitTx (s : State I K V L) (i : I) (next : L) : State I K V L :=
  { committed := s.view i
    owner := s.released i
    tx := Function.update s.tx i { point := next } }

/-- The transaction is rolled back. -/
def State.abortTx (s : State I K V L) (i : I) : State I K V L :=
  { s with
    owner := s.released i
    tx := Function.update s.tx i { point := (s.tx i).point, aborted := true } }

section Updates

variable (s : State I K V L) {i j : I} {k : K}

/-- Replacing a transaction commits nothing. -/
@[simp] theorem State.setTx_committed (tx : Tx K V L) : (s.setTx i tx).committed = s.committed := rfl

/-- Replacing a transaction moves no lock. -/
@[simp] theorem State.setTx_owner (tx : Tx K V L) : (s.setTx i tx).owner = s.owner := rfl

/-- The transaction is replaced. -/
@[simp] theorem State.setTx_tx_self (tx : Tx K V L) : (s.setTx i tx).tx i = tx := Function.update_self ..

/-- The other transactions stay. -/
@[simp] theorem State.setTx_tx_of_ne (h : j ≠ i) (tx : Tx K V L) : (s.setTx i tx).tx j = s.tx j :=
  Function.update_of_ne h ..

/-- A transaction that keeps its writes keeps every view. -/
theorem State.setTx_view {tx : Tx K V L} (hwrites : tx.writes = (s.tx i).writes) (j : I) :
    (s.setTx i tx).view j = s.view j := by
  funext k
  rcases eq_or_ne j i with rfl | hj
  · simp [view, hwrites]
  · simp [view, hj]

/-- A commit leaves no writes behind. -/
@[simp] theorem State.commitTx_tx_self (next : L) : (s.commitTx i next).tx i = { point := next } :=
  Function.update_self ..

/-- A commit leaves the other transactions. -/
@[simp] theorem State.commitTx_tx_of_ne (h : j ≠ i) (next : L) : (s.commitTx i next).tx j = s.tx j :=
  Function.update_of_ne h ..

/-- A commit makes the writes visible. -/
@[simp] theorem State.commitTx_committed (next : L) : (s.commitTx i next).committed = s.view i := rfl

/-- A rollback drops the writes. -/
@[simp] theorem State.abortTx_tx_self :
    (s.abortTx i).tx i = { point := (s.tx i).point, aborted := true } := Function.update_self ..

/-- A rollback leaves the other transactions. -/
@[simp] theorem State.abortTx_tx_of_ne (h : j ≠ i) : (s.abortTx i).tx j = s.tx j := Function.update_of_ne h ..

/-- A rollback commits nothing. -/
@[simp] theorem State.abortTx_committed : (s.abortTx i).committed = s.committed := rfl

/-- The locks that stay are those of the other transactions. -/
theorem State.released_eq_some {j : I} : s.released i k = some j ↔ s.owner k = some j ∧ j ≠ i := by
  rw [released]
  split_ifs with howner
  · rw [howner]
    simp only [Option.some.injEq, false_iff, not_and, not_not]
    exact fun h => h.symm
  · rename_i howner
    refine (and_iff_left_of_imp fun h hj => howner ?_).symm
    rw [h, hj]

end Updates

variable [DecidableEq K]

/-- The transaction has locked a row, and goes on with its other targets. -/
def State.lockRow (s : State I K V L) (i : I) (w : Write K V) (snapshot : View K V) (k : K) (rest : List K)
    (affected : List (K × Option V)) : State I K V L :=
  match w.change snapshot k (s.view i k) with
  | none =>
    { s with
      owner := Function.update s.owner k (some i)
      tx := Function.update s.tx i { s.tx i with working := some ⟨snapshot, rest, affected⟩ } }
  | some v =>
    { s with
      owner := Function.update s.owner k (some i)
      tx := Function.update s.tx i
        { s.tx i with
          working := some ⟨snapshot, rest, affected ++ [(k, v)]⟩
          writes := Function.update (s.tx i).writes k (some v) } }

/-- The transaction inserts a row, unless it is already there. -/
def State.insertRow (s : State I K V L) (i : I) (k : K) (content : V) (resume : Bool → L) : State I K V L :=
  match s.view i k with
  | none =>
    { s with
      owner := Function.update s.owner k (some i)
      tx := Function.update s.tx i
        { s.tx i with
          point := resume true
          writes := Function.update (s.tx i).writes k (some (some content)) } }
  | some _ => s.setTx i { s.tx i with point := resume false }

section RowLocks

variable (s : State I K V L) {i j : I} {k : K}
  (w : Write K V) (snapshot : View K V) (rest : List K) (affected : List (K × Option V))

/-- A write is not committed at once. -/
@[simp] theorem State.lockRow_committed : (s.lockRow i w snapshot k rest affected).committed = s.committed := by
  rw [lockRow]
  split <;> rfl

/-- The transaction holds the lock. -/
@[simp] theorem State.lockRow_owner :
    (s.lockRow i w snapshot k rest affected).owner = Function.update s.owner k (some i) := by
  rw [lockRow]
  split <;> rfl

/-- A lock leaves the other transactions. -/
@[simp] theorem State.lockRow_tx_of_ne (h : j ≠ i) : (s.lockRow i w snapshot k rest affected).tx j = s.tx j := by
  rw [lockRow]
  split <;> exact Function.update_of_ne h ..

/-- The transaction stays in its statement. -/
@[simp] theorem State.lockRow_point : ((s.lockRow i w snapshot k rest affected).tx i).point = (s.tx i).point := by
  rw [lockRow]
  split <;> simp

/-- A lock rolls nothing back. -/
@[simp] theorem State.lockRow_aborted : ((s.lockRow i w snapshot k rest affected).tx i).aborted = (s.tx i).aborted := by
  rw [lockRow]
  split <;> simp

/-- A statement records the rows it has changed. -/
theorem State.lockRow_working :
    ((s.lockRow i w snapshot k rest affected).tx i).working =
      some ⟨snapshot, rest, affected ++ ((w.change snapshot k (s.view i k)).map fun v => (k, v)).toList⟩ := by
  rw [lockRow]
  split <;> simp [*]

/-- Only the locked row is written, if the statement changes it. -/
theorem State.lockRow_writes (k' : K) :
    ((s.lockRow i w snapshot k rest affected).tx i).writes k' =
      if k' = k then (w.change snapshot k (s.view i k)).or ((s.tx i).writes k) else (s.tx i).writes k' := by
  rw [lockRow]
  split
  · rename_i hchange
    simp only [Function.update_self, hchange, Option.none_or]
    split
    · rename_i hk
      rw [hk]
    · rfl
  · rename_i v hchange
    simp [hchange, Function.update_apply]

end RowLocks

section Insertions

variable (s : State I K V L) {i j : I} {k : K} (content : V) (resume : Bool → L)

/-- An insertion is not committed at once. -/
@[simp] theorem State.insertRow_committed : (s.insertRow i k content resume).committed = s.committed := by
  rw [insertRow]
  split <;> rfl

/-- An insertion leaves the other transactions. -/
@[simp] theorem State.insertRow_tx_of_ne (h : j ≠ i) : (s.insertRow i k content resume).tx j = s.tx j := by
  rw [insertRow]
  split
  · exact Function.update_of_ne h ..
  · exact s.setTx_tx_of_ne h _

/-- An insertion takes the row it inserts, and no other. -/
theorem State.insertRow_owner :
    (s.insertRow i k content resume).owner =
      if s.view i k = none then Function.update s.owner k (some i) else s.owner := by
  rw [insertRow]
  split <;> simp [*]

/-- An insertion reports whether the row was new. -/
theorem State.insertRow_tx :
    (s.insertRow i k content resume).tx i =
      if s.view i k = none then
        { s.tx i with
          point := resume true
          writes := Function.update (s.tx i).writes k (some (some content)) }
      else { s.tx i with point := resume false } := by
  rw [insertRow]
  split <;> simp [*]

/-- Only a new row is written. -/
theorem State.insertRow_writes (k' : K) :
    ((s.insertRow i k content resume).tx i).writes k' =
      if s.view i k = none ∧ k' = k then some (some content) else (s.tx i).writes k' := by
  rw [insertRow_tx]
  by_cases hnone : s.view i k = none <;> simp [hnone, Function.update_apply]

end Insertions

namespace System

variable (sys : System I K V L)

/-- The step of an event, if the transaction can take it. -/
def advance (s : State I K V L) : Event I K → Option (State I K V L)
  | .read i =>
    match (s.tx i).aborted, (s.tx i).working, sys.program i (s.tx i).point with
    | false, none, .read resume => some (s.setTx i { s.tx i with point := resume (s.view i) })
    | _, _, _ => none
  | .start i scan =>
    match (s.tx i).aborted, (s.tx i).working, sys.program i (s.tx i).point with
    | false, none, .write w _ =>
      if scan.isPerm (sys.keys.filter (w.targets (s.view i))) then
        some (s.setTx i { s.tx i with working := some ⟨s.view i, scan, []⟩ })
      else none
    | _, _, _ => none
  | .row i =>
    match (s.tx i).working, sys.program i (s.tx i).point with
    | some ⟨snapshot, k :: rest, affected⟩, .write w _ =>
      if s.owner k = none ∨ s.owner k = some i then some (s.lockRow i w snapshot k rest affected) else none
    | _, _ => none
  | .skip i =>
    match (s.tx i).working, sys.program i (s.tx i).point with
    | some ⟨snapshot, _ :: rest, affected⟩, .write w _ =>
      if w.limited then some (s.setTx i { s.tx i with working := some ⟨snapshot, rest, affected⟩ }) else none
    | _, _ => none
  | .finish i =>
    match (s.tx i).working, sys.program i (s.tx i).point with
    | some ⟨_, [], affected⟩, .write _ resume =>
      some (s.setTx i { s.tx i with point := resume affected, working := none })
    | _, _ => none
  | .insert i =>
    match (s.tx i).aborted, (s.tx i).working, sys.program i (s.tx i).point with
    | false, none, .insert k content resume =>
      if s.owner k = none ∨ s.owner k = some i then some (s.insertRow i k content resume) else none
    | _, _, _ => none
  | .commit i =>
    match (s.tx i).aborted, (s.tx i).working, sys.program i (s.tx i).point with
    | false, none, .commit next => some (s.commitTx i next)
    | _, _, _ => none
  | .abort i =>
    match (s.tx i).aborted, sys.program i (s.tx i).point with
    | true, _ | _, .finished => none
    | _, _ => some (s.abortTx i)

/-- The state after an interleaving of steps. -/
def exec (s : State I K V L) : List (Event I K) → Option (State I K V L)
  | [] => some s
  | event :: rest => (sys.advance s event).bind fun next => exec next rest

/-- What one step of transaction `i` can do. -/
inductive Moves (i : I) (s : State I K V L) : State I K V L → Prop where
  | read {resume : View K V → L} (hlive : (s.tx i).aborted = false) (hidle : (s.tx i).working = none)
      (hprogram : sys.program i (s.tx i).point = .read resume) :
      Moves i s (s.setTx i { s.tx i with point := resume (s.view i) })
  | start {w : Write K V} {resume : List (K × Option V) → L} {scan : List K}
      (hlive : (s.tx i).aborted = false) (hidle : (s.tx i).working = none)
      (hprogram : sys.program i (s.tx i).point = .write w resume)
      (hscan : scan.Perm (sys.keys.filter (w.targets (s.view i)))) :
      Moves i s (s.setTx i { s.tx i with working := some ⟨s.view i, scan, []⟩ })
  | row {w : Write K V} {resume : List (K × Option V) → L} {snapshot : View K V} {k : K} {rest : List K}
      {affected : List (K × Option V)}
      (hworking : (s.tx i).working = some ⟨snapshot, k :: rest, affected⟩)
      (hprogram : sys.program i (s.tx i).point = .write w resume)
      (hfree : s.owner k = none ∨ s.owner k = some i) : Moves i s (s.lockRow i w snapshot k rest affected)
  | skip {w : Write K V} {resume : List (K × Option V) → L} {snapshot : View K V} {k : K} {rest : List K}
      {affected : List (K × Option V)}
      (hworking : (s.tx i).working = some ⟨snapshot, k :: rest, affected⟩)
      (hprogram : sys.program i (s.tx i).point = .write w resume) (hlimited : w.limited = true) :
      Moves i s (s.setTx i { s.tx i with working := some ⟨snapshot, rest, affected⟩ })
  | finish {w : Write K V} {resume : List (K × Option V) → L} {snapshot : View K V}
      {affected : List (K × Option V)} (hworking : (s.tx i).working = some ⟨snapshot, [], affected⟩)
      (hprogram : sys.program i (s.tx i).point = .write w resume) :
      Moves i s (s.setTx i { s.tx i with point := resume affected, working := none })
  | insert {k : K} {content : V} {resume : Bool → L} (hlive : (s.tx i).aborted = false)
      (hidle : (s.tx i).working = none) (hprogram : sys.program i (s.tx i).point = .insert k content resume)
      (hfree : s.owner k = none ∨ s.owner k = some i) : Moves i s (s.insertRow i k content resume)
  | commit {next : L} (hlive : (s.tx i).aborted = false) (hidle : (s.tx i).working = none)
      (hprogram : sys.program i (s.tx i).point = .commit next) : Moves i s (s.commitTx i next)
  | abort (hlive : (s.tx i).aborted = false) (hopen : sys.program i (s.tx i).point ≠ .finished) :
      Moves i s (s.abortTx i)

variable {sys}

/-- Every step is one of the moves of one transaction. -/
theorem advance_moves {s s' : State I K V L} {event : Event I K} (h : sys.advance s event = some s') :
    ∃ i, sys.Moves i s s' := by
  cases event with
  | read i =>
    refine ⟨i, ?_⟩
    simp only [advance] at h
    split at h
    · rename_i hlive hidle hprogram
      cases h
      exact .read hlive hidle hprogram
    · cases h
  | start i scan =>
    refine ⟨i, ?_⟩
    simp only [advance] at h
    split at h
    · rename_i hlive hidle hprogram
      split at h
      · rename_i hscan
        cases h
        exact .start hlive hidle hprogram (List.isPerm_iff.mp hscan)
      · cases h
    · cases h
  | row i =>
    refine ⟨i, ?_⟩
    simp only [advance] at h
    split at h
    · rename_i hworking hprogram
      split at h
      · rename_i hfree
        cases h
        exact .row hworking hprogram hfree
      · cases h
    · cases h
  | skip i =>
    refine ⟨i, ?_⟩
    simp only [advance] at h
    split at h
    · rename_i hworking hprogram
      split at h
      · rename_i hlimited
        cases h
        exact .skip hworking hprogram hlimited
      · cases h
    · cases h
  | finish i =>
    refine ⟨i, ?_⟩
    simp only [advance] at h
    split at h
    · rename_i hworking hprogram
      cases h
      exact .finish hworking hprogram
    · cases h
  | insert i =>
    refine ⟨i, ?_⟩
    simp only [advance] at h
    split at h
    · rename_i hlive hidle hprogram
      split at h
      · rename_i hfree
        cases h
        exact .insert hlive hidle hprogram hfree
      · cases h
    · cases h
  | commit i =>
    refine ⟨i, ?_⟩
    simp only [advance] at h
    split at h
    · rename_i hlive hidle hprogram
      cases h
      exact .commit hlive hidle hprogram
    · cases h
  | abort i =>
    refine ⟨i, ?_⟩
    simp only [advance] at h
    split at h
    · cases h
    · cases h
    · rename_i hlive hopen
      cases h
      exact .abort (Bool.eq_false_iff.mpr hlive) hopen

/-- A transaction that has finished does not move. -/
theorem Moves.not_finished {i : I} {s s' : State I K V L} (h : sys.Moves i s s') :
    sys.program i (s.tx i).point ≠ .finished := by
  intro hfinished
  cases h with
  | abort _ hopen => exact hopen hfinished
  | read _ _ hprogram | start _ _ hprogram | row _ hprogram | skip _ hprogram | finish _ hprogram
  | insert _ _ hprogram | commit _ _ hprogram =>
    rw [hfinished] at hprogram
    cases hprogram

/-- A move leaves the other transactions alone. -/
theorem Moves.tx_of_ne {i j : I} {s s' : State I K V L} (h : sys.Moves i s s') (hj : j ≠ i) : s'.tx j = s.tx j := by
  cases h <;> simp [hj]

/-- A move neither takes nor gives the locks of another transaction. -/
theorem Moves.owner_of_ne {i j : I} {s s' : State I K V L} (h : sys.Moves i s s') (hj : j ≠ i) (k : K) :
    s'.owner k = some j ↔ s.owner k = some j := by
  have htaken : ∀ k', s.owner k' = none ∨ s.owner k' = some i →
      (Function.update s.owner k' (some i) k = some j ↔ s.owner k = some j) := by
    intro k' hfree
    rw [Function.update_apply]
    split_ifs with hk
    · subst hk
      rcases hfree with howner | howner <;> simp [howner, Ne.symm hj]
    · exact .rfl
  cases h with
  | row _ _ hfree =>
    rw [State.lockRow_owner]
    exact htaken _ hfree
  | insert _ _ _ hfree =>
    rw [State.insertRow_owner]
    split
    · exact htaken _ hfree
    · exact .rfl
  | commit => exact s.released_eq_some.trans (and_iff_left hj)
  | abort => exact s.released_eq_some.trans (and_iff_left hj)
  | _ => exact .rfl

/-- A move commits what the transaction sees, or nothing. -/
theorem Moves.committed {i : I} {s s' : State I K V L} (h : sys.Moves i s s') :
    s'.committed = s.committed ∨ s'.committed = s.view i := by
  cases h with
  | commit => exact .inr rfl
  | row | insert => exact .inl (by simp)
  | _ => exact .inl rfl

/-- Where an uncommitted write of a transaction comes from: an earlier step, its statement, or its insertion. -/
inductive Written (sys : System I K V L) (i : I) (s : State I K V L) (k : K) (content : Option V) : Prop where
  | kept (h : (s.tx i).writes k = some content)
  | changed {w : Write K V} {resume : List (K × Option V) → L} {snapshot : View K V} {rest : List K}
      {affected : List (K × Option V)} (hworking : (s.tx i).working = some ⟨snapshot, k :: rest, affected⟩)
      (hprogram : sys.program i (s.tx i).point = .write w resume)
      (hchange : w.change snapshot k (s.view i k) = some content)
  | inserted {v : V} {resume : Bool → L} (hprogram : sys.program i (s.tx i).point = .insert k v resume)
      (hcontent : content = some v)

/-- A transaction with an uncommitted write has not just committed. -/
theorem Moves.written {i : I} {s s' : State I K V L} (h : sys.Moves i s s') {k : K} {content : Option V}
    (hcontent : (s'.tx i).writes k = some content) : s'.committed = s.committed ∧ sys.Written i s k content := by
  cases h with
  | @row w _ snapshot k' rest affected hworking hprogram =>
    refine ⟨s.lockRow_committed .., ?_⟩
    rw [State.lockRow_writes] at hcontent
    split at hcontent
    · rename_i hk
      subst hk
      cases hchange : w.change snapshot k (s.view i k) with
      | none =>
        rw [hchange, Option.none_or] at hcontent
        exact .kept hcontent
      | some v =>
        rw [hchange, Option.some_or] at hcontent
        exact .changed hworking hprogram (hchange.trans hcontent)
    · exact .kept hcontent
  | insert _ _ hprogram =>
    refine ⟨s.insertRow_committed .., ?_⟩
    rw [State.insertRow_writes] at hcontent
    split at hcontent
    · rename_i hinserted
      exact .inserted (hinserted.2 ▸ hprogram) (Option.some.inj hcontent).symm
    · exact .kept hcontent
  | commit | abort => simp at hcontent
  | read | start | skip | finish => exact ⟨rfl, .kept (by simpa using hcontent)⟩

variable {events : List (Event I K)}

/-- What holds at the start and is kept by every move from a state that satisfies a condition holds after every
interleaving along which the condition holds. -/
theorem exec_induction_along {C P : State I K V L → Prop} {s s' : State I K V L}
    (hstart : P s) (hmoves : ∀ i s s', C s → P s → sys.Moves i s s' → P s')
    (hcond : ∀ before next, before <+: events → sys.exec s before = some next → C next)
    (h : sys.exec s events = some s') : P s' := by
  induction events generalizing s with
  | nil =>
    cases h
    exact hstart
  | cons event rest ih =>
    obtain ⟨next, hnext, hrest⟩ := Option.bind_eq_some_iff.mp h
    obtain ⟨i, hmove⟩ := advance_moves hnext
    refine ih (hmoves i s next (hcond [] s (List.nil_prefix) rfl) hstart hmove) (fun before last hbefore hlast => ?_) hrest
    refine hcond (event :: before) last (List.cons_prefix_cons.mpr ⟨rfl, hbefore⟩) ?_
    rw [exec, hnext]
    exact hlast

/-- What holds at the start and is kept by every move holds after every interleaving. -/
theorem exec_induction {P : State I K V L → Prop} {s s' : State I K V L} (hstart : P s)
    (hmoves : ∀ i s s', P s → sys.Moves i s s' → P s') (h : sys.exec s events = some s') : P s' :=
  exec_induction_along (C := fun _ => True) hstart (fun i s s' _ => hmoves i s s') (fun _ _ _ _ => trivial) h

section Locks

/-- Every row with an uncommitted write is locked by the transaction that wrote it. -/
def Locked (s : State I K V L) : Prop := ∀ i k, (s.tx i).writes k ≠ none → s.owner k = some i

/-- Every move keeps the rows with uncommitted writes locked. -/
theorem Locked.moves {i : I} {s s' : State I K V L} (h : Locked s) (hmove : sys.Moves i s s') : Locked s' := by
  intro j k hwrites
  rcases eq_or_ne j i with rfl | hj
  · cases hmove with
    | read => exact h j k (by simpa using hwrites)
    | start => exact h j k (by simpa using hwrites)
    | @row w _ snapshot k' rest affected =>
      rw [State.lockRow_owner, Function.update_apply]
      rw [State.lockRow_writes] at hwrites
      split
      · rfl
      · rename_i hk
        rw [if_neg hk] at hwrites
        exact h j k hwrites
    | skip => exact h j k (by simpa using hwrites)
    | finish => exact h j k (by simpa using hwrites)
    | @insert k' content resume =>
      rw [State.insertRow_writes] at hwrites
      rw [State.insertRow_owner]
      by_cases hnone : s.view j k' = none
      · rw [if_pos hnone, Function.update_apply]
        split
        · rfl
        · rename_i hk
          rw [if_neg fun hinserted => hk hinserted.2] at hwrites
          exact h j k hwrites
      · rw [if_neg hnone]
        rw [if_neg fun hinserted => hnone hinserted.1] at hwrites
        exact h j k hwrites
    | commit => simp at hwrites
    | abort => simp at hwrites
  · rw [hmove.tx_of_ne hj] at hwrites
    exact (hmove.owner_of_ne hj k).mpr (h j k hwrites)

/-- The row a transaction is about to lock. -/
def Wants (s : State I K V L) (i : I) (k : K) : Prop :=
  ∃ snapshot rest affected, (s.tx i).working = some ⟨snapshot, k :: rest, affected⟩

/-- The transaction waits for a row lock of another one. -/
def WaitsFor (s : State I K V L) (i j : I) : Prop := i ≠ j ∧ ∃ k, Wants s i k ∧ s.owner k = some j

omit [DecidableEq I] [DecidableEq K] in
/-- A transaction waits for one row at a time. -/
theorem Wants.unique {s : State I K V L} {i : I} {k k' : K} (h : Wants s i k) (h' : Wants s i k') : k = k' := by
  obtain ⟨snapshot, rest, affected, h⟩ := h
  obtain ⟨snapshot', rest', affected', h'⟩ := h'
  rw [h, Option.some.injEq, Working.mk.injEq, List.cons.injEq] at h'
  exact h'.2.1.1

omit [DecidableEq I] [DecidableEq K] in
/-- If the row a transaction waits for always ranks below the row its owner waits for, no transactions wait
for each other in a cycle. -/
theorem no_cycle {N : Type} [Preorder N] {s : State I K V L} {rank : K → N}
    (hrank : ∀ i j l k k', i ≠ j → Wants s i k → s.owner k = some j → j ≠ l → Wants s j k' →
      s.owner k' = some l → rank k < rank k') (i : I) : ¬ Relation.TransGen (WaitsFor s) i i := by
  have hstep : ∀ j l m k k', WaitsFor s j l → WaitsFor s l m → Wants s j k → Wants s l k' →
      rank k < rank k' := by
    rintro j l m k k' ⟨hj, k₁, hwants, howner⟩ ⟨hl, k₂, hwants', howner'⟩ hk hk'
    rw [hk.unique hwants, hk'.unique hwants']
    exact hrank j l m k₁ k₂ hj hwants howner hl hwants' howner'
  have hpath : ∀ j, Relation.TransGen (WaitsFor s) i j → ∀ l k k', WaitsFor s j l → Wants s i k →
      Wants s j k' → rank k < rank k' := by
    intro j hij
    induction hij with
    | single hfirst => exact fun l k k' hlast => hstep i _ l k k' hfirst hlast
    | @tail m j _ hlast ih =>
      intro l k k' hnext hk hk'
      have ⟨_, k₁, hwants, _⟩ := hlast
      exact (ih j k k₁ hlast hk hwants).trans (hstep m j l k₁ k' hlast hnext hwants hk')
  intro hcycle
  obtain ⟨l, hfirst, -⟩ := Relation.TransGen.head'_iff.mp hcycle
  have ⟨_, k, hwants, _⟩ := hfirst
  exact lt_irrefl _ (hpath i hcycle l k k hfirst hwants hwants)

end Locks

section Contents

/-- What the programs write stays within bounds: `C` bounds the contents of the rows, `W` what is written
into them. -/
structure Bounds (sys : System I K V L) (C W : K → Option V → Prop) : Prop where
  content : ∀ k v, W k v → C k v
  insert : ∀ i p k v resume, sys.program i p = .insert k v resume → W k (some v)
  change : ∀ i p w resume, sys.program i p = .write w resume → ∀ snapshot k latest v, C k latest →
    w.change snapshot k latest = some v → W k v

/-- Committed rows and uncommitted writes are within the bounds. -/
structure Within (C W : K → Option V → Prop) (s : State I K V L) : Prop where
  committed : ∀ k, C k (s.committed k)
  writes : ∀ i k v, (s.tx i).writes k = some v → W k v

variable {C W : K → Option V → Prop} {s s' : State I K V L}

omit [DecidableEq I] [DecidableEq K] in
/-- A transaction sees no rows beyond the listed ones. -/
theorem Within.view (hbounds : sys.Bounds C W) (h : Within C W s) (i : I) (k : K) : C k (s.view i k) := by
  rw [State.view]
  cases hwrites : (s.tx i).writes k with
  | none => exact h.committed k
  | some v => exact hbounds.content k v (h.writes i k v hwrites)

/-- No move writes beyond the listed rows. -/
theorem Within.moves (hbounds : sys.Bounds C W) {i : I} (h : Within C W s) (hmove : sys.Moves i s s') :
    Within C W s' := by
  refine ⟨fun k => ?_, fun j k v hv => ?_⟩
  · rcases hmove.committed with hsame | hview
    · rw [hsame]
      exact h.committed k
    · rw [hview]
      exact h.view hbounds i k
  · rcases eq_or_ne j i with rfl | hj
    · cases (hmove.written hv).2 with
      | kept hold => exact h.writes j k v hold
      | changed _ hprogram hchange => exact hbounds.change j _ _ _ hprogram _ k _ v (h.view hbounds j k) hchange
      | inserted hprogram hcontent =>
        rw [hcontent]
        exact hbounds.insert j _ k _ _ hprogram
    · rw [hmove.tx_of_ne hj] at hv
      exact h.writes j k v hv

end Contents

end System

end Conveyor.Lib.ReadCommitted
