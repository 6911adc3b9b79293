import Conveyor.Actors.Concurrency
import Conveyor.Actors.Credits

/-!
# What becomes of the tasks of a lease cycle

The loop over the leased tasks tries at most one gateway for each of them. `sends` lists the tries with the
entry of the gateway as it was picked, the failed ones too. A task is sent or it is held back, and what the
loop leaves of the credits, the gateways and the slots follows from the parts of a turn.
-/

namespace Conveyor

open Lib

/-- A try to send a leased task to the picked gateway. -/
structure Send where
  task : TaskEnvelope
  gateway : GatewayCredits
  failed : Bool

/-- The tries that reached their gateway. -/
def reached (sends : List Send) : List Send := sends.filter fun send => !send.failed

/-- What a try tells its gateway. -/
def Send.execute (leaseID : String) (expiresAt : Time) (send : Send) : GrainEffect :=
  .executeTask send.gateway.name send.task leaseID expiresAt

namespace QueueGrain

section Sends

variable (turn : GrainTurn) (leaseID : String) (expiresAt : Time) (tasks : List TaskEnvelope) (x : QueueGrain)

/-- The gateway that is tried for a task. -/
def tried (task : TaskEnvelope) : Option GatewayCredits :=
  if x.saturated task.id task.options.concurrencyKey then none
  else x.pickGateway.2.bind fun i => x.pickGateway.1.gateways[i]?

/-- The tries of the loop over leased tasks, in order. -/
def sends : Nat → List TaskEnvelope → QueueGrain → List Send
  | _, [], _ => []
  | index, task :: rest, x =>
    ((x.tried task).map fun gateway => ⟨task, gateway, turn.unreachable index⟩).toList ++
      sends (index + 1) rest (dispatchTask turn leaseID expiresAt index task x).1

/-- The tries of a lease cycle. -/
def cycleSends : List Send :=
  if x.paused then [] else sends turn leaseID expiresAt 0 tasks { x with leasing := false }

/-- The tasks of a lease cycle that are handed to the release path. -/
def cycleHeld : List TaskEnvelope :=
  if x.paused then tasks else (dispatchTasks turn leaseID expiresAt 0 tasks { x with leasing := false }).2.2

end Sends

variable {settings : Settings} {turn : GrainTurn} {leaseID : String} {expiresAt : Time} {tasks : List TaskEnvelope}
  {x x' : QueueGrain}

/-- A task is tried with a gateway that has a credit, or it is held back. -/
theorem dispatchTask_cases (turn : GrainTurn) (leaseID : String) (expiresAt : Time) (index : Nat)
    (task : TaskEnvelope) (x : QueueGrain) :
    x.tried task = none ∧ (dispatchTask turn leaseID expiresAt index task x).2 = none ∨
    ∃ gateway, x.tried task = some gateway ∧ 0 < gateway.credits ∧
      (turn.unreachable index = true ∧
          dispatchTask turn leaseID expiresAt index task x = (x.pickGateway.1.removeGateway gateway.name, none) ∨
        turn.unreachable index = false ∧ (dispatchTask turn leaseID expiresAt index task x).2 =
          some (.executeTask gateway.name task leaseID expiresAt)) := by
  rw [dispatchTask, tried]
  dsimp only
  split
  · exact .inl ⟨rfl, rfl⟩
  split
  · rename_i hpicked
    exact .inl ⟨by rw [hpicked]; rfl, rfl⟩
  · rename_i i hpicked
    obtain ⟨gateway, hget, _, -, hcredit⟩ := select_eligible hpicked
    replace hget : x.pickGateway.1.gateways[i]? = some gateway := hget
    refine .inr ⟨gateway, by rw [hpicked, Option.bind_some, hget], of_decide_eq_true hcredit, ?_⟩
    rw [hget]
    split
    · rename_i hunreachable
      exact .inl ⟨hunreachable, rfl⟩
    · rename_i hreachable
      exact .inr ⟨Bool.not_eq_true _ ▸ hreachable, rfl⟩

/-- How the loop distributes leased tasks. -/
structure Distributed (leaseID : String) (expiresAt : Time) (tasks : List TaskEnvelope) (sends : List Send)
    (x' : QueueGrain) (effects : List GrainEffect) (held : List TaskEnvelope) : Prop where
  effects : effects = (reached sends).map (Send.execute leaseID expiresAt)
  parted : ((reached sends).map Send.task ++ held).Perm tasks
  credit : ∀ send ∈ sends, 0 < send.gateway.credits
  dropped : ∀ send ∈ sends, send.failed = true → x'.account send.gateway.name = none

variable {S : GrainEffect → Prop} {effects : List GrainEffect}

theorem Part.distinct (h : Part turn S x x' effects)
    (hdistinct : DistinctNames x.gateways) : DistinctNames x'.gateways :=
  (@Part.spends turn x "" S x' effects h hdistinct).distinct

/-- A gateway that the loop forgot is not listed again by it. -/
theorem dispatchTasks_unlisted {name : String} (index : Nat) (hdistinct : DistinctNames x.gateways)
    (hnone : x.account name = none) : (dispatchTasks turn leaseID expiresAt index tasks x).1.account name = none :=
  ((@dispatchTasks_part turn (fun _ => True) leaseID expiresAt tasks (fun _ _ _ => trivial) index x).spends
    hdistinct).unlisted hnone

theorem dispatchTasks_distributed (index : Nat) (hdistinct : DistinctNames x.gateways) :
    Distributed leaseID expiresAt tasks (sends turn leaseID expiresAt index tasks x)
      (dispatchTasks turn leaseID expiresAt index tasks x).1 (dispatchTasks turn leaseID expiresAt index tasks x).2.1
      (dispatchTasks turn leaseID expiresAt index tasks x).2.2 := by
  induction tasks generalizing index x with
  | nil => exact ⟨rfl, .refl _, fun _ h => absurd h List.not_mem_nil, fun _ h => absurd h List.not_mem_nil⟩
  | cons task rest ih =>
    have hpart := @dispatchTask_part turn (fun _ => True) leaseID expiresAt task (fun _ => trivial) index x
    have hnames := hpart.distinct hdistinct
    have hlater := ih (index + 1) hnames
    rw [sends, dispatchTasks]
    dsimp only
    rcases dispatchTask_cases turn leaseID expiresAt index task x with
      ⟨htried, hheld⟩ | ⟨gateway, htried, hcredit, ⟨hfailed, hdispatch⟩ | ⟨hreachable, hsent⟩⟩
    · rw [htried, hheld]
      exact ⟨hlater.effects, List.perm_middle.trans (hlater.parted.cons task), hlater.credit, hlater.dropped⟩
    · rw [htried, hfailed, congrArg Prod.snd hdispatch]
      refine ⟨hlater.effects, List.perm_middle.trans (hlater.parted.cons task),
        List.forall_mem_cons.mpr ⟨hcredit, hlater.credit⟩, List.forall_mem_cons.mpr ⟨fun _ => ?_, hlater.dropped⟩⟩
      have hpicked : Part turn (fun _ => True) x x.pickGateway.1 [] := .pick x hasCredit
      refine dispatchTasks_unlisted _ hnames ?_
      rw [hdispatch]
      exact (accountIn_eraseP (hpicked.distinct hdistinct)).trans (if_pos rfl)
    · rw [htried, hreachable, hsent]
      exact ⟨congrArg _ hlater.effects, hlater.parted.cons task,
        List.forall_mem_cons.mpr ⟨hcredit, hlater.credit⟩, List.forall_mem_cons.mpr ⟨(by rintro ⟨⟩), hlater.dropped⟩⟩

/-- A slot is reserved only below the limit, or kept. -/
theorem Part.activeCount_le (h : Part turn S x x' effects) (hlimit : 0 < x.concurrencyLimit) (key : String) :
    x'.activeCount key ≤ max (x.activeCount key) x.concurrencyLimit := by
  induction h with
  | trans h _ ih ih' =>
    have hfirst := ih hlimit
    have hthen := ih' (h.limit ▸ hlimit)
    rw [h.limit] at hthen
    omega
  | @sendTask x i gateway task leaseID expiresAt hget hcredit hfree hsend =>
    rw [reserveSlot]
    split
    · exact le_max_left _ _
    rename_i hkey
    by_cases hholds : x.holdsSlot task.id task.options.concurrencyKey = true
    · rw [show (x.spendCredit i).holdsSlot task.id task.options.concurrencyKey = true from hholds]
      exact le_max_left _ _
    · rw [show (x.spendCredit i).holdsSlot task.id task.options.concurrencyKey = false from Bool.not_eq_true _ ▸ hholds]
      rcases eq_or_ne key task.options.concurrencyKey with rfl | heq
      · have hbelow : x.activeCount task.options.concurrencyKey < x.concurrencyLimit := by
          simpa [saturated, hkey, hholds, hlimit, activeCount] using hfree
        rw [activeCount, if_neg (by simp), AList.lookup_insert]
        exact le_max_of_le_right hbelow
      · rw [activeCount, if_neg (by simp), AList.lookup_insert_ne heq]
        exact le_max_left _ _
  | _ => exact le_max_left _ _

/-- A wake-up only leases. -/
theorem maybeLease_leases (settings : Settings) (turn : GrainTurn) (x : QueueGrain) :
    ∀ e ∈ (x.maybeLease settings turn).2, ∃ limit until_, e = .lease limit turn.newID until_ := by
  simp only [maybeLease]
  split
  · exact fun _ he => absurd he List.not_mem_nil
  split
  · exact List.forall_mem_singleton.mpr ⟨_, _, rfl⟩
  · exact fun _ he => absurd he List.not_mem_nil

/-- What a successful lease cycle emits: the tasks sent, the others in one release, and a next cycle. -/
theorem finishLeaseCycle_effects (hdistinct : DistinctNames x.gateways) :
    ∃ leases, (x.finishLeaseCycle settings turn leaseID expiresAt "" tasks).2 =
        (reached (cycleSends turn leaseID expiresAt tasks x)).map (Send.execute leaseID expiresAt) ++
          (if cycleHeld turn leaseID expiresAt tasks x = [] then []
            else releaseLeased turn leaseID (cycleHeld turn leaseID expiresAt tasks x)) ++ leases ∧
      ∀ e ∈ leases, ∃ limit until_, e = .lease limit turn.newID until_ := by
  have hnone : ∀ e ∈ ([] : List GrainEffect), ∃ limit until_, e = .lease limit turn.newID until_ :=
    fun _ he => absurd he List.not_mem_nil
  have hsent := (@dispatchTasks_distributed turn leaseID expiresAt tasks { x with leasing := false } 0 hdistinct).effects
  simp only [finishLeaseCycle, cycleSends, cycleHeld, ne_eq, not_true_eq_false, if_false]
  by_cases htasks : tasks = []
  · subst htasks
    exact ⟨[], by simp [sends, dispatchTasks, reached], hnone⟩
  rw [if_neg htasks]
  by_cases hpaused : x.paused = true
  · simp only [if_pos hpaused]
    exact ⟨[], by simp [reached, htasks], hnone⟩
  · simp only [if_neg hpaused]
    rw [← hsent]
    split
    · rename_i hidle
      rw [hidle]
      exact ⟨[], (List.append_nil _).symm, hnone⟩
    · exact ⟨_, rfl, maybeLease_leases _ _ _⟩

/-- What a lease cycle of an unpaused grain leaves of its gateways is what the loop leaves. -/
theorem finishLeaseCycle_gateways (hpaused : ¬ x.paused = true) :
    (x.finishLeaseCycle settings turn leaseID expiresAt "" tasks).1.gateways =
      (dispatchTasks turn leaseID expiresAt 0 tasks { x with leasing := false }).1.gateways := by
  simp only [finishLeaseCycle, ne_eq, not_true_eq_false, if_false, if_neg hpaused]
  split
  · rename_i hnone
    rw [hnone]
    rfl
  · split
    · rfl
    · simp only [maybeLease]
      split
      · rfl
      · split <;> rfl

/-- A successful lease cycle sends each of its tasks to one gateway with a credit or releases it, in one batch. -/
theorem finishLeaseCycle_accounts (settings : Settings) (turn : GrainTurn) (leaseID : String) (expiresAt : Time)
    (tasks : List TaskEnvelope) (x : QueueGrain) (hdistinct : DistinctNames x.gateways) (htasks : tasks.Nodup) :
    let after := x.finishLeaseCycle settings turn leaseID expiresAt "" tasks
    let tries := cycleSends turn leaseID expiresAt tasks x
    let held := cycleHeld turn leaseID expiresAt tasks x
    (∃ leases, after.2 = (reached tries).map (Send.execute leaseID expiresAt) ++
        (if held = [] then [] else releaseLeased turn leaseID held) ++ leases ∧
      ∀ e ∈ leases, ∃ limit until_, e = .lease limit turn.newID until_) ∧
    (∀ task, ((reached tries).map Send.task).count task + held.count task = if task ∈ tasks then 1 else 0) ∧
    (∀ send ∈ tries, 0 < send.gateway.credits) ∧
    (∀ name left, after.1.account name = some left → ∃ had, x.account name = some had ∧
      left.credits.toInt + dispatched name after.2 = had.credits.toInt) ∧
    (∀ send ∈ tries, send.failed = true → after.1.account send.gateway.name = none) ∧
    (0 < x.concurrencyLimit → ∀ key,
      after.1.activeCount key ≤ max (x.activeCount key) x.concurrencyLimit) := by
  have hpart := finishLeaseCycle_part settings turn leaseID expiresAt "" tasks x
  have hloop := @dispatchTasks_distributed turn leaseID expiresAt tasks { x with leasing := false } 0 hdistinct
  refine ⟨finishLeaseCycle_effects hdistinct, fun task => ?_, fun send hsend => ?_, fun name left hleft => ?_,
    fun send hsend hfailed => ?_, hpart.activeCount_le⟩
  · rw [← List.Nodup.count htasks, ← List.count_append, cycleSends, cycleHeld]
    by_cases hpaused : x.paused = true
    · simp only [if_pos hpaused]
      rfl
    · simp only [if_neg hpaused]
      exact hloop.parted.count_eq task
  · rw [cycleSends] at hsend
    split at hsend
    · cases hsend
    · exact hloop.credit send hsend
  · obtain ⟨had, hhad, -, hcredits⟩ := (hpart.spends hdistinct).kept left hleft
    exact ⟨had, hhad, hcredits⟩
  · rw [cycleSends] at hsend
    split at hsend
    · cases hsend
    rename_i hpaused
    rw [account, finishLeaseCycle_gateways hpaused]
    exact hloop.dropped send hsend hfailed

/-- With one credit for two tasks, the first is sent and the second released. -/
theorem finishLeaseCycle_accounts_oneCredit :
    let x : QueueGrain := { queue := "q", gateways := [{ name := "g", capacity := 1, credits := 1, weight := 1 }] }
    let tasks : List TaskEnvelope := [{ id := "a" }, { id := "b" }]
    (reached (cycleSends { now := 0 } "l" 0 tasks x)).map Send.task = [{ id := "a" }] ∧
      cycleHeld { now := 0 } "l" 0 tasks x = [{ id := "b" }] ∧
      ∀ task, ((reached (cycleSends { now := 0 } "l" 0 tasks x)).map Send.task).count task +
        (cycleHeld { now := 0 } "l" 0 tasks x).count task = if task ∈ tasks then 1 else 0 :=
  ⟨by decide, by decide, (finishLeaseCycle_accounts defaultSettings { now := 0 } "l" 0 _ _
    (by rw [DistinctNames]; decide) (by decide)).2.1⟩

end QueueGrain

end Conveyor
