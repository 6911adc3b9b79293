import Conveyor.Actors.QueueGrain

/-!
# The parts of a turn of a grain

A turn first notes what its message says. What follows is made of a few parts: the accumulators of the
round-robin move, an unreachable gateway is dropped, a leased task or batch is sent for a credit, a lease
cycle starts while none is under way, or something is told that changes at most the pause flag. What a
turn may emit, spend and lease follows from the parts, whatever the message was.
-/

namespace Conveyor

open Lib

/-- What a turn of a grain may emit for a message. -/
inductive GrainEmits (turn : GrainTurn) : GrainMessage → GrainEffect → Prop where
  | lease {message : GrainMessage} {limit : Int} {expiresAt : Time} :
      GrainEmits turn message (.lease limit turn.newID expiresAt)
  | leaseGroup {message : GrainMessage} {group type : String} {limit : Int} {expiresAt : Time} :
      GrainEmits turn message (.leaseGroup group type limit turn.newID expiresAt)
  | release {message : GrainMessage} {leaseID : String} {tasks : List TaskEnvelope} :
      GrainEmits turn message (.release leaseID tasks)
  | executeTask {gateway leaseID error : String} {expiresAt : Time} {task : TaskEnvelope}
      {tasks : List TaskEnvelope} (htask : task ∈ tasks) :
      GrainEmits turn (.leaseCycleCompleted leaseID expiresAt error tasks)
        (.executeTask gateway task leaseID expiresAt)
  | executeBatch {gateway leaseID group type error : String} {expiresAt : Time}
      {tasks : List TaskEnvelope} (hne : tasks ≠ []) :
      GrainEmits turn (.groupLeaseCompleted leaseID expiresAt group type error tasks)
        (.executeBatch gateway tasks leaseID expiresAt group)
  | cancelActive {message : GrainMessage} {gateway taskID : String} :
      GrainEmits turn message (.cancelActive gateway taskID)
  | setPaused {message : GrainMessage} {paused : Bool} : GrainEmits turn message (.setPaused paused)

/-- An effect that neither leases nor dispatches. -/
def GrainEffect.quiet : GrainEffect → Bool
  | .release .. | .cancelActive .. | .setPaused .. => true
  | _ => false

variable {x' : QueueGrain} {effects : List GrainEffect}

namespace QueueGrain

/-- What a message says, noted before anything is leased or sent. -/
def noted (x : QueueGrain) : GrainMessage → QueueGrain
  | .taskCompleted taskID _ gatewayName => x.recordCompletion taskID gatewayName
  | .batchCompleted gatewayName _ _ => x.recordBatchCompletion gatewayName
  | .registerGateway name capacity weight batchTypes => x.registerGateway name capacity weight batchTypes
  | .unregisterGateway name => x.removeGateway name
  | .gatewayCredit name credits => x.addCredits name credits
  | .concurrencyLimitChanged maxActive => x.applyConcurrencyLimitChange maxActive
  | .leaseCycleCompleted .. | .statusFailure => { x with leasing := false }
  | _ => x

/-- What a turn is made of, past its message, when all its effects are of a kind. -/
inductive Part (turn : GrainTurn) (S : GrainEffect → Prop) :
    QueueGrain → QueueGrain → List GrainEffect → Prop where
  | trans {x y z : QueueGrain} {first later : List GrainEffect} (h : Part turn S x y first)
      (h' : Part turn S y z later) : Part turn S x z (first ++ later)
  | quiet {x : QueueGrain} (paused : Bool) {effects : List GrainEffect}
      (heffects : ∀ e ∈ effects, e.quiet = true ∧ S e) :
      Part turn S x { x with paused := paused } effects
  | wake {x : QueueGrain} {limit : Int} {expiresAt : Time} (hidle : x.leasing = false)
      (hlease : S (.lease limit turn.newID expiresAt)) :
      Part turn S x { x with leasing := true } [.lease limit turn.newID expiresAt]
  | pick (x : QueueGrain) (eligible : GatewayCredits → Bool) :
      Part turn S x { x with gateways := (selectWeightedGateway eligible x.gateways).1 } []
  | drop (x : QueueGrain) (name : String) {index : Nat} (hunreachable : turn.unreachable index = true) :
      Part turn S x (x.removeGateway name) []
  | sendTask {x : QueueGrain} {i : Nat} {gateway : GatewayCredits} {task : TaskEnvelope} {leaseID : String}
      {expiresAt : Time} (hget : x.gateways[i]? = some gateway) (hcredit : 0 < gateway.credits)
      (hfree : x.saturated task.id task.options.concurrencyKey = false)
      (hsend : S (.executeTask gateway.name task leaseID expiresAt)) :
      Part turn S x ((x.spendCredit i).reserveSlot task.id task.options.concurrencyKey)
        [.executeTask gateway.name task leaseID expiresAt]
  | sendBatch {x : QueueGrain} {i : Nat} {gateway : GatewayCredits} {tasks : List TaskEnvelope}
      {leaseID group : String} {expiresAt : Time} (hget : x.gateways[i]? = some gateway)
      (hcredit : 0 < gateway.credits) (hsend : S (.executeBatch gateway.name tasks leaseID expiresAt group)) :
      Part turn S x (x.spendCredit i) [.executeBatch gateway.name tasks leaseID expiresAt group]

section Selection

variable {eligible : GatewayCredits → Bool} {gateways : List GatewayCredits}

/-- The search ends with an eligible gateway, or the one it started from, and none of them is higher. -/
theorem highest_spec {start index : Nat} {best : Option (Nat × Int32)}
    (h : highest eligible gateways start best = some index) :
    ∃ top : Int32,
      (best = some (index, top) ∨ ∃ gateway, start ≤ index ∧ gateways[index - start]? = some gateway ∧
        eligible gateway = true ∧ gateway.currentWeight + gateway.weight = top) ∧
      (∀ b ∈ best, b.2.toInt ≤ top.toInt) ∧
      ∀ gateway ∈ gateways, eligible gateway = true → (gateway.currentWeight + gateway.weight).toInt ≤ top.toInt := by
  induction gateways generalizing start best with
  | nil =>
    obtain ⟨⟨_, top⟩, rfl, rfl⟩ := Option.map_eq_some_iff.mp h
    exact ⟨top, .inl rfl, by simp, nofun⟩
  | cons gateway rest ih =>
    rw [highest] at h
    -- a gateway found in the rest sits one place further on
    have hshift : ∀ {top : Int32}, (∃ found, start + 1 ≤ index ∧ rest[index - (start + 1)]? = some found ∧
        eligible found = true ∧ found.currentWeight + found.weight = top) →
        ∃ found, start ≤ index ∧ (gateway :: rest)[index - start]? = some found ∧
          eligible found = true ∧ found.currentWeight + found.weight = top := by
      rintro top ⟨found, hle, hget, hfound⟩
      refine ⟨found, by omega, ?_, hfound⟩
      rw [show index - start = (index - (start + 1)) + 1 by omega, List.getElem?_cons_succ]
      exact hget
    split at h
    · rename_i htake
      rw [Bool.and_eq_true, Option.all_eq_true] at htake
      obtain ⟨top, hfrom, hbest, hrest⟩ := ih h
      have hraised := hbest _ rfl
      refine ⟨top, .inr ?_, fun b hb => ?_, List.forall_mem_cons.mpr ⟨fun _ => hraised, hrest⟩⟩
      · rcases hfrom with hfirst | hfound
        · cases hfirst
          exact ⟨gateway, le_rfl, by simp, htake.1, rfl⟩
        · exact hshift hfound
      · exact (Int32.lt_iff_toInt_lt.mp (of_decide_eq_true (htake.2 b hb))).le.trans hraised
    · rename_i hpass
      obtain ⟨top, hfrom, hbest, hrest⟩ := ih h
      refine ⟨top, hfrom.imp id hshift, hbest, List.forall_mem_cons.mpr ⟨fun helig => ?_, hrest⟩⟩
      rw [helig, Bool.true_and, Option.all_eq_true] at hpass
      push Not at hpass
      obtain ⟨b, hb, hhigher⟩ := hpass
      have hnot := fun hlt => hhigher (decide_eq_true (Int32.lt_iff_toInt_lt.mpr hlt))
      exact (not_lt.mp hnot).trans (hbest b hb)

/-- The search ends with the first of the highest gateways. -/
theorem highest_first {start index : Nat} {best : Option (Nat × Int32)} (hbest : ∀ b ∈ best, b.1 < start)
    (h : highest eligible gateways start best = some index) (hindex : start ≤ index) {gateway : GatewayCredits}
    (hget : gateways[index - start]? = some gateway) :
    (∀ b ∈ best, b.2.toInt < (gateway.currentWeight + gateway.weight).toInt) ∧
      ∀ i other, i < index - start → gateways[i]? = some other → eligible other = true →
        (other.currentWeight + other.weight).toInt < (gateway.currentWeight + gateway.weight).toInt := by
  induction gateways generalizing start best with
  | nil => cases hget
  | cons head rest ih =>
    rw [highest] at h
    have hlater : start + 1 ≤ index → rest[index - (start + 1)]? = some gateway := by
      intro hle
      rwa [show index - start = (index - (start + 1)) + 1 by omega, List.getElem?_cons_succ] at hget
    split at h
    · rename_i htake
      rw [Bool.and_eq_true, Option.all_eq_true] at htake
      have hbelow : ∀ b ∈ best, b.2.toInt < (head.currentWeight + head.weight).toInt :=
        fun b hb => Int32.lt_iff_toInt_lt.mp (of_decide_eq_true (htake.2 b hb))
      rcases hindex.eq_or_lt with rfl | hlt
      · rw [Nat.sub_self, List.getElem?_cons_zero, Option.some.injEq] at hget
        rw [← hget]
        refine ⟨hbelow, fun i other hi => ?_⟩
        rw [Nat.sub_self] at hi
        exact absurd hi (Nat.not_lt_zero i)
      · have hsucc : start + 1 ≤ index := hlt
        have hnext : ∀ b ∈ some (start, head.currentWeight + head.weight), b.1 < start + 1 := by
          rintro b ⟨⟩
          exact Nat.lt_succ_self start
        obtain ⟨htaken, hrest⟩ := ih hnext h hsucc (hlater hsucc)
        have hhead := htaken (start, head.currentWeight + head.weight) rfl
        refine ⟨fun b hb => (hbelow b hb).trans hhead, fun i other hi hother helig => ?_⟩
        cases i with
        | zero =>
          cases hother
          exact hhead
        | succ i => exact hrest i other (by omega) hother helig
    · rename_i hpass
      have hlt : start + 1 ≤ index := by
        obtain ⟨top, hfrom | ⟨_, hle, -⟩, -⟩ := highest_spec h
        · exact absurd (hbest _ hfrom) (by dsimp only; omega)
        · exact hle
      obtain ⟨hhead, hrest⟩ := ih (fun b hb => (hbest b hb).trans (Nat.lt_succ_self start)) h hlt (hlater hlt)
      refine ⟨hhead, fun i other hi hother helig => ?_⟩
      cases i with
      | zero =>
        cases hother
        rw [helig, Bool.true_and, Option.all_eq_true] at hpass
        push Not at hpass
        obtain ⟨b, hb, hhigher⟩ := hpass
        have hnot := fun hlt => hhigher (decide_eq_true (Int32.lt_iff_toInt_lt.mpr hlt))
        exact (not_lt.mp hnot).trans_lt (hhead b hb)
      | succ i => exact hrest i other (by omega) hother helig

/-- The selected gateway was eligible, and only its accumulator changes. -/
theorem select_eligible {index : Nat} (h : (selectWeightedGateway eligible gateways).2 = some index) :
    ∃ gateway, (selectWeightedGateway eligible gateways).1[index]? = some gateway ∧ ∃ before,
      { gateway with currentWeight := before } ∈ gateways ∧ eligible { gateway with currentWeight := before } = true := by
  rw [selectWeightedGateway] at h ⊢
  split at h
  · cases h
  · rename_i found hfound
    cases h
    obtain ⟨top, hnone | ⟨gateway, -, hget, hgateway, -⟩, -⟩ := highest_spec hfound
    · cases hnone
    · rw [Nat.sub_zero] at hget
      rw [List.getElem?_modify_eq, List.getElem?_map, hget]
      refine ⟨_, rfl, gateway.currentWeight, ?_⟩
      simp only [hgateway, if_true, and_true]
      exact List.mem_of_getElem? hget

end Selection

section Parts

variable {settings : Settings} {turn : GrainTurn} {S : GrainEffect → Prop} {x : QueueGrain}
  {leaseID : String} {expiresAt : Time}

theorem Part.refl (x : QueueGrain) : Part turn S x x [] := .quiet x.paused fun _ he => absurd he List.not_mem_nil

/-- The effects of a turn are of the kind they are said to be. -/
theorem Part.all (h : Part turn S x x' effects) : ∀ e ∈ effects, S e := by
  induction h with
  | trans _ _ ih ih' => exact List.forall_mem_append.mpr ⟨ih, ih'⟩
  | quiet _ heffects => exact fun e he => (heffects e he).2
  | wake _ hsend | sendTask _ _ _ hsend | sendBatch _ _ hsend => exact List.forall_mem_singleton.mpr hsend
  | pick | drop => exact fun _ he => absurd he List.not_mem_nil

/-- A wake-up starts at most one lease cycle, under the new id. -/
theorem maybeLease_part (hlease : ∀ limit expiresAt, S (.lease limit turn.newID expiresAt)) (x : QueueGrain) :
    Part turn S x (x.maybeLease settings turn).1 (x.maybeLease settings turn).2 := by
  simp only [maybeLease]
  split
  · exact .refl x
  · rename_i hgo
    have hidle : x.leasing = false := by
      simp only [Bool.not_eq_true, Bool.or_eq_false_iff] at hgo
      exact hgo.1.1.2
    split
    · exact .wake hidle (hlease _ _)
    · rw [show ({ x with leasing := false } : QueueGrain) = x from hidle ▸ rfl]
      exact .refl x

variable {tasks : List TaskEnvelope}

theorem releaseLeased_part (hrelease : S (.release leaseID tasks)) :
    Part turn S x x (releaseLeased turn leaseID tasks) := by
  refine .quiet x.paused fun e he => ?_
  rw [releaseLeased] at he
  split at he
  · cases List.mem_singleton.mp he
    exact ⟨rfl, hrelease⟩
  · cases he

/-- Dispatching one leased task. -/
theorem dispatchTask_part {task : TaskEnvelope} (hsend : ∀ gateway, S (.executeTask gateway task leaseID expiresAt))
    (index : Nat) (x : QueueGrain) :
    Part turn S x (dispatchTask turn leaseID expiresAt index task x).1
      (dispatchTask turn leaseID expiresAt index task x).2.toList := by
  have hpick : Part turn S x x.pickGateway.1 [] := .pick x hasCredit
  rw [dispatchTask]
  split
  · exact .refl x
  rename_i hfree
  dsimp only
  split
  · exact hpick
  · rename_i i hpicked
    obtain ⟨gateway, hget, _, -, hcredit⟩ := select_eligible hpicked
    split_ifs with hunreachable
    · exact hpick.trans (.drop _ _ hunreachable)
    · have hname : (x.pickGateway.1.gateways[i]?.map GatewayCredits.name).getD "" = gateway.name :=
        congrArg (fun found : Option GatewayCredits => (found.map GatewayCredits.name).getD "") hget
      rw [hname]
      exact hpick.trans (.sendTask hget (of_decide_eq_true hcredit) (Bool.not_eq_true _ ▸ hfree) (hsend _))

/-- Dispatching tasks in order, one after the other. -/
theorem dispatchTasks_cons (turn : GrainTurn) (leaseID : String) (expiresAt : Time) (index : Nat)
    (task : TaskEnvelope) (rest : List TaskEnvelope) (x : QueueGrain) :
    let first := dispatchTask turn leaseID expiresAt index task x
    let later := dispatchTasks turn leaseID expiresAt (index + 1) rest first.1
    (dispatchTasks turn leaseID expiresAt index (task :: rest) x).1 = later.1 ∧
      (dispatchTasks turn leaseID expiresAt index (task :: rest) x).2.1 =
        first.2.toList ++ later.2.1 := by
  dsimp only
  rw [dispatchTasks]
  cases hsent : (dispatchTask turn leaseID expiresAt index task x).2 <;> simp [hsent]

theorem dispatchTasks_part
    (hsend : ∀ task ∈ tasks, ∀ gateway, S (.executeTask gateway task leaseID expiresAt)) (index : Nat)
    (x : QueueGrain) :
    Part turn S x (dispatchTasks turn leaseID expiresAt index tasks x).1
      (dispatchTasks turn leaseID expiresAt index tasks x).2.1 := by
  induction tasks generalizing index x with
  | nil => exact .refl x
  | cons task rest ih =>
    obtain ⟨hfirst, hrest⟩ := List.forall_mem_cons.mp hsend
    obtain ⟨hgrain, heffects⟩ := dispatchTasks_cons turn leaseID expiresAt index task rest x
    rw [hgrain, heffects]
    exact (dispatchTask_part hfirst index x).trans (ih hrest _ _)

/-- The result of a lease cycle. -/
theorem finishLeaseCycle_part (settings : Settings) (turn : GrainTurn) (leaseID : String) (expiresAt : Time)
    (error : String) (tasks : List TaskEnvelope) (x : QueueGrain) :
    Part turn (GrainEmits turn (.leaseCycleCompleted leaseID expiresAt error tasks)) { x with leasing := false }
      (x.finishLeaseCycle settings turn leaseID expiresAt error tasks).1
      (x.finishLeaseCycle settings turn leaseID expiresAt error tasks).2 := by
  have hheld : ∀ {y : QueueGrain} (held : List TaskEnvelope),
      Part turn (GrainEmits turn (.leaseCycleCompleted leaseID expiresAt error tasks)) y y
        (if held = [] then [] else releaseLeased turn leaseID held) := by
    intro y held
    split
    · exact .refl y
    · exact releaseLeased_part .release
  have htasks := @dispatchTasks_part turn (GrainEmits turn (.leaseCycleCompleted leaseID expiresAt error tasks))
    leaseID expiresAt tasks (fun _ htask _ => .executeTask htask) 0 { x with leasing := false }
  simp only [finishLeaseCycle]
  split
  · exact .refl _
  split
  · exact .refl _
  split
  · exact releaseLeased_part .release
  split
  · rename_i hnone
    rw [hnone] at htasks
    exact htasks.trans (hheld _)
  · exact (htasks.trans (hheld _)).trans (maybeLease_part (fun _ _ => .lease) _)

/-- The result of a group lease. -/
theorem finishGroupLease_part {group type error : String}
    (hsend : ∀ gateway ∈ x.gateways, type ∈ gateway.batchTypes → tasks ≠ [] →
      S (.executeBatch gateway.name tasks leaseID expiresAt group))
    (hrelease : S (.release leaseID tasks)) :
    Part turn S x (x.finishGroupLease turn leaseID expiresAt group type error tasks).1
      (x.finishGroupLease turn leaseID expiresAt group type error tasks).2 := by
  have hpick : Part turn S x (x.pickBatchGateway type).1 [] := .pick x (batchCapable type)
  simp only [finishGroupLease]
  split
  · exact .refl x
  split
  · exact .refl x
  rename_i hne
  split
  · exact hpick.trans (releaseLeased_part hrelease)
  · rename_i i hpicked
    obtain ⟨gateway, hget, before, hbefore, hcapable⟩ := select_eligible hpicked
    obtain ⟨hcredit, htype⟩ := Bool.and_eq_true_iff.mp hcapable
    split
    · exact hpick.trans (releaseLeased_part hrelease)
    split_ifs with hunreachable
    · exact (hpick.trans (.drop _ _ hunreachable)).trans (releaseLeased_part hrelease)
    · have hname : ((x.pickBatchGateway type).1.gateways[i]?.map GatewayCredits.name).getD "" = gateway.name :=
        congrArg (fun found : Option GatewayCredits => (found.map GatewayCredits.name).getD "") hget
      rw [hname]
      have hbatch := hsend _ hbefore (List.contains_iff_mem.mp htype) hne
      exact hpick.trans (.sendBatch hget (of_decide_eq_true hcredit) hbatch)

theorem setPaused_part (hpaused : ∀ paused, S (.setPaused paused)) (paused : Bool) :
    Part turn S x (x.setPaused turn paused).1 (x.setPaused turn paused).2 := by
  rw [setPaused]
  split
  · exact .quiet paused (List.forall_mem_singleton.mpr ⟨rfl, hpaused paused⟩)
  · exact .refl x

/-- A turn notes its message and goes on in parts; for a due group it may lease that in the end. -/
theorem receive_part (settings : Settings) (turn : GrainTurn) (x : QueueGrain) (message : GrainMessage) :
    ∃ effects, Part turn (GrainEmits turn message) (x.noted message) (x.receive settings turn message).1 effects ∧
      ((x.receive settings turn message).2 = effects ∨ effects = [] ∧ ∃ group type limit expiresAt,
        (x.receive settings turn message).2 = [.leaseGroup group type limit turn.newID expiresAt]) := by
  have hwake : ∀ {message : GrainMessage} (y : QueueGrain),
      Part turn (GrainEmits turn message) y (y.maybeLease settings turn).1 (y.maybeLease settings turn).2 :=
    fun y => maybeLease_part (fun _ _ => .lease) y
  cases message with
  | leaseCycleCompleted leaseID expiresAt error tasks =>
    exact ⟨_, finishLeaseCycle_part settings turn leaseID expiresAt error tasks x, .inl rfl⟩
  | groupLeaseCompleted =>
    exact ⟨_, finishGroupLease_part (fun _ _ _ hne => .executeBatch hne) .release, .inl rfl⟩
  | fireGroup group type limit =>
    refine ⟨[], ?_⟩
    simp only [receive, fireGroup]
    split
    · exact ⟨.refl x, .inl rfl⟩
    · split
      · exact ⟨.pick x (batchCapable type), .inl rfl⟩
      · exact ⟨.pick x (batchCapable type), .inr ⟨trivial, _, _, _, _, rfl⟩⟩
  | cancelActive taskID =>
    refine ⟨_, .quiet x.paused fun e he => ?_, .inl rfl⟩
    obtain ⟨entry, -, rfl⟩ := List.mem_map.mp he
    exact ⟨rfl, .cancelActive⟩
  | drainQueue => exact ⟨_, setPaused_part (fun _ => .setPaused) true, .inl rfl⟩
  | resumeQueue => exact ⟨_, (setPaused_part (fun _ => .setPaused) false).trans (hwake _), .inl rfl⟩
  | unregisterGateway | leasedTasksReleased | statusFailure => exact ⟨[], .refl _, .inl rfl⟩
  | _ => exact ⟨_, hwake _, .inl rfl⟩

end Parts

end QueueGrain

section Grains

variable {settings : Settings} {turn : GrainTurn} {x : QueueGrain} {message : GrainMessage}

/-- What a turn of a grain emits. -/
theorem receive_emits {e : GrainEffect} (he : e ∈ (x.receive settings turn message).2) : GrainEmits turn message e := by
  obtain ⟨effects, hpart, heq | ⟨-, group, type, limit, expiresAt, heq⟩⟩ :=
    QueueGrain.receive_part settings turn x message
  · exact hpart.all e (heq ▸ he)
  · rw [heq, List.mem_singleton] at he
    exact he ▸ .leaseGroup

/-- The lease id an effect is about to hand out. -/
def GrainEffect.leaseID? : GrainEffect → Option String
  | .lease _ leaseID _ | .leaseGroup _ _ _ leaseID _ => some leaseID
  | _ => none

/-- The effects of a turn that hand out a lease id. -/
def leasing (effects : List GrainEffect) : List String := effects.filterMap GrainEffect.leaseID?

/-- The parts of a turn start a lease cycle only while none is under way, under the new id. -/
theorem QueueGrain.Part.leasing {S : GrainEffect → Prop} (h : QueueGrain.Part turn S x x' effects) :
    x'.leasing = x.leasing ∧ Conveyor.leasing effects = [] ∨ x.leasing = false ∧ x'.leasing = true ∧
      Conveyor.leasing effects = [turn.newID] := by
  induction h with
  | trans _ _ ih ih' =>
    rw [Conveyor.leasing, List.filterMap_append]
    rcases ih with ⟨hsame, hnone⟩ | ⟨hidle, hcycle, hone⟩ <;>
      rcases ih' with ⟨hsame', hnone'⟩ | ⟨hidle', hcycle', hone'⟩
    · exact .inl ⟨hsame'.trans hsame, by simp_all [Conveyor.leasing]⟩
    · exact .inr ⟨hsame ▸ hidle', hcycle', by simp_all [Conveyor.leasing]⟩
    · exact .inr ⟨hidle, hsame'.trans hcycle, by simp_all [Conveyor.leasing]⟩
    · cases hidle'.symm.trans hcycle
  | quiet _ heffects =>
    refine .inl ⟨rfl, List.filterMap_eq_nil_iff.mpr fun e he => ?_⟩
    have hquiet := (heffects e he).1
    cases e <;> first | rfl | cases hquiet
  | wake hidle _ => exact .inr ⟨hidle, rfl, rfl⟩
  | pick | drop | sendBatch => exact .inl ⟨rfl, rfl⟩
  | sendTask =>
    refine .inl ⟨?_, rfl⟩
    rw [QueueGrain.reserveSlot]
    split <;> rfl

/-- A turn hands out at most one lease id, the new one. -/
theorem leasing_receive (settings : Settings) (turn : GrainTurn) (x : QueueGrain) (message : GrainMessage) :
    leasing (x.receive settings turn message).2 = [] ∨ leasing (x.receive settings turn message).2 = [turn.newID] := by
  obtain ⟨effects, hpart, heq | ⟨-, group, type, limit, expiresAt, heq⟩⟩ :=
    QueueGrain.receive_part settings turn x message
  · rw [heq]
    exact hpart.leasing.imp And.right fun h => h.2.2
  · rw [heq]
    exact .inr rfl

end Grains

end Conveyor
