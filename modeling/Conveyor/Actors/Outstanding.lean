import Conveyor.Actors.Told
import Conveyor.Actors.WebhookLedger

/-!
# Outstanding credits

What is outstanding for a gateway at a queue is what the grain of the queue holds for it, what is on its
way between the two, and what the gateway holds. A step of the system creates no credits beyond the ones
a worker announces, the ones a registration grants, and the ones a gateway returns twice: those are the
grants of a step.
-/

namespace Conveyor

open Lib

variable {n : Int32}

/-- Credits that come back, in 32-bit arithmetic. -/
theorem Account.refill_credits {account : Account} (hn : 0 ≤ n.toInt)
    (hfits : max account.credits.toInt 0 + n.toInt < 2 ^ 31) :
    (account.refill n).credits.toInt = min (account.credits.toInt + n.toInt) account.capacity.toInt := by
  have hlow := Int32.le_toInt account.credits
  have hsum : (account.credits + n).toInt = account.credits.toInt + n.toInt := by
    rw [Int32.toInt_add]
    refine Int.bmod_eq_of_le ?_ ?_ <;> omega
  change (if account.credits + n ≤ account.capacity then account.credits + n else account.capacity).toInt = _
  rw [← hsum]
  split
  · rename_i hle
    rw [min_eq_left (Int32.le_iff_toInt_le.mp hle)]
  · rename_i hgt
    rw [min_eq_right (Int.le_of_lt (Int.not_le.mp (mt Int32.le_iff_toInt_le.mpr hgt)))]

namespace QueueGrain

/-- The credits that a registration adds to the account of a gateway. -/
def allots (x : QueueGrain) (name : String) : GrainMessage → Int
  | .registerGateway gateway capacity _ _ =>
    if gateway = name then
      max (Account.register capacity (x.account name)).credits.toInt 0 - max (x.balance name) 0
    else 0
  | _ => 0

/-- The account of the gateway has room for credits that come back. -/
def HasRoom (x : QueueGrain) (name : String) (n : Int32) : Prop :=
  match x.account name with
  | none => n.toInt = 0
  | some had => (n.toInt = 0 ∨ 0 ≤ had.credits.toInt) ∧ had.credits.toInt + n.toInt ≤ had.capacity.toInt

/-- Handling the message loses no credit of the gateway. -/
def Retains (x : QueueGrain) (name : String) : GrainMessage → Prop
  | .taskCompleted _ _ gateway | .batchCompleted gateway _ _ => gateway = name → x.HasRoom name 1
  | .gatewayCredit gateway n => gateway = name → x.HasRoom name n
  | .unregisterGateway gateway => gateway ≠ name
  | _ => True

variable {x x' y : QueueGrain} {name : String}

/-- Dispatching turns credits into dispatches. -/
theorem Spends.balance {reachable : Prop} {sent : Int} (h : Spends reachable name x x' sent) :
    Balance reachable (max (x.balance name) 0) (max (x'.balance name) 0 + sent) := by
  have hsent := h.sent_nonneg
  have hspent := h.spent
  refine ⟨by omega, fun hreachable => ?_⟩
  have hlisted := h.listed hreachable
  cases haccount : x'.account name with
  | none =>
    rw [haccount] at hlisted
    have hnone := Option.isNone_iff_eq_none.mp (Option.isSome_eq_false_iff.mp hlisted.symm)
    rw [balance_of_unlisted haccount, balance_of_unlisted hnone] at *
    omega
  | some left =>
    obtain ⟨had, hhad, -, hcredits⟩ := h.kept left haccount
    rw [balance_of_account haccount, balance_of_account hhad] at *
    omega

/-- Credits that come back to an account are kept up to its capacity. -/
theorem refilled_balance (hy : y.account name = (x.account name).map (.refill n)) (hn : 0 ≤ n.toInt)
    (hfits : max (x.balance name) 0 + n.toInt < 2 ^ 31) :
    Balance (x.HasRoom name n) (max (x.balance name) 0 + n.toInt) (max (y.balance name) 0) := by
  cases haccount : x.account name with
  | none =>
    rw [haccount] at hy
    rw [balance_of_unlisted haccount, balance_of_unlisted hy]
    refine ⟨by omega, fun hroom => ?_⟩
    rw [HasRoom, haccount] at hroom
    dsimp only at hroom
    omega
  | some had =>
    rw [haccount] at hy
    rw [balance_of_account haccount] at hfits ⊢
    rw [balance_of_account hy, Account.refill_credits hn hfits]
    refine ⟨by omega, fun hroom => ?_⟩
    rw [HasRoom, haccount] at hroom
    dsimp only at hroom
    omega

/-- What a message does to an account. -/
theorem adjusted_balance {message : GrainMessage} (hy : y.account name = message.adjust name (x.account name))
    (hrefund : 0 ≤ message.refund name) (hfits : max (x.balance name) 0 + message.refund name < 2 ^ 31) :
    Balance (x.Retains name message) (max (x.balance name) 0 + message.refund name + x.allots name message)
      (max (y.balance name) 0) := by
  have hsame : y.account name = x.account name → message.refund name = 0 → x.allots name message = 0 →
      Balance (x.Retains name message) (max (x.balance name) 0 + message.refund name + x.allots name message)
        (max (y.balance name) 0) := by
    intro haccount hnone hallots
    refine .of_eq ?_
    rw [hnone, hallots, balance, balance, haccount]
    omega
  -- credits that come back to the gateway, or to another one
  have hrefill : ∀ (gateway : String) (n : Int32),
      message.adjust name (x.account name) = (if name = gateway then (x.account name).map (.refill n) else x.account name) →
      message.refund name = (if gateway = name then n.toInt else 0) → x.allots name message = 0 →
      (x.Retains name message → gateway = name → x.HasRoom name n) →
      Balance (x.Retains name message) (max (x.balance name) 0 + message.refund name + x.allots name message)
        (max (y.balance name) 0) := by
    intro gateway n hadjust hvalue hallots hroom
    by_cases hname : gateway = name
    · rw [if_pos hname.symm] at hadjust
      rw [if_pos hname] at hvalue
      have hback := refilled_balance (hy.trans hadjust) (hvalue ▸ hrefund) (hvalue ▸ hfits)
      exact hback.transfer (fun hretains => hroom hretains hname) (by rw [hallots, add_zero, hvalue])
    · rw [if_neg (Ne.symm hname)] at hadjust
      rw [if_neg hname] at hvalue
      exact hsame (hy.trans hadjust) hvalue hallots
  cases message with
  | taskCompleted taskID success gateway => exact hrefill gateway 1 rfl rfl rfl id
  | batchCompleted gateway total succeeded => exact hrefill gateway 1 rfl rfl rfl id
  | gatewayCredit gateway n => exact hrefill gateway n rfl rfl rfl id
  | registerGateway gateway capacity weight batchTypes =>
    have hnone : GrainMessage.refund name (.registerGateway gateway capacity weight batchTypes) = 0 := rfl
    by_cases hname : gateway = name
    · have haccount := hy.trans (if_pos hname.symm)
      refine .of_eq ?_
      rw [balance_of_account haccount, hnone, allots, if_pos hname]
      omega
    · exact hsame (hy.trans (if_neg (Ne.symm hname))) hnone (if_neg hname)
  | unregisterGateway gateway =>
    by_cases hname : gateway = name
    · have haccount := hy.trans (if_pos hname.symm)
      rw [balance_of_unlisted haccount]
      refine ⟨?_, absurd hname⟩
      have hallots : x.allots name (.unregisterGateway gateway) = 0 := rfl
      omega
    · exact hsame (hy.trans (if_neg (Ne.symm hname))) rfl rfl
  | _ => exact hsame hy rfl rfl

/-- What a turn does to the credits of a gateway. -/
theorem receive_balance (settings : Settings) (turn : GrainTurn) {message : GrainMessage}
    (hdistinct : DistinctNames x.gateways) (hrefund : 0 ≤ message.refund name)
    (hfits : max (x.balance name) 0 + message.refund name < 2 ^ 31) :
    Balance ((∀ i, turn.unreachable i = false) ∧ x.Retains name message)
      (max (x.balance name) 0 + message.refund name + x.allots name message)
      (max ((x.receive settings turn message).1.balance name) 0 +
        dispatched name (x.receive settings turn message).2) := by
  obtain ⟨y, hy, hspends⟩ := receive_spends settings turn message name hdistinct
  have hadjusted := adjusted_balance hy hrefund hfits
  have hspent := hspends.balance
  exact ⟨hspent.le.trans hadjusted.le, fun h => (hspent.eq h.1).trans (hadjusted.eq h.2)⟩

end QueueGrain

namespace GatewayActor

/-- The credits of a queue a gateway holds. -/
def stake (leases : List (String × String)) (queue : String) : GatewayActor → Int
  | .stream g => g.stake leases queue
  | .webhook w => w.stake queue

/-- The credits that handling a message creates. -/
def grants (queue : String) (message : GatewayMessage) : GatewayActor → Int
  | .stream g => g.grants queue message
  | .webhook _ => 0

/-- The records of the gateway agree with each other. -/
def Sound (leases : List (String × String)) : GatewayActor → Prop
  | .stream g => g.Consistent leases
  | .webhook w => w.Counted

/-- A dispatch comes under a lease the gateway knows nothing of. -/
def Fits (leases : List (String × String)) (message : GatewayMessage) : GatewayActor → Prop
  | .stream g => g.Fits leases message
  | .webhook w => w.Fits message

/-- A stream gateway whose session declared the queue. -/
def Streams (queue : String) : GatewayActor → Prop
  | .stream g => g.serves queue = true
  | .webhook _ => False

/-- A stream gateway whose handling of the message loses no credit. -/
def Exact (turn : GatewayTurn) (message : GatewayMessage) : GatewayActor → Prop
  | .stream g => g.Exact turn message
  | .webhook _ => False

variable {leases : List (String × String)} {queue : String} {a : GatewayActor} {settings : Settings}
  {turn : GatewayTurn}

theorem stake_nonneg (leases : List (String × String)) (queue : String) (a : GatewayActor) :
    0 ≤ a.stake leases queue := by
  cases a with
  | stream g => exact g.stake_nonneg leases queue
  | webhook w => exact w.stake_nonneg queue

/-- The first part of a turn. -/
theorem receive_balance (hidle : a.busy = false) (hsound : a.Sound leases) {message : GatewayMessage}
    (hfits : a.Fits leases message) :
    Balance (a.Exact turn message ∧ a.Streams queue)
      (a.stake leases queue + message.owed queue + a.grants queue message)
      ((a.receive settings turn message).1.stake leases queue +
        returned a.name queue (a.receive settings turn message).2) := by
  cases a with
  | stream g => exact Gateway.receive_balance (by simpa [busy] using hidle) hsound hfits
  | webhook w => exact ⟨(WebhookGateway.receive_balance hsound hfits).trans (add_zero _).ge, fun h => h.1.elim⟩

/-- A part of a turn that goes on. -/
theorem resume_balance (hsound : a.Sound leases) (reply : Reply) :
    Balance (a.Streams queue) (a.stake leases queue)
      ((a.resume settings turn reply).1.stake leases queue + returned a.name queue (a.resume settings turn reply).2) := by
  cases a with
  | stream g =>
    rw [resume]
    split
    · exact .of_eq (add_zero _)
    · rename_i work rest hturn
      have hrest : Gateway.Consistent leases { g with turn := rest } := ⟨hsound.unique, hsound.queues, hsound.members⟩
      have hstake : g.stake leases queue = Gateway.stake leases queue { g with turn := rest } + work.owes queue := by
        rw [Gateway.stake, hturn, weigh_cons]
        change _ = singles g.inflight g.batched queue + Gateway.batchCount leases queue g.batches + weigh _ rest + _
        omega
      have hfinish := @Gateway.finish_balance leases queue _ turn hrest reply work
      rw [← hstake] at hfinish
      exact hfinish
  | webhook w =>
    rw [resume]
    split
    · exact ⟨(add_zero (w.stake queue)).le, by rintro ⟨⟩⟩
    · rename_i work rest hturn
      exact ⟨((WebhookGateway.finish_part reply work).frees (w := { w with turn := rest }) hsound).stake queue, by rintro ⟨⟩⟩

end GatewayActor

namespace System

/-- The credits on their way back to the grain of a queue. -/
def refunds (s : System) (name queue : String) : Int :=
  weigh (fun p : String × GrainMessage => if p.1 = queue then p.2.refund name else 0) s.toGrain

/-- The credits on their way to a gateway: dispatches and withheld reports. -/
def inTransit (s : System) (name queue : String) : Int :=
  weigh (fun p : String × GatewayMessage => if p.1 = name then p.2.owed queue else 0) s.toGateway

/-- The credits of a queue a gateway holds. -/
def stake (s : System) (name queue : String) : Int :=
  (s.gateways name).elim 0 (·.stake s.leases queue)

/-- The credits of a gateway at a queue, wherever they are. -/
def outstanding (s : System) (name queue : String) : Int :=
  max ((s.grains queue).balance name) 0 + s.refunds name queue + s.inTransit name queue + s.stake name queue

/-- The credits a step creates for a gateway at a queue. -/
def grants (s : System) (name queue : String) : Event → Int
  | .grain index _ =>
    match takeAt s.toGrain index with
    | some ((of, message), _) => if of = queue then (s.grains queue).allots name message else 0
    | none => 0
  | .gateway index _ =>
    match takeAt s.toGateway index with
    | some ((target, message), _) =>
      if target = name then (s.gateways name).elim 0 (·.grants queue message) else 0
    | none => 0
  | _ => 0

/-- A step that loses no credit of a gateway at a queue. -/
def Keeps (s : System) (name queue : String) : Event → Prop
  | .grain index turn => ∀ message rest, takeAt s.toGrain index = some ((queue, message), rest) →
    (∀ i, turn.unreachable i = false) ∧ (s.grains queue).Retains name message
  | .gateway index turn => ∀ message rest a, takeAt s.toGateway index = some ((name, message), rest) →
    s.gateways name = some a → a.Exact turn message ∧ a.Streams queue
  | .resume other _ _ => other = name → ∀ a, s.gateways name = some a → a.Streams queue
  | _ => True

end System

/-- What the accounts rest on: the records of the actors agree, and no negative credits are on their
way. -/
structure Solvent (s : System) : Prop where
  recorded : Recorded s
  counted : ∀ name w, s.gateways name = some (.webhook w) → w.Counted
  paid : ∀ queue gateway n, (queue, GrainMessage.gatewayCredit gateway n) ∈ s.toGrain → 0 ≤ n.toInt
  announced : ∀ name n, (name, GatewayMessage.credit n) ∈ s.toGateway → 0 ≤ n.toInt

variable {settings : Settings} {s s' : System} {e : Event} {name queue : String}

/-- A dispatch on its way fits the records of its gateway. -/
theorem Recorded.fits (h : Recorded s) {a : GatewayActor} {message : GatewayMessage}
    (ha : s.gateways name = some a) (hmem : (name, message) ∈ s.toGateway) : a.Fits s.leases message := by
  have hsingle : ∀ {task : TaskEnvelope} {leaseID : String} {expiresAt : Time},
      message = .executeTask task leaseID expiresAt → a.members leaseID = none := by
    rintro task leaseID expiresAt rfl
    refine Option.eq_none_iff_forall_ne_some.mpr fun ids hids => ?_
    obtain ⟨d, hd, -, hbatch, hlease, -⟩ := h.delivered.batches name a leaseID ids ha hids
    exact Bool.noConfusion (hbatch.symm.trans (h.flow.single_lease hmem hd hlease))
  have hbatch : ∀ {tasks : List TaskEnvelope} {leaseID group : String} {expiresAt : Time},
      message = .executeBatch tasks leaseID expiresAt group → a.members leaseID = none ∧
        ∀ t entry, a.inflight.lookup t = some entry → entry.leaseID ≠ leaseID := by
    rintro tasks leaseID group expiresAt rfl
    refine ⟨Option.eq_none_iff_forall_ne_some.mpr fun ids hids => ?_, fun t entry hentry hlease => ?_⟩
    · obtain ⟨d, hd, -, -, hlease, -⟩ := h.delivered.batches name a leaseID ids ha hids
      exact h.flow.batch_lease hmem hd hlease
    · obtain ⟨d, hd, -, hleaseID, -⟩ := h.delivered.tasks name a t entry ha hentry
      exact h.flow.batch_lease hmem hd (hleaseID.trans hlease)
  cases a with
  | stream g =>
    cases message with
    | executeTask => exact hsingle rfl
    | executeBatch =>
      exact fun _ => ⟨(hbatch rfl).1, (hbatch rfl).2, (h.flow.dispatch name _ hmem).1⟩
    | _ => trivial
  | webhook w =>
    cases message with
    | executeTask => exact Option.map_eq_none_iff.mp (hsingle rfl)
    | executeBatch =>
      exact fun _ => ⟨Option.map_eq_none_iff.mp (hbatch rfl).1, (hbatch rfl).2⟩
    | _ => trivial

/-- The records of a stream gateway agree with each other. -/
theorem Recorded.consistent (h : Recorded s) {g : Gateway} (hg : s.gateways name = some (.stream g)) :
    g.Consistent s.leases where
  unique leaseID q q' := h.flow.queue_unique
  queues t entry := h.leased name _ t entry hg
  members t entry ids hentry hids := by
    obtain ⟨d, hd, -, hlease, ht⟩ := h.delivered.tasks name _ t entry hg hentry
    obtain ⟨d', hd', -, hbatch', hlease', htasks'⟩ := h.delivered.batches name _ entry.leaseID ids hg hids
    have hbatch := h.flow.batch_of_lease hd' hd hbatch' (hlease'.trans hlease.symm)
    rw [h.flow.batch_unique hd hd' hbatch hbatch' (hlease.trans hlease'.symm)] at ht
    exact htasks' ▸ ht

theorem Solvent.sound (h : Solvent s) {a : GatewayActor} (ha : s.gateways name = some a) : a.Sound s.leases := by
  cases a with
  | stream g => exact h.recorded.consistent ha
  | webhook w => exact h.counted name w ha

theorem solvent_start (d : Deployment) : Solvent (System.start d) where
  recorded := recorded_start d
  counted name w hw leaseID state hstate := by
    rcases System.start_gateway hw with ⟨session, hsession⟩ | ⟨registration, hregistration⟩
    · cases hsession
    · cases hregistration
      cases hstate
  paid _ _ _ h := by cases h
  announced _ _ h := by cases h

/-- What a gateway returns is on its way to its grains and back to itself. -/
theorem returned_eq (name queue : String) (effects : List GatewayEffect) :
    returned name queue effects =
      weigh (fun p : String × GrainMessage => if p.1 = queue then p.2.refund name else 0)
        (effects.filterMap GatewayEffect.message) +
      weigh (fun p : String × GatewayMessage => if p.1 = name then p.2.owed queue else 0)
        (effects.filterMap (GatewayEffect.later name)) := by
  induction effects with
  | nil => rfl
  | cons effect rest ih =>
    rw [returned_cons, ih]
    cases effect with
    | tellGrain of message =>
      simp only [GatewayEffect.returns, GatewayEffect.message, GatewayEffect.later, List.filterMap_cons, weigh_cons]
      omega
    | tellSelf message =>
      simp only [GatewayEffect.returns, GatewayEffect.message, GatewayEffect.later, List.filterMap_cons, weigh_cons,
        if_true]
      omega
    | _ => exact zero_add _

/-- What a gateway tells concerns no other gateway's credits. -/
theorem refund_of_other {message : GrainMessage} {author : String} (h : message.FromGateway author)
    (hne : author ≠ name) : message.refund name = 0 := by
  cases message with
  | taskCompleted => exact indicator_false fun heq => hne (h.symm.trans heq)
  | batchCompleted => exact indicator_false fun heq => hne (h.symm.trans heq)
  | gatewayCredit gateway n => exact if_neg fun heq => hne (h.symm.trans heq)
  | _ => rfl

/-- The dispatches of a grain to a gateway are on their way to it. -/
theorem dispatched_eq (hflow : LeaseFlow s) {of : String} {message : GrainMessage} (hmem : (of, message) ∈ s.toGrain)
    {x : QueueGrain} {turn : GrainTurn} :
    weigh (fun p : String × GatewayMessage => if p.1 = name then p.2.owed queue else 0)
        ((x.receive settings turn message).2.filterMap GrainEffect.message) =
      if of = queue then dispatched name (x.receive settings turn message).2 else 0 := by
  have hone : ∀ effect ∈ (x.receive settings turn message).2,
      ((effect.message.map fun p : String × GatewayMessage => if p.1 = name then p.2.owed queue else 0).getD 0 =
        if of = queue then indicator (effect.dispatchesTo name = true) else 0) := by
    intro effect heffect
    cases receive_emits heffect with
    | executeTask htask =>
      have hqueue := (hflow.cycle _ _ _ _ _ hmem).2 _ htask
      simp [GrainEffect.message, GrainEffect.dispatchesTo, GatewayMessage.owed, hqueue, indicator]
      grind
    | executeBatch htasks =>
      rename_i gateway leaseID expiresAt group type error tasks
      obtain ⟨task, rest, rfl⟩ := List.exists_cons_of_ne_nil htasks
      have hqueue := (hflow.group _ _ _ _ _ _ _ hmem).2 task (.head _)
      simp [GrainEffect.message, GrainEffect.dispatchesTo, GatewayMessage.owed, hqueue, indicator]
      grind
    | _ => simp [GrainEffect.message, GrainEffect.dispatchesTo, GatewayMessage.owed, indicator]
  rw [weigh_filterMap, weigh_congr hone, dispatched]
  split
  · rfl
  · exact weigh_eq_zero fun _ _ => rfl

theorem Solvent.pays (h : Solvent s) {target : String} {message : GatewayMessage}
    (hmem : (target, message) ∈ s.toGateway) : message.Pays := by
  cases message with
  | credit n => exact h.announced target n hmem
  | _ => trivial

/-- Credits on their way back to a grain are never negative. -/
theorem Moves.toGrain_pays (hmove : Moves settings s e s') (h : Solvent s) {of gateway : String}
    (hp : (of, GrainMessage.gatewayCredit gateway n) ∈ s'.toGrain) : 0 ≤ n.toInt := by
  rcases hmove.toGrain_after hp with hold | hmay | ⟨htake, ha, hnew⟩ | ⟨reply, ha, hnew⟩ | ⟨-, hreport⟩
  · exact h.paid _ _ _ hold
  · cases hmay
  · exact (GatewayActor.receive_tells (h.pays (taken_mem htake))).message hnew
  · exact (@GatewayActor.resume_tells (fun _ _ => True) _ _ _ _).message hnew
  · cases System.pipeReport_piped hreport

variable {d : Delivery} {number : Nat} {answer : Answer}

theorem report_ne_credit {a : GatewayActor} : d.report number a answer ≠ some (.credit n) := by
  cases a <;> cases answer <;> simp only [Delivery.report] <;> grind

/-- A registration on its way after a step was so before, or is announced by the gateway that takes its
turn. -/
theorem Moves.announced (hmove : Moves settings s e s') (h : Solvent s) {capacity weight : Int32}
    {batchTypes : List String}
    (hmem : (queue, GrainMessage.registerGateway name capacity weight batchTypes) ∈ s'.toGrain) :
    (queue, GrainMessage.registerGateway name capacity weight batchTypes) ∈ s.toGrain ∨
      ∃ a message, s.gateways name = some a ∧ (name, message) ∈ s.toGateway ∧ a.Announces message queue capacity := by
  rcases hmove.toGrain_after hmem with hold | hmay | ⟨htake, ha, hnew⟩ | ⟨reply, ha, hnew⟩ | ⟨-, hreport⟩
  · exact .inl hold
  · cases hmay
  · have hauthor := (receive_told hnew).trans (h.recorded.named _ _ ha)
    have htells := (GatewayActor.receive_tells (h.pays (taken_mem htake))).message hnew
    subst hauthor
    exact .inr ⟨_, _, ha, taken_mem htake, htells⟩
  · exact ((@GatewayActor.resume_tells (fun _ _ => False) _ _ _ _).message hnew).elim
  · cases System.pipeReport_piped hreport

/-- A credit frame passed the session check. -/
theorem Moves.toGateway_pays (hmove : Moves settings s e s') (h : Solvent s) {target : String}
    (hp : (target, GatewayMessage.credit n) ∈ s'.toGateway) : 0 ≤ n.toInt := by
  rcases hmove.toGateway_after hp with hold | @⟨_, _, _, a, ha, hadmits⟩ | ⟨-, hnew⟩ | _ | ⟨-, -, -, hreport⟩
  · exact h.announced _ _ hold
  · cases a with
    | stream g => exact (accepts_credit hadmits).le
    | webhook w => cases hadmits
  · rcases emitted_dispatch hnew with ⟨_, _, _, _, -, _, -, heq⟩ | ⟨_, _, _, _, _, _, -, -, heq⟩ | ⟨_, heq⟩ <;> cases heq
  · exact absurd hreport report_ne_credit

theorem Solvent.moves (h : Solvent s) (hmove : Moves settings s e s') : Solvent s' where
  recorded := h.recorded.moves hmove
  counted target w' hw' := by
    obtain ⟨a, ha, heq | ⟨index, turn, message, rest, -, htake, -, -, heq⟩ | ⟨turn, order, reply, -, -, -, heq⟩⟩ :=
      hmove.gateway_after hw'
    · exact h.counted target w' (heq ▸ ha)
    · cases a with
      | stream g => cases heq
      | webhook w =>
        cases GatewayActor.webhook.inj heq
        exact WebhookGateway.receive_counted (h.counted target w ha) (h.recorded.fits ha (taken_mem htake))
    · cases a with
      | stream g =>
        rw [GatewayActor.resume] at heq
        split at heq <;> cases heq
      | webhook w =>
        rw [GatewayActor.resume] at heq
        split at heq
        · cases heq
          exact h.counted target _ ha
        · rename_i work rest hturn
          cases heq
          exact ((WebhookGateway.finish_part reply work).frees (w := { w with turn := rest }) (h.counted target w ha)).counted
  paid of gateway n := hmove.toGrain_pays h
  announced target n := hmove.toGateway_pays h

section Nonneg

theorem GatewayMessage.owed_nonneg (queue : String) (message : GatewayMessage) : 0 ≤ message.owed queue := by
  cases message with
  | executeTask | deferredCompletion => exact indicator_nonneg _
  | executeBatch tasks => cases tasks <;> first | exact indicator_nonneg _ | exact le_rfl
  | _ => exact le_rfl

theorem System.inTransit_nonneg (s : System) (name queue : String) : 0 ≤ s.inTransit name queue := by
  refine weigh_nonneg _ fun p _ => ?_
  split
  · exact p.2.owed_nonneg queue
  · exact le_rfl

theorem System.stake_nonneg (s : System) (name queue : String) : 0 ≤ s.stake name queue := by
  rw [stake]
  cases s.gateways name with
  | none => exact le_rfl
  | some a => exact a.stake_nonneg s.leases queue

theorem Solvent.refund_nonneg (h : Solvent s) {of : String} {message : GrainMessage}
    (hmem : (of, message) ∈ s.toGrain) (name : String) : 0 ≤ message.refund name := by
  cases message with
  | taskCompleted | batchCompleted => exact indicator_nonneg _
  | gatewayCredit gateway n =>
    rw [GrainMessage.refund]
    split
    · exact h.paid of gateway n hmem
    · exact le_rfl
  | _ => exact le_rfl

theorem System.refunds_nonneg (h : ∀ p ∈ s.toGrain, 0 ≤ p.2.refund name) (queue : String) :
    0 ≤ s.refunds name queue := by
  refine weigh_nonneg _ fun p hp => ?_
  split
  · exact h p hp
  · exact le_rfl

theorem Solvent.refunds_nonneg (h : Solvent s) (name queue : String) : 0 ≤ s.refunds name queue :=
  System.refunds_nonneg (fun _ hp => h.refund_nonneg hp name) queue

end Nonneg

theorem start_outstanding (d : Deployment) (name queue : String) : (System.start d).outstanding name queue = 0 := by
  have hstake : (System.start d).stake name queue = 0 := by
    rw [System.stake]
    cases ha : (System.start d).gateways name with
    | none => rfl
    | some a => rcases System.start_gateway ha with ⟨session, rfl⟩ | ⟨registration, rfl⟩ <;> rfl
  rw [System.outstanding, hstake]
  rfl

/-- What the turn of a grain does to the credits outstanding. -/
theorem grain_outstanding (h : Solvent s) (hfits : s.outstanding name queue < 2 ^ 31) {index : Nat} {turn : GrainTurn}
    {of : String} {message : GrainMessage} {rest : List (String × GrainMessage)}
    (htake : takeAt s.toGrain index = some ((of, message), rest)) :
    Balance (s.Keeps name queue (.grain index turn))
      (s.outstanding name queue + s.grants name queue (.grain index turn))
      (({ s with toGrain := rest }.grainTurn settings turn of message).outstanding name queue) := by
  have hmem := taken_mem htake
  have hrefunds : s.refunds name queue = (if of = queue then message.refund name else 0) +
      System.refunds { s with toGrain := rest } name queue := weigh_takeAt htake _
  have hrest := @System.refunds_nonneg { s with toGrain := rest } name
    (fun p hp => h.refund_nonneg (mem_of_takeAt htake hp) name) queue
  have hdispatched := @dispatched_eq settings s name queue h.recorded.flow of message hmem (s.grains of) turn
  have htransit := s.inTransit_nonneg name queue
  have hstake := s.stake_nonneg name queue
  have hrefund := h.refund_nonneg hmem name
  have hgrants : s.grants name queue (.grain index turn) =
      if of = queue then (s.grains queue).allots name message else 0 := by rw [System.grants, htake]
  -- after the turn: the grain's account, the messages left, and the dispatches on their way
  have hafter : (({ s with toGrain := rest }.grainTurn settings turn of message).outstanding name queue) =
      max ((Function.update s.grains of ((s.grains of).receive settings turn message).1 queue).balance name) 0 +
        System.refunds { s with toGrain := rest } name queue +
        (s.inTransit name queue + if of = queue then dispatched name ((s.grains of).receive settings turn message).2 else 0) +
        s.stake name queue := by
    rw [← hdispatched, System.inTransit, ← weigh_append]
    rfl
  rw [hafter, hgrants]
  rw [System.outstanding, hrefunds] at hfits ⊢
  rcases eq_or_ne of queue with rfl | hqueue
  · rw [Function.update_self]
    simp only [if_true] at hfits ⊢
    have hbalance := @QueueGrain.receive_balance (s.grains of) name settings turn message (h.recorded.listed of) hrefund
      (by omega)
    exact hbalance.transfer (fun hkeeps => hkeeps message rest htake) (by omega)
  · rw [Function.update_of_ne hqueue.symm]
    simp only [if_neg hqueue]
    exact .of_eq (by omega)

/-- A part of a gateway's turn replaces its stake and sends back what it returns. -/
theorem emitted_self (s : System) (a : GatewayActor) (effects : List GatewayEffect) :
    ((s.setGateway name a).emitGateway name effects).outstanding name queue + s.stake name queue =
      s.outstanding name queue + a.stake s.leases queue + returned name queue effects := by
  have hstake : ((s.setGateway name a).emitGateway name effects).stake name queue = a.stake s.leases queue := by
    change (Function.update s.gateways name (some a) name).elim 0 _ = _
    rw [Function.update_self]
    rfl
  have hrefunds : ((s.setGateway name a).emitGateway name effects).refunds name queue =
      s.refunds name queue + weigh _ (effects.filterMap GatewayEffect.message) := weigh_append _ _ _
  have htransit : ((s.setGateway name a).emitGateway name effects).inTransit name queue =
      s.inTransit name queue + weigh _ (effects.filterMap (GatewayEffect.later name)) := weigh_append _ _ _
  have hgrain : ((s.setGateway name a).emitGateway name effects).grains queue = s.grains queue := rfl
  rw [System.outstanding, System.outstanding, hstake, hrefunds, htransit, hgrain, returned_eq]
  omega

/-- The turn of another gateway is about other credits. -/
theorem emitted_other {other : String} (hne : other ≠ name) (s : System) (a : GatewayActor)
    {effects : List GatewayEffect} (htold : ∀ p ∈ effects.filterMap GatewayEffect.message, p.2.FromGateway other) :
    ((s.setGateway other a).emitGateway other effects).outstanding name queue = s.outstanding name queue := by
  have hstake : ((s.setGateway other a).emitGateway other effects).stake name queue = s.stake name queue := by
    change (Function.update s.gateways other (some a) name).elim 0 _ = _
    rw [Function.update_of_ne hne.symm]
    rfl
  have hrefunds : ((s.setGateway other a).emitGateway other effects).refunds name queue = s.refunds name queue := by
    refine (weigh_append _ s.toGrain _).trans (add_eq_left.mpr (weigh_eq_zero fun p hp => ?_))
    rw [refund_of_other (htold p hp) hne, ite_self]
  have htransit : ((s.setGateway other a).emitGateway other effects).inTransit name queue = s.inTransit name queue := by
    refine (weigh_append _ s.toGateway _).trans (add_eq_left.mpr (weigh_eq_zero fun p hp => ?_))
    obtain ⟨effect, -, hlater⟩ := List.mem_filterMap.mp hp
    cases effect with
    | tellSelf message =>
      cases hlater
      exact if_neg hne
    | _ => cases hlater
  have hgrain : ((s.setGateway other a).emitGateway other effects).grains queue = s.grains queue := rfl
  rw [System.outstanding, System.outstanding, hstake, hrefunds, htransit, hgrain]

theorem System.stake_of_gateway {a : GatewayActor} (ha : s.gateways name = some a) :
    s.stake name queue = a.stake s.leases queue := by
  rw [stake, ha]
  rfl

/-- What the first part of a gateway's turn does to the credits outstanding. -/
theorem gateway_outstanding (h : Solvent s) {index : Nat} {turn : GatewayTurn} {target : String}
    {message : GatewayMessage} {rest : List (String × GatewayMessage)} {a : GatewayActor}
    (htake : takeAt s.toGateway index = some ((target, message), rest)) (ha : s.gateways target = some a)
    (hidle : a.busy = false) :
    Balance (s.Keeps name queue (.gateway index turn))
      (s.outstanding name queue + s.grants name queue (.gateway index turn))
      (({ s with toGateway := rest }.gatewayTurn settings turn target message a).outstanding name queue) := by
  have hnamed := h.recorded.named target a ha
  have htransit : s.inTransit name queue = (if target = name then message.owed queue else 0) +
      System.inTransit { s with toGateway := rest } name queue := weigh_takeAt htake _
  have hrest : s.outstanding name queue = (if target = name then message.owed queue else 0) +
      System.outstanding { s with toGateway := rest } name queue := by
    rw [System.outstanding, htransit]
    change _ = _ + (max ((s.grains queue).balance name) 0 + s.refunds name queue + _ + s.stake name queue)
    omega
  have hgrants : s.grants name queue (.gateway index turn) =
      if target = name then (s.gateways name).elim 0 (·.grants queue message) else 0 := by rw [System.grants, htake]
  rw [hgrants, System.gatewayTurn]
  dsimp only
  rcases eq_or_ne target name with rfl | heq
  · have hself := @emitted_self target queue { s with toGateway := rest }
      (a.receive settings { turn with delivery := s.deliveries.length } message).1
      (a.receive settings { turn with delivery := s.deliveries.length } message).2
    have hbalance := @GatewayActor.receive_balance s.leases queue a settings
      { turn with delivery := s.deliveries.length } hidle (h.sound ha) message (h.recorded.fits ha (taken_mem htake))
    rw [hnamed] at hbalance
    have hstake : System.stake { s with toGateway := rest } target queue = a.stake s.leases queue :=
      System.stake_of_gateway ha
    rw [hstake] at hself
    rw [if_pos rfl] at hrest ⊢
    rw [ha, Option.elim_some]
    dsimp only at hself
    refine hbalance.transfer (fun hkeeps => ?_) (by omega)
    obtain ⟨hexact, hstreams⟩ := hkeeps message rest a htake ha
    refine ⟨?_, hstreams⟩
    cases a with
    | stream g => cases message <;> exact hexact
    | webhook w => exact hexact
  · have hother := @emitted_other name queue target heq { s with toGateway := rest }
      (a.receive settings { turn with delivery := s.deliveries.length } message).1
      (a.receive settings { turn with delivery := s.deliveries.length } message).2
      fun p hp => hnamed ▸ receive_told hp
    rw [if_neg heq] at hrest ⊢
    exact .of_eq (by omega)

/-- What a part of a gateway's turn that goes on does to them. -/
theorem resume_outstanding (h : Solvent s) {turn : GatewayTurn} {order : Iteration} {target : String} {a : GatewayActor}
    (ha : s.gateways target = some a) :
    Balance (s.Keeps name queue (.resume target turn order)) (s.outstanding name queue)
      ((s.gatewayResume settings turn order target a).outstanding name queue) := by
  have hnamed := h.recorded.named target a ha
  obtain ⟨b, reply, hresume⟩ : ∃ b reply, s.gatewayResume settings turn order target a =
      ({ s with broker := b }.setGateway target (a.resume settings turn reply).1).emitGateway target
        (a.resume settings turn reply).2 := ⟨_, _, rfl⟩
  rw [hresume]
  rcases eq_or_ne target name with rfl | heq
  · have hself := @emitted_self target queue { s with broker := b } (a.resume settings turn reply).1
      (a.resume settings turn reply).2
    have hbalance := @GatewayActor.resume_balance s.leases queue a settings turn (h.sound ha) reply
    rw [hnamed] at hbalance
    have hstake : System.stake { s with broker := b } target queue = a.stake s.leases queue :=
      System.stake_of_gateway ha
    have hsame : System.outstanding { s with broker := b } target queue = s.outstanding target queue := rfl
    rw [hstake, hsame] at hself
    dsimp only at hself
    exact hbalance.transfer (fun hkeeps => hkeeps rfl a ha) (by omega)
  · exact .of_eq (emitted_other heq { s with broker := b } _ fun p hp => hnamed ▸
      told_quiet (GatewayActor.resume_ordinary reply) hp)

/-- A message to a grain that returns no credits. -/
theorem told_outstanding {p : String × GrainMessage} (hrefund : p.2.refund name = 0)
    {toGrain : List (String × GrainMessage)} (htoGrain : toGrain = s.toGrain ++ [p]) :
    System.outstanding { s with toGrain := toGrain } name queue = s.outstanding name queue := by
  have hrefunds : System.refunds { s with toGrain := toGrain } name queue = s.refunds name queue := by
    refine (congrArg (weigh _) htoGrain).trans ((weigh_append _ _ _).trans (add_eq_left.mpr ?_))
    rw [weigh_cons, weigh_nil, hrefund, ite_self, add_zero]
  change _ + _ + s.inTransit name queue + s.stake name queue = _
  rw [hrefunds]
  rfl

/-- A message to a gateway that carries no credits. -/
theorem sent_outstanding {p : String × GatewayMessage} (howed : p.2.owed queue = 0)
    {toGateway : List (String × GatewayMessage)} (htoGateway : toGateway = s.toGateway ++ [p]) :
    System.outstanding { s with toGateway := toGateway } name queue = s.outstanding name queue := by
  have htransit : System.inTransit { s with toGateway := toGateway } name queue = s.inTransit name queue := by
    refine (congrArg (weigh _) htoGateway).trans ((weigh_append _ _ _).trans (add_eq_left.mpr ?_))
    rw [weigh_cons, weigh_nil, howed, ite_self, add_zero]
  change _ + s.refunds name queue + _ + s.stake name queue = _
  rw [htransit]
  rfl

/-- A lease id that is new is that of no batch a gateway tracks. -/
theorem leased_outstanding (h : Recorded s) {leaseID of : String} (hnew : ∀ q, (leaseID, q) ∉ s.leases)
    {leases : List (String × String)} (hleases : leases = s.leases ++ [(leaseID, of)]) :
    System.outstanding { s with leases := leases } name queue = s.outstanding name queue := by
  have hstake : System.stake { s with leases := leases } name queue = s.stake name queue := by
    rw [System.stake, System.stake]
    change (s.gateways name).elim 0 (·.stake leases queue) = _
    cases ha : s.gateways name with
    | none => rfl
    | some a =>
      cases a with
      | webhook w => rfl
      | stream g =>
        have hcount : Gateway.batchCount leases queue g.batches = Gateway.batchCount s.leases queue g.batches := by
          refine tally_congr fun tracked ids hids => ?_
          obtain ⟨d, hd, -, -, hlease, -⟩ := h.delivered.batches name _ tracked ids ha hids
          have hne : tracked ≠ leaseID := by
            rintro rfl
            exact hnew d.queue (hlease ▸ h.flow.delivery d hd)
          simp [hleases, hne]
        change _ + Gateway.batchCount leases queue g.batches + _ = _
        rw [hcount]
        rfl
  change _ + s.refunds name queue + s.inTransit name queue + _ = _
  rw [hstake]
  rfl

theorem report_owed {a : GatewayActor} {message : GatewayMessage}
    (h : d.report number a answer = some message) : message.owed queue = 0 := by
  cases a <;> cases answer <;> simp only [Delivery.report] at h <;> grind [GatewayMessage.owed]

theorem admits_owed {a : GatewayActor} {message : GatewayMessage} (h : a.admits message = true) :
    message.owed queue = 0 := by
  cases message with
  | executeTask | executeBatch | deferredCompletion => cases a <;> cases h
  | _ => rfl

theorem mayTell_refund {message : GrainMessage} (h : s.mayTell message = true) : message.refund name = 0 := by
  cases message with
  | taskCompleted | batchCompleted | gatewayCredit => cases h
  | _ => rfl

/-- A step creates no credits beyond its grants. -/
theorem Moves.outstanding (hmove : Moves settings s e s') (h : Solvent s) (hfits : s.outstanding name queue < 2 ^ 31) :
    s' = s ∨ Balance (s.Keeps name queue e) (s.outstanding name queue + s.grants name queue e)
      (s'.outstanding name queue) := by
  have hsame : s.grants name queue e = 0 → s'.outstanding name queue = s.outstanding name queue →
      Balance (s.Keeps name queue e) (s.outstanding name queue + s.grants name queue e) (s'.outstanding name queue) :=
    fun hgrants hout => .of_eq (by rw [hgrants, add_zero, hout])
  cases hmove with
  | idle => exact .inl rfl
  | broker => exact .inr (hsame rfl rfl)
  | tellGrain hmay => exact .inr (hsame rfl (told_outstanding (mayTell_refund hmay) rfl))
  | tellGateway ha hadmits => exact .inr (hsame rfl (sent_outstanding (admits_owed hadmits) rfl))
  | grain htake hfresh => exact .inr (grain_outstanding h hfits htake)
  | gateway htake ha hidle => exact .inr (gateway_outstanding h htake ha hidle)
  | resume ha hbusy =>
    refine .inr ?_
    rw [show s.grants name queue (.resume _ _ _) = 0 from rfl, add_zero]
    exact resume_outstanding h ha
  | pipe htake =>
    rename_i now order pipe rest
    refine .inr (hsame rfl ?_)
    -- a claim hands out a lease id that is new, and reports to its grain
    have hclaimed : ∀ {leaseID of : String} {message : GrainMessage}, pipe.leaseID? = some leaseID →
        message.refund name = 0 →
        System.outstanding { s with leases := s.leases ++ [(leaseID, of)], toGrain := s.toGrain ++ [(of, message)] }
          name queue = s.outstanding name queue := by
      intro leaseID of message hid hrefund
      refine (told_outstanding hrefund rfl).trans (leased_outstanding h.recorded ?_ rfl)
      exact h.recorded.flow.pipe_unused htake hid
    cases pipe with
    | lease => exact hclaimed rfl rfl
    | leaseGroup => exact hclaimed rfl rfl
    | release of leaseID taskIDs released failed =>
      cases taskIDs with
      | nil => exact told_outstanding rfl rfl
      | cons => rfl
  | answer hd hopen ha hreport => exact .inr (hsame rfl (sent_outstanding (report_owed hreport) rfl))

end Conveyor
