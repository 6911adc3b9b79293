import Conveyor.Broker.Fencing

/-!
# Claiming tasks through the encrypting broker

The encrypting broker wraps another one and opens the payloads of the tasks a claim hands out. The wrapped
broker commits the claim before the first payload is opened, and nothing takes the claim back: a payload
that cannot be opened fails the call, while every task of the claim stays active under its lease.
-/

namespace Conveyor

open Lib

/-- What the encrypting broker uses of a wrapped broker with stores in `S`. `Env` is what a call takes from
its surroundings, such as a clock reading. -/
structure ClaimingBroker (Env S E : Type) where
  lease : Env → S → (queue : String) → (limit : Int) → (ttl : Duration) → (leaseID : String) →
    S × Except E (List TaskEnvelope)
  leaseGroup : Env → S → (queue group : String) → (limit : Int) → (ttl : Duration) → (leaseID : String) →
    S × Except E (List TaskEnvelope)
  activeUnder : S → (taskID leaseID : String) → Prop

/-- What a claim finds in the store before it: whether the storage answers, the due tasks of a queue and the
aggregating members of a group, in the order in which a claim takes them. -/
structure Claimable (Env S : Type) where
  answers : Env → S → Bool
  due : Env → S → (queue : String) → List TaskEnvelope
  members : Env → S → (queue group : String) → List TaskEnvelope

namespace ClaimingBroker

variable {Env S E : Type}

/-- The claim is atomic: it hands out the tasks it finds, none of which was active under its lease id, and these
are the ones that become active under it; without an answer of the storage it fails and makes none active. -/
structure Atomic (inner : ClaimingBroker Env S E) (s : S) (answers : Bool) (found : List TaskEnvelope)
    (leaseID : String) (outcome : S × Except E (List TaskEnvelope)) : Prop where
  claimed : answers = true → ∃ tasks, outcome.2 = .ok tasks ∧
    tasks.map (fun task => (task.id, task.payload)) = found.map (fun task => (task.id, task.payload)) ∧
    ∀ t, inner.activeUnder outcome.1 t leaseID ↔ inner.activeUnder s t leaseID ∨ t ∈ found.map TaskEnvelope.id
  failed : answers = false → (∃ cause, outcome.2 = .error cause) ∧
    ∀ t, inner.activeUnder outcome.1 t leaseID ↔ inner.activeUnder s t leaseID
  inactive : ∀ task ∈ found, ¬ inner.activeUnder s task.id leaseID

/-- The contract of `Lease` and `LeaseGroup`: a claim takes the first `limit` tasks. -/
structure Contract (inner : ClaimingBroker Env S E) (claimable : Claimable Env S) : Prop where
  lease : ∀ env s queue limit ttl leaseID, inner.Atomic s (claimable.answers env s)
    ((claimable.due env s queue).take limit.toNat) leaseID (inner.lease env s queue limit ttl leaseID)
  leaseGroup : ∀ env s queue group limit ttl leaseID, inner.Atomic s (claimable.answers env s)
    ((claimable.members env s queue group).take limit.toNat) leaseID
    (inner.leaseGroup env s queue group limit ttl leaseID)

end ClaimingBroker

/-- Seals and opens payloads; either may fail. -/
structure Encryptor (D : Type) where
  encrypt : List UInt8 → Except D (List UInt8)
  decrypt : List UInt8 → Except D (List UInt8)

/-- An error of the encrypting broker: one of the wrapped broker, or a payload that could not be opened,
with the task it belongs to. -/
inductive EncryptedError (E D : Type) where
  | inner (cause : E)
  | decrypting (taskID : String) (cause : D)

/-- The encrypting broker. -/
structure EncryptedBroker (Env S E D : Type) where
  inner : ClaimingBroker Env S E
  encryptor : Encryptor D

namespace EncryptedBroker

variable {Env S E D : Type} (e : EncryptedBroker Env S E D)

/-- The task with its payload opened; an empty payload stays empty. -/
def openEnvelope (task : TaskEnvelope) : Except (EncryptedError E D) TaskEnvelope :=
  if task.payload = [] then .ok task
  else
    match e.encryptor.decrypt task.payload with
    | .error cause => .error (.decrypting task.id cause)
    | .ok plaintext => .ok { task with payload := plaintext }

/-- Open the payloads one after the other; the first that cannot be opened fails the call. -/
def openEnvelopes : List TaskEnvelope → Except (EncryptedError E D) (List TaskEnvelope)
  | [] => .ok []
  | task :: rest =>
    match e.openEnvelope task with
    | .error cause => .error cause
    | .ok opened =>
      match openEnvelopes rest with
      | .error cause => .error cause
      | .ok tasks => .ok (opened :: tasks)

/-- Open the payloads of a claim of the wrapped broker, which has been committed. -/
def openClaim : S × Except E (List TaskEnvelope) → S × Except (EncryptedError E D) (List TaskEnvelope)
  | (s, .error cause) => (s, .error (.inner cause))
  | (s, .ok tasks) => (s, e.openEnvelopes tasks)

/-- Claim up to `limit` due tasks of a queue. -/
def lease (env : Env) (s : S) (queue : String) (limit : Int) (ttl : Duration) (leaseID : String) :
    S × Except (EncryptedError E D) (List TaskEnvelope) :=
  e.openClaim (e.inner.lease env s queue limit ttl leaseID)

/-- Claim a group's aggregating members as one batch. -/
def leaseGroup (env : Env) (s : S) (queue group : String) (limit : Int) (ttl : Duration)
    (leaseID : String) : S × Except (EncryptedError E D) (List TaskEnvelope) :=
  e.openClaim (e.inner.leaseGroup env s queue group limit ttl leaseID)

/-- Whether a payload is empty or can be opened. -/
def Opens (payload : List UInt8) : Prop :=
  payload = [] ∨ ∃ plaintext, e.encryptor.decrypt payload = .ok plaintext

section Opening

variable {e}

/-- A task is opened exactly when its payload can be. -/
theorem openEnvelope_isOk {task : TaskEnvelope} : (e.openEnvelope task).isOk = true ↔ e.Opens task.payload := by
  rw [openEnvelope, Opens]
  split
  · rename_i hempty
    exact ⟨fun _ => .inl hempty, fun _ => rfl⟩
  · rename_i hpayload
    cases hdecrypt : e.encryptor.decrypt task.payload with
    | error cause => simp [hpayload, Except.isOk, Except.toBool]
    | ok plaintext => simp [Except.isOk, Except.toBool]

/-- A list of tasks is opened exactly when each of them can be. -/
theorem openEnvelopes_isOk {tasks : List TaskEnvelope} :
    (e.openEnvelopes tasks).isOk = true ↔ ∀ task ∈ tasks, e.Opens task.payload := by
  induction tasks with
  | nil => simp [openEnvelopes, Except.isOk, Except.toBool]
  | cons task rest ih =>
    rw [List.forall_mem_cons, ← openEnvelope_isOk, ← ih, openEnvelopes]
    cases e.openEnvelope task with
    | error cause => simp [Except.isOk, Except.toBool]
    | ok opened => cases e.openEnvelopes rest <;> simp [Except.isOk, Except.toBool]

/-- Opening the payloads of a claim does not touch the store. -/
theorem openClaim_store (outcome : S × Except E (List TaskEnvelope)) : (e.openClaim outcome).1 = outcome.1 := by
  obtain ⟨s, reply⟩ := outcome
  cases reply <;> rfl

variable {s : S} {answers : Bool} {found : List TaskEnvelope} {leaseID : String}
  {outcome : S × Except E (List TaskEnvelope)}

/-- The call that follows a claim which the storage answered succeeds exactly when every payload it found opens. -/
theorem openClaim_isOk (hatomic : e.inner.Atomic s answers found leaseID outcome) (hanswers : answers = true) :
    (e.openClaim outcome).2.isOk = true ↔ ∀ task ∈ found, e.Opens task.payload := by
  obtain ⟨tasks, hreply, hsame, -⟩ := hatomic.claimed hanswers
  obtain ⟨after, reply⟩ := outcome
  subst hreply
  have hpayloads : tasks.map TaskEnvelope.payload = found.map TaskEnvelope.payload := by
    have hsnd := congrArg (List.map Prod.snd) hsame
    rwa [List.map_map, List.map_map] at hsnd
  calc (e.openEnvelopes tasks).isOk = true
    _ ↔ ∀ payload ∈ tasks.map TaskEnvelope.payload, e.Opens payload := by
      rw [openEnvelopes_isOk, List.forall_mem_map]
    _ ↔ ∀ task ∈ found, e.Opens task.payload := by
      rw [hpayloads, List.forall_mem_map]

/-- One payload that cannot be opened fails the call, and every task of the claim is stranded under its lease. -/
theorem openClaim_stranded (hatomic : e.inner.Atomic s answers found leaseID outcome) (hanswers : answers = true)
    {closed : TaskEnvelope} (hclosed : closed ∈ found) (hopens : ¬ e.Opens closed.payload) :
    (∃ err, (e.openClaim outcome).2 = .error err) ∧ ∀ task ∈ found,
      e.inner.activeUnder (e.openClaim outcome).1 task.id leaseID ∧ ¬ e.inner.activeUnder s task.id leaseID := by
  constructor
  · cases hreply : (e.openClaim outcome).2 with
    | error err => exact ⟨err, rfl⟩
    | ok opened =>
      have hok : (e.openClaim outcome).2.isOk = true := by rw [hreply]; rfl
      exact absurd ((openClaim_isOk hatomic hanswers).mp hok closed hclosed) hopens
  · intro task htask
    obtain ⟨-, -, -, hactive⟩ := hatomic.claimed hanswers
    rw [openClaim_store]
    exact ⟨(hactive task.id).mpr (.inr (List.mem_map_of_mem htask)), hatomic.inactive task htask⟩

/-- A failed call has made no task active exactly when the storage did not answer or every payload it found opens. -/
theorem openClaim_failed_iff (hatomic : e.inner.Atomic s answers found leaseID outcome) :
    (∀ err, (e.openClaim outcome).2 = .error err → ∀ t,
      e.inner.activeUnder (e.openClaim outcome).1 t leaseID → e.inner.activeUnder s t leaseID) ↔
      (answers = true → ∀ task ∈ found, e.Opens task.payload) := by
  constructor
  · intro hnothing hanswers task htask
    by_contra hopens
    obtain ⟨⟨err, herr⟩, hstranded⟩ := openClaim_stranded hatomic hanswers htask hopens
    obtain ⟨hafter, hbefore⟩ := hstranded task htask
    exact hbefore (hnothing err herr task.id hafter)
  · intro hopens err herr t hafter
    cases hanswers : answers with
    | false =>
      rw [openClaim_store] at hafter
      exact ((hatomic.failed hanswers).2 t).mp hafter
    | true =>
      have hok := (openClaim_isOk hatomic hanswers).mpr (hopens hanswers)
      rw [herr] at hok
      cases hok

end Opening

/-- A call that returns an error has made no task active under its lease id exactly when the storage does not answer
or each of the first `limit` due tasks of the queue (members of the group) has a payload that can be opened. -/
theorem failed_claim_claims_nothing {claimable : Claimable Env S} (hcontract : e.inner.Contract claimable) (env : Env)
    (s : S) (queue : String) (limit : Int) (ttl : Duration) (leaseID : String) :
    ((∀ err, (e.lease env s queue limit ttl leaseID).2 = .error err → ∀ t,
        e.inner.activeUnder (e.lease env s queue limit ttl leaseID).1 t leaseID → e.inner.activeUnder s t leaseID) ↔
      (claimable.answers env s = true →
        ∀ task ∈ (claimable.due env s queue).take limit.toNat, e.Opens task.payload)) ∧
    ∀ group, (∀ err, (e.leaseGroup env s queue group limit ttl leaseID).2 = .error err → ∀ t,
        e.inner.activeUnder (e.leaseGroup env s queue group limit ttl leaseID).1 t leaseID →
          e.inner.activeUnder s t leaseID) ↔
      (claimable.answers env s = true →
        ∀ task ∈ (claimable.members env s queue group).take limit.toNat, e.Opens task.payload) :=
  ⟨openClaim_failed_iff (hcontract.lease env s queue limit ttl leaseID),
    fun group => openClaim_failed_iff (hcontract.leaseGroup env s queue group limit ttl leaseID)⟩

end EncryptedBroker

section Memory

variable {b : Broker} {now : Time} {order : MapOrder String} {test : TaskRow → Bool}
  {cmp : TaskRow → TaskRow → Int} {limit : Int} {ttl : Duration} {leaseID : String}

/-- The rows that pass a test, as a sorted claim takes them. -/
def Broker.claimOrder (b : Broker) (order : MapOrder String) (test : TaskRow → Bool) (cmp : TaskRow → TaskRow → Int) :
    List (String × TaskRow) :=
  sortFunc (fun x y => cmp x.2 y.2) (b.rowsWhere order test)

/-- A sorted claim leases the first `limit` rows and hands out their tasks. -/
theorem claimSorted_eq : b.claimSorted now order test cmp limit ttl leaseID =
    (b.claim now ttl leaseID ((b.claimOrder order test cmp).take limit.toNat),
      ((b.claimOrder order test cmp).take limit.toNat).map fun entry => overlay (entry.2.leased now ttl leaseID)) := by
  rw [Broker.claimSorted]
  split
  · rename_i hlimit
    rw [Int.toNat_of_nonpos hlimit]
    rfl
  · rfl

/-- A sorted claim of rows that are not active is atomic. -/
theorem claimSorted_atomic {Env E : Type} {inner : ClaimingBroker Env { b : Broker // b.Keyed } E}
    (hactive : ∀ b, inner.activeUnder b = b.1.ActiveUnder) {s after : { b : Broker // b.Keyed }}
    (hafter : after.1 = (s.1.claimSorted now order test cmp limit ttl leaseID).1)
    (htest : ∀ row, test row = true → row.state ≠ .active) :
    inner.Atomic s true (((s.1.claimOrder order test cmp).map fun entry => overlay entry.2).take limit.toNat) leaseID
      (after, .ok (s.1.claimSorted now order test cmp limit ttl leaseID).2) := by
  obtain ⟨hnodup, hchosen⟩ := sorted_chosen s.1 order test cmp limit.toNat
  change ((s.1.claimOrder order test cmp).take limit.toNat |>.map Prod.fst).Nodup at hnodup
  change ∀ entry ∈ (s.1.claimOrder order test cmp).take limit.toNat, _ at hchosen
  rw [claimSorted_eq] at hafter ⊢
  rw [← List.map_take]
  generalize (s.1.claimOrder order test cmp).take limit.toNat = chosen at *
  have hids : (chosen.map fun entry => overlay entry.2).map TaskEnvelope.id = chosen.map Prod.fst := by
    rw [List.map_map]
    exact List.map_congr_left fun entry hentry => s.2 entry.1 entry.2 (hchosen entry hentry).1
  refine ⟨fun _ => ⟨_, rfl, ?_, fun t => ?_⟩, fun hfalse => absurd hfalse.symm Bool.false_ne_true, ?_⟩
  · rw [List.map_map, List.map_map]
    rfl
  · rw [hids, hactive, hactive, hafter]
    by_cases hmem : t ∈ chosen.map Prod.fst
    · obtain ⟨entry, hentry, rfl⟩ := List.mem_map.mp hmem
      exact ⟨fun _ => .inr hmem, fun _ => ⟨_, claim_lookup chosen s.1 hnodup hentry, rfl, rfl⟩⟩
    · rw [or_iff_left hmem, Broker.ActiveUnder, claim_lookup_of_not_mem chosen s.1 hmem]
      rfl
  · rw [List.forall_mem_map]
    rintro entry hentry hbefore
    obtain ⟨hrow, hpasses⟩ := hchosen entry hentry
    rw [hactive, show (overlay entry.2).id = entry.1 from s.2 entry.1 entry.2 hrow] at hbefore
    obtain ⟨row, hlookup, hstate, -⟩ := hbefore
    rw [hrow, Option.some.injEq] at hlookup
    exact htest entry.2 hpasses (hlookup ▸ hstate)

/-- The in-memory broker, over stores whose rows stand under their own ids. A call takes a clock reading
and an iteration order from its surroundings. -/
def memoryClaims : ClaimingBroker (Time × MapOrder String) { b : Broker // b.Keyed } BrokerError where
  lease env b queue limit ttl leaseID :=
    (⟨(b.1.lease env.1 env.2 queue limit ttl leaseID).1,
        after_keyed b.2 ⟨env.1, .lease queue limit ttl leaseID, { tasks := env.2 }⟩⟩,
      .ok (b.1.lease env.1 env.2 queue limit ttl leaseID).2)
  leaseGroup env b queue group limit ttl leaseID :=
    (⟨(b.1.leaseGroup env.1 env.2 queue group limit ttl leaseID).1,
        after_keyed b.2 ⟨env.1, .leaseGroup queue group limit ttl leaseID, { tasks := env.2 }⟩⟩,
      .ok (b.1.leaseGroup env.1 env.2 queue group limit ttl leaseID).2)
  activeUnder b := b.1.ActiveUnder

/-- The in-memory broker always answers, and takes the rows a lease may claim in the order of its comparisons. -/
def memoryClaimable : Claimable (Time × MapOrder String) { b : Broker // b.Keyed } where
  answers _ _ := true
  due env b queue :=
    (b.1.claimOrder env.2 (Broker.leasable queue env.1) compareDue).map fun entry => overlay entry.2
  members env b queue group :=
    (b.1.claimOrder env.2 (Broker.groupLeasable queue group) compareMembers).map fun entry => overlay entry.2

/-- The claims of the in-memory broker meet the contract. -/
theorem memoryClaims_contract : memoryClaims.Contract memoryClaimable where
  lease env b queue limit ttl leaseID := by
    refine claimSorted_atomic (fun _ => rfl) rfl fun row hleasable hstate => ?_
    simp [Broker.leasable, dispatchable, hstate] at hleasable
  leaseGroup env b queue group limit ttl leaseID := by
    refine claimSorted_atomic (fun _ => rfl) rfl fun row hleasable hstate => ?_
    simp [Broker.groupLeasable, hstate] at hleasable

/-- The encrypting broker over the in-memory one, with an encryptor that writes a tag byte in front of a payload and
opens only what has it. -/
def taggedBroker : EncryptedBroker (Time × MapOrder String) { b : Broker // b.Keyed } BrokerError Unit where
  inner := memoryClaims
  encryptor :=
    { encrypt := fun plaintext => .ok (7 :: plaintext)
      decrypt := fun payload => if payload.head? = some 7 then .ok payload.tail else .error () }

/-- A store with two pending tasks: the payload of `t` has the tag, the one of `u` was stored without it. -/
def untaggedSecond : { b : Broker // b.Keyed } :=
  ⟨Broker.empty.run [⟨1, .enqueue { id := "t", queue := "q", payload := [7, 1] }, {}⟩,
    ⟨1, .enqueue { id := "u", queue := "q", payload := [2] }, {}⟩], run_keyed _⟩

/-- A claim of the first task opens its payload, and a claim of both meets one that cannot be opened: its failure
leaves a task active. -/
theorem failed_claim_claims_nothing_tagged :
    ((taggedBroker.lease (2, .listed) untaggedSecond "q" 1 5 "L").1.1.ActiveUnder "t" "L" ∧
      ∀ err, (taggedBroker.lease (2, .listed) untaggedSecond "q" 1 5 "L").2 = .error err → ∀ t,
        (taggedBroker.lease (2, .listed) untaggedSecond "q" 1 5 "L").1.1.ActiveUnder t "L" →
        untaggedSecond.1.ActiveUnder t "L") ∧
    ¬ ∀ err, (taggedBroker.lease (2, .listed) untaggedSecond "q" 2 5 "L").2 = .error err → ∀ t,
        (taggedBroker.lease (2, .listed) untaggedSecond "q" 2 5 "L").1.1.ActiveUnder t "L" →
        untaggedSecond.1.ActiveUnder t "L" := by
  have hiff := fun limit => (EncryptedBroker.failed_claim_claims_nothing taggedBroker memoryClaims_contract
    (2, .listed) untaggedSecond "q" limit 5 "L").1
  refine ⟨⟨⟨_, rfl, rfl, rfl⟩, (hiff 1).mpr fun _ => List.forall_mem_singleton.mpr (.inr ⟨[1], rfl⟩)⟩, fun hnothing => ?_⟩
  obtain hempty | ⟨plaintext, hopened⟩ := (hiff 2).mp hnothing rfl _ (.tail _ (.head _))
  · cases hempty
  · cases hopened

/-- A payload that cannot be opened fails the call, and its task is active under the lease. -/
theorem failed_claim_strands_task :
    taggedBroker.inner.Contract memoryClaimable ∧
    (taggedBroker.lease (2, .listed) untaggedSecond "q" 2 5 "L").2 = .error (.decrypting "u" ()) ∧
    ¬ untaggedSecond.1.ActiveUnder "t" "L" ∧
    (taggedBroker.lease (2, .listed) untaggedSecond "q" 2 5 "L").1.1.ActiveUnder "t" "L" ∧
    (taggedBroker.lease (2, .listed) untaggedSecond "q" 2 5 "L").1.1.ActiveUnder "u" "L" := by
  refine ⟨memoryClaims_contract, rfl, ?_, ⟨_, rfl, rfl, rfl⟩, _, rfl, rfl, rfl⟩
  rintro ⟨row, hrow, hstate, -⟩
  cases hrow
  cases hstate

end Memory

end Conveyor
