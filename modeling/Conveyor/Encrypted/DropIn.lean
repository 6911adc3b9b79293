import Conveyor.Broker.InterfacePayload
import Conveyor.Encrypted.Claim

/-!
# The encrypting broker over the whole interface

Every operation is sealed, carried out by the wrapped broker, and what comes back is opened. A cipher may answer
the same plaintext with a different ciphertext each time, so every use of it has a draw of its own. The store of the
plain broker is then the wrapped store with every payload opened, whichever ciphertexts were kept.
-/

namespace Conveyor

open Lib

/-- A cipher: sealing takes a draw, opening does not. -/
structure Cipher (R D : Type) where
  encrypt : R → List UInt8 → Except D (List UInt8)
  decrypt : List UInt8 → Except D (List UInt8)

/-- What the encrypting broker seals. -/
inductive SealedField where
  | payload | result | batchResult | cronPayload
  deriving DecidableEq

/-- How the cipher may fail an operation: while sealing, while opening a task, while opening a cron entry. -/
inductive CipherError (D : Type) where
  | encrypting (field : SealedField) (cause : D)
  | decrypting (cause : EncryptedError BrokerError D)
  | decryptingCron (entryID : String) (cause : D)

/-- Replace the values one after the other, each with its index; the first failure ends the loop. -/
def replaceAll {A E : Type} (step : Nat → A → Except E A) : List A → Except E (List A)
  | [] => .ok []
  | a :: rest =>
    match step 0 a with
    | .error cause => .error cause
    | .ok replaced =>
      match replaceAll (fun index => step (index + 1)) rest with
      | .error cause => .error cause
      | .ok replacements => .ok (replaced :: replacements)

/-- A loop whose every step succeeds returns, and each replacement relates to its value. -/
theorem replaceAll_forall {A E : Type} {step : Nat → A → Except E A} {Q : A → A → Prop} {values : List A}
    (h : ∀ index, ∀ a ∈ values, ∃ a', step index a = .ok a' ∧ Q a a') :
    ∃ values', replaceAll step values = .ok values' ∧ List.Forall₂ Q values values' := by
  induction values generalizing step with
  | nil => exact ⟨[], rfl, .nil⟩
  | cons a rest ih =>
    obtain ⟨replaced, hstep, hfirst⟩ := h 0 a (.head _)
    obtain ⟨replacements, hloop, hrest⟩ := ih fun index a' ha' => h (index + 1) a' (.tail a ha')
    exact ⟨replaced :: replacements, by simp only [replaceAll, hstep, hloop], .cons hfirst hrest⟩

/-- The claims of the in-memory broker with everything it stores. -/
def interfaceClaims : ClaimingBroker Surroundings MemoryBroker BrokerError where
  lease env b queue limit ttl leaseID :=
    let (log, tasks) := b.log.lease env.now env.order.tasks queue limit ttl leaseID
    ({ b with log := log }, .ok tasks)
  leaseGroup env b queue group limit ttl leaseID :=
    let (log, tasks) := b.log.leaseGroup env.now env.order.tasks queue group limit ttl leaseID
    ({ b with log := log }, .ok tasks)
  activeUnder b := b.log.ActiveUnder

/-- The payloads and results an operation carries. -/
def Operation.secrets : Operation → List (List UInt8)
  | .call (.enqueue task) => [task.payload]
  | .call (.enqueueBatch tasks) => tasks.map TaskEnvelope.payload
  | .ack _ _ result => [result]
  | .ackBatch items => items.map Prod.snd
  | .upsertCronEntry entry => [entry.payload]
  | _ => []

/-- An operation issued to a broker, with what it takes from its surroundings and from the cipher. -/
structure Submission (R : Type) where
  env : Surroundings
  draws : Nat → R
  operation : Operation

/-- What the plain broker returns, operation by operation. -/
def MemoryBroker.returns {R : Type} : MemoryBroker → List (Submission R) → List Returned
  | _, [] => []
  | b, issued :: rest =>
    let (after, returned) := b.perform issued.env issued.operation
    returned :: returns after rest

/-- The wrapped broker with the operations it has received, the latest last. -/
structure WrappedBroker where
  broker : MemoryBroker := {}
  received : List Operation := []

/-- The wrapped broker carries out an operation it receives. -/
def WrappedBroker.perform (inner : WrappedBroker) (env : Surroundings) (operation : Operation) :
    WrappedBroker × Returned :=
  let (after, returned) := inner.broker.perform env operation
  (⟨after, inner.received ++ [operation]⟩, returned)

namespace Cipher

variable {R D : Type} (c : Cipher R D)

/-- The encrypting broker at one draw. -/
def wrap (draw : R) : EncryptedBroker Surroundings MemoryBroker BrokerError D :=
  ⟨interfaceClaims, ⟨c.encrypt draw, c.decrypt⟩⟩

/-- The bytes sealed; empty ones stay empty. -/
def sealBytes (field : SealedField) (draw : R) (bytes : List UInt8) : Except (CipherError D) (List UInt8) :=
  if bytes = [] then .ok bytes
  else
    match c.encrypt draw bytes with
    | .error cause => .error (.encrypting field cause)
    | .ok sealed => .ok sealed

/-- The task with its payload sealed. -/
def sealEnvelope (draw : R) (task : TaskEnvelope) : Except (CipherError D) TaskEnvelope :=
  (c.sealBytes .payload draw task.payload).map fun sealed => { task with payload := sealed }

/-- One item of a batched acknowledgement with its result sealed. -/
def sealItem (draw : R) (item : AckItem × List UInt8) : Except (CipherError D) (AckItem × List UInt8) :=
  (c.sealBytes .batchResult draw item.2).map fun sealed => (item.1, sealed)

/-- The operation as the wrapped broker receives it. -/
def sealOperation (draws : Nat → R) : Operation → Except (CipherError D) Operation
  | .call (.enqueue task) => (c.sealEnvelope (draws 0) task).map fun sealed => .call (.enqueue sealed)
  | .call (.enqueueBatch tasks) =>
    (replaceAll (fun index => c.sealEnvelope (draws index)) tasks).map fun sealed => .call (.enqueueBatch sealed)
  | .ack taskID leaseID result => (c.sealBytes .result (draws 0) result).map (.ack taskID leaseID)
  | .ackBatch items => (replaceAll (fun index => c.sealItem (draws index)) items).map .ackBatch
  | .upsertCronEntry entry =>
    (c.sealBytes .cronPayload (draws 0) entry.payload).map fun sealed => .upsertCronEntry { entry with payload := sealed }
  | operation => .ok operation

/-- One listed task with its payload opened. -/
def openRecord (draw : R) (record : TaskRecord) : Except (CipherError D) TaskRecord :=
  match (c.wrap draw).openEnvelope record.envelope with
  | .error cause => .error (.decrypting cause)
  | .ok opened => .ok { record with envelope := opened }

/-- One cron entry with its payload opened. -/
def openCronEntry (entry : CronEntry) : Except (CipherError D) CronEntry :=
  if entry.payload = [] then .ok entry
  else
    match c.decrypt entry.payload with
    | .error cause => .error (.decryptingCron entry.id cause)
    | .ok plaintext => .ok { entry with payload := plaintext }

/-- What the caller receives of the wrapped broker's answer. -/
def openReturned (draw : R) : Returned → Except (CipherError D) Returned
  | .reply (.leased tasks) =>
    match (c.wrap draw).openEnvelopes tasks with
    | .error cause => .error (.decrypting cause)
    | .ok opened => .ok (.reply (.leased opened))
  | .task envelope state =>
    match (c.wrap draw).openEnvelope envelope with
    | .error cause => .error (.decrypting cause)
    | .ok opened => .ok (.task opened state)
  | .records records => (replaceAll (fun _ => c.openRecord draw) records).map .records
  | .cronEntries entries => (replaceAll (fun _ => c.openCronEntry) entries).map .cronEntries
  | returned => .ok returned

/-- Carry out one operation; one that cannot be sealed does not reach the wrapped broker. -/
def perform (inner : WrappedBroker) (issued : Submission R) : WrappedBroker × Except (CipherError D) Returned :=
  match c.sealOperation issued.draws issued.operation with
  | .error cause => (inner, .error cause)
  | .ok sealed =>
    let (after, returned) := inner.perform issued.env sealed
    (after, c.openReturned (issued.draws 0) returned)

/-- Carry out the operations one after the other: the wrapped broker in the end, and what each of them returned. -/
def run : WrappedBroker → List (Submission R) → WrappedBroker × List (Except (CipherError D) Returned)
  | inner, [] => (inner, [])
  | inner, issued :: rest =>
    let (after, returned) := c.perform inner issued
    let (final, answers) := run after rest
    (final, returned :: answers)

/-- Sealing a non-empty text gives a non-empty one that opens to it, whatever the draw. -/
def Faithful : Prop :=
  ∀ draw plaintext, plaintext ≠ [] →
    ∃ sealed, sealed ≠ [] ∧ c.encrypt draw plaintext = .ok sealed ∧ c.decrypt sealed = .ok plaintext

/-- The plaintext of stored bytes. -/
def opened (bytes : List UInt8) : List UInt8 :=
  if bytes = [] then [] else (c.decrypt bytes).toOption.getD []

/-- The bytes if they can be opened. A value this function leaves alone holds only such bytes. -/
def openable (bytes : List UInt8) : List UInt8 :=
  match c.decrypt bytes with
  | .error _ => []
  | .ok _ => bytes

/-- Bytes as the encrypting broker hands them on: empty, or an output of the cipher. -/
def Output (bytes : List UInt8) : Prop := bytes ≠ [] → ∃ draw plaintext, c.encrypt draw plaintext = .ok bytes

/-- Bytes the wrapped broker may receive in the place of a plaintext. -/
structure SealOf (plaintext sealed : List UInt8) : Prop where
  opened : c.opened sealed = plaintext
  openable : c.openable sealed = sealed
  output : c.Output sealed

variable {c}

theorem sealBytes_ok (hfaithful : c.Faithful) (field : SealedField) (draw : R) (bytes : List UInt8) :
    ∃ sealed, c.sealBytes field draw bytes = .ok sealed ∧ c.SealOf bytes sealed := by
  by_cases hempty : bytes = []
  · have hopenable : c.openable [] = [] := by
      rw [openable]
      split <;> rfl
    exact ⟨bytes, if_pos hempty, by subst hempty; exact ⟨if_pos rfl, hopenable, (absurd rfl ·)⟩⟩
  · obtain ⟨sealed, hne, hencrypt, hdecrypt⟩ := hfaithful draw bytes hempty
    refine ⟨sealed, ?_, ?_, ?_, fun _ => ⟨draw, bytes, hencrypt⟩⟩
    · rw [sealBytes, if_neg hempty, hencrypt]
    · rw [opened, if_neg hne, hdecrypt]
      rfl
    · rw [openable, hdecrypt]

theorem sealEnvelope_ok (hfaithful : c.Faithful) (draw : R) (task : TaskEnvelope) :
    ∃ sealed, c.sealEnvelope draw task = .ok sealed ∧ sealed.mapPayload c.opened = task ∧
      sealed.mapPayload c.openable = sealed ∧ c.Output sealed.payload := by
  obtain ⟨sealed, hseal, hof⟩ := sealBytes_ok hfaithful .payload draw task.payload
  refine ⟨{ task with payload := sealed }, by rw [sealEnvelope, hseal]; rfl, ?_, ?_, hof.output⟩
  · simp only [TaskEnvelope.mapPayload, hof.opened]
  · simp only [TaskEnvelope.mapPayload, hof.openable]

theorem sealItem_ok (hfaithful : c.Faithful) (draw : R) (item : AckItem × List UInt8) :
    ∃ sealed, c.sealItem draw item = .ok sealed ∧ sealed.map id c.opened = item ∧
      sealed.map id c.openable = sealed ∧ c.Output sealed.2 := by
  obtain ⟨sealed, hseal, hof⟩ := sealBytes_ok hfaithful .batchResult draw item.2
  refine ⟨(item.1, sealed), by rw [sealItem, hseal]; rfl, ?_, ?_, hof.output⟩
  · simp only [Prod.map, id_eq, hof.opened]
  · simp only [Prod.map, id_eq, hof.openable]

/-- A list whose elements each have a counterpart that opens to them has one that opens to it. -/
theorem forall₂_replaced {A : Type} {opening keeping : A → A} {bytes : A → List UInt8} {values sealed : List A}
    (h : List.Forall₂ (fun a a' => opening a' = a ∧ keeping a' = a' ∧ c.Output (bytes a')) values sealed) :
    sealed.map opening = values ∧ sealed.map keeping = sealed ∧ ∀ secret ∈ sealed.map bytes, c.Output secret := by
  induction h with
  | nil => exact ⟨rfl, rfl, List.forall_mem_nil _⟩
  | cons hfirst _ ih =>
    obtain ⟨hopening, hkeeping, houtput⟩ := hfirst
    obtain ⟨ihopening, ihkeeping, ihoutput⟩ := ih
    refine ⟨?_, ?_, ?_⟩
    · rw [List.map_cons, hopening, ihopening]
    · rw [List.map_cons, hkeeping, ihkeeping]
    · rw [List.map_cons, List.forall_mem_cons]
      exact ⟨houtput, ihoutput⟩

/-- A faithful cipher seals every operation. Opened again it is the operation that was issued, and what it carries
is the cipher's output. -/
theorem sealOperation_ok (hfaithful : c.Faithful) (draws : Nat → R) (operation : Operation) :
    ∃ sealed, c.sealOperation draws operation = .ok sealed ∧ sealed.mapPayload c.opened = operation ∧
      sealed.mapPayload c.openable = sealed ∧ ∀ secret ∈ sealed.secrets, c.Output secret := by
  cases operation with
  | call call =>
    cases call with
    | enqueue task =>
      obtain ⟨sealed, hseal, hopened, hopenable, houtput⟩ := sealEnvelope_ok hfaithful (draws 0) task
      refine ⟨.call (.enqueue sealed), by rw [sealOperation, hseal]; rfl, ?_, ?_, List.forall_mem_singleton.mpr houtput⟩
      · simp only [Operation.mapPayload, Call.mapPayload, hopened]
      · simp only [Operation.mapPayload, Call.mapPayload, hopenable]
    | enqueueBatch tasks =>
      obtain ⟨sealed, hseal, hall⟩ := replaceAll_forall fun index task (_ : task ∈ tasks) =>
        sealEnvelope_ok hfaithful (draws index) task
      obtain ⟨hopened, hopenable, houtput⟩ := forall₂_replaced hall
      refine ⟨.call (.enqueueBatch sealed), by rw [sealOperation, hseal]; rfl, ?_, ?_, houtput⟩
      · simp only [Operation.mapPayload, Call.mapPayload, hopened]
      · simp only [Operation.mapPayload, Call.mapPayload, hopenable]
    | _ => exact ⟨_, rfl, rfl, rfl, List.forall_mem_nil _⟩
  | ack taskID leaseID result =>
    obtain ⟨sealed, hseal, hof⟩ := sealBytes_ok hfaithful .result (draws 0) result
    refine ⟨.ack taskID leaseID sealed, by rw [sealOperation, hseal]; rfl, ?_, ?_, List.forall_mem_singleton.mpr hof.output⟩
    · simp only [Operation.mapPayload, hof.opened]
    · simp only [Operation.mapPayload, hof.openable]
  | ackBatch items =>
    obtain ⟨sealed, hseal, hall⟩ := replaceAll_forall fun index item (_ : item ∈ items) =>
      sealItem_ok hfaithful (draws index) item
    obtain ⟨hopened, hopenable, houtput⟩ := forall₂_replaced hall
    refine ⟨.ackBatch sealed, by rw [sealOperation, hseal]; rfl, ?_, ?_, houtput⟩
    · simp only [Operation.mapPayload, hopened]
    · simp only [Operation.mapPayload, hopenable]
  | upsertCronEntry entry =>
    obtain ⟨sealed, hseal, hof⟩ := sealBytes_ok hfaithful .cronPayload (draws 0) entry.payload
    refine ⟨.upsertCronEntry { entry with payload := sealed }, by rw [sealOperation, hseal]; rfl, ?_, ?_,
      List.forall_mem_singleton.mpr hof.output⟩
    · simp only [Operation.mapPayload, CronEntry.mapPayload, hof.opened]
    · simp only [Operation.mapPayload, CronEntry.mapPayload, hof.openable]
  | _ => exact ⟨_, rfl, rfl, rfl, List.forall_mem_nil _⟩

/-- Openable bytes that are not empty decrypt. -/
theorem decrypt_of_openable {bytes : List UInt8} (hne : bytes ≠ []) (h : c.openable bytes = bytes) :
    c.decrypt bytes = .ok (c.opened bytes) := by
  rw [openable] at h
  rw [opened, if_neg hne]
  cases hdecrypt : c.decrypt bytes with
  | error cause =>
    rw [hdecrypt] at h
    exact absurd h.symm hne
  | ok plaintext => rfl

theorem openEnvelope_ok (draw : R) {task : TaskEnvelope} (h : task.mapPayload c.openable = task) :
    (c.wrap draw).openEnvelope task = .ok (task.mapPayload c.opened) := by
  by_cases hempty : task.payload = []
  · rw [EncryptedBroker.openEnvelope, if_pos hempty, TaskEnvelope.mapPayload, opened, if_pos hempty, ← hempty]
  · have hdecrypt := decrypt_of_openable hempty (congrArg TaskEnvelope.payload h)
    rw [EncryptedBroker.openEnvelope, if_neg hempty]
    change (match c.decrypt task.payload with
      | .error cause => _
      | .ok plaintext => _) = _
    rw [hdecrypt]
    rfl

theorem openEnvelopes_ok (draw : R) {tasks : List TaskEnvelope}
    (h : tasks.map (TaskEnvelope.mapPayload c.openable) = tasks) :
    (c.wrap draw).openEnvelopes tasks = .ok (tasks.map (TaskEnvelope.mapPayload c.opened)) := by
  induction tasks with
  | nil => rfl
  | cons task rest ih =>
    rw [List.map_cons, List.cons_eq_cons] at h
    rw [EncryptedBroker.openEnvelopes, openEnvelope_ok draw h.1, ih h.2]
    rfl

theorem openCronEntry_ok {entry : CronEntry} (h : entry.mapPayload c.openable = entry) :
    c.openCronEntry entry = .ok (entry.mapPayload c.opened) := by
  by_cases hempty : entry.payload = []
  · rw [openCronEntry, if_pos hempty, CronEntry.mapPayload, opened, if_pos hempty, ← hempty]
  · rw [openCronEntry, if_neg hempty, decrypt_of_openable hempty (congrArg CronEntry.payload h)]
    rfl

theorem openRecord_ok (draw : R) {record : TaskRecord} (h : record.mapPayload c.openable = record) :
    c.openRecord draw record = .ok (record.mapPayload c.opened) := by
  rw [openRecord, openEnvelope_ok draw (congrArg TaskRecord.envelope h)]
  rfl

/-- A loop over values that each open, as all of a list that consists of openable ones do. -/
theorem replaceAll_opens {A E : Type} {step : A → Except E A} {opening keeping : A → A}
    (hstep : ∀ a, keeping a = a → step a = .ok (opening a)) {values : List A} (h : values.map keeping = values) :
    replaceAll (fun _ => step) values = .ok (values.map opening) := by
  induction values with
  | nil => rfl
  | cons a rest ih =>
    rw [List.map_cons, List.cons_eq_cons] at h
    rw [replaceAll, hstep a h.1, ih h.2]
    rfl

/-- What holds only openable payloads is opened. -/
theorem openReturned_ok (draw : R) {returned : Returned} (h : returned.mapPayload c.openable = returned) :
    c.openReturned draw returned = .ok (returned.mapPayload c.opened) := by
  cases returned with
  | reply reply =>
    cases reply with
    | leased tasks =>
      have htasks : tasks.map (TaskEnvelope.mapPayload c.openable) = tasks := by
        injection h with h
        injection h
      rw [openReturned, openEnvelopes_ok draw htasks]
      rfl
    | _ => rfl
  | task =>
    injection h with h
    rw [openReturned, openEnvelope_ok draw h]
    rfl
  | records records =>
    injection h with h
    rw [openReturned, replaceAll_opens (fun record => openRecord_ok draw) h]
    rfl
  | cronEntries entries =>
    injection h with h
    rw [openReturned, replaceAll_opens (fun entry => openCronEntry_ok) h]
    rfl
  | _ => rfl

/-- A wrapped broker that holds only payloads the cipher opens, and has received only what the cipher wrote. -/
structure Covered (inner : WrappedBroker) : Prop where
  openable : inner.broker.mapPayload c.openable = inner.broker
  written : ∀ operation ∈ inner.received, ∀ secret ∈ operation.secrets, c.Output secret

variable {inner : WrappedBroker}

/-- One operation on a covered broker: the plain broker over the opened store answers the same and ends in the
opened store, and the wrapped broker stays covered. -/
theorem perform_simulates (hfaithful : c.Faithful) (hinner : c.Covered inner) (issued : Submission R) :
    (c.perform inner issued).2 = .ok ((inner.broker.mapPayload c.opened).perform issued.env issued.operation).2 ∧
      (c.perform inner issued).1.broker.mapPayload c.opened =
      ((inner.broker.mapPayload c.opened).perform issued.env issued.operation).1 ∧
      c.Covered (c.perform inner issued).1 := by
  obtain ⟨sealed, hseal, hopened, hopenable, houtput⟩ := sealOperation_ok hfaithful issued.draws issued.operation
  have hplain := inner.broker.perform_mapPayload (f := c.opened) issued.env sealed
  have hkept := inner.broker.perform_mapPayload (f := c.openable) issued.env sealed
  rw [hopened] at hplain
  rw [hopenable, hinner.openable] at hkept
  have hreturned : (inner.broker.perform issued.env sealed).2.mapPayload c.openable =
      (inner.broker.perform issued.env sealed).2 := (congrArg Prod.snd hkept).symm
  rw [hplain, perform, hseal]
  refine ⟨openReturned_ok (issued.draws 0) hreturned, rfl, (congrArg Prod.fst hkept).symm, fun operation hreceived => ?_⟩
  obtain hbefore | hlast := List.mem_append.mp hreceived
  · exact hinner.written operation hbefore
  · rw [List.mem_singleton.mp hlast]
    exact houtput

/-- A run over a covered broker returns what the plain broker over the opened store returns, and ends covered. -/
theorem run_simulates (hfaithful : c.Faithful) (hinner : c.Covered inner) (steps : List (Submission R)) :
    (c.run inner steps).2 = ((inner.broker.mapPayload c.opened).returns steps).map .ok ∧
      c.Covered (c.run inner steps).1 := by
  induction steps generalizing inner with
  | nil => exact ⟨rfl, hinner⟩
  | cons issued rest ih =>
    obtain ⟨hreturned, hstore, hcovered⟩ := perform_simulates hfaithful hinner issued
    obtain ⟨hanswers, hfinal⟩ := ih hcovered
    refine ⟨?_, hfinal⟩
    rw [run, MemoryBroker.returns, List.map_cons, ← hreturned, ← hstore, ← hanswers]

variable (c)

/-- A cipher that writes its draw in front of the plaintext. -/
def tagging : Cipher UInt8 Unit where
  encrypt draw plaintext := .ok (draw :: plaintext)
  decrypt
    | [] => .error ()
    | _ :: plaintext => .ok plaintext

/-- The same task enqueued twice under different draws, then leased and acknowledged. -/
def twiceEnqueued : List (Submission UInt8) :=
  [⟨{ now := 1 }, fun _ => 7, .call (.enqueue { id := "t", queue := "q", payload := [1, 2] })⟩,
   ⟨{ now := 2 }, fun _ => 8, .call (.enqueue { id := "t", queue := "q", payload := [1, 2] })⟩,
   ⟨{ now := 3 }, fun _ => 9, .call (.lease "q" 1 5 "L")⟩,
   ⟨{ now := 4 }, fun _ => 9, .ack "t" "L" [3]⟩]

end Cipher

end Conveyor
