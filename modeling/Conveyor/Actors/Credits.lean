import Conveyor.Actors.Step
import Conveyor.Lib.Words

/-!
# The credits of one gateway at a grain

A grain holds the credits of a gateway in a list of entries. What a turn does to one of them is said
here once: the turns that handle a lease result spend one credit for each dispatch, and every other
turn sends nothing and adjusts the entry as its message says.
-/

namespace Conveyor

open Lib

/-- A capacity with the credits left of it. -/
structure Account where
  capacity : Int32
  credits : Int32
  deriving DecidableEq

/-- The account of a gateway's entry. -/
def GatewayCredits.account (gateway : GatewayCredits) : Account :=
  ⟨gateway.capacity, gateway.credits⟩

/-- The account of a name in a list of gateways. -/
def accountIn (gateways : List GatewayCredits) (name : String) : Option Account :=
  (gateways.map fun gateway => (gateway.name, gateway.account)).lookup name

/-- No gateway is listed twice. -/
def DistinctNames (gateways : List GatewayCredits) : Prop :=
  (gateways.map GatewayCredits.name).Nodup

variable {index : Nat} {gateway : GatewayCredits}

section Lists

variable {gateways : List GatewayCredits} {name other : String}

theorem accountIn_cons (gateway : GatewayCredits) (gateways : List GatewayCredits) (name : String) :
    accountIn (gateway :: gateways) name =
      if gateway.name = name then some gateway.account else accountIn gateways name := by
  rw [accountIn, List.map_cons, List.lookup_cons]
  by_cases h : gateway.name = name
  · simp [h]
  · have hne := beq_eq_false_iff_ne.mpr (Ne.symm h)
    simp [h, hne, accountIn]

theorem accountIn_append (gateways more : List GatewayCredits) (name : String) :
    accountIn (gateways ++ more) name = (accountIn gateways name).or (accountIn more name) := by
  rw [accountIn, List.map_append, List.lookup_append]
  rfl

/-- A name has an account if and only if a gateway of that name is listed. -/
theorem accountIn_eq_none_iff : accountIn gateways name = none ↔ name ∉ gateways.map GatewayCredits.name := by
  induction gateways with
  | nil => simp [accountIn]
  | cons gateway rest ih =>
    rw [accountIn_cons, List.map_cons, List.mem_cons, not_or, ← ih]
    by_cases h : gateway.name = name
    · simp [h]
    · simp [h, Ne.symm h]

/-- What is listed under distinct names is what the accounts say. -/
theorem accountIn_of_getElem (hdistinct : DistinctNames gateways) (h : gateways[index]? = some gateway) :
    accountIn gateways gateway.name = some gateway.account := by
  induction gateways generalizing index with
  | nil => cases h
  | cons first rest ih =>
    obtain ⟨hnot, hrest⟩ := List.nodup_cons.mp hdistinct
    rw [accountIn_cons]
    cases index with
    | zero =>
      cases h
      exact if_pos rfl
    | succ index =>
      rw [List.getElem?_cons_succ] at h
      rw [if_neg, ih hrest h]
      exact fun heq => hnot (heq ▸ List.mem_map_of_mem (List.mem_of_getElem? h))

variable {f : GatewayCredits → GatewayCredits}

/-- Replacing the entry of a name changes its account alone. -/
theorem accountIn_updateGateway {change : Account → Account} (hname : ∀ gateway, (f gateway).name = gateway.name)
    (hchange : ∀ gateway, (f gateway).account = change gateway.account) :
    accountIn (QueueGrain.updateGateway name f gateways) other = if other =
      name then (accountIn gateways other).map change else accountIn gateways other := by
  induction gateways with
  | nil => simp [QueueGrain.updateGateway, accountIn]
  | cons gateway rest ih =>
    rw [QueueGrain.updateGateway]
    by_cases hfirst : gateway.name = name
    · rw [if_pos hfirst, accountIn_cons, accountIn_cons, hname, hchange, hfirst]
      by_cases h : other = name
      · simp [h]
      · simp [h, Ne.symm h]
    · rw [if_neg hfirst, accountIn_cons, accountIn_cons, ih]
      rcases eq_or_ne other name with rfl | h
      · simp [hfirst]
      · simp [h]

theorem distinct_updateGateway (hdistinct : DistinctNames gateways)
    (hname : ∀ gateway, (f gateway).name = gateway.name) :
    DistinctNames (QueueGrain.updateGateway name f gateways) := by
  have hnames : (QueueGrain.updateGateway name f gateways).map GatewayCredits.name =
      gateways.map GatewayCredits.name := by
    clear hdistinct
    induction gateways with
    | nil => rfl
    | cons gateway rest ih =>
      rw [QueueGrain.updateGateway]
      split
      · simp [hname]
      · simp [ih]
  rw [DistinctNames, hnames]
  exact hdistinct

/-- Forgetting a gateway closes its account. -/
theorem accountIn_eraseP (hdistinct : DistinctNames gateways) :
    accountIn (gateways.eraseP (·.name == name)) other = if other = name then none else accountIn gateways other := by
  induction gateways with
  | nil => simp [accountIn]
  | cons gateway rest ih =>
    obtain ⟨hnot, hrest⟩ := List.nodup_cons.mp hdistinct
    rw [List.eraseP_cons, accountIn_cons]
    by_cases hfirst : gateway.name = name
    · have hrest : accountIn rest name = none := accountIn_eq_none_iff.mpr (hfirst ▸ hnot)
      by_cases h : other = name
      · simp [hfirst, h, hrest]
      · simp [hfirst, h, Ne.symm h]
    · rw [beq_eq_false_iff_ne.mpr hfirst]
      dsimp only [cond_false]
      rw [accountIn_cons, ih hrest]
      rcases eq_or_ne other name with rfl | h
      · simp [hfirst]
      · simp [h]

/-- Changing the entry at an index changes the account of its name alone. -/
theorem accountIn_modify (hdistinct : DistinctNames gateways) (h : gateways[index]? = some gateway)
    (hname : ∀ gateway, (f gateway).name = gateway.name) :
    accountIn (gateways.modify index f) other =
      if other = gateway.name then some (f gateway).account else accountIn gateways other := by
  induction gateways generalizing index with
  | nil => cases h
  | cons first rest ih =>
    obtain ⟨hnot, hrest⟩ := List.nodup_cons.mp hdistinct
    cases index with
    | zero =>
      cases h
      rw [List.modify_zero_cons, accountIn_cons, accountIn_cons, hname]
      by_cases heq : other = gateway.name
      · simp [heq]
      · simp [heq, Ne.symm heq]
    | succ index =>
      rw [List.getElem?_cons_succ] at h
      have hne : first.name ≠ gateway.name := fun heq => hnot (heq ▸ List.mem_map_of_mem (List.mem_of_getElem? h))
      rw [List.modify_succ_cons, accountIn_cons, accountIn_cons, ih hrest h]
      by_cases heq : other = gateway.name
      · simp [heq, hne]
      · simp [heq]

end Lists

namespace QueueGrain

/-- A round of the selection moves the accumulators alone. -/
theorem select_entries (eligible : GatewayCredits → Bool) (gateways : List GatewayCredits)
    {View : Type} {view : GatewayCredits → View}
    (hview : ∀ gateway (weight : Int32), view { gateway with currentWeight := weight } = view gateway) :
    (selectWeightedGateway eligible gateways).1.map view = gateways.map view := by
  have hraised : (gateways.map fun gateway =>
      if eligible gateway then { gateway with currentWeight := gateway.currentWeight + gateway.weight }
      else gateway).map view = gateways.map view := by
    rw [List.map_map]
    refine List.map_congr_left fun gateway _ => ?_
    dsimp only [Function.comp_apply]
    split
    · exact hview _ _
    · rfl
  rw [selectWeightedGateway]
  split
  · exact hraised
  · rw [map_modify_of_view (fun gateway => hview gateway _), hraised]

/-- The account a grain keeps for a gateway. -/
def account (x : QueueGrain) (name : String) : Option Account := accountIn x.gateways name

/-- The credits a grain holds for a gateway, none for one that is not listed. -/
def balance (x : QueueGrain) (name : String) : Int :=
  (x.account name).elim 0 fun account => account.credits.toInt

variable {x : QueueGrain} {name : String}

theorem balance_of_account {account : Account}
    (h : x.account name = some account) : x.balance name = account.credits.toInt := by
  rw [balance, h]
  rfl

theorem balance_of_unlisted (h : x.account name = none) : x.balance name = 0 := by
  rw [balance, h]
  rfl

/-- What dispatching leaves of the credits of a gateway, to which it sent so many times. A gateway
that cannot be reached is dropped with its credits. -/
structure Spends (reachable : Prop) (name : String) (x x' : QueueGrain) (sent : Int) : Prop where
  distinct : DistinctNames x'.gateways
  sent_nonneg : 0 ≤ sent
  spent : sent + max (x'.balance name) 0 ≤ max (x.balance name) 0
  kept : ∀ left, x'.account name = some left → ∃ had, x.account name = some had ∧
    left.capacity = had.capacity ∧ left.credits.toInt + sent = had.credits.toInt
  listed : reachable → (x'.account name).isSome = (x.account name).isSome

/-- Dispatching opens no account. -/
theorem Spends.unlisted {reachable : Prop} {y : QueueGrain} {sent : Int} (h : Spends reachable name y x sent)
    (haccount : y.account name = none) : x.account name = none := by
  refine Option.eq_none_iff_forall_ne_some.mpr fun left hleft => ?_
  obtain ⟨had, hhad, -⟩ := h.kept left hleft
  cases haccount.symm.trans hhad

section Dispatch

variable {reachable : Prop} {name : String} {x y z : QueueGrain} {sent more : Int}

/-- Dispatching nothing to a gateway leaves its account alone. -/
theorem Spends.unchanged (hdistinct : DistinctNames y.gateways) (h : y.account name = x.account name) :
    Spends reachable name x y 0 where
  distinct := hdistinct
  sent_nonneg := le_rfl
  spent := by rw [balance, balance, h, zero_add]
  kept := fun left hleft => ⟨left, h ▸ hleft, rfl, by omega⟩
  listed := fun _ => by rw [h]

theorem Spends.trans (hfirst : Spends reachable name x y sent) (hthen : Spends reachable name y z more) :
    Spends reachable name x z (sent + more) where
  distinct := hthen.distinct
  sent_nonneg := add_nonneg hfirst.sent_nonneg hthen.sent_nonneg
  spent := by
    have := hfirst.spent
    have := hthen.spent
    omega
  kept := fun left hleft => by
    obtain ⟨middle, hmiddle, hcapacity, hcredits⟩ := hthen.kept left hleft
    obtain ⟨had, hhad, hcapacity', hcredits'⟩ := hfirst.kept middle hmiddle
    exact ⟨had, hhad, hcapacity.trans hcapacity', by omega⟩
  listed := fun h => (hthen.listed h).trans (hfirst.listed h)

/-- No more is sent than there were credits. -/
theorem Spends.sent_le (h : Spends reachable name x y sent) : sent ≤ max (x.balance name) 0 := by
  have := h.spent
  omega

/-- Spending one credit, in 32-bit arithmetic. -/
theorem toInt_sub_one {credits : Int32} (h : 0 < credits) : (credits - 1).toInt = credits.toInt - 1 := by
  have hpos : 0 < credits.toInt := Int32.lt_iff_toInt_lt.mp h
  have hlt := Int32.toInt_lt credits
  rw [toInt_sub_of_fits] <;> rw [Int32.toInt_one] <;> omega

/-- Dropping an unreachable gateway sends nothing to any gateway. -/
theorem Spends.drop (hdistinct : DistinctNames x.gateways) (dropped : String) (hunreachable : ¬ reachable) :
    Spends reachable name x (x.removeGateway dropped) 0 := by
  have haccount : (x.removeGateway dropped).account name = if name = dropped then none else x.account name :=
    accountIn_eraseP hdistinct
  have hnames : DistinctNames (x.removeGateway dropped).gateways := hdistinct.sublist (List.eraseP_sublist.map _)
  by_cases h : name = dropped
  · rw [if_pos h] at haccount
    refine ⟨hnames, le_rfl, ?_, fun left hleft => ?_, fun hreach => absurd hreach hunreachable⟩
    · rw [balance_of_unlisted haccount]
      omega
    · cases haccount.symm.trans hleft
  · exact .unchanged hnames (haccount.trans (if_neg h))

/-- A dispatch to a gateway with a credit spends one. -/
theorem Spends.one (hdistinct : DistinctNames x.gateways) (hget : x.gateways[index]? = some gateway)
    (hcredit : 0 < gateway.credits) (hy : y.gateways = (x.spendCredit index).gateways) :
    Spends reachable name x y (indicator (gateway.name = name)) := by
  have haccount : y.account name =
      if name = gateway.name then some ⟨gateway.capacity, gateway.credits - 1⟩ else x.account name := by
    rw [account, hy]
    exact accountIn_modify hdistinct hget fun _ => rfl
  have hnames : DistinctNames y.gateways := by
    have hkept : y.gateways.map GatewayCredits.name = x.gateways.map GatewayCredits.name := by
      rw [hy]
      refine map_modify_of_view ?_ index x.gateways
      exact fun _ => rfl
    rw [DistinctNames, hkept]
    exact hdistinct
  by_cases h : name = gateway.name
  · have hhad : x.account name = some gateway.account := by
      rw [h]
      exact accountIn_of_getElem hdistinct hget
    rw [if_pos h] at haccount
    have hspent := toInt_sub_one hcredit
    have hpos : 0 < gateway.credits.toInt := Int32.lt_iff_toInt_lt.mp hcredit
    rw [indicator_true h.symm]
    refine ⟨hnames, by omega, ?_, fun left hleft => ⟨gateway.account, hhad, ?_⟩, fun _ => by simp [haccount, hhad]⟩
    · rw [balance_of_account haccount, balance_of_account hhad, hspent]
      dsimp only [GatewayCredits.account]
      omega
    · cases haccount.symm.trans hleft
      exact ⟨rfl, by dsimp only [GatewayCredits.account]; omega⟩
  · rw [indicator_false (Ne.symm h)]
    exact .unchanged hnames (haccount.trans (if_neg h))

end Dispatch

end QueueGrain

/-- Whether an effect dispatches to a gateway. -/
def GrainEffect.dispatchesTo (name : String) : GrainEffect → Bool
  | .executeTask gateway _ _ _ | .executeBatch gateway _ _ _ _ => gateway == name
  | _ => false

/-- How many dispatches to a gateway are among the effects of a turn. -/
def dispatched (name : String) (effects : List GrainEffect) : Int :=
  weigh (fun effect => indicator (effect.dispatchesTo name = true)) effects

@[simp] theorem dispatched_append (name : String) (effects more : List GrainEffect) :
    dispatched name (effects ++ more) = dispatched name effects + dispatched name more :=
  weigh_append _ _ _

namespace QueueGrain

section Turns

variable {settings : Settings} {turn : GrainTurn} {x : QueueGrain} {name : String}

theorem reserveSlot_gateways (taskID key : String) : (x.reserveSlot taskID key).gateways = x.gateways := by
  rw [reserveSlot]
  split <;> rfl

/-- What the parts of a turn do to the account of a gateway. -/
theorem Part.spends {S : GrainEffect → Prop} {x' : QueueGrain} {effects : List GrainEffect}
    (h : Part turn S x x' effects) (hdistinct : DistinctNames x.gateways) :
    Spends (∀ i, turn.unreachable i = false) name x x' (dispatched name effects) := by
  induction h with
  | trans _ _ ih ih' =>
    rw [dispatched_append]
    exact (ih hdistinct).trans (ih' (ih hdistinct).distinct)
  | quiet _ heffects =>
    rw [dispatched, weigh_eq_zero]
    · exact .unchanged hdistinct rfl
    · intro e he
      have hquiet := (heffects e he).1
      cases e <;> first | rfl | cases hquiet
  | wake => exact .unchanged hdistinct rfl
  | pick x eligible =>
    refine .unchanged ?_ ?_
    · rw [DistinctNames, select_entries eligible x.gateways fun _ _ => rfl]
      exact hdistinct
    · rw [account, account, accountIn, accountIn, select_entries eligible x.gateways fun _ _ => rfl]
  | drop x dropped hunreachable =>
    exact .drop hdistinct dropped fun hreach => absurd hunreachable (by simp [hreach])
  | sendTask hget hcredit =>
    simpa [dispatched, GrainEffect.dispatchesTo] using
      Spends.one hdistinct hget hcredit (reserveSlot_gateways _ _)
  | sendBatch hget hcredit =>
    simpa [dispatched, GrainEffect.dispatchesTo] using Spends.one hdistinct hget hcredit rfl

end Turns

end QueueGrain

namespace Account

/-- Credits come back, up to the capacity. -/
def refill (n : Int32) (account : Account) : Account :=
  { account with credits := min (account.credits + n) account.capacity }

/-- A new capacity: a shrink clamps the credits, a growth grants the difference. -/
def resize (capacity : Int32) (account : Account) : Account where
  capacity := capacity
  credits :=
    if capacity < account.capacity then min account.credits capacity
    else if account.capacity < capacity then
      min (account.credits + capacity - account.capacity) capacity
    else account.credits

/-- The account after a registration. -/
def register (capacity : Int32) : Option Account → Account
  | none => ⟨capacity, capacity⟩
  | some account => account.resize capacity

end Account

/-- What handling a message does to the account of a gateway, dispatches apart. -/
def GrainMessage.adjust (name : String) (account : Option Account) : GrainMessage → Option Account
  | .taskCompleted _ _ gateway | .batchCompleted gateway _ _ =>
    if name = gateway then account.map (.refill 1) else account
  | .gatewayCredit gateway n => if name = gateway then account.map (.refill n) else account
  | .registerGateway gateway capacity _ _ =>
    if name = gateway then some (.register capacity account) else account
  | .unregisterGateway gateway => if name = gateway then none else account
  | _ => account

/-- Only a registration opens an account. -/
theorem GrainMessage.adjust_none (name : String) (message : GrainMessage) :
    message.adjust name none = none ∨ ∃ announced weight batchTypes, message =
      .registerGateway name announced weight batchTypes ∧ message.adjust name none = some ⟨announced, announced⟩ := by
  cases message with
  | taskCompleted | batchCompleted | gatewayCredit | unregisterGateway => exact .inl (ite_self _)
  | registerGateway gateway announced weight batchTypes =>
    rcases eq_or_ne name gateway with rfl | hname
    · exact .inr ⟨announced, weight, batchTypes, rfl, if_pos rfl⟩
    · exact .inl (if_neg hname)
  | _ => exact .inl rfl

namespace QueueGrain

section Messages

variable {settings : Settings} {turn : GrainTurn} {x : QueueGrain} {name : String}

/-- Credits that come back to a gateway. -/
theorem account_refill (gateway : String) (n : Int32) :
    ({ x with gateways := updateGateway gateway (refill n) x.gateways } : QueueGrain).account name =
      if name = gateway then (x.account name).map (.refill n) else x.account name :=
  accountIn_updateGateway (fun _ => rfl) fun _ => rfl

theorem releaseConcurrencyKey_gateways (taskID : String) : (x.releaseConcurrencyKey taskID).gateways = x.gateways := by
  rw [releaseConcurrencyKey]
  split <;> rfl

/-- A registration changes the account of its gateway alone, and lists it once. -/
theorem registerGateway_account (gateway : String) (capacity weight : Int32) (batchTypes : List String) :
    (x.registerGateway gateway capacity weight batchTypes).account name =
      if name = gateway then some (.register capacity (x.account name)) else x.account name := by
  rw [registerGateway]
  by_cases hlisted : x.gateways.any (·.name == gateway) = true
  · rw [if_pos hlisted]
    refine (@accountIn_updateGateway x.gateways gateway name (reregister capacity (max weight 1) batchTypes)
      (.resize capacity) (fun _ => rfl) fun _ => rfl).trans ?_
    rcases eq_or_ne name gateway with rfl | h
    · obtain ⟨entry, hentry, hname⟩ := List.any_eq_true.mp hlisted
      cases haccount : x.account name with
      | none =>
        exact absurd (List.mem_map.mpr ⟨entry, hentry, by simpa using hname⟩) (accountIn_eq_none_iff.mp haccount)
      | some had =>
        rw [account] at haccount
        rw [haccount]
        rfl
    · simp [h, account]
  · rw [if_neg hlisted]
    have hnone : x.account gateway = none := accountIn_eq_none_iff.mpr fun hmem => by
      obtain ⟨entry, hentry, hname⟩ := List.mem_map.mp hmem
      exact hlisted (List.any_eq_true.mpr ⟨entry, hentry, by simpa using hname⟩)
    change accountIn (x.gateways ++ [_]) name = _
    rw [accountIn_append, accountIn_cons]
    rcases eq_or_ne name gateway with rfl | h
    · rw [account] at hnone
      simp [hnone, account, Account.register, GatewayCredits.account]
    · simp [h, Ne.symm h, account, accountIn]

theorem registerGateway_distinct (gateway : String) (capacity weight : Int32) (batchTypes : List String)
    (hdistinct : DistinctNames x.gateways) :
    DistinctNames (x.registerGateway gateway capacity weight batchTypes).gateways := by
  rw [registerGateway]
  by_cases hlisted : x.gateways.any (·.name == gateway) = true
  · rw [if_pos hlisted]
    exact distinct_updateGateway hdistinct fun _ => rfl
  · rw [if_neg hlisted, DistinctNames, List.map_append]
    refine List.nodup_append.mpr ⟨hdistinct, by simp, fun a ha b hb heq => hlisted ?_⟩
    rw [List.map_singleton, List.mem_singleton] at hb
    obtain ⟨entry, hentry, hname⟩ := List.mem_map.mp ha
    exact List.any_eq_true.mpr ⟨entry, hentry, by simp [hname, heq, hb]⟩

/-- What noting a message does to the account of a gateway. -/
theorem noted_account (message : GrainMessage) (hdistinct : DistinctNames x.gateways) :
    (x.noted message).account name = message.adjust name (x.account name) := by
  cases message with
  | taskCompleted taskID success gateway =>
    rw [noted, recordCompletion, account, releaseConcurrencyKey_gateways]
    exact account_refill gateway 1
  | batchCompleted gateway => exact account_refill gateway 1
  | gatewayCredit gateway credits => exact account_refill gateway credits
  | registerGateway gateway capacity weight batchTypes =>
    exact registerGateway_account gateway capacity weight batchTypes
  | unregisterGateway gateway => exact accountIn_eraseP hdistinct
  | _ => rfl

theorem noted_distinct (message : GrainMessage) (hdistinct : DistinctNames x.gateways) :
    DistinctNames (x.noted message).gateways := by
  cases message with
  | taskCompleted =>
    rw [noted, recordCompletion, releaseConcurrencyKey_gateways]
    exact distinct_updateGateway hdistinct fun _ => rfl
  | batchCompleted | gatewayCredit => exact distinct_updateGateway hdistinct fun _ => rfl
  | registerGateway gateway capacity weight batchTypes =>
    exact registerGateway_distinct gateway capacity weight batchTypes hdistinct
  | unregisterGateway gateway => exact hdistinct.sublist (List.eraseP_sublist.map _)
  | _ => exact hdistinct

/-- What a turn does to the account of a gateway: the message adjusts it, and each dispatch to the
gateway spends one credit. -/
theorem receive_spends (settings : Settings) (turn : GrainTurn) (message : GrainMessage) (name : String)
    (hdistinct : DistinctNames x.gateways) :
    ∃ y : QueueGrain, y.account name = message.adjust name (x.account name) ∧
      Spends (∀ i, turn.unreachable i = false) name y (x.receive settings turn message).1
        (dispatched name (x.receive settings turn message).2) := by
  obtain ⟨effects, hpart, heffects⟩ := receive_part settings turn x message
  have hsent : dispatched name (x.receive settings turn message).2 = dispatched name effects := by
    rcases heffects with heq | ⟨hnone, group, type, limit, expiresAt, heq⟩
    · rw [heq]
    · rw [heq, hnone]
      rfl
  rw [hsent]
  exact ⟨x.noted message, noted_account message hdistinct, hpart.spends (noted_distinct message hdistinct)⟩

end Messages

end QueueGrain

end Conveyor
