import Conveyor.Actors.Pending

/-!
# Credits come back

While a worker answers its dispatches and is sent nothing it still works on, every step keeps the
credits of its gateway: what is outstanding after the first registration is the registered capacity, for
ever after. When nothing is on its way and everything is answered, all of it is back at the grain.
-/

namespace Conveyor

open Lib

variable {settings : Settings} {s s' : System} {e : Event} {name queue : String}

/-- The gateway serves its session, announces the capacities it started with, and is not unregistered. -/
structure Connected (name : String) (started : Gateway) (s : System) : Prop where
  session : ∀ g, s.gateways name = some (.stream g) →
    g.session = started.session ∧ g.capacities = started.capacities ∧ g.draining = false
  announced : ∀ queue capacity weight batchTypes,
    (queue, GrainMessage.registerGateway name capacity weight batchTypes) ∈ s.toGrain →
      capacity = (started.capacities.lookup queue).getD 0
  registered : ∀ queue, (queue, GrainMessage.unregisterGateway name) ∉ s.toGrain

variable {started : Gateway}

theorem Connected.moves (h : Connected name started s) (hengaged : Engaged name s)
    (hsolvent : Solvent s) (hmove : Moves settings s e s') : Connected name started s' := by
  obtain ⟨g, hg⟩ := hengaged.stream
  refine ⟨fun g' hg' => ?_, fun queue capacity weight batchTypes hmem => ?_, fun queue hmem => ?_⟩
  · rcases hmove.at_gateway hg with rfl | ⟨-, hsame⟩ | ⟨turn, order, reply, -, hresume⟩ |
      ⟨index, turn, message, rest, -, htake, -, -, hreceive⟩
    · exact h.session g' hg'
    · cases hsame.symm.trans hg'
      exact h.session g hg
    · obtain ⟨hsession, hcapacities, hdraining⟩ :=
        GatewayActor.resume_session (Option.some.inj (hresume.symm.trans hg'))
      rw [hsession, hcapacities, hdraining]
      exact h.session g hg
    · obtain rfl : g' = (g.receive { turn with delivery := s.deliveries.length } message).1 :=
        GatewayActor.stream.inj (Option.some.inj (hg'.symm.trans hreceive))
      have hplain := hengaged.quiet message (taken_mem htake)
      obtain ⟨hsession, hcapacities, hdraining⟩ := @Gateway.receive_session g
        { turn with delivery := s.deliveries.length } message
      rw [hsession, hcapacities, hdraining (by rintro rfl; cases hplain)]
      exact h.session g hg
  · rcases hmove.announced hsolvent hmem with hold | ⟨a, message, ha, hmessage, htells⟩
    · exact h.announced _ _ _ _ hold
    · rw [Option.some.inj (ha.symm.trans hg)] at htells
      rw [htells.2, (h.session g hg).2.1]
  · rcases hmove.toGrain_after hmem with hold | hmay | ⟨-, -, hnew⟩ | ⟨reply, -, hnew⟩ | ⟨-, hreport⟩
    · exact h.registered queue hold
    · rw [System.mayTell, hg] at hmay
      exact Bool.noConfusion ((h.session g hg).2.2.symm.trans hmay)
    · exact receive_told hnew
    · exact told_quiet (GatewayActor.resume_ordinary reply) hnew
    · cases System.pipeReport_piped hreport

/-- What a step is for a grain: nothing at all, something elsewhere, or a turn. -/
theorem Moves.at_grain (hmove : Moves settings s e s') (queue : String) :
    s' = s ∨ (s'.grains queue = s.grains queue ∧
        ∀ index turn message rest, e = .grain index turn → takeAt s.toGrain index ≠ some ((queue, message), rest)) ∨
      ∃ index turn message rest, e = .grain index turn ∧ takeAt s.toGrain index = some ((queue, message), rest) ∧
        s'.grains queue = ((s.grains queue).receive settings turn message).1 := by
  cases hmove with
  | idle => exact .inl rfl
  | broker | tellGrain | tellGateway | answer | gateway | resume => exact .inr (.inl ⟨rfl, fun _ _ _ _ h => Event.noConfusion h⟩)
  | pipe htake =>
    rename_i pipe rest
    refine .inr (.inl ⟨?_, fun _ _ _ _ h => Event.noConfusion h⟩)
    cases pipe with
    | lease | leaseGroup => rfl
    | release other leaseID taskIDs => cases taskIDs <;> rfl
  | grain htake hfresh =>
    rename_i index turn of message rest
    rcases eq_or_ne of queue with rfl | heq
    · exact .inr (.inr ⟨index, turn, message, rest, rfl, htake, Function.update_self ..⟩)
    · refine .inr (.inl ⟨Function.update_of_ne heq.symm .., ?_⟩)
      rintro _ _ message' rest' ⟨⟩ htake'
      cases htake.symm.trans htake'
      exact heq rfl

namespace System

/-- The sends of a queue's grain reach their gateways. -/
def Reaches (s : System) (queue : String) : Event → Prop
  | .grain index turn => ∀ message rest, takeAt s.toGrain index = some ((queue, message), rest) →
    ∀ i, turn.unreachable i = false
  | _ => True

end System

/-- An account of a capacity, not overdrawn. A capacity below zero buys no dispatch. -/
structure Account.Within (capacity : Int32) (account : Account) : Prop where
  full : account.capacity = capacity
  low : min capacity.toInt 0 ≤ account.credits.toInt
  high : account.credits.toInt ≤ capacity.toInt

/-- Where the credits of a gateway stand: none before it is registered, and all of its capacity after. -/
def System.Accounted (s : System) (name queue : String) (capacity : Int32) : Prop :=
  match (s.grains queue).account name with
  | none => s.outstanding name queue = 0
  | some account => account.Within capacity ∧ s.outstanding name queue = max capacity.toInt 0

variable {capacity : Int32}

theorem System.Accounted.fits (h : s.Accounted name queue capacity) : s.outstanding name queue < 2 ^ 31 := by
  have hcapacity := Int32.toInt_lt capacity
  rw [Accounted] at h
  split at h <;> omega

variable {message : GrainMessage}

/-- A turn of the grain never takes more credits back than are outstanding. -/
theorem Solvent.refund_le (h : Solvent s) {index : Nat} {rest : List (String × GrainMessage)}
    (htake : takeAt s.toGrain index = some ((queue, message), rest)) :
    max ((s.grains queue).balance name) 0 + message.refund name ≤ s.outstanding name queue := by
  have hrefunds := weigh_takeAt htake fun p : String × GrainMessage => if p.1 = queue then p.2.refund name else 0
  have hrest : 0 ≤ weigh (fun p : String × GrainMessage => if p.1 = queue then p.2.refund name else 0) rest := by
    refine weigh_nonneg _ fun p hp => ?_
    split
    · exact h.refund_nonneg (mem_of_takeAt htake hp) name
    · exact le_rfl
  have htransit := s.inTransit_nonneg name queue
  have hstake := s.stake_nonneg name queue
  rw [if_pos rfl] at hrefunds
  rw [System.outstanding, System.refunds, hrefunds]
  dsimp only
  omega

section Account

variable {capacity : Int32} {account : Account}

/-- A message that comes in leaves an account of its capacity. -/
theorem GrainMessage.adjust_within (h : account.Within capacity)
    (hregister : ∀ announced weight batchTypes,
      message = .registerGateway name announced weight batchTypes → announced = capacity)
    (hlisted : message ≠ .unregisterGateway name) (hrefund : 0 ≤ message.refund name)
    (hfits : max account.credits.toInt 0 + message.refund name < 2 ^ 31) :
    ∃ had, message.adjust name (some account) = some had ∧ had.Within capacity := by
  have hrefill : ∀ (gateway : String) (n : Int32), message.adjust name (some account) =
      (if name = gateway then some (account.refill n) else some account) →
      message.refund name = (if gateway = name then n.toInt else 0) →
      ∃ had, message.adjust name (some account) = some had ∧ had.Within capacity := by
    intro gateway n hadjust hvalue
    by_cases hname : name = gateway
    · rw [if_pos hname] at hadjust
      rw [if_pos hname.symm] at hvalue
      have hcredits := Account.refill_credits (hvalue ▸ hrefund) (hvalue ▸ hfits)
      have hlow := h.low
      rw [h.full] at hcredits
      exact ⟨account.refill n, hadjust, h.full, by omega, by omega⟩
    · exact ⟨account, hadjust.trans (if_neg hname), h⟩
  cases message with
  | taskCompleted taskID success gateway => exact hrefill gateway 1 rfl rfl
  | batchCompleted gateway total succeeded => exact hrefill gateway 1 rfl rfl
  | gatewayCredit gateway n => exact hrefill gateway n rfl rfl
  | registerGateway gateway announced weight batchTypes =>
    rcases eq_or_ne name gateway with rfl | hname
    · obtain rfl := hregister announced weight batchTypes rfl
      refine ⟨account, (if_pos rfl).trans ?_, h⟩
      simp [Account.register, Account.resize, ← h.full]
    · exact ⟨account, if_neg hname, h⟩
  | unregisterGateway gateway =>
    refine ⟨account, if_neg ?_, h⟩
    rintro rfl
    exact hlisted rfl
  | _ => exact ⟨account, rfl, h⟩

variable {x : QueueGrain}

/-- Registering again with the same capacity grants nothing. -/
theorem QueueGrain.allots_of_account (haccount : x.account name = some account)
    (hregister : ∀ announced weight batchTypes,
      message = .registerGateway name announced weight batchTypes → announced = account.capacity) :
    x.allots name message = 0 := by
  cases message with
  | registerGateway gateway announced weight batchTypes =>
    rw [allots]
    split_ifs with hname
    · subst hname
      rw [hregister announced weight batchTypes rfl, balance_of_account haccount, haccount]
      simp [Account.register, Account.resize]
    · rfl
  | _ => rfl

theorem QueueGrain.allots_of_unlisted (h : message.adjust name none = none) : x.allots name message = 0 := by
  cases message with
  | registerGateway =>
    refine if_neg ?_
    rintro rfl
    cases (if_pos rfl).symm.trans h
  | _ => rfl

/-- Dispatching leaves an account of the same capacity that is not overdrawn. -/
theorem QueueGrain.Spends.within {reachable : Prop} {y : QueueGrain} {sent : Int}
    (h : QueueGrain.Spends reachable name y x sent) (hreachable : reachable) (haccount : y.account name = some account)
    (hwithin : account.Within capacity) : ∃ left, x.account name = some left ∧ left.Within capacity := by
  have hsome := h.listed hreachable
  rw [haccount] at hsome
  obtain ⟨left, hleft⟩ := Option.isSome_iff_exists.mp hsome
  obtain ⟨had, hhad, hcapacity, hcredits⟩ := h.kept left hleft
  cases haccount.symm.trans hhad
  obtain ⟨hsame, hlow, hhigh⟩ := hwithin
  have hsent := h.sent_nonneg
  have hspent := h.spent
  rw [QueueGrain.balance_of_account hleft, QueueGrain.balance_of_account hhad] at hspent
  exact ⟨left, hleft, hcapacity.trans hsame, by omega, by omega⟩

end Account

/-- What the accounts of a gateway rest on in a run in which its worker answers in turn. -/
structure Serving (name : String) (started : Gateway) (s : System) : Prop where
  solvent : Solvent s
  attributed : Attributed False name s
  engaged : Engaged name s
  connected : Connected name started s

namespace Serving

variable {started : Gateway}

theorem moves (h : Serving name started s) (hmove : Moves settings s e s') (hconforms : s.Conforms name e)
    (hanswered : s.DispatchesAnswered name e) : Serving name started s' where
  solvent := h.solvent.moves hmove
  attributed := h.attributed.moves h.solvent.recorded.flow hmove (.inr hconforms.solicited) hanswered
  engaged := h.engaged.moves h.attributed h.solvent.recorded hmove hconforms hanswered
  connected := h.connected.moves h.engaged h.solvent hmove

theorem start (d : Deployment) (hg : d.gateway name = some (.stream started)) : Serving name started
    (System.start d) where
  solvent := solvent_start d
  attributed := attributed_start False name d
  engaged := engaged_start d hg
  connected := by
    refine ⟨fun g hg' => ?_, fun _ _ _ _ h => (nomatch h), fun _ h => (nomatch h)⟩
    cases Option.some.inj (hg.symm.trans hg')
    rcases System.start_gateway hg with ⟨session, heq⟩ | ⟨registration, heq⟩ <;> cases heq
    exact ⟨rfl, rfl, rfl⟩

theorem streams (h : Serving name started s) (hqueue : queue ∈ started.session.queues) {a : GatewayActor}
    (ha : s.gateways name = some a) : a.Streams queue := by
  obtain ⟨g, hg⟩ := h.engaged.stream
  cases Option.some.inj (ha.symm.trans hg)
  change g.session.queues.contains queue = true
  rw [(h.connected.session g hg).1]
  exact List.contains_iff_mem.mpr hqueue

/-- No step of the run loses a credit. -/
theorem keeps (h : Serving name started s) (hqueue : queue ∈ started.session.queues)
    (haccounted : s.Accounted name queue capacity) (hconforms : s.Conforms name e) (hreaches : s.Reaches queue e)
    (hanswered : s.DispatchesAnswered name e) : s.Keeps name queue e := by
  cases e with
  | grain index turn =>
    intro message rest htake
    refine ⟨hreaches message rest htake, ?_⟩
    -- what comes back was outstanding, so the account has room for it
    have hroom : ∀ {n : Int32}, message.refund name = n.toInt → (s.grains queue).HasRoom name n := by
      intro n hvalue
      have hle : max ((s.grains queue).balance name) 0 + message.refund name ≤ s.outstanding name queue :=
        h.solvent.refund_le htake
      have hrefund := h.solvent.refund_nonneg (taken_mem htake) name
      rw [System.Accounted] at haccounted
      rw [QueueGrain.HasRoom]
      cases haccount : (s.grains queue).account name with
      | none =>
        rw [haccount] at haccounted
        dsimp only at haccounted ⊢
        omega
      | some account =>
        rw [haccount] at haccounted
        obtain ⟨⟨hfull, hlow, hhigh⟩, hwhole⟩ := haccounted
        rw [QueueGrain.balance_of_account haccount] at hle
        dsimp only
        rw [hfull]
        omega
    cases message with
    | taskCompleted => exact fun hname => hroom (if_pos hname)
    | batchCompleted => exact fun hname => hroom (if_pos hname)
    | gatewayCredit gateway n => exact fun hname => hroom (if_pos hname)
    | unregisterGateway gateway =>
      rintro rfl
      exact h.connected.registered queue (taken_mem htake)
    | _ => trivial
  | gateway index turn =>
    intro message rest a htake ha
    obtain ⟨g, hg⟩ := h.engaged.stream
    cases Option.some.inj (ha.symm.trans hg)
    obtain ⟨hexpects, hsend⟩ := h.engaged.expects_handled h.solvent.recorded hg h.attributed htake hconforms hanswered
    exact ⟨((h.engaged.intact g hg).exact hexpects hsend queue).1, h.streams hqueue hg⟩
  | resume => exact fun _ a ha => h.streams hqueue ha
  | _ => trivial

/-- Only a registration grants credits. -/
theorem grants_eq_zero (h : Serving name started s) (hconforms : s.Conforms name e)
    (hanswered : s.DispatchesAnswered name e) (helsewhere : ∀ index turn message rest, e = .grain index turn →
      takeAt s.toGrain index ≠ some ((queue, message), rest)) : s.grants name queue e = 0 := by
  cases e with
  | grain index turn =>
    rw [System.grants]
    split
    · rename_i of message rest htake
      refine if_neg ?_
      rintro rfl
      exact helsewhere index turn message rest rfl htake
    · rfl
  | gateway index turn =>
    rw [System.grants]
    split
    · rename_i target message rest htake
      split_ifs with heq
      · subst heq
        obtain ⟨g, hg⟩ := h.engaged.stream
        obtain ⟨hexpects, hsend⟩ :=
          h.engaged.expects_handled h.solvent.recorded hg h.attributed htake hconforms hanswered
        rw [hg]
        exact ((h.engaged.intact g hg).exact hexpects hsend queue).2
      · rfl
    · rfl
  | _ => rfl

/-- A step keeps the credits of the gateway, and its registration. -/
theorem accounted_moves (h : Serving name started s) (hqueue : queue ∈ started.session.queues)
    (hmove : Moves settings s e s') (haccounted : s.Accounted name queue ((started.capacities.lookup queue).getD 0))
    (hconforms : s.Conforms name e) (hreaches : s.Reaches queue e) (hanswered : s.DispatchesAnswered name e) :
    s'.Accounted name queue ((started.capacities.lookup queue).getD 0) ∧
      (((s.grains queue).account name).isSome = true → ((s'.grains queue).account name).isSome = true) := by
  rcases hmove.outstanding h.solvent haccounted.fits with rfl | hbalance
  · exact ⟨haccounted, id⟩
  have hsum := hbalance.eq (h.keeps hqueue haccounted hconforms hreaches hanswered)
  rcases hmove.at_grain queue with rfl | ⟨hsame, helsewhere⟩ | ⟨index, turn, message, rest, rfl, htake, hgrain⟩
  · exact ⟨haccounted, id⟩
  · rw [h.grants_eq_zero hconforms hanswered helsewhere, add_zero] at hsum
    rw [System.Accounted, hsame, hsum]
    exact ⟨haccounted, id⟩
  · have hmem := taken_mem htake
    have hgrants : s.grants name queue (.grain index turn) = (s.grains queue).allots name message := by
      rw [System.grants, htake]
      exact if_pos rfl
    have hregister : ∀ announced weight batchTypes, message = .registerGateway name announced weight batchTypes →
        announced = (started.capacities.lookup queue).getD 0 := by
      rintro announced weight batchTypes rfl
      exact h.connected.announced queue announced weight batchTypes hmem
    have hreached := hreaches message rest htake
    obtain ⟨y, hy, hspends⟩ := QueueGrain.receive_spends settings turn message name (h.solvent.recorded.listed queue)
    rw [← hgrain] at hspends
    rw [hgrants] at hsum
    rw [System.Accounted] at haccounted ⊢
    cases haccount : (s.grains queue).account name with
    | none =>
      rw [haccount] at haccounted hy
      dsimp only at haccounted
      rcases message.adjust_none name with hnone | ⟨announced, weight, batchTypes, rfl, hopened⟩
      · rw [hspends.unlisted (hy.trans hnone)]
        rw [QueueGrain.allots_of_unlisted hnone, haccounted] at hsum
        exact ⟨hsum, id⟩
      · obtain rfl := hregister announced weight batchTypes rfl
        obtain ⟨left, hleft, hwithin⟩ := hspends.within hreached (hy.trans hopened) ⟨rfl, min_le_left _ _, le_rfl⟩
        rw [hleft]
        refine ⟨⟨hwithin, ?_⟩, fun _ => rfl⟩
        rw [hsum, haccounted, QueueGrain.allots, if_pos rfl, haccount, QueueGrain.balance_of_unlisted haccount]
        simp [Account.register]
    | some account =>
      rw [haccount] at haccounted hy
      obtain ⟨hwithin, hwhole⟩ := haccounted
      have hle : max ((s.grains queue).balance name) 0 + message.refund name ≤ s.outstanding name queue :=
        h.solvent.refund_le htake
      have hcapacity := Int32.toInt_lt ((started.capacities.lookup queue).getD 0)
      rw [QueueGrain.balance_of_account haccount] at hle
      obtain ⟨had, hhad, hwithin'⟩ := GrainMessage.adjust_within hwithin hregister
        (by rintro rfl; exact h.connected.registered queue hmem) (h.solvent.refund_nonneg hmem name) (by omega)
      obtain ⟨left, hleft, hwithin''⟩ := hspends.within hreached (hy.trans hhad) hwithin'
      rw [hleft]
      refine ⟨⟨hwithin'', ?_⟩, fun _ => rfl⟩
      rw [hsum, QueueGrain.allots_of_account haccount fun a w b heq => (hregister a w b heq).trans hwithin.full.symm,
        add_zero, hwhole]

end Serving

/-- Nothing is on its way, the gateway has finished its turn, and the worker has answered every frame. -/
structure System.Quiescent (s : System) (name : String) : Prop where
  grains : s.toGrain = []
  gateways : s.toGateway = []
  idle : ∀ a, s.gateways name = some a → a.busy = false
  answered : ∀ d ∈ s.deliveries, d.gateway = name → d.open_ = false

/-- Rest can be checked by evaluation. -/
theorem quiescent_of_checks {s : System} {name : String} (h : (s.toGrain.isEmpty && s.toGateway.isEmpty &&
    (s.gateways name).all (fun a => !a.busy) && s.deliveries.all fun d => d.gateway != name || !d.open_) = true) :
    s.Quiescent name := by
  simp only [Bool.and_eq_true, List.isEmpty_iff, Option.all_eq_true, List.all_eq_true, Bool.or_eq_true,
    bne_iff_ne, Bool.not_eq_true'] at h
  exact ⟨h.1.1.1, h.1.1.2, fun a ha => h.1.2 a ha, fun d hd hname => (h.2 d hd).resolve_left fun hne => hne hname⟩

/-- At rest the gateway tracks nothing. -/
theorem Engaged.stake_eq_zero (h : Engaged name s) (hquiescent : s.Quiescent name) : s.stake name queue = 0 := by
  obtain ⟨g, hg⟩ := h.stream
  have hinflight : ∀ t entry, g.inflight.lookup t ≠ some entry := by
    intro t entry hentry
    obtain ⟨number, d, ⟨hd, hgateway, hopen | hanswered⟩, -⟩ := h.pending g t entry hg hentry
    · exact Bool.noConfusion ((hquiescent.answered d (List.mem_of_getElem? hd) hgateway).symm.trans hopen)
    · obtain ⟨message, hmem, -⟩ := System.answered_iff.mp hanswered
      rw [hquiescent.gateways] at hmem
      cases hmem
  have hbatches : ∀ leaseID ids, g.batches.lookup leaseID ≠ some ids := by
    intro leaseID ids hids
    obtain ⟨t, -, entry, hentry, -⟩ := (h.intact g hg).alive leaseID ids hids
    exact hinflight t entry hentry
  have hturn : g.turn = [] := by simpa [GatewayActor.busy] using hquiescent.idle _ hg
  rw [System.stake_of_gateway hg, GatewayActor.stake, Gateway.stake, hturn, Conveyor.singles, Gateway.batchCount,
    tally_eq_zero fun t entry hentry => absurd hentry (hinflight t entry),
    tally_eq_zero fun leaseID ids hids => absurd hids (hbatches leaseID ids)]
  rfl

/-- At rest everything outstanding is at the grain. -/
theorem Serving.credits_eq {account : Account} (h : Serving name started s)
    (haccounted : s.Accounted name queue capacity) (haccount : (s.grains queue).account name = some account)
    (hquiescent : s.Quiescent name) : account = ⟨capacity, capacity⟩ := by
  have hrefunds : s.refunds name queue = 0 := by
    rw [System.refunds, hquiescent.grains]
    rfl
  have htransit : s.inTransit name queue = 0 := by
    rw [System.inTransit, hquiescent.gateways]
    rfl
  have hstake : s.stake name queue = 0 := h.engaged.stake_eq_zero hquiescent
  rw [System.Accounted, haccount] at haccounted
  obtain ⟨⟨hfull, hlow, hhigh⟩, hwhole⟩ := haccounted
  rw [System.outstanding, hrefunds, htransit, hstake, QueueGrain.balance_of_account haccount] at hwhole
  have hcredits : account.credits = capacity := Int32.toInt_inj.mp (by omega)
  exact Account.mk.injEq .. ▸ ⟨hfull, hcredits⟩

/-- The run of a worker that stays connected, answers each dispatch once, and is dispatched no task it has
not answered for yet. -/
def System.ServesInTurn (s : System) (name queue : String) (e : Event) : Prop :=
  (s.Conforms name e ∧ s.Reaches queue e) ∧ s.DispatchesAnswered name e

/-- The credits of the gateway stand for its capacity. -/
def Balanced (name queue : String) (started : Gateway) (s : System) : Prop :=
  Serving name started s ∧ s.Accounted name queue ((started.capacities.lookup queue).getD 0)

theorem Balanced.step (h : Balanced name queue started s)
    (hqueue : queue ∈ started.session.queues) (hserves : s.ServesInTurn name queue e) :
    Balanced name queue started (s.step settings e) ∧ (((s.grains queue).account name).isSome = true →
      (((s.step settings e).grains queue).account name).isSome = true) := by
  obtain ⟨⟨hconforms, hreaches⟩, hanswered⟩ := hserves
  have hmove := step_moves settings s e
  obtain ⟨haccounted, hlisted⟩ := h.1.accounted_moves hqueue hmove h.2 hconforms hreaches hanswered
  exact ⟨⟨h.1.moves hmove hconforms hanswered, haccounted⟩, hlisted⟩

/-- Once the gateway is registered, all its credits are at the grain whenever everything is at rest. -/
theorem credits_return (settings : Settings) (d : Deployment) (name queue : String) (started : Gateway)
    (hgateway : d.gateway name = some (.stream started)) (hqueue : queue ∈ started.session.queues)
    (events later : List Event)
    (hmeets : StepsMeet (System.step settings) (fun s e => s.ServesInTurn name queue e) (System.start d)
      (events ++ later))
    (hregistered : (((run (System.step settings) (System.start d) events).grains queue).account name).isSome = true)
    (hquiescent : (run (System.step settings) (System.start d) (events ++ later)).Quiescent name) :
    ((run (System.step settings) (System.start d) (events ++ later)).grains queue).account name =
      some ⟨(started.capacities.lookup queue).getD 0, (started.capacities.lookup queue).getD 0⟩ := by
  obtain ⟨hbefore, hafter⟩ := stepsMeet_append.mp hmeets
  have hmid : Balanced name queue started (run (System.step settings) (System.start d) events) :=
    run_invariant _ (fun s e hserves h => (h.step hqueue hserves).1) _ events hbefore
      ⟨.start d hgateway, start_outstanding d name queue⟩
  rw [run_append] at hquiescent ⊢
  obtain ⟨⟨hserving, haccounted⟩, hlisted⟩ := run_invariant
    (fun s => Balanced name queue started s ∧ ((s.grains queue).account name).isSome = true)
    (fun s e hserves h => (h.1.step hqueue hserves).imp_right fun hstep => hstep h.2) _ later hafter
    ⟨hmid, hregistered⟩
  obtain ⟨account, haccount⟩ := Option.isSome_iff_exists.mp hlisted
  rw [haccount, hserving.credits_eq haccounted haccount hquiescent]

/-- The worker answers both dispatches of a task, the first one before the second is handled. -/
def settledInTurn : List Event :=
  answeredInTurn "gateway-s" (.result .success "") ++
    [.grain 0 { now := 6 + 61 * 10 ^ 9, newID := "L4" }, .grain 0 { now := 6 + 61 * 10 ^ 9, newID := "L5" },
     .pipe 0 (6 + 61 * 10 ^ 9) {}, .grain 0 { now := 6 + 61 * 10 ^ 9, newID := "L6" }]

/-- The worker answers both dispatches of a task after the second was handled. -/
def settledLate : List Event :=
  answeredLate "gateway-s" (.result .success "") ++
    [.answer 1 (.result .success ""), .gateway 0 { now := 5 + 61 * 10 ^ 9 },
     .grain 0 { now := 6 + 61 * 10 ^ 9, newID := "L4" }, .pipe 0 (6 + 61 * 10 ^ 9) {},
     .grain 0 { now := 6 + 61 * 10 ^ 9, newID := "L5" }]

theorem credits_return_settledInTurn :
    ((run (System.step defaultSettings) (System.start workerDeployment) settledInTurn).grains "q").account
      "gateway-s" = some ⟨2, 2⟩ := by
  have hconforms : StepsMeet (System.step defaultSettings)
      (fun s e => s.Conforms "gateway-s" e ∧ s.Reaches "q" e) (System.start workerDeployment) settledInTurn :=
    ⟨⟨trivial, trivial⟩, ⟨fun _ => ⟨rfl, rfl⟩, trivial⟩, ⟨fun _ => rfl, trivial⟩,
      ⟨trivial, fun _ _ _ _ => rfl⟩, ⟨trivial, trivial⟩, ⟨trivial, fun _ _ _ _ => rfl⟩,
      ⟨fun _ => rfl, trivial⟩, ⟨trivial, trivial⟩, ⟨trivial, trivial⟩, ⟨trivial, fun _ _ _ _ => rfl⟩,
      ⟨trivial, trivial⟩, ⟨fun _ => rfl, trivial⟩, ⟨trivial, trivial⟩, ⟨fun _ => rfl, trivial⟩,
      ⟨trivial, trivial⟩, ⟨fun _ => rfl, trivial⟩, ⟨trivial, trivial⟩, ⟨trivial, fun _ _ _ _ => rfl⟩,
      ⟨trivial, fun _ _ _ _ => rfl⟩, ⟨trivial, trivial⟩, ⟨trivial, fun _ _ _ _ => rfl⟩, trivial⟩
  have hquiescent : (run (System.step defaultSettings) (System.start workerDeployment) settledInTurn).Quiescent
      "gateway-s" := quiescent_of_checks (by decide +kernel)
  have hreturn := credits_return defaultSettings workerDeployment "gateway-s" "q" _ rfl (by decide) settledInTurn []
  rw [List.append_nil] at hreturn
  exact (hreturn (hconforms.and (by decide +kernel)) (by decide +kernel) hquiescent).trans (by decide)

/-- The first answer settles the task for both dispatches, so one of their credits never comes back. -/
theorem credit_lost :
    StepsMeet (System.step defaultSettings) (fun s e => s.Conforms "gateway-s" e ∧ s.Reaches "q" e)
        (System.start workerDeployment) settledLate ∧
      (run (System.step defaultSettings) (System.start workerDeployment) settledLate).Quiescent "gateway-s" ∧
      (run (System.step defaultSettings) (System.start workerDeployment) settledLate).pipes.length = 0 ∧
      ((run (System.step defaultSettings) (System.start workerDeployment) settledLate).grains "q").account
        "gateway-s" = some ⟨2, 1⟩ := by
  refine ⟨?_, quiescent_of_checks (by decide +kernel), by decide +kernel, by decide +kernel⟩
  exact ⟨⟨trivial, trivial⟩, ⟨fun _ => ⟨rfl, rfl⟩, trivial⟩, ⟨fun _ => rfl, trivial⟩,
      ⟨trivial, fun _ _ _ _ => rfl⟩, ⟨trivial, trivial⟩, ⟨trivial, fun _ _ _ _ => rfl⟩,
      ⟨fun _ => rfl, trivial⟩, ⟨trivial, trivial⟩, ⟨trivial, trivial⟩, ⟨trivial, fun _ _ _ _ => rfl⟩,
      ⟨fun _ => rfl, trivial⟩, ⟨trivial, trivial⟩, ⟨fun _ => rfl, trivial⟩, ⟨trivial, trivial⟩,
      ⟨trivial, trivial⟩, ⟨fun _ => rfl, trivial⟩, ⟨trivial, fun _ _ _ _ => rfl⟩, ⟨trivial, trivial⟩,
      ⟨trivial, fun _ _ _ _ => rfl⟩, trivial⟩

end Conveyor
