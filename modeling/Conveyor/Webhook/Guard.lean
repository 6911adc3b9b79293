import Conveyor.Lib.Encoding
import Conveyor.Lib.IP

/-!
# The guarded dialer of the webhook client

A delivery may be sent only to a public address. The dialer judges an address literal, or every address a host name
resolves to, before it connects, and connects to the literal it judged. What the standard library does is a parameter:
how dial addresses are taken apart and put together, how literals are read and written, what the resolver answers, and
how a connection attempt ends.
-/

namespace Conveyor

open Lib

/-- Non-public ranges the standard predicates do not classify: 100.64.0.0/10, 240.0.0.0/4 and fec0::/10. -/
def reservedRanges : List IPNet :=
  [⟨[100, 64, 0, 0], [255, 192, 0, 0]⟩, ⟨[240, 0, 0, 0], [240, 0, 0, 0]⟩,
   ⟨[0xfe, 0xc0] ++ List.replicate 14 0, [0xff, 0xc0] ++ List.replicate 14 0⟩]

/-- An IPv6 block that carries IPv4 addresses, and the index at which they start. -/
structure TransitionRange where
  network : IPNet
  offset : Nat

/-- 64:ff9b::/96, 64:ff9b:1::/48 and 2002::/16. -/
def embeddedIPv4Ranges : List TransitionRange :=
  [⟨⟨[0, 0x64, 0xff, 0x9b] ++ List.replicate 12 0, List.replicate 12 0xff ++ List.replicate 4 0⟩, 12⟩,
   ⟨⟨[0, 0x64, 0xff, 0x9b, 0, 1] ++ List.replicate 10 0, List.replicate 6 0xff ++ List.replicate 10 0⟩, 12⟩,
   ⟨⟨[0x20, 0x02] ++ List.replicate 14 0, List.replicate 2 0xff ++ List.replicate 14 0⟩, 2⟩]

/-- The IPv4 address an IPv6 transition address routes to. -/
def embeddedIPv4 (ip : IP) : Option IP :=
  match ip.to16 with
  | none => none
  | some full =>
    if ip.to4.isSome then none
    else
      (embeddedIPv4Ranges.find? fun transition => transition.network.contains full).map fun transition =>
        ipv4 (full.byte transition.offset) (full.byte (transition.offset + 1)) (full.byte (transition.offset + 2))
          (full.byte (transition.offset + 3))

variable {ip : IP}

/-- An IPv4 address embeds no other address. -/
theorem embeddedIPv4_of_to4 {short : IP} (h : ip.to4 = some short) : embeddedIPv4 ip = none := by
  rw [embeddedIPv4]
  split
  · rfl
  · rw [h]
    rfl

/-- An embedded address is an IPv4 one in its long form. -/
theorem embeddedIPv4_ipv4 {embedded : IP} (h : embeddedIPv4 ip = some embedded) :
    ∃ a b c d, embedded = ipv4 a b c d := by
  rw [embeddedIPv4] at h
  split at h
  · cases h
  · split at h
    · cases h
    · obtain ⟨transition, -, rfl⟩ := Option.map_eq_some_iff.mp h
      exact ⟨_, _, _, _, rfl⟩

/-- Whether a webhook must never target the address. -/
def isDisallowedIP (ip : IP) : Bool :=
  match _h : embeddedIPv4 ip with
  | some embedded => isDisallowedIP embedded
  | none => !ip.isGlobalUnicast || ip.isPrivate || reservedRanges.any fun reserved => reserved.contains ip
termination_by if (embeddedIPv4 ip).isSome then 1 else 0
decreasing_by
  obtain ⟨a, b, c, d, rfl⟩ := embeddedIPv4_ipv4 _h
  have hshort : (ipv4 a b c d).to4 = some [a, b, c, d] := IP.to4_long rfl
  rw [embeddedIPv4_of_to4 hshort, _h]
  exact Nat.zero_lt_one

/-- A transition address is judged by the address it embeds. -/
theorem isDisallowedIP_embedded {embedded : IP} (h : embeddedIPv4 ip = some embedded) :
    isDisallowedIP ip = isDisallowedIP embedded := by
  rw [isDisallowedIP]
  split
  · rename_i hembedded
    rw [h] at hembedded
    rw [Option.some.inj hembedded]
  · rename_i hembedded
    rw [h] at hembedded
    cases hembedded

/-- Any other address is judged by the standard predicates and the reserved ranges. -/
theorem isDisallowedIP_plain (h : embeddedIPv4 ip = none) :
    isDisallowedIP ip =
      (!ip.isGlobalUnicast || ip.isPrivate || reservedRanges.any fun reserved => reserved.contains ip) := by
  rw [isDisallowedIP]
  split
  · rename_i hembedded
    rw [h] at hembedded
    cases hembedded
  · rfl

/-- The two forms of an IPv4 address get the same verdict. -/
theorem isDisallowedIP_long {short : IP} (h : short.length = 4) :
    isDisallowedIP (v4InV6Prefix ++ short) = isDisallowedIP short := by
  rw [isDisallowedIP_plain (embeddedIPv4_of_to4 (IP.to4_long h)), isDisallowedIP_plain (embeddedIPv4_of_to4 (IP.to4_short h)),
    IP.isGlobalUnicast_long h, IP.isPrivate_long h]
  simp only [IP.contains_long h]

/-- The verdict depends on the address only, not on its form. -/
theorem isDisallowedIP_to16 {long : IP} (h : ip.to16 = some long) : isDisallowedIP long = isDisallowedIP ip := by
  rcases IP.to16_cases h with rfl | ⟨hshort, rfl⟩
  · rfl
  · exact isDisallowedIP_long hshort

/-- A malformed address is refused. -/
theorem isDisallowedIP_malformed (h : ip.to16 = none) : isDisallowedIP ip = true := by
  have hembedded : embeddedIPv4 ip = none := by rw [embeddedIPv4, h]
  rw [isDisallowedIP_plain hembedded, IP.isGlobalUnicast_malformed h]
  rfl

section Transition

variable (a b c d : UInt8)

/-- An address in the well-known NAT64 block embeds its last four bytes. -/
theorem embeddedIPv4_nat64 :
    embeddedIPv4 ([0, 0x64, 0xff, 0x9b, 0, 0, 0, 0, 0, 0, 0, 0] ++ [a, b, c, d]) = some (ipv4 a b c d) := by
  simp [embeddedIPv4, embeddedIPv4Ranges, IPNet.contains, IP.to16, IP.to4, v4InV6Prefix, List.replicate, IP.byte, ipv4]

/-- An address in the local-use NAT64 block embeds its last four bytes, whatever stands between. -/
theorem embeddedIPv4_localNat64 (x₀ x₁ x₂ x₃ x₄ x₅ : UInt8) :
    embeddedIPv4 ([0, 0x64, 0xff, 0x9b, 0, 1] ++ [x₀, x₁, x₂, x₃, x₄, x₅] ++ [a, b, c, d]) = some (ipv4 a b c d) := by
  simp +decide [embeddedIPv4, embeddedIPv4Ranges, IPNet.contains, IP.to16, IP.to4, v4InV6Prefix, List.replicate, IP.byte,
    ipv4]

/-- A 6to4 address embeds bytes two to five. -/
theorem embeddedIPv4_sixToFour (x₀ x₁ x₂ x₃ x₄ x₅ x₆ x₇ x₈ x₉ : UInt8) :
    embeddedIPv4 ([0x20, 0x02] ++ [a, b, c, d] ++ [x₀, x₁, x₂, x₃, x₄, x₅, x₆, x₇, x₈, x₉]) = some (ipv4 a b c d) := by
  simp +decide [embeddedIPv4, embeddedIPv4Ranges, IPNet.contains, IP.to16, IP.to4, v4InV6Prefix, List.replicate, IP.byte,
    ipv4]

end Transition

/-- The standard library's handling of dial addresses, with what its documentation says of it: a literal put together
with a port is taken apart again, and a written address reads as its long form. -/
structure AddressSyntax (E : Type) where
  splitHostPort : Bytes → Except E (Bytes × Bytes)
  joinHostPort : (host port : Bytes) → Bytes
  parseIP : Bytes → Option IP
  ipString : IP → Bytes
  split_join : ∀ {addr host port : Bytes}, splitHostPort addr = .ok (host, port) → ∀ {ip : IP}, ip.to16.isSome →
    splitHostPort (joinHostPort (ipString ip) port) = .ok (ipString ip, port)
  parse_string : ∀ {ip long : IP}, ip.to16 = some long → parseIP (ipString ip) = some long

/-- One answer of the resolver. -/
structure IPAddr where
  ip : IP
  zone : Bytes := []

/-- What one call of the dialer meets: the address it is given, what the resolver answers, and how the attempts to
connect end, one after the other. -/
structure Dial (E C : Type) where
  addr : Bytes
  lookupIPAddr : (host : Bytes) → Except E (List IPAddr)
  connect : Nat → Except E C

/-- Why a dial failed. -/
inductive DialError (E : Type) where
  | parsing (addr : Bytes) (cause : E)
  | nonPublic (ip : IP)
  | resolving (host : Bytes) (cause : E)
  | connecting (cause : E)
  | onlyNonPublic (host : Bytes)

/-- Connect to the dialed address as it stands. -/
def Dial.dialContext {E C : Type} (dial : Dial E C) : List Bytes × Except (DialError E) C :=
  ([dial.addr], match dial.connect 0 with
    | .ok conn => .ok conn
    | .error err => .error (.connecting err))

namespace AddressSyntax

variable {E C : Type} (net : AddressSyntax E)

/-- The address a connection attempt goes to, where the dialed address is a literal. -/
def target (addr : Bytes) : Option IP :=
  match net.splitHostPort addr with
  | .ok (host, _) => net.parseIP host
  | .error _ => none

/-- Try the vetted candidates one after the other. The attempts are returned with the outcome. -/
def dialVetted (host port : Bytes) (connect : Nat → Except E C) :
    List IPAddr → Nat → Option E → List Bytes × Except (DialError E) C
  | [], _, some lastErr => ([], .error (.connecting lastErr))
  | [], _, none => ([], .error (.onlyNonPublic host))
  | candidate :: rest, tried, lastErr =>
    if isDisallowedIP candidate.ip then dialVetted host port connect rest tried lastErr
    else
      let addr := net.joinHostPort (net.ipString candidate.ip) port
      match connect tried with
      | .ok conn => ([addr], .ok conn)
      | .error err =>
        let (attempts, outcome) := dialVetted host port connect rest (tried + 1) (some err)
        (addr :: attempts, outcome)

/-- Connect to a public address only, unless private ones are allowed. The attempts are returned with the outcome. -/
def guardedDialContext (allowPrivate : Bool) (dial : Dial E C) : List Bytes × Except (DialError E) C :=
  if allowPrivate then dial.dialContext
  else
    match net.splitHostPort dial.addr with
    | .error err => ([], .error (.parsing dial.addr err))
    | .ok (host, port) =>
      match net.parseIP host with
      | some ip => if isDisallowedIP ip then ([], .error (.nonPublic ip)) else dial.dialContext
      | none =>
        match dial.lookupIPAddr host with
        | .error err => ([], .error (.resolving host err))
        | .ok addresses => net.dialVetted host port dial.connect addresses 0 none

/-- The transport of a delivery client: how it dials, whether it goes through the environment's proxy, and whether it
follows redirects. -/
structure Client (E C : Type) where
  dialContext : Dial E C → List Bytes × Except (DialError E) C
  proxyFromEnvironment : Bool
  followRedirects : Bool

/-- The delivery client. -/
def newClient (allowPrivate : Bool) : Client E C where
  dialContext := net.guardedDialContext allowPrivate
  proxyFromEnvironment := allowPrivate
  followRedirects := false

variable {net}

variable {attempt : Bytes}

/-- Every attempt on a vetted candidate goes to a literal that is not refused. -/
theorem dialVetted_public {addr host port : Bytes} (hsplit : net.splitHostPort addr = .ok (host, port))
    (connect : Nat → Except E C) (candidates : List IPAddr) (tried : Nat) (lastErr : Option E)
    (h : attempt ∈ (net.dialVetted host port connect candidates tried lastErr).1) :
    ∃ ip, net.target attempt = some ip ∧ isDisallowedIP ip = false := by
  induction candidates generalizing tried lastErr with
  | nil => cases lastErr <;> cases h
  | cons candidate rest ih =>
    rw [dialVetted] at h
    split at h
    · exact ih tried lastErr h
    · rename_i hallowed
      rw [Bool.not_eq_true] at hallowed
      have hjoined : ∃ ip, net.target (net.joinHostPort (net.ipString candidate.ip) port) = some ip ∧
          isDisallowedIP ip = false := by
        cases hlong : candidate.ip.to16 with
        | none =>
          rw [isDisallowedIP_malformed hlong] at hallowed
          cases hallowed
        | some long =>
          refine ⟨long, ?_, (isDisallowedIP_to16 hlong).trans hallowed⟩
          rw [target, net.split_join hsplit (by rw [hlong]; rfl)]
          exact net.parse_string hlong
      dsimp only at h
      split at h
      · obtain rfl := List.mem_singleton.mp h
        exact hjoined
      · rcases List.mem_cons.mp h with rfl | hrest
        · exact hjoined
        · exact ih (tried + 1) _ hrest

/-- Every attempt of the guarded dialer goes to a literal that is not refused. -/
theorem guardedDialContext_public (dial : Dial E C) (h : attempt ∈ (net.guardedDialContext false dial).1) :
    ∃ ip, net.target attempt = some ip ∧ isDisallowedIP ip = false := by
  rw [guardedDialContext, if_neg Bool.false_ne_true] at h
  split at h
  · cases h
  · rename_i host port hsplit
    split at h
    · rename_i ip hparse
      split at h
      · cases h
      · rename_i hallowed
        obtain rfl := List.mem_singleton.mp h
        refine ⟨ip, ?_, Bool.eq_false_iff.mpr hallowed⟩
        rw [target, hsplit]
        exact hparse
    · split at h
      · cases h
      · exact dialVetted_public hsplit _ _ _ _ h

variable (net)

/-- However often the delivery client dials and whatever the resolver answers each time, every connection attempt goes
to a literal that is not refused; and an IPv4 address is refused exactly if its long form is, and exactly if every
NAT64 and 6to4 address is that embeds it. -/
theorem webhook_dialer_public (dials : List (Dial E C)) :
    (∀ attempt ∈ dials.flatMap fun dial => ((net.newClient false).dialContext dial).1,
      ∃ ip, net.target attempt = some ip ∧ isDisallowedIP ip = false) ∧
    ∀ a b c d : UInt8,
      isDisallowedIP (ipv4 a b c d) = isDisallowedIP [a, b, c, d] ∧
      isDisallowedIP ([0, 0x64, 0xff, 0x9b, 0, 0, 0, 0, 0, 0, 0, 0] ++ [a, b, c, d]) = isDisallowedIP [a, b, c, d] ∧
      (∀ middle : List UInt8, middle.length = 6 →
        isDisallowedIP ([0, 0x64, 0xff, 0x9b, 0, 1] ++ middle ++ [a, b, c, d]) = isDisallowedIP [a, b, c, d]) ∧
      ∀ rest : List UInt8, rest.length = 10 →
        isDisallowedIP ([0x20, 0x02] ++ [a, b, c, d] ++ rest) = isDisallowedIP [a, b, c, d] := by
  refine ⟨fun attempt hattempt => ?_, fun a b c d => ?_⟩
  · obtain ⟨dial, -, hdial⟩ := List.mem_flatMap.mp hattempt
    exact guardedDialContext_public dial hdial
  · have hlong : isDisallowedIP (ipv4 a b c d) = isDisallowedIP [a, b, c, d] := isDisallowedIP_long rfl
    refine ⟨hlong, ?_, fun middle hmiddle => ?_, fun rest hrest => ?_⟩
    · rw [isDisallowedIP_embedded (embeddedIPv4_nat64 a b c d), hlong]
    · obtain ⟨x₀, x₁, x₂, x₃, x₄, x₅, rfl⟩ : ∃ x₀ x₁ x₂ x₃ x₄ x₅, middle = [x₀, x₁, x₂, x₃, x₄, x₅] := by
        match middle, hmiddle with
        | [x₀, x₁, x₂, x₃, x₄, x₅], _ => exact ⟨x₀, x₁, x₂, x₃, x₄, x₅, rfl⟩
      rw [isDisallowedIP_embedded (embeddedIPv4_localNat64 a b c d x₀ x₁ x₂ x₃ x₄ x₅), hlong]
    · obtain ⟨x₀, x₁, x₂, x₃, x₄, x₅, x₆, x₇, x₈, x₉, rfl⟩ :
          ∃ x₀ x₁ x₂ x₃ x₄ x₅ x₆ x₇ x₈ x₉, rest = [x₀, x₁, x₂, x₃, x₄, x₅, x₆, x₇, x₈, x₉] := by
        match rest, hrest with
        | [x₀, x₁, x₂, x₃, x₄, x₅, x₆, x₇, x₈, x₉], _ => exact ⟨x₀, x₁, x₂, x₃, x₄, x₅, x₆, x₇, x₈, x₉, rfl⟩
      rw [isDisallowedIP_embedded (embeddedIPv4_sixToFour a b c d x₀ x₁ x₂ x₃ x₄ x₅ x₆ x₇ x₈ x₉), hlong]

/-- Addresses as the library reads and writes them while no brackets are needed: a host name or an IPv4 address in
dotted decimals, a colon before the port. IPv6 addresses are written in dotted decimals too. -/
def dotted : AddressSyntax Unit where
  splitHostPort addr :=
    match addr.splitOn 58 with
    | [host, port] => if 58 ∈ port then .error () else .ok (host, port)
    | _ => .error ()
  joinHostPort host port := [58].intercalate [host, port]
  parseIP text := (readDotted text).bind IP.to16
  ipString ip := dottedText (ip.to4.getD ip)
  split_join := by
    intro addr host port hsplit ip _
    have hport : 58 ∉ port := by
      split at hsplit
      · split at hsplit
        · cases hsplit
        · rename_i hcolon
          cases hsplit
          exact hcolon
      · cases hsplit
    have hpieces : ∀ piece ∈ [dottedText (ip.to4.getD ip), port], (58 : UInt8) ∉ piece := by
      simp only [List.forall_mem_cons]
      exact ⟨colon_notMem_dottedText _, hport, List.forall_mem_nil _⟩
    rw [List.splitOn_intercalate 58 hpieces (List.cons_ne_nil _ _)]
    exact if_neg hport
  parse_string := by
    intro ip long hlong
    have hshorter := IP.to16_shorter hlong
    have hne : ip.to4.getD ip ≠ [] := by
      intro hempty
      rw [hempty] at hshorter
      cases hshorter
    rw [readDotted_text hne]
    exact hshorter

/-- The port 80. -/
def httpPort : Bytes := [56, 48]

/-- The host name `hook.test`, which resolves to a private and to a public address. -/
def rebound : Dial Unit Unit where
  addr := [104, 111, 111, 107, 46, 116, 101, 115, 116, 58, 56, 48]
  lookupIPAddr _ := .ok [{ ip := [10, 0, 0, 1] }, { ip := [8, 8, 8, 8] }]
  connect _ := .ok ()

/-- The only attempt goes to `8.8.8.8:80`. -/
theorem webhook_dialer_public_rebound :
    ((dotted.newClient false).dialContext rebound).1 = [[56, 46, 56, 46, 56, 46, 56, 58, 56, 48]] ∧
    (∃ ip, dotted.target [56, 46, 56, 46, 56, 46, 56, 58, 56, 48] = some ip ∧ isDisallowedIP ip = false) ∧
    isDisallowedIP ([0x20, 0x02] ++ [10, 0, 0, 1] ++ List.replicate 10 7) = isDisallowedIP [10, 0, 0, 1] := by
  have hprivate : isDisallowedIP [10, 0, 0, 1] = true := (isDisallowedIP_plain rfl).trans (by decide)
  have hpublic : isDisallowedIP [8, 8, 8, 8] = false := (isDisallowedIP_plain rfl).trans (by decide)
  have hvetted : ∀ host, (dotted.dialVetted host httpPort rebound.connect
      [{ ip := [10, 0, 0, 1] }, { ip := [8, 8, 8, 8] }] 0 none).1 = [[56, 46, 56, 46, 56, 46, 56, 58, 56, 48]] := by
    intro host
    rw [dialVetted, if_pos hprivate, dialVetted, if_neg (by rw [hpublic]; exact Bool.false_ne_true)]
    rfl
  have hdial : ((dotted.newClient false).dialContext rebound).1 = [[56, 46, 56, 46, 56, 46, 56, 58, 56, 48]] :=
    hvetted _
  obtain ⟨hattempts, hverdicts⟩ := webhook_dialer_public dotted [rebound]
  refine ⟨hdial, hattempts _ ?_, (hverdicts 10 0 0 1).2.2.2 _ rfl⟩
  rw [List.flatMap_cons, hdial]
  exact .head _

end AddressSyntax

end Conveyor
