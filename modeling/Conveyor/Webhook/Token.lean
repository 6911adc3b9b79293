import Conveyor.Lib.Encoding

/-!
# Lease tokens

A token carries a registration, a task and a lease as three encoded segments, and a MAC over the three
separated by zero bytes. The server's texts are byte strings here, since a decoded segment may hold any bytes.
-/

namespace Conveyor

open Lib

/-- The bytes of a text. -/
def textBytes (text : String) : Bytes := text.toByteArray.data.toList

/-- The text of a byte string, if it is one. -/
def bytesText (bytes : Bytes) : Option String := String.fromUTF8? ⟨bytes.toArray⟩

/-- Bytes that are a text are its bytes. -/
theorem textBytes_of_bytesText {bytes : Bytes} {text : String} (h : bytesText bytes = some text) :
    textBytes text = bytes := by
  rw [bytesText, String.fromUTF8?] at h
  split at h
  · cases h
    rfl
  · cases h

/-- HMAC-SHA256: the MAC of a message under a secret. -/
abbrev Hmac := (secret message : Bytes) → Bytes

/-- What a lease token says. -/
structure LeaseClaims where
  registration : Bytes
  taskID : Bytes
  leaseID : Bytes
  deriving DecidableEq

/-- The bytes a token's MAC is computed over. -/
def LeaseClaims.message (claims : LeaseClaims) : Bytes :=
  claims.registration ++ [0] ++ claims.taskID ++ [0] ++ claims.leaseID

/-- The MAC that binds the claims of one delivery, in hexadecimal. -/
def tokenMAC (hmac : Hmac) (secret : Bytes) (claims : LeaseClaims) : Bytes := hexEncode (hmac secret claims.message)

/-- The lease token of one delivery. -/
def mintLeaseToken (hmac : Hmac) (secret : Bytes) (claims : LeaseClaims) : Bytes :=
  [46].intercalate [base64Encode claims.registration, base64Encode claims.taskID, base64Encode claims.leaseID,
    tokenMAC hmac secret claims]

/-- The claims of a token, not verified. -/
def parseLeaseToken (token : Bytes) : Option LeaseClaims :=
  match token.splitOn 46 with
  | [registration, taskID, leaseID, _] => do
    let registration ← base64Decode registration
    let taskID ← base64Decode taskID
    let leaseID ← base64Decode leaseID
    return ⟨registration, taskID, leaseID⟩
  | _ => none

/-- Whether the signature of a parsed token is right under one of the secrets. -/
def verifyLeaseToken (hmac : Hmac) (token : Bytes) (claims : LeaseClaims) (secrets : List Bytes) : Bool :=
  match token.splitOn 46 with
  | [_, _, _, provided] => secrets.any fun secret => provided == tokenMAC hmac secret claims
  | _ => false

/-- A minted token consists of its four segments. -/
theorem splitOn_mintLeaseToken (hmac : Hmac) (secret : Bytes) (claims : LeaseClaims) :
    (mintLeaseToken hmac secret claims).splitOn 46 =
      [base64Encode claims.registration, base64Encode claims.taskID, base64Encode claims.leaseID,
        tokenMAC hmac secret claims] := by
  refine List.splitOn_intercalate 46 ?_ (List.cons_ne_nil _ _)
  simp only [List.forall_mem_cons]
  exact ⟨dot_notMem_base64Encode _, dot_notMem_base64Encode _, dot_notMem_base64Encode _, dot_notMem_hexEncode _,
    List.forall_mem_nil _⟩

/-- A minted token parses back to its claims. -/
theorem parse_mintLeaseToken (hmac : Hmac) (secret : Bytes) (claims : LeaseClaims) :
    parseLeaseToken (mintLeaseToken hmac secret claims) = some claims := by
  rw [parseLeaseToken, splitOn_mintLeaseToken]
  simp only [base64Decode_encode]
  rfl

variable {secrets : List Bytes}

/-- A minted token verifies while its secret is among those of the registration. -/
theorem verify_mintLeaseToken (hmac : Hmac) {secret : Bytes} (claims : LeaseClaims)
    (h : secret ∈ secrets) : verifyLeaseToken hmac (mintLeaseToken hmac secret claims) claims secrets = true := by
  rw [verifyLeaseToken, splitOn_mintLeaseToken]
  exact List.any_eq_true.mpr ⟨secret, h, beq_self_eq_true _⟩

/-- What the server authenticated under a secret: a token, or a signed request. -/
inductive Authentication where
  | token (secret : Bytes) (claims : LeaseClaims)
  | request (secret timestamp body : Bytes)

/-- The secret and the bytes of an authentication. -/
def Authentication.message : Authentication → Bytes × Bytes
  | .token secret claims => (secret, claims.message)
  | .request secret timestamp body => (secret, timestamp ++ [46] ++ body)

/-- Names, lease ids and requests have no zero byte; task ids may have any bytes. -/
def Authentication.Wellformed : Authentication → Prop
  | .token _ claims => 0 ∉ claims.registration ∧ 0 ∉ claims.leaseID
  | .request _ timestamp body => 0 ∉ timestamp ∧ 0 ∉ body

/-- The MAC of the token is right for some bytes under some secret only if the server authenticated them. -/
def Unforged (hmac : Hmac) (history : List Authentication) (token : Bytes) : Prop :=
  ∀ secret message, (token.splitOn 46)[3]? = some (hexEncode (hmac secret message)) →
    (secret, message) ∈ history.map Authentication.message

/-- Where two byte strings split at a zero byte agree, the parts before the first zero byte do. -/
theorem split_first_zero {before before' after after' : Bytes} (h : 0 ∉ before) (h' : 0 ∉ before')
    (heq : before ++ 0 :: after = before' ++ 0 :: after') : before = before' ∧ after = after' := by
  induction before generalizing before' with
  | nil =>
    cases before' with
    | nil => exact ⟨rfl, (List.cons.inj heq).2⟩
    | cons b rest =>
      cases (List.cons.inj heq).1
      exact absurd (.head _) h'
  | cons b rest ih =>
    cases before' with
    | nil =>
      cases (List.cons.inj heq).1
      exact absurd (.head _) h
    | cons b' rest' =>
      obtain ⟨rfl, hrest⟩ := List.cons.inj heq
      obtain ⟨hbefore, hafter⟩ := ih (fun hmem => h (.tail b hmem))
        (fun hmem => h' (.tail b hmem)) hrest
      exact ⟨congrArg (b :: ·) hbefore, hafter⟩

/-- Where two byte strings split at a zero byte agree, the parts after the last zero byte do. -/
theorem split_last_zero {before before' after after' : Bytes} (h : 0 ∉ after) (h' : 0 ∉ after')
    (heq : before ++ 0 :: after = before' ++ 0 :: after') : before = before' ∧ after = after' := by
  have hreverse : after.reverse ++ 0 :: before.reverse = after'.reverse ++ 0 :: before'.reverse := by
    simpa using congrArg List.reverse heq
  obtain ⟨hafter, hbefore⟩ := split_first_zero (by simpa using h) (by simpa using h') hreverse
  exact ⟨List.reverse_injective hbefore, List.reverse_injective hafter⟩

/-- An accepted token whose registration and lease have no zero byte was minted for exactly its claims. -/
theorem minted_of_verified {hmac : Hmac} {history : List Authentication} {token : Bytes} {claims : LeaseClaims}
    (hunforged : Unforged hmac history token) (hhistory : ∀ entry ∈ history, entry.Wellformed)
    (hverified : verifyLeaseToken hmac token claims secrets = true) (hregistration : 0 ∉ claims.registration)
    (hlease : 0 ∉ claims.leaseID) : ∃ secret ∈ secrets, .token secret claims ∈ history := by
  rw [verifyLeaseToken] at hverified
  split at hverified
  · rename_i first second third provided hsegments
    obtain ⟨secret, hsecret, hprovided⟩ := List.any_eq_true.mp hverified
    have hmac : (token.splitOn 46)[3]? = some (hexEncode (hmac secret claims.message)) := by
      rw [hsegments]
      exact congrArg some (beq_iff_eq.mp hprovided)
    obtain ⟨entry, hentry, hmessage⟩ := List.mem_map.mp (hunforged secret claims.message hmac)
    have hwellformed := hhistory entry hentry
    cases entry with
    | token secret' claims' =>
      obtain ⟨rfl, hbytes⟩ := Prod.mk.inj hmessage
      rw [LeaseClaims.message, LeaseClaims.message] at hbytes
      simp only [List.append_assoc, List.cons_append, List.nil_append] at hbytes
      obtain ⟨hname, hrest⟩ := split_first_zero hwellformed.1 hregistration hbytes
      obtain ⟨htask, hid⟩ := split_last_zero hwellformed.2 hlease hrest
      obtain rfl : claims' = claims := by
        cases claims'
        cases claims
        simp_all
      exact ⟨secret', hsecret, hentry⟩
    | request secret' timestamp body =>
      -- a signed request has no zero byte, and the bytes of a token have two
      have hbytes := (Prod.mk.inj hmessage).2
      have hzero : (0 : UInt8) ∈ timestamp ++ [46] ++ body := by
        rw [hbytes, LeaseClaims.message]
        simp
      simp [hwellformed.1, hwellformed.2] at hzero
  · cases hverified

end Conveyor
