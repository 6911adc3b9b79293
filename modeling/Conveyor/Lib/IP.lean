import Mathlib.Data.List.Basic

/-!
# Internet addresses as byte strings

An address is a byte string of length four or sixteen; other lengths are malformed. An IPv4 address has a second
form with sixteen bytes, and every predicate here gives both forms the same answer.
-/

namespace Conveyor.Lib

/-- An address. -/
abbrev IP := List UInt8

/-- The first twelve bytes of an IPv4 address in its long form. -/
def v4InV6Prefix : IP := [0, 0, 0, 0, 0, 0, 0, 0, 0, 0, 0xff, 0xff]

/-- The long form of an IPv4 address. -/
def ipv4 (a b c d : UInt8) : IP := v4InV6Prefix ++ [a, b, c, d]

namespace IP

/-- The short form of an IPv4 address, if it is one. -/
def to4 (ip : IP) : Option IP :=
  if ip.length = 4 then some ip
  else if ip.length = 16 ∧ ip.take 12 = v4InV6Prefix then some (ip.drop 12)
  else none

/-- The long form of a well-formed address. -/
def to16 (ip : IP) : Option IP :=
  if ip.length = 4 then some (v4InV6Prefix ++ ip) else if ip.length = 16 then some ip else none

/-- Whether two addresses are the same; the two forms of an IPv4 address are. -/
def equal (ip other : IP) : Bool :=
  if ip.length = other.length then ip == other
  else if ip.length = 4 ∧ other.length = 16 then other.take 12 == v4InV6Prefix && ip == other.drop 12
  else if ip.length = 16 ∧ other.length = 4 then ip.take 12 == v4InV6Prefix && ip.drop 12 == other
  else false

/-- The byte at an index. -/
def byte (ip : IP) (index : Nat) : UInt8 := ip.getD index 0

/-- A test that treats the short form of an IPv4 address and the other long addresses apart. -/
def byFamily (v4 v6 : IP → Bool) (ip : IP) : Bool :=
  match ip.to4 with
  | some short => v4 short
  | none => ip.length == 16 && v6 ip

/-- The zero address of either family. -/
def isUnspecified (ip : IP) : Bool := ip.equal (ipv4 0 0 0 0) || ip.equal (List.replicate 16 0)

/-- 127.0.0.0/8 and ::1. -/
def isLoopback : IP → Bool := byFamily (fun ip => ip.byte 0 == 127) fun ip => ip.equal (List.replicate 15 0 ++ [1])

/-- 224.0.0.0/4 and ff00::/8. -/
def isMulticast : IP → Bool := byFamily (fun ip => ip.byte 0 &&& 0xf0 == 0xe0) fun ip => ip.byte 0 == 0xff

/-- 169.254.0.0/16 and fe80::/10. -/
def isLinkLocalUnicast : IP → Bool :=
  byFamily (fun ip => ip.byte 0 == 169 && ip.byte 1 == 254) fun ip => ip.byte 0 == 0xfe && ip.byte 1 &&& 0xc0 == 0x80

/-- A well-formed address that is none of the special ones; private addresses are global unicast ones. -/
def isGlobalUnicast (ip : IP) : Bool :=
  (ip.length == 4 || ip.length == 16) && !ip.equal (ipv4 255 255 255 255) && !ip.isUnspecified && !ip.isLoopback &&
    !ip.isMulticast && !ip.isLinkLocalUnicast

/-- 10.0.0.0/8, 172.16.0.0/12, 192.168.0.0/16 and fc00::/7. -/
def isPrivate : IP → Bool :=
  byFamily
    (fun ip => ip.byte 0 == 10 || (ip.byte 0 == 172 && ip.byte 1 &&& 0xf0 == 16) || (ip.byte 0 == 192 && ip.byte 1 == 168))
    fun ip => ip.byte 0 &&& 0xfe == 0xfc

end IP

/-- A block of addresses: a network number in the short form if it has one, and a mask of the same length. -/
structure IPNet where
  number : IP
  mask : List UInt8

/-- Whether an address lies in the block. -/
def IPNet.contains (net : IPNet) (ip : IP) : Bool :=
  let ip := ip.to4.getD ip
  ip.length == net.number.length && List.zipWith (· &&& ·) net.number net.mask == List.zipWith (· &&& ·) ip net.mask

namespace IP

section Long

variable {short : IP} (h : short.length = 4)

include h

theorem to4_short : to4 short = some short := if_pos h

/-- The long form is the prefix and the address. -/
theorem long_parts : (v4InV6Prefix ++ short).length = 16 ∧
    (v4InV6Prefix ++ short).take 12 = v4InV6Prefix ∧ (v4InV6Prefix ++ short).drop 12 = short := by
  refine ⟨?_, List.take_left' rfl, List.drop_left' rfl⟩
  rw [List.length_append, h]
  rfl

/-- The short form of the long form. -/
theorem to4_long : to4 (v4InV6Prefix ++ short) = some short := by
  obtain ⟨hlength, htake, hdrop⟩ := long_parts h
  rw [to4, if_neg (by omega), if_pos ⟨hlength, htake⟩, hdrop]

/-- The two forms of an IPv4 address equal the same addresses. -/
theorem equal_long (other : IP) : equal (v4InV6Prefix ++ short) other = equal short other := by
  obtain ⟨hlength, htake, hdrop⟩ := long_parts h
  rw [equal, equal, hlength, h, htake, hdrop]
  by_cases hlong : other.length = 16
  · have hsplit : v4InV6Prefix ++ short = other ↔ other.take 12 = v4InV6Prefix ∧ short = other.drop 12 := by
      constructor
      · rintro rfl
        exact ⟨htake, hdrop.symm⟩
      · rintro ⟨hhead, rfl⟩
        rw [← hhead, List.take_append_drop]
    rw [if_pos hlong.symm, if_neg (by omega), if_pos ⟨rfl, hlong⟩, Bool.eq_iff_iff, beq_iff_eq, hsplit, Bool.and_eq_true,
      beq_iff_eq, beq_iff_eq]
  · by_cases hshort : other.length = 4
    · simp [hshort]
    · simp only [hlong, Ne.symm hlong, hshort, Ne.symm hshort, and_false, ↓reduceIte]

theorem byFamily_long (v4 v6 : IP → Bool) :
    byFamily v4 v6 (v4InV6Prefix ++ short) = byFamily v4 v6 short := by
  rw [byFamily, byFamily, to4_long h, to4_short h]

theorem isGlobalUnicast_long : isGlobalUnicast (v4InV6Prefix ++ short) = isGlobalUnicast short := by
  rw [isGlobalUnicast, isGlobalUnicast, isUnspecified, isUnspecified, equal_long h, equal_long h, equal_long h, isLoopback,
    isMulticast, isLinkLocalUnicast, byFamily_long h, byFamily_long h, byFamily_long h, (long_parts h).1, h]
  rfl

theorem isPrivate_long : isPrivate (v4InV6Prefix ++ short) = isPrivate short := byFamily_long h _ _

theorem contains_long (net : IPNet) : net.contains (v4InV6Prefix ++ short) = net.contains short := by
  rw [IPNet.contains, IPNet.contains, to4_long h, to4_short h]
  rfl

end Long

/-- A malformed byte string is no global unicast address. -/
theorem isGlobalUnicast_malformed {ip : IP} (h : ip.to16 = none) : isGlobalUnicast ip = false := by
  rw [to16] at h
  split at h
  · cases h
  · rename_i hshort
    split at h
    · cases h
    · rename_i hlong
      have hlength : (ip.length == 4 || ip.length == 16) = false := by
        rw [beq_false_of_ne hshort, beq_false_of_ne hlong]
        rfl
      rw [isGlobalUnicast, hlength]
      rfl

/-- A well-formed address is in its long form or an IPv4 address in its short form. -/
theorem to16_cases {ip long : IP} (h : ip.to16 = some long) :
    ip = long ∨ ip.length = 4 ∧ long = v4InV6Prefix ++ ip := by
  rw [to16] at h
  split at h
  · rename_i hshort
    exact .inr ⟨hshort, (Option.some.inj h).symm⟩
  · split at h
    · exact .inl (Option.some.inj h)
    · cases h

/-- The shorter form of a well-formed address has the same long form. -/
theorem to16_shorter {ip long : IP} (h : ip.to16 = some long) : (ip.to4.getD ip).to16 = some long := by
  rw [to4]
  split
  · exact h
  · split
    · rename_i hshort hmapped
      obtain ⟨hlong, htake⟩ := hmapped
      have hlength : (ip.drop 12).length = 4 := by rw [List.length_drop, hlong]
      rw [to16, if_neg hshort, if_pos hlong] at h
      rw [Option.getD_some, to16, if_pos hlength, ← htake, List.take_append_drop]
      exact h
    · exact h

end IP

end Conveyor.Lib
