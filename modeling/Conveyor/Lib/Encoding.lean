import Mathlib.Data.List.Basic

/-!
# Text encodings of byte strings

Unpadded URL-safe base64 and lower-case hexadecimal. The base64 decoder skips line breaks and does not look at
the bits a final group leaves over, so several texts may decode to the same bytes.
-/

namespace Conveyor.Lib

/-- A byte string. -/
abbrev Bytes := List UInt8

/-- The character of a six-bit number in the URL-safe alphabet. -/
def base64Char (n : Nat) : UInt8 :=
  if n < 26 then UInt8.ofNat (65 + n)
  else if n < 52 then UInt8.ofNat (97 + (n - 26))
  else if n < 62 then UInt8.ofNat (48 + (n - 52))
  else if n = 62 then 45
  else 95

/-- The six-bit number of a character. -/
def base64Value (c : UInt8) : Option Nat :=
  if 65 ≤ c ∧ c ≤ 90 then some (c.toNat - 65)
  else if 97 ≤ c ∧ c ≤ 122 then some (c.toNat - 97 + 26)
  else if 48 ≤ c ∧ c ≤ 57 then some (c.toNat - 48 + 52)
  else if c = 45 then some 62
  else if c = 95 then some 63
  else none

/-- Bytes regrouped into six-bit numbers; the last group is filled up with zero bits. -/
def sextets : Bytes → List Nat
  | [] => []
  | [a] => [a.toNat / 4, a.toNat % 4 * 16]
  | [a, b] => [a.toNat / 4, a.toNat % 4 * 16 + b.toNat / 16, b.toNat % 16 * 4]
  | a :: b :: c :: rest =>
    a.toNat / 4 :: (a.toNat % 4 * 16 + b.toNat / 16) :: (b.toNat % 16 * 4 + c.toNat / 64) :: c.toNat % 64 ::
      sextets rest

/-- Six-bit numbers regrouped into bytes. A single one at the end is no byte. -/
def octets : List Nat → Option Bytes
  | [] => some []
  | [_] => none
  | [s, t] => some [UInt8.ofNat (s * 4 + t / 16)]
  | [s, t, u] => some [UInt8.ofNat (s * 4 + t / 16), UInt8.ofNat (t % 16 * 16 + u / 4)]
  | s :: t :: u :: v :: rest =>
    (octets rest).map fun tail =>
      UInt8.ofNat (s * 4 + t / 16) :: UInt8.ofNat (t % 16 * 16 + u / 4) :: UInt8.ofNat (u % 4 * 64 + v) :: tail

/-- Unpadded URL-safe base64. -/
def base64Encode (bytes : Bytes) : Bytes := (sextets bytes).map base64Char

/-- Decode unpadded URL-safe base64. -/
def base64Decode (text : Bytes) : Option Bytes :=
  ((text.filter fun c => c != 10 && c != 13).mapM base64Value).bind octets

theorem sextets_lt (bytes : Bytes) : ∀ n ∈ sextets bytes, n < 64 := by
  fun_induction sextets bytes with
  | case1 => exact List.forall_mem_nil _
  | case2 a =>
    have ha := a.toNat_lt
    simp only [List.mem_cons, List.not_mem_nil, or_false]
    omega
  | case3 a b =>
    have ha := a.toNat_lt
    have hb := b.toNat_lt
    simp only [List.mem_cons, List.not_mem_nil, or_false]
    omega
  | case4 a b c rest ih =>
    have ha := a.toNat_lt
    have hb := b.toNat_lt
    have hc := c.toNat_lt
    simp only [List.mem_cons]
    rintro n (rfl | rfl | rfl | rfl | hn)
    · omega
    · omega
    · omega
    · omega
    · exact ih n hn

theorem octets_sextets (bytes : Bytes) : octets (sextets bytes) = some bytes := by
  have hbyte : ∀ (a : UInt8) (n : Nat), n = a.toNat → UInt8.ofNat n = a := by
    rintro a n rfl
    exact UInt8.ofNat_toNat
  fun_induction sextets bytes with
  | case1 => rfl
  | case2 a =>
    have ha := a.toNat_lt
    rw [octets, hbyte a _ (by omega)]
  | case3 a b =>
    have ha := a.toNat_lt
    have hb := b.toNat_lt
    rw [octets, hbyte a _ (by omega), hbyte b _ (by omega)]
  | case4 a b c rest ih =>
    have ha := a.toNat_lt
    have hb := b.toNat_lt
    have hc := c.toNat_lt
    rw [octets, ih, Option.map_some, hbyte a _ (by omega), hbyte b _ (by omega), hbyte c _ (by omega)]

/-- What a character of the alphabet is: it has its value, and is neither a line break nor a dot. -/
theorem base64Char_spec : ∀ n ∈ List.range 64, base64Value (base64Char n) = some n ∧ base64Char n ≠ 10 ∧
    base64Char n ≠ 13 ∧ base64Char n ≠ 46 := by
  decide

theorem mapM_base64Value {numbers : List Nat} (h : ∀ n ∈ numbers, n < 64) :
    (numbers.map base64Char).mapM base64Value = some numbers := by
  induction numbers with
  | nil => rfl
  | cons n rest ih =>
    rw [List.forall_mem_cons] at h
    rw [List.map_cons, List.mapM_cons, (base64Char_spec n (List.mem_range.mpr h.1)).1, ih h.2]
    rfl

/-- Decoding what was encoded gives it back. -/
theorem base64Decode_encode (bytes : Bytes) : base64Decode (base64Encode bytes) = some bytes := by
  have hlt := sextets_lt bytes
  have hfilter : (base64Encode bytes).filter (fun c => c != 10 && c != 13) = base64Encode bytes := by
    rw [List.filter_eq_self, base64Encode, List.forall_mem_map]
    intro n hn
    obtain ⟨-, hten, hthirteen, -⟩ := base64Char_spec n (List.mem_range.mpr (hlt n hn))
    simp [hten, hthirteen]
  rw [base64Decode, hfilter, base64Encode, mapM_base64Value hlt]
  exact octets_sextets bytes

/-- An encoded text has no dot. -/
theorem dot_notMem_base64Encode (bytes : Bytes) : (46 : UInt8) ∉ base64Encode bytes := by
  rw [base64Encode, List.mem_map]
  rintro ⟨n, hn, hdot⟩
  exact (base64Char_spec n (List.mem_range.mpr (sextets_lt bytes n hn))).2.2.2 hdot

/-- The character of a four-bit number. -/
def hexChar (n : Nat) : UInt8 := if n < 10 then UInt8.ofNat (48 + n) else UInt8.ofNat (87 + n)

/-- Lower-case hexadecimal. -/
def hexEncode (bytes : Bytes) : Bytes := bytes.flatMap fun a => [hexChar (a.toNat / 16), hexChar (a.toNat % 16)]

theorem dot_ne_hexChar : ∀ n ∈ List.range 16, hexChar n ≠ 46 := by decide

/-- A hexadecimal text has no dot. -/
theorem dot_notMem_hexEncode (bytes : Bytes) : (46 : UInt8) ∉ hexEncode bytes := by
  rw [hexEncode, List.mem_flatMap]
  rintro ⟨a, -, hdot⟩
  have ha := a.toNat_lt
  rcases List.mem_pair.mp hdot with hdot | hdot
  · exact dot_ne_hexChar (a.toNat / 16) (List.mem_range.mpr (by omega)) hdot.symm
  · exact dot_ne_hexChar (a.toNat % 16) (List.mem_range.mpr (by omega)) hdot.symm

/-- A byte in decimal digits. -/
def decimalText (a : UInt8) : Bytes := (Nat.toDigits 10 a.toNat).map fun digit => UInt8.ofNat digit.toNat

/-- The number a text of decimal digits writes. -/
def decimalValue (text : Bytes) : Nat := text.foldl (fun n digit => 10 * n + (digit.toNat - 48)) 0

/-- The byte a text writes in decimal digits, without leading zeros. -/
def readDecimal (text : Bytes) : Option UInt8 :=
  let a := UInt8.ofNat (decimalValue text)
  if decimalText a = text then some a else none

/-- What the digits of a byte are: they have its value, and are neither a dot nor a colon. -/
theorem decimalText_spec (a : UInt8) :
    decimalValue (decimalText a) = a.toNat ∧ 46 ∉ decimalText a ∧ 58 ∉ decimalText a := by
  have hall : ∀ n ∈ List.range 256, decimalValue (decimalText (UInt8.ofNat n)) = (UInt8.ofNat n).toNat ∧
      46 ∉ decimalText (UInt8.ofNat n) ∧ 58 ∉ decimalText (UInt8.ofNat n) := by decide +kernel
  have ha := hall a.toNat (List.mem_range.mpr a.toNat_lt)
  rwa [UInt8.ofNat_toNat] at ha

theorem readDecimal_text (a : UInt8) : readDecimal (decimalText a) = some a := by
  rw [readDecimal, (decimalText_spec a).1, UInt8.ofNat_toNat]
  exact if_pos rfl

/-- Bytes in decimal digits with dots between them. -/
def dottedText (bytes : Bytes) : Bytes := [46].intercalate (bytes.map decimalText)

/-- The bytes that a dotted text writes. -/
def readDotted (text : Bytes) : Option Bytes := (text.splitOn 46).mapM readDecimal

/-- Reading a dotted text gives its bytes back. -/
theorem readDotted_text {bytes : Bytes} (h : bytes ≠ []) : readDotted (dottedText bytes) = some bytes := by
  have hpieces : ∀ piece ∈ bytes.map decimalText, (46 : UInt8) ∉ piece := by
    rw [List.forall_mem_map]
    exact fun a _ => (decimalText_spec a).2.1
  rw [readDotted, dottedText, List.splitOn_intercalate 46 hpieces (by simpa using h), List.mapM_map]
  clear hpieces h
  induction bytes with
  | nil => rfl
  | cons a rest ih =>
    rw [List.mapM_cons, ih, Function.comp_apply, readDecimal_text]
    rfl

/-- A dotted text has no colon. -/
theorem colon_notMem_dottedText (bytes : Bytes) : (58 : UInt8) ∉ dottedText bytes := by
  rw [dottedText]
  induction bytes with
  | nil => exact List.not_mem_nil
  | cons a rest ih =>
    have ha := (decimalText_spec a).2.2
    cases rest with
    | nil => simpa using ha
    | cons b rest =>
      rw [List.map_cons, List.map_cons, List.intercalate_cons_cons, ← List.map_cons]
      simp only [List.mem_append, List.mem_singleton, not_or]
      exact ⟨⟨ha, by decide⟩, ih⟩

end Conveyor.Lib
