import Mathlib.Data.List.Basic
import Mathlib.Tactic.IntervalCases

/-!
# Hexadecimal text

Bytes are written as lower-case pairs of digits, and read back with either case accepted. Reading goes character by character: a character outside ASCII is spelled by bytes none of which is a digit, so it fails just as its first byte does.
-/

namespace Hex

def encode (bytes : List UInt8) : List Char :=
  bytes.flatMap fun byte => [Nat.digitChar (byte.toNat / 16), Nat.digitChar (byte.toNat % 16)]

def digit (char : Char) : Option Nat :=
  if '0' ≤ char ∧ char ≤ '9' then some (char.toNat - '0'.toNat)
  else if 'a' ≤ char ∧ char ≤ 'f' then some (char.toNat - 'a'.toNat + 10)
  else if 'A' ≤ char ∧ char ≤ 'F' then some (char.toNat - 'A'.toNat + 10)
  else none

def decode : List Char → Option (List UInt8)
  | [] => some []
  | [_] => none
  | hi :: lo :: rest => do
    let high ← digit hi
    let low ← digit lo
    let bytes ← decode rest
    return UInt8.ofNat (high * 16 + low) :: bytes

theorem digit_digitChar {n : Nat} (hn : n < 16) : digit (Nat.digitChar n) = some n := by
  interval_cases n <;> decide

theorem decode_encode (bytes : List UInt8) : decode (encode bytes) = some bytes := by
  induction bytes with
  | nil => rfl
  | cons byte bytes ih =>
    have hbyte := byte.toNat_lt
    have hhigh := digit_digitChar (show byte.toNat / 16 < 16 by omega)
    have hlow := digit_digitChar (show byte.toNat % 16 < 16 by omega)
    have hsum : byte.toNat / 16 * 16 + byte.toNat % 16 = byte.toNat := by omega
    change (do
      let high ← digit (Nat.digitChar (byte.toNat / 16))
      let low ← digit (Nat.digitChar (byte.toNat % 16))
      let rest ← decode (encode bytes)
      return UInt8.ofNat (high * 16 + low) :: rest) = _
    rw [hhigh, hlow, ih]
    change some (UInt8.ofNat (byte.toNat / 16 * 16 + byte.toNat % 16) :: bytes) = _
    rw [hsum, UInt8.ofNat_toNat]

theorem length_encode (bytes : List UInt8) : (encode bytes).length = 2 * bytes.length := by
  induction bytes with
  | nil => rfl
  | cons byte bytes ih =>
    rw [encode, List.flatMap_cons, List.length_append, ← encode, ih, List.length_cons]
    change 2 + 2 * bytes.length = 2 * (bytes.length + 1)
    omega

theorem mem_encode {bytes : List UInt8} {char : Char} (hmem : char ∈ encode bytes) :
    char ∈ "0123456789abcdef".toList := by
  obtain ⟨byte, -, hchar⟩ := List.mem_flatMap.mp hmem
  have hbyte := byte.toNat_lt
  have hdigit : ∀ n, n < 16 → Nat.digitChar n ∈ "0123456789abcdef".toList := by decide
  rcases List.mem_pair.mp hchar with rfl | rfl
  · exact hdigit _ (by omega)
  · exact hdigit _ (by omega)

end Hex
