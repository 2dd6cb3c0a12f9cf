import Mathlib.Data.List.Basic
import Mathlib.Tactic.Ring

/-!
# Fixed-width integers as bytes

Byte strings are lists of `UInt8`, and a byte array of a fixed size is the subtype that carries its length. A natural number below `256 ^ w` has exactly one little-endian and one big-endian form of `w` bytes; the two facts that say so, reading back what was written and writing back what was read, are all that a codec over this module needs to know about either byte order.
-/

namespace Wire

abbrev Bytes (n : Nat) := {bytes : List UInt8 // bytes.length = n}

def leBytes : Nat → Nat → List UInt8
  | 0, _ => []
  | w + 1, x => UInt8.ofNat x :: leBytes w (x / 256)

def ofLe : List UInt8 → Nat
  | [] => 0
  | byte :: bytes => byte.toNat + 256 * ofLe bytes

def beBytes (w x : Nat) : List UInt8 := (leBytes w x).reverse

def ofBe (bytes : List UInt8) : Nat := ofLe bytes.reverse

@[simp] theorem length_leBytes (w x : Nat) : (leBytes w x).length = w := by
  induction w generalizing x with
  | zero => rfl
  | succ w ih => simp [leBytes, ih]

@[simp] theorem length_beBytes (w x : Nat) : (beBytes w x).length = w := by
  simp [beBytes]

def beArray (w x : Nat) : Bytes w := ⟨beBytes w x, length_beBytes w x⟩

theorem ofLe_lt (bytes : List UInt8) : ofLe bytes < 256 ^ bytes.length := by
  induction bytes with
  | nil => simp [ofLe]
  | cons byte bytes ih =>
    have hbyte := byte.toNat_lt
    simp only [ofLe, List.length_cons, pow_succ]
    omega

theorem ofBe_lt (bytes : List UInt8) : ofBe bytes < 256 ^ bytes.length := by
  simpa [ofBe] using ofLe_lt bytes.reverse

theorem ofLe_append (low high : List UInt8) : ofLe (low ++ high) = ofLe low + 256 ^ low.length * ofLe high := by
  induction low with
  | nil => simp [ofLe]
  | cons byte low ih =>
    rw [List.cons_append, ofLe, ih, ofLe, List.length_cons]
    ring

theorem ofBe_cons (byte : UInt8) (bytes : List UInt8) :
    ofBe (byte :: bytes) = 256 ^ bytes.length * byte.toNat + ofBe bytes := by
  rw [ofBe, List.reverse_cons, ofLe_append, List.length_reverse, Nat.add_comm]
  rfl
theorem ofLe_leBytes (w x : Nat) : ofLe (leBytes w x) = x % 256 ^ w := by
  induction w generalizing x with
  | zero => simp [leBytes, ofLe, Nat.mod_one]
  | succ w ih =>
    have hpow : 256 ^ (w + 1) = 256 * 256 ^ w := pow_succ' 256 w
    rw [hpow, Nat.mod_mul]
    simp only [leBytes, ofLe, ih, UInt8.toNat_ofNat', Nat.reducePow]

theorem leBytes_ofLe (bytes : List UInt8) : leBytes bytes.length (ofLe bytes) = bytes := by
  induction bytes with
  | nil => rfl
  | cons byte bytes ih =>
    have hbyte := byte.toNat_lt
    have hdiv : (byte.toNat + 256 * ofLe bytes) / 256 = ofLe bytes := by omega
    simp only [List.length_cons, leBytes, ofLe, hdiv, ih, List.cons.injEq, and_true]
    apply UInt8.toNat_inj.mp
    simp only [UInt8.toNat_ofNat']
    omega

theorem ofBe_beBytes {w x : Nat} (hx : x < 256 ^ w) : ofBe (beBytes w x) = x := by
  rw [ofBe, beBytes, List.reverse_reverse, ofLe_leBytes, Nat.mod_eq_of_lt hx]

variable {bytes : List UInt8}

theorem beBytes_ofBe {w : Nat} (hlength : bytes.length = w) : beBytes w (ofBe bytes) = bytes := by
  subst hlength
  have hle := leBytes_ofLe bytes.reverse
  rw [List.length_reverse] at hle
  rw [beBytes, ofBe, hle, List.reverse_reverse]

def bitAt (bytes : List UInt8) (bit : Nat) : Bool := (bytes.getD (bit / 8) 0).toNat.testBit (bit % 8)

theorem bitAt_of_le {bit : Nat} (hbit : 8 * bytes.length ≤ bit) : bitAt bytes bit = false := by
  have hpast : bytes.length ≤ bit / 8 := by omega
  rw [bitAt, List.getD_eq_getElem?_getD, List.getElem?_eq_none hpast]
  exact Nat.zero_testBit _

theorem bitAt_replicate_zero (size bit : Nat) : bitAt (List.replicate size 0) bit = false := by
  have hzero : (List.replicate size (0 : UInt8)).getD (bit / 8) 0 = 0 := by
    rw [List.getD_eq_getElem?_getD, List.getElem?_replicate]
    split <;> rfl
  rw [bitAt, hzero]
  exact Nat.zero_testBit _

theorem eq_of_bitAt {left right : List UInt8} (hlength : left.length = right.length)
    (hbits : ∀ bit, bitAt left bit = bitAt right bit) : left = right := by
  refine List.ext_getElem hlength fun index hleft hright => UInt8.toNat_inj.mp (Nat.eq_of_testBit_eq fun bit => ?_)
  by_cases hbit : bit < 8
  · have h := hbits (8 * index + bit)
    have hindex : (8 * index + bit) / 8 = index := by omega
    have hrest : (8 * index + bit) % 8 = bit := by omega
    rw [bitAt, bitAt, hindex, hrest, List.getD_eq_getElem?_getD, List.getD_eq_getElem?_getD,
      List.getElem?_eq_getElem hleft, List.getElem?_eq_getElem hright] at h
    exact h
  have hhigh : ∀ byte : UInt8, byte.toNat.testBit bit = false := fun byte =>
    Nat.testBit_lt_two_pow (byte.toNat_lt.trans_le (Nat.pow_le_pow_right (by decide) (Nat.le_of_not_lt hbit)))
  rw [hhigh, hhigh]

theorem bitAt_modify_or {index value bit : Nat} (hindex : index < bytes.length) :
    bitAt (bytes.modify index (· ||| UInt8.ofNat value)) bit =
      (bitAt bytes bit || (decide (bit / 8 = index) && value.testBit (bit % 8))) := by
  rw [bitAt, bitAt, List.getD_eq_getElem?_getD, List.getD_eq_getElem?_getD, List.getElem?_modify]
  by_cases hbit : bit / 8 = index
  · have hvalue : (UInt8.ofNat value).toNat.testBit (bit % 8) = value.testBit (bit % 8) := by
      rw [UInt8.toNat_ofNat', Nat.testBit_mod_two_pow, decide_eq_true (Nat.mod_lt bit (by decide)), Bool.true_and]
    rw [hbit, List.getElem?_eq_getElem hindex]
    simp only [Option.map_eq_map, Option.map_some, Option.getD_some, if_true, decide_true, Bool.true_and]
    rw [UInt8.toNat_or, Nat.testBit_or, hvalue]
  · rw [decide_eq_false hbit, Bool.false_and, Bool.or_false]
    simp only [if_neg (Ne.symm hbit), Option.map_eq_map, Option.map_id']

end Wire
