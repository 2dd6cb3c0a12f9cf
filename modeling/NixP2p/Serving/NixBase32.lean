import NixP2p.Serving.NarHashKey

/-!
# Nix base-32 is a bijection

The coder of Nix base-32 cuts the bits of the bytes into digits of five, and decoding refuses a last digit whose bits past the last byte are not zero, so each byte string has exactly one accepted spelling. A second pair of definitions keeps the index checks and the limits of the shifts, and agrees with the first pair.
-/

namespace NixP2p

open Wire

variable {char : UInt8}

theorem getD_of_findIdx?_base32Alphabet {digit : Nat} (hfound : base32Alphabet.findIdx? (· == char) = some digit) :
    digit < 32 ∧ base32Alphabet.getD digit 0 = char := by
  obtain ⟨hlt, hchar, _⟩ := List.findIdx?_eq_some_iff_getElem.mp hfound
  refine ⟨hlt, ?_⟩
  rw [List.getD_eq_getElem?_getD, List.getElem?_eq_getElem hlt, Option.getD_some]
  exact beq_iff_eq.mp hchar

variable {bytes : List UInt8} {n : Nat}

theorem digitBits_eq {digit : Nat} (hdigit : digit < 32)
    (hbits : ∀ place, place < 5 → bitAt bytes (n * 5 + place) = digit.testBit place) : digitBits bytes n = digit := by
  refine Nat.eq_of_testBit_eq fun place => ?_
  rw [testBit_digitBits]
  by_cases hplace : place < 5
  · rw [decide_eq_true hplace, Bool.true_and, hbits place hplace]
  · rw [decide_eq_false hplace, Bool.false_and]
    exact (testBit_digit hdigit (Nat.le_of_not_lt hplace)).symm

variable {index : Nat} {out chars : List UInt8}

/-- One digit that decodes: the output keeps its bits, gains those of the digit and has none beyond. -/
theorem decodeDigits_cons {len : Nat} (hindex : index * 5 / 8 < n) (hlength : out.length = n)
    (hclear : ∀ bit, index * 5 ≤ bit → bitAt out bit = false)
    (hdecode : decodeDigits n len index (char :: chars) out = .ok bytes) :
    ∃ digit next, digit < 32 ∧ base32Alphabet.getD digit 0 = char ∧ next.length = n ∧
      decodeDigits n len (index + 1) chars next = .ok bytes ∧
      ∀ bit, bitAt next bit = if bit < index * 5 then bitAt out bit else digit.testBit (bit - index * 5) := by
  rw [decodeDigits] at hdecode
  cases hfound : base32Alphabet.findIdx? (· == char) with
  | none =>
    rw [hfound] at hdecode
    exact absurd hdecode (by simp)
  | some digit =>
    rw [hfound] at hdecode
    dsimp only at hdecode
    obtain ⟨hdigit, hchar⟩ := getD_of_findIdx?_base32Alphabet hfound
    have hbits := bitAt_orDigit (hlength ▸ hindex) hdigit hclear
    split at hdecode
    · rename_i hroom
      refine ⟨digit, _, hdigit, hchar, ?_, hdecode, fun bit => ?_⟩
      · rw [List.length_modify, List.length_modify, hlength]
      · rw [bitAt_modify_or (by rw [List.length_modify, hlength]; exact hroom), hbits]
    split at hdecode
    · exact absurd hdecode (by simp)
    rename_i hcarry
    refine ⟨digit, _, hdigit, hchar, ?_, hdecode, fun bit => ?_⟩
    · rw [List.length_modify, hlength]
    · rw [← hbits, not_not.mp hcarry, Nat.zero_testBit, Bool.and_false, Bool.or_false]

/-- Digits that decode from some index on are those of the bytes, and the bits before stay. -/
theorem decodeDigits_eq_ok {len : Nat} (hcount : index + chars.length = encodedLen n) (hlength : out.length = n)
    (hclear : ∀ bit, index * 5 ≤ bit → bitAt out bit = false)
    (hdecode : decodeDigits n len index chars out = .ok bytes) :
    (∀ bit, bit < index * 5 → bitAt bytes bit = bitAt out bit) ∧
      chars = (List.range' index chars.length).map (encodeDigit bytes) := by
  induction chars generalizing index out with
  | nil =>
    obtain rfl := Except.ok.inj hdecode
    exact ⟨fun _ _ => rfl, rfl⟩
  | cons char chars ih =>
    have hindex : index * 5 / 8 < n := by
      rw [encodedLen, List.length_cons] at hcount
      split at hcount <;> omega
    obtain ⟨digit, next, hdigit, hchar, hnext, hrest, hbits⟩ := decodeDigits_cons hindex hlength hclear hdecode
    have hclearNext : ∀ bit, (index + 1) * 5 ≤ bit → bitAt next bit = false := fun bit hbit => by
      rw [hbits, if_neg (by omega)]
      exact testBit_digit hdigit (by omega)
    obtain ⟨hkept, hchars⟩ := ih (by rw [List.length_cons] at hcount; omega) hnext hclearNext hrest
    have hread : digitBits bytes index = digit := by
      refine digitBits_eq hdigit fun place hplace => ?_
      rw [hkept _ (by omega), hbits, if_neg (by omega), Nat.add_sub_cancel_left]
    refine ⟨fun bit hbit => ?_, ?_⟩
    · rw [hkept bit (by omega), hbits, if_pos hbit]
    · rw [List.length_cons, List.range'_succ, List.map_cons, ← hchars, encodeDigit_eq, hread, hchar]

variable {text : List UInt8}

theorem encodeBase32_of_decodeFixed (hdecode : decodeFixed n text = .ok bytes) : encodeBase32 bytes = text := by
  have hbytes := length_decodeFixed hdecode
  rw [decodeFixed] at hdecode
  split at hdecode
  · exact absurd hdecode (by simp)
  rename_i hlength
  have hcount : 0 + text.reverse.length = encodedLen n := by
    rw [Nat.zero_add, List.length_reverse]
    exact not_not.mp hlength
  obtain ⟨_, hdigits⟩ := decodeDigits_eq_ok hcount List.length_replicate (fun bit _ => bitAt_replicate_zero n bit) hdecode
  rw [encodeBase32, hbytes, List.map_reverse, List.range_eq_range', ← hcount, Nat.zero_add, ← hdigits, List.reverse_reverse]

/-- A shift of a 16-bit word to the right, which is refused beyond the width. -/
def shiftRightU16 (value shift : Nat) : Option Nat := if shift < 16 then some (value >>> shift) else none

/-- A shift of a 16-bit word to the left, which is refused beyond the width and drops what leaves the word. -/
def shiftLeftU16 (value shift : Nat) : Option Nat := if shift < 16 then some (value <<< shift % 2 ^ 16) else none

theorem shiftRightU16_eq {value shift : Nat} (hshift : shift ≤ 8) : shiftRightU16 value shift = some (value >>> shift) :=
  if_pos (by omega)

theorem shiftLeftU16_eq {value shift : Nat} (hvalue : value < 2 ^ 8) (hshift : shift ≤ 8) :
    shiftLeftU16 value shift = some (value <<< shift) := by
  have hword : value <<< shift < 2 ^ 16 := by
    rw [Nat.shiftLeft_eq]
    calc value * 2 ^ shift < 2 ^ 8 * 2 ^ shift := Nat.mul_lt_mul_of_pos_right hvalue (Nat.two_pow_pos shift)
      _ ≤ 2 ^ 8 * 2 ^ 8 := Nat.mul_le_mul_left _ (Nat.pow_le_pow_right Nat.two_pos hshift)
  rw [shiftLeftU16, if_pos (by omega), Nat.mod_eq_of_lt hword]

/-- A digit of the spelling; none where an index or a shift is out of range. -/
def encodeDigitChecked (bytes : List UInt8) (n : Nat) : Option UInt8 := do
  let i := n * 5 / 8
  let j := n * 5 % 8
  let here ← shiftRightU16 (← bytes[i]?).toNat j
  let next ← if i + 1 < bytes.length then shiftLeftU16 (← bytes[i + 1]?).toNat (8 - j) else some 0
  base32Alphabet[(here ||| next) &&& 0x1f]?

def encodeBase32Checked (bytes : List UInt8) : Option (List UInt8) :=
  (List.range (encodedLen bytes.length)).reverse.mapM (encodeDigitChecked bytes)

/-- The digits from the low one up, as many as remain; none where an index or a shift is out of range. -/
def decodeDigitsChecked (n : Nat) (text : List UInt8) : Nat → Nat → List UInt8 →
    Option (Except Base32Error (List UInt8))
  | _, 0, out => some (.ok out)
  | index, remaining + 1, out => do
    let place ← if index + 1 ≤ text.length then some (text.length - index - 1) else none
    let char ← text[place]?
    match base32Alphabet.findIdx? (· == char) with
    | none => some (.error (.badChar place))
    | some digit =>
      let i := index * 5 / 8
      let j := index * 5 % 8
      let here ← out[i]?
      let low := out.set i (here ||| UInt8.ofNat (← shiftLeftU16 digit j))
      let carry ← shiftRightU16 digit (8 - j)
      if i + 1 < n then
        let next ← low[i + 1]?
        decodeDigitsChecked n text (index + 1) remaining (low.set (i + 1) (next ||| UInt8.ofNat carry))
      else if carry ≠ 0 then some (.error .nonCanonicalTail)
      else decodeDigitsChecked n text (index + 1) remaining low

def decodeFixedChecked (n : Nat) (text : List UInt8) : Option (Except Base32Error (List UInt8)) :=
  if text.length ≠ encodedLen n then some (.error (.wrongLength (encodedLen n) text.length))
  else decodeDigitsChecked n text 0 text.length (List.replicate n 0)

theorem encodeDigitChecked_eq (hn : n < encodedLen bytes.length) :
    encodeDigitChecked bytes n = some (encodeDigit bytes n) := by
  have hindex : n * 5 / 8 < bytes.length := by
    rw [encodedLen] at hn
    split at hn <;> omega
  have hhere : bytes[n * 5 / 8]? = some (bytes.getD (n * 5 / 8) 0) := by
    rw [List.getD_eq_getElem?_getD, List.getElem?_eq_getElem hindex, Option.getD_some]
  have hdigit : base32Alphabet[digitBits bytes n]? = some (base32Alphabet.getD (digitBits bytes n) 0) := by
    have hlt : digitBits bytes n < base32Alphabet.length := digitBits_lt bytes n
    rw [List.getD_eq_getElem?_getD, List.getElem?_eq_getElem hlt, Option.getD_some]
  have hshift : n * 5 % 8 ≤ 8 := Nat.le_of_lt (Nat.mod_lt _ (by decide))
  rw [encodeDigit_eq, ← hdigit, encodeDigitChecked, hhere, digitBits]
  by_cases hnext : n * 5 / 8 + 1 < bytes.length
  · have hafter : bytes[n * 5 / 8 + 1]? = some (bytes.getD (n * 5 / 8 + 1) 0) := by
      rw [List.getD_eq_getElem?_getD, List.getElem?_eq_getElem hnext, Option.getD_some]
    simp only [Option.bind_eq_bind, Option.bind_some, if_pos hnext, hafter, shiftRightU16_eq hshift,
      shiftLeftU16_eq (UInt8.toNat_lt _) (Nat.sub_le 8 _)]
  · simp only [Option.bind_eq_bind, Option.bind_some, if_neg hnext, shiftRightU16_eq hshift]

theorem mapM_eq_some_map {α β : Type} {f : α → Option β} {g : α → β} {items : List α}
    (hsome : ∀ item ∈ items, f item = some (g item)) : items.mapM f = some (items.map g) := by
  induction items with
  | nil => rfl
  | cons item items ih =>
    rw [List.mapM_cons, hsome item List.mem_cons_self, ih fun item hmem => hsome item (List.mem_cons_of_mem _ hmem)]
    rfl

theorem encodeBase32Checked_eq (bytes : List UInt8) : encodeBase32Checked bytes = some (encodeBase32 bytes) := by
  rw [encodeBase32Checked, encodeBase32]
  refine mapM_eq_some_map fun n hn => encodeDigitChecked_eq ?_
  exact List.mem_range.mp (List.mem_reverse.mp hn)

theorem set_or_eq_modify (hindex : index < out.length) (value : UInt8) :
    out.set index (out[index] ||| value) = out.modify index (· ||| value) :=
  (List.modify_eq_set_get (· ||| value) hindex).symm

theorem decodeDigitsChecked_eq (hlength : text.length = encodedLen n) {remaining : Nat}
    (hcount : index + remaining = text.length) (hout : out.length = n) :
    decodeDigitsChecked n text index remaining out =
      some (decodeDigits n text.length index (text.reverse.drop index) out) := by
  induction remaining generalizing index out with
  | zero =>
    rw [List.drop_of_length_le (by rw [List.length_reverse]; omega)]
    rfl
  | succ remaining ih =>
    have hplace : text.length - index - 1 < text.length := by omega
    have hindex : index * 5 / 8 < out.length := by
      rw [encodedLen] at hlength
      split at hlength <;> omega
    have hshift : index * 5 % 8 ≤ 8 := Nat.le_of_lt (Nat.mod_lt _ (by decide))
    have hdrop : text.reverse.drop index = text[text.length - index - 1] :: text.reverse.drop (index + 1) := by
      rw [List.drop_eq_getElem_cons (by rw [List.length_reverse]; omega), List.getElem_reverse]
      simp only [Nat.sub_right_comm]
    simp only [hdrop, decodeDigitsChecked, decodeDigits, if_pos (by omega : index + 1 ≤ text.length),
      List.getElem?_eq_getElem hplace, Option.bind_eq_bind, Option.bind_some]
    cases hfound : base32Alphabet.findIdx? (· == text[text.length - index - 1]) with
    | none => rfl
    | some digit =>
      have hdigit : digit < 2 ^ 8 := (getD_of_findIdx?_base32Alphabet hfound).1.trans (by decide)
      simp only [List.getElem?_eq_getElem hindex, Option.bind_some, shiftLeftU16_eq hdigit hshift,
        shiftRightU16_eq (Nat.sub_le 8 _), set_or_eq_modify hindex]
      by_cases hroom : index * 5 / 8 + 1 < n
      · have hnext : index * 5 / 8 + 1 <
            (out.modify (index * 5 / 8) (· ||| UInt8.ofNat (digit <<< (index * 5 % 8)))).length := by
          rw [List.length_modify, hout]
          exact hroom
        simp only [if_pos hroom, List.getElem?_eq_getElem hnext, Option.bind_some, set_or_eq_modify hnext]
        exact ih (by omega) (by rw [List.length_modify, List.length_modify, hout])
      simp only [if_neg hroom]
      split
      · rfl
      · exact ih (by omega) (by rw [List.length_modify, hout])

theorem decodeFixedChecked_eq (n : Nat) (text : List UInt8) :
    decodeFixedChecked n text = some (decodeFixed n text) := by
  rw [decodeFixedChecked, decodeFixed]
  split
  · rfl
  · rename_i hlength
    exact decodeDigitsChecked_eq (not_not.mp hlength) (Nat.zero_add _) List.length_replicate

theorem decodeFixed_encodeBase32_all (bytes : List UInt8) :
    decodeFixed bytes.length (encodeBase32 bytes) = .ok bytes := by
  cases bytes with
  | nil => rfl
  | cons byte bytes => exact decodeFixed_encodeBase32 (List.cons_ne_nil byte bytes)

/-- A byte string's spelling decodes to it, a text that decodes is the spelling of what it decodes to, and no input takes an index or a shift out of range. -/
theorem nixBase32_bijection (n : Nat) :
    (∀ bytes, bytes.length = n → decodeFixed n (encodeBase32 bytes) = .ok bytes) ∧
    (∀ text bytes, decodeFixed n text = .ok bytes → bytes.length = n ∧ encodeBase32 bytes = text) ∧
    (∀ bytes : List UInt8, bytes.length = n → ∃! text, decodeFixed n text = .ok bytes) ∧
    (∀ bytes : List UInt8, bytes.length = n → encodeBase32Checked bytes = some (encodeBase32 bytes)) ∧
    ∀ text, decodeFixedChecked n text = some (decodeFixed n text) := by
  refine ⟨?_, fun text bytes hdecode => ⟨length_decodeFixed hdecode, encodeBase32_of_decodeFixed hdecode⟩, ?_,
    fun bytes _ => encodeBase32Checked_eq bytes, decodeFixedChecked_eq n⟩
  · rintro bytes rfl
    exact decodeFixed_encodeBase32_all bytes
  · rintro bytes rfl
    refine ⟨encodeBase32 bytes, decodeFixed_encodeBase32_all bytes, fun text hdecode => ?_⟩
    exact (encodeBase32_of_decodeFixed hdecode).symm

end NixP2p
