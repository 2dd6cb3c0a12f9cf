import NixP2p.Base.Bytes
import NixP2p.Base.Text

/-!
# The signed NarHash as a discovery key

Nix writes a NarHash as `sha256:` and the digest in its own base-32 alphabet, read from the last character up. A NarHash that is not the canonical spelling of 32 bytes is no key of the peer-to-peer path.
-/

namespace NixP2p

open Wire

/-- Nix's base-32 alphabet: lower case, without `e`, `o`, `u` and `t`. -/
def base32Alphabet : List UInt8 := "0123456789abcdfghijklmnpqrsvwxyz".toUTF8.data.toList

def encodedLen (byteLen : Nat) : Nat := if byteLen = 0 then 0 else (byteLen * 8 - 1) / 5 + 1

/-- The digit of five bits at a bit position, which may straddle two bytes. -/
def encodeDigit (bytes : List UInt8) (n : Nat) : UInt8 :=
  let i := n * 5 / 8
  let j := n * 5 % 8
  let here := (bytes.getD i 0).toNat >>> j
  let next := if i + 1 < bytes.length then (bytes.getD (i + 1) 0).toNat <<< (8 - j) else 0
  base32Alphabet.getD ((here ||| next) &&& 0x1f) 0

def encodeBase32 (bytes : List UInt8) : List UInt8 :=
  (List.range (encodedLen bytes.length)).reverse.map (encodeDigit bytes)

inductive Base32Error where
  | wrongLength (expected found : Nat)
  | badChar (index : Nat)
  | nonCanonicalTail
  deriving DecidableEq

instance : ToString Base32Error where
  toString
    | .wrongLength expected found => s!"expected {expected} base-32 characters, found {found}"
    | .badChar index => s!"non-base-32 character at index {index}"
    | .nonCanonicalTail => "final base-32 digit is not canonical (spills past the digest)"

/-- The digits from the low one up, or-ed into the output at five bits each. -/
def decodeDigits (n len : Nat) : Nat → List UInt8 → List UInt8 → Except Base32Error (List UInt8)
  | _, [], out => .ok out
  | index, char :: chars, out =>
    match base32Alphabet.findIdx? (· == char) with
    | none => .error (.badChar (len - index - 1))
    | some digit =>
      let i := index * 5 / 8
      let j := index * 5 % 8
      let low := out.modify i (· ||| UInt8.ofNat (digit <<< j))
      let carry := digit >>> (8 - j)
      if i + 1 < n then
        decodeDigits n len (index + 1) chars (low.modify (i + 1) (· ||| UInt8.ofNat carry))
      else if carry ≠ 0 then .error .nonCanonicalTail
      else decodeDigits n len (index + 1) chars low

def decodeFixed (n : Nat) (text : List UInt8) : Except Base32Error (List UInt8) :=
  if text.length ≠ encodedLen n then .error (.wrongLength (encodedLen n) text.length)
  else decodeDigits n text.length 0 text.reverse (List.replicate n 0)

variable {out bytes : List UInt8}

theorem length_decodeDigits {n len index : Nat} {chars : List UInt8}
    (hdecode : decodeDigits n len index chars out = .ok bytes) : bytes.length = out.length := by
  induction chars generalizing index out with
  | nil =>
    cases hdecode
    rfl
  | cons char chars ih =>
    unfold decodeDigits at hdecode
    split at hdecode
    · cases hdecode
    simp only at hdecode
    split at hdecode
    · simpa using ih hdecode
    split at hdecode
    · cases hdecode
    · simpa using ih hdecode

theorem length_decodeFixed {n : Nat} {text : List UInt8} (hdecode : decodeFixed n text = .ok bytes) :
    bytes.length = n := by
  unfold decodeFixed at hdecode
  split at hdecode
  · cases hdecode
  · simpa using length_decodeDigits hdecode

def digitBits (bytes : List UInt8) (n : Nat) : Nat :=
  ((bytes.getD (n * 5 / 8) 0).toNat >>> (n * 5 % 8) |||
    (if n * 5 / 8 + 1 < bytes.length then (bytes.getD (n * 5 / 8 + 1) 0).toNat <<< (8 - n * 5 % 8) else 0)) &&& 0x1f

theorem encodeDigit_eq (bytes : List UInt8) (n : Nat) :
    encodeDigit bytes n = base32Alphabet.getD (digitBits bytes n) 0 := rfl

theorem digitBits_lt (bytes : List UInt8) (n : Nat) : digitBits bytes n < 32 :=
  Nat.lt_of_le_of_lt Nat.and_le_right (by decide)

theorem testBit_digitBits (bytes : List UInt8) (n bit : Nat) :
    (digitBits bytes n).testBit bit = (decide (bit < 5) && bitAt bytes (n * 5 + bit)) := by
  have hnext : (if n * 5 / 8 + 1 < bytes.length then (bytes.getD (n * 5 / 8 + 1) 0).toNat <<< (8 - n * 5 % 8) else 0) =
      (bytes.getD (n * 5 / 8 + 1) 0).toNat <<< (8 - n * 5 % 8) := by
    split
    · rfl
    rename_i hpast
    rw [List.getD_eq_getElem?_getD, List.getElem?_eq_none (Nat.le_of_not_lt hpast)]
    exact (Nat.zero_shiftLeft _).symm
  rw [digitBits, hnext, Nat.testBit_and, Nat.testBit_or, Nat.testBit_shiftRight, Nat.testBit_shiftLeft,
    show (0x1f : Nat) = 2 ^ 5 - 1 from rfl, Nat.testBit_two_pow_sub_one, Bool.and_comm, bitAt]
  by_cases hbit : bit < 5
  swap
  · rw [decide_eq_false hbit, Bool.false_and, Bool.false_and]
  rw [decide_eq_true hbit, Bool.true_and, Bool.true_and]
  -- the digit ends in this byte, or it straddles two
  by_cases hhere : n * 5 % 8 + bit < 8
  · have hindex : (n * 5 + bit) / 8 = n * 5 / 8 := by omega
    have hrest : (n * 5 + bit) % 8 = n * 5 % 8 + bit := by omega
    have hnot : ¬ bit ≥ 8 - n * 5 % 8 := by omega
    rw [decide_eq_false hnot, Bool.false_and, Bool.or_false, hindex, hrest]
  have hindex : (n * 5 + bit) / 8 = n * 5 / 8 + 1 := by omega
  have hrest : (n * 5 + bit) % 8 = bit - (8 - n * 5 % 8) := by omega
  have hover : bit ≥ 8 - n * 5 % 8 := by omega
  have hhigh : (bytes.getD (n * 5 / 8) 0).toNat.testBit (n * 5 % 8 + bit) = false :=
    Nat.testBit_lt_two_pow ((bytes.getD (n * 5 / 8) 0).toNat_lt.trans_le
      (Nat.pow_le_pow_right (by decide) (Nat.le_of_not_lt hhere)))
  rw [hhigh, Bool.false_or, decide_eq_true hover, Bool.true_and, hindex, hrest]

theorem findIdx?_base32Alphabet {digit : Nat} (hdigit : digit < 32) :
    base32Alphabet.findIdx? (· == base32Alphabet.getD digit 0) = some digit := by
  have hall : ∀ digit < 32, base32Alphabet.findIdx? (· == base32Alphabet.getD digit 0) = some digit := by
    decide +kernel
  exact hall digit hdigit

theorem testBit_digit {digit place : Nat} (hdigit : digit < 32) (hplace : 5 ≤ place) : digit.testBit place = false :=
  Nat.testBit_lt_two_pow (hdigit.trans_le (Nat.pow_le_pow_right Nat.two_pos hplace))

theorem bitAt_orDigit {digit n : Nat} (hn : n * 5 / 8 < out.length) (hdigit : digit < 32)
    (hout : ∀ bit, n * 5 ≤ bit → bitAt out bit = false) (bit : Nat) :
    (bitAt (out.modify (n * 5 / 8) (· ||| UInt8.ofNat (digit <<< (n * 5 % 8)))) bit ||
      (decide (bit / 8 = n * 5 / 8 + 1) && (digit >>> (8 - n * 5 % 8)).testBit (bit % 8))) =
      if bit < n * 5 then bitAt out bit else digit.testBit (bit - n * 5) := by
  rw [bitAt_modify_or hn, Nat.testBit_shiftLeft, Nat.testBit_shiftRight]
  by_cases hbefore : bit < n * 5
  · have hnext : ¬ bit / 8 = n * 5 / 8 + 1 := by omega
    rw [if_pos hbefore, decide_eq_false hnext, Bool.false_and, Bool.or_false]
    by_cases hindex : bit / 8 = n * 5 / 8
    · have hlow : ¬ bit % 8 ≥ n * 5 % 8 := by omega
      rw [decide_eq_false hlow, Bool.false_and, Bool.and_false, Bool.or_false]
    · rw [decide_eq_false hindex, Bool.false_and, Bool.or_false]
  rw [if_neg hbefore, hout bit (Nat.le_of_not_lt hbefore), Bool.false_or]
  -- the bit is in the byte of the digit, in the next one, or beyond both
  by_cases hindex : bit / 8 = n * 5 / 8
  · have hnext : ¬ bit / 8 = n * 5 / 8 + 1 := by omega
    have hwithin : bit % 8 ≥ n * 5 % 8 := by omega
    have hplace : bit % 8 - n * 5 % 8 = bit - n * 5 := by omega
    rw [decide_eq_true hindex, decide_eq_true hwithin, decide_eq_false hnext, hplace, Bool.false_and,
      Bool.or_false, Bool.true_and, Bool.true_and]
  rw [decide_eq_false hindex, Bool.false_and, Bool.false_or]
  by_cases hnext : bit / 8 = n * 5 / 8 + 1
  · have hplace : 8 - n * 5 % 8 + bit % 8 = bit - n * 5 := by omega
    rw [decide_eq_true hnext, hplace, Bool.true_and]
  · rw [decide_eq_false hnext, Bool.false_and, testBit_digit hdigit (by omega)]

theorem decodeDigits_encodeDigit (hne : bytes ≠ []) (len : Nat) {count index : Nat}
    (hcount : index + count = encodedLen bytes.length) (hlength : out.length = bytes.length)
    (hout : ∀ bit, bitAt out bit = (decide (bit < index * 5) && bitAt bytes bit)) :
    decodeDigits bytes.length len index ((List.range' index count).map (encodeDigit bytes)) out = .ok bytes := by
  have hpos : bytes.length ≠ 0 := fun h => hne (List.length_eq_zero_iff.mp h)
  rw [encodedLen, if_neg hpos] at hcount
  induction count generalizing index out with
  | zero =>
    refine congrArg Except.ok (eq_of_bitAt hlength fun bit => ?_)
    rw [hout]
    by_cases hbit : bit < index * 5
    · rw [decide_eq_true hbit, Bool.true_and]
    · rw [bitAt_of_le (by omega), Bool.and_false]
  | succ count ih =>
    have hindex : index * 5 / 8 < out.length := by omega
    have hclear : ∀ bit, index * 5 ≤ bit → bitAt out bit = false := fun bit hbit => by
      rw [hout, decide_eq_false (Nat.not_lt.mpr hbit), Bool.false_and]
    have hbits : ∀ bit, (bitAt (out.modify (index * 5 / 8)
          (· ||| UInt8.ofNat (digitBits bytes index <<< (index * 5 % 8)))) bit ||
        (decide (bit / 8 = index * 5 / 8 + 1) && (digitBits bytes index >>> (8 - index * 5 % 8)).testBit (bit % 8))) =
        (decide (bit < (index + 1) * 5) && bitAt bytes bit) := fun bit => by
      rw [bitAt_orDigit hindex (digitBits_lt bytes index) hclear, hout, testBit_digitBits]
      by_cases hbefore : bit < index * 5
      · rw [if_pos hbefore, decide_eq_true hbefore, decide_eq_true (by omega)]
      · rw [if_neg hbefore, Nat.add_sub_cancel' (Nat.le_of_not_lt hbefore)]
        exact congrArg (· && _) (decide_eq_decide.mpr (by omega))
    rw [List.range'_succ, List.map_cons, encodeDigit_eq, decodeDigits, findIdx?_base32Alphabet (digitBits_lt _ _)]
    dsimp only
    split
    · rename_i hroom
      refine ih (by omega) (by rw [List.length_modify, List.length_modify, hlength]) fun bit => ?_
      rw [bitAt_modify_or (by rw [List.length_modify, hlength]; exact hroom), hbits]
    rename_i hlast
    have hcarry : digitBits bytes index >>> (8 - index * 5 % 8) = 0 := by
      refine Nat.eq_of_testBit_eq fun bit => ?_
      rw [Nat.testBit_shiftRight, testBit_digitBits, bitAt_of_le (by omega), Bool.and_false, Nat.zero_testBit]
    rw [if_neg (not_not.mpr hcarry)]
    refine ih (by omega) (by rw [List.length_modify, hlength]) fun bit => ?_
    rw [← hbits, hcarry, Nat.zero_testBit, Bool.and_false, Bool.or_false]

theorem decodeFixed_encodeBase32 (hne : bytes ≠ []) :
    decodeFixed bytes.length (encodeBase32 bytes) = .ok bytes := by
  have hlength : (encodeBase32 bytes).length = encodedLen bytes.length := by
    rw [encodeBase32, List.length_map, List.length_reverse, List.length_range]
  have hreverse : (encodeBase32 bytes).reverse = (List.range' 0 (encodedLen bytes.length)).map (encodeDigit bytes) := by
    rw [encodeBase32, ← List.map_reverse, List.reverse_reverse, List.range_eq_range']
  rw [decodeFixed, if_neg (not_not.mpr hlength), hreverse]
  refine decodeDigits_encodeDigit hne _ (Nat.zero_add _) List.length_replicate fun bit => ?_
  rw [bitAt_replicate_zero, Nat.zero_mul, decide_eq_false (Nat.not_lt_zero bit), Bool.false_and]

inductive NarHashKeyParseError where
  | missingPrefix
  | badBase32 (why : Base32Error)
  deriving DecidableEq

instance : ToString NarHashKeyParseError where
  toString
    | .missingPrefix => "missing 'sha256:' prefix on a NarHash key"
    | .badBase32 why => s!"malformed NarHash base-32: {why}"

structure NarHashKey where
  bytes : Bytes 32
  deriving DecidableEq

def narHashPrefix : List Char := "sha256:".toList

def NarHashKey.fromStr (text : List Char) : Except NarHashKeyParseError NarHashKey :=
  match text.dropPrefix? narHashPrefix with
  | none => .error .missingPrefix
  | some body =>
    match hdecode : decodeFixed 32 (Text.toUtf8 body) with
    | .error why => .error (.badBase32 why)
    | .ok bytes => .ok ⟨⟨bytes, length_decodeFixed hdecode⟩⟩

def NarHashKey.toNixBase32 (key : NarHashKey) : String :=
  String.ofList ((encodeBase32 key.bytes.1).map fun digit => Char.ofNat digit.toNat)

instance : ToString NarHashKey where
  toString key := String.ofList narHashPrefix ++ key.toNixBase32

def NarHashKey.display (key : NarHashKey) : List Char := (toString key).toList

theorem NarHashKey.display_eq (key : NarHashKey) :
    key.display = narHashPrefix ++ (encodeBase32 key.bytes.1).map fun digit => Char.ofNat digit.toNat := by
  change (String.ofList narHashPrefix ++ String.ofList _).toList = _
  rw [String.toList_append, String.toList_ofList, String.toList_ofList]

theorem mem_encodeBase32 {digit : UInt8} (hdigit : digit ∈ encodeBase32 bytes) : digit ∈ base32Alphabet := by
  obtain ⟨n, -, rfl⟩ := List.mem_map.mp hdigit
  have hlt : digitBits bytes n < base32Alphabet.length := digitBits_lt bytes n
  rw [encodeDigit_eq, List.getD_eq_getElem?_getD, List.getElem?_eq_getElem hlt]
  exact List.getElem_mem hlt

theorem toUtf8_base32 {digits : List UInt8} (hdigits : ∀ digit ∈ digits, digit ∈ base32Alphabet) :
    Text.toUtf8 (digits.map fun digit => Char.ofNat digit.toNat) = digits := by
  have hbyte : ∀ digit ∈ base32Alphabet, (Char.ofNat digit.toNat).toNat = digit.toNat ∧ digit.toNat < 0x80 := by
    decide +kernel
  induction digits with
  | nil => rfl
  | cons digit digits ih =>
    obtain ⟨hsame, hlt⟩ := hbyte digit (hdigits digit List.mem_cons_self)
    have hchar : (Char.ofNat digit.toNat).toNat < 0x80 := hsame.trans_lt hlt
    rw [List.map_cons, Text.toUtf8_cons, Text.utf8EncodeChar_of_lt hchar, hsame, UInt8.ofNat_toNat,
      ih fun other hother => hdigits other (List.mem_cons_of_mem _ hother)]
    rfl

theorem NarHashKey.fromStr_display (key : NarHashKey) : NarHashKey.fromStr key.display = .ok key := by
  have hne : key.bytes.1 ≠ [] := List.ne_nil_of_length_eq_add_one key.bytes.2
  have hdecode := decodeFixed_encodeBase32 hne
  rw [key.bytes.2] at hdecode
  rw [← toUtf8_base32 fun _ => mem_encodeBase32] at hdecode
  rw [display_eq, fromStr, List.dropPrefix?_append_of_beq _ (BEq.refl narHashPrefix)]
  dsimp only
  split
  · rename_i why herror
    cases hdecode.symm.trans herror
  rename_i bytes hbytes
  obtain rfl : key.bytes.1 = bytes := Except.ok.inj (hdecode.symm.trans hbytes)
  rfl

theorem NarHashKey.length_display (key : NarHashKey) : key.display.length = 59 := by
  rw [display_eq, List.length_append, List.length_map, encodeBase32, List.length_map, List.length_reverse,
    List.length_range, key.bytes.2]
  rfl

theorem NarHashKey.mem_display {key : NarHashKey} {char : Char} (hchar : char ∈ key.display) :
    char ∈ "sha256:0123456789abcdfghijklmnpqrsvwxyz".toList := by
  have hdigit : ∀ digit ∈ base32Alphabet,
      Char.ofNat digit.toNat ∈ "sha256:0123456789abcdfghijklmnpqrsvwxyz".toList := by decide +kernel
  rw [display_eq, List.mem_append] at hchar
  obtain hchar | hchar := hchar
  · have hnames : "sha256:0123456789abcdfghijklmnpqrsvwxyz".toList =
        narHashPrefix ++ "0123456789abcdfghijklmnpqrsvwxyz".toList := by decide +kernel
    rw [hnames]
    exact List.mem_append_left _ hchar
  · obtain ⟨digit, hmem, rfl⟩ := List.mem_map.mp hchar
    exact hdigit digit (mem_encodeBase32 hmem)

/-- A fixture of the source: a digest as Nix prints it. -/
example : NarHashKey.fromStr "sha256:06rgb4vfjsg365xwwdjz12qhjnvg3w0agfvyqfp977hp3yk2bczb".toList =
    .ok ⟨⟨beBytes 32 0xebb325a61f179e93aec37ebba7001f6f5b09b1085f36ce7b31e369e936592f1b, by simp⟩⟩ := by
  decide +kernel

example : encodeBase32 (beBytes 32 0xebb325a61f179e93aec37ebba7001f6f5b09b1085f36ce7b31e369e936592f1b) =
    Text.toUtf8 "06rgb4vfjsg365xwwdjz12qhjnvg3w0agfvyqfp977hp3yk2bczb".toList := by
  decide +kernel

end NixP2p
