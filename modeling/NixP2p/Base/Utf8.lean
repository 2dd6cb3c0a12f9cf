import NixP2p.Base.Text

/-!
# Every text reads back from its bytes

The decoder takes one character at a time, by the number of bytes its first byte announces. `Spells` is the table of the four forms: the decoder reads just these, the encoder writes just these, and every character has one. The second byte of a longer form is restricted, so that no form is longer than needed and no character a surrogate.
-/

namespace Text

theorem toNat_ofNat_byte {n : Nat} (hn : n < 256) : (UInt8.ofNat n).toNat = n := UInt8.toNat_ofNat_of_lt' hn

variable {v : Nat}

theorem toNat_ofNat_char (hvalid : v.isValidChar) : (Char.ofNat v).toNat = v := by
  unfold Char.ofNat
  rw [dif_pos hvalid]
  rfl

variable {a b : UInt8}

theorem isTail_iff : isTail b = true ↔ 128 ≤ b.toNat ∧ b.toNat ≤ 191 := by
  simp only [isTail, decide_eq_true_eq, UInt8.le_iff_toNat_le, UInt8.reduceToNat]

theorem isSecondOfThree_iff : isSecondOfThree a b = true ↔
    (128 ≤ b.toNat ∧ b.toNat ≤ 191) ∧ (a.toNat = 224 → 160 ≤ b.toNat) ∧ (a.toNat = 237 → b.toNat ≤ 159) := by
  unfold isSecondOfThree
  simp only [← UInt8.toNat_inj, UInt8.reduceToNat]
  split_ifs
  · simp only [decide_eq_true_eq, UInt8.le_iff_toNat_le, UInt8.reduceToNat]
    omega
  · simp only [decide_eq_true_eq, UInt8.le_iff_toNat_le, UInt8.reduceToNat]
    omega
  · rw [isTail_iff]
    omega

theorem isSecondOfFour_iff : isSecondOfFour a b = true ↔
    (128 ≤ b.toNat ∧ b.toNat ≤ 191) ∧ (a.toNat = 240 → 144 ≤ b.toNat) ∧ (a.toNat = 244 → b.toNat ≤ 143) := by
  unfold isSecondOfFour
  simp only [← UInt8.toNat_inj, UInt8.reduceToNat]
  split_ifs
  · simp only [decide_eq_true_eq, UInt8.le_iff_toNat_le, UInt8.reduceToNat]
    omega
  · simp only [decide_eq_true_eq, UInt8.le_iff_toNat_le, UInt8.reduceToNat]
    omega
  · rw [isTail_iff]
    omega

/-- The code point that a first byte and those after it spell. -/
inductive Spells : Nat → UInt8 → List UInt8 → Prop
  | one {a : UInt8} (ha : a.toNat < 128) : Spells a.toNat a []
  | two {a b : UInt8} (ha : 194 ≤ a.toNat ∧ a.toNat ≤ 223) (hb : isTail b = true) :
    Spells (bits a 0xC0 * 64 + bits b 0x80) a [b]
  | three {a b c : UInt8} (ha : 224 ≤ a.toNat ∧ a.toNat ≤ 239) (hb : isSecondOfThree a b = true) (hc : isTail c = true) :
    Spells ((bits a 0xE0 * 64 + bits b 0x80) * 64 + bits c 0x80) a [b, c]
  | four {a b c d : UInt8} (ha : 240 ≤ a.toNat ∧ a.toNat ≤ 244) (hb : isSecondOfFour a b = true) (hc : isTail c = true)
    (hd : isTail d = true) :
    Spells (((bits a 0xF0 * 64 + bits b 0x80) * 64 + bits c 0x80) * 64 + bits d 0x80) a [b, c, d]

variable {tail : List UInt8}

theorem Spells.head (h : Spells v a tail) (rest : List UInt8) :
    headUtf8 a (tail ++ rest) = (some (Char.ofNat v), tail.length) := by
  cases h with
  | one ha =>
    have hone : a < 0x80 := UInt8.lt_iff_toNat_lt.mpr ha
    rw [headUtf8.eq_def, if_pos hone]
    rfl
  | two ha hb =>
    have hone : ¬a < 0x80 := by
      simp only [UInt8.lt_iff_toNat_lt, UInt8.reduceToNat]
      omega
    have htwo : 0xC2 ≤ a ∧ a ≤ 0xDF := ha
    simp [headUtf8, hone, htwo, hb]
  | three ha hb hc =>
    have hone : ¬a < 0x80 := by
      simp only [UInt8.lt_iff_toNat_lt, UInt8.reduceToNat]
      omega
    have htwo : ¬(0xC2 ≤ a ∧ a ≤ 0xDF) := by
      simp only [UInt8.le_iff_toNat_le, UInt8.reduceToNat]
      omega
    have hthree : 0xE0 ≤ a ∧ a ≤ 0xEF := ha
    simp [headUtf8, hone, htwo, hthree, hb, hc]
  | four ha hb hc hd =>
    have hone : ¬a < 0x80 := by
      simp only [UInt8.lt_iff_toNat_lt, UInt8.reduceToNat]
      omega
    have htwo : ¬(0xC2 ≤ a ∧ a ≤ 0xDF) := by
      simp only [UInt8.le_iff_toNat_le, UInt8.reduceToNat]
      omega
    have hthree : ¬(0xE0 ≤ a ∧ a ≤ 0xEF) := by
      simp only [UInt8.le_iff_toNat_le, UInt8.reduceToNat]
      omega
    have hfour : 0xF0 ≤ a ∧ a ≤ 0xF4 := ha
    simp [headUtf8, hone, htwo, hthree, hfour, hb, hc, hd]

variable {as : List UInt8}

theorem exists_spells {char : Char} {count : Nat} (h : headUtf8 a as = (some char, count)) :
    ∃ v tail rest, as = tail ++ rest ∧ tail.length = count ∧ char = Char.ofNat v ∧ Spells v a tail := by
  unfold headUtf8 at h
  split_ifs at h with hone htwo hthree hfour
  · obtain ⟨hchar, rfl⟩ := Prod.mk.inj h
    exact ⟨_, [], as, rfl, rfl, (Option.some.inj hchar).symm, .one (UInt8.lt_iff_toNat_lt.mp hone)⟩
  · rcases as with _ | ⟨b, rest⟩
    · cases h
    dsimp only at h
    split_ifs at h with hb
    · obtain ⟨hchar, rfl⟩ := Prod.mk.inj h
      exact ⟨_, [b], rest, rfl, rfl, (Option.some.inj hchar).symm, .two htwo hb⟩
    · cases h
  · rcases as with _ | ⟨b, _ | ⟨c, rest⟩⟩
    · cases h
    · cases h
    dsimp only at h
    split_ifs at h with hb hc
    · cases h
    · obtain ⟨hchar, rfl⟩ := Prod.mk.inj h
      exact ⟨_, [b, c], rest, rfl, rfl, (Option.some.inj hchar).symm, .three hthree (Bool.of_not_eq_false hb) hc⟩
    · cases h
  · rcases as with _ | ⟨b, _ | ⟨c, _ | ⟨d, rest⟩⟩⟩
    · cases h
    · cases h
    · cases h
    dsimp only at h
    split_ifs at h with hb hc hd
    · cases h
    · cases h
    · obtain ⟨hchar, rfl⟩ := Prod.mk.inj h
      exact ⟨_, [b, c, d], rest, rfl, rfl, (Option.some.inj hchar).symm,
        .four hfour (Bool.of_not_eq_false hb) (Bool.of_not_eq_false hc) hd⟩
    · cases h
  · cases h

theorem utf8EncodeChar_eq (char : Char) :
    String.utf8EncodeChar char =
      if char.toNat ≤ 127 then [UInt8.ofNat char.toNat]
      else if char.toNat ≤ 2047 then
        [UInt8.ofNat (char.toNat / 64 % 32 + 192), UInt8.ofNat (char.toNat % 64 + 128)]
      else if char.toNat ≤ 65535 then
        [UInt8.ofNat (char.toNat / 4096 % 16 + 224), UInt8.ofNat (char.toNat / 64 % 64 + 128),
          UInt8.ofNat (char.toNat % 64 + 128)]
      else
        [UInt8.ofNat (char.toNat / 262144 % 8 + 240), UInt8.ofNat (char.toNat / 4096 % 64 + 128),
          UInt8.ofNat (char.toNat / 64 % 64 + 128), UInt8.ofNat (char.toNat % 64 + 128)] := rfl

theorem ofNat_eq_byte (byte : UInt8) {n : Nat} (h : n = byte.toNat) : UInt8.ofNat n = byte := by
  rw [h, UInt8.ofNat_toNat]

theorem Spells.encode (h : Spells v a tail) : String.utf8EncodeChar (Char.ofNat v) = a :: tail := by
  cases h with
  | one ha =>
    rw [utf8EncodeChar_eq, toNat_ofNat_char (.inl (by omega)), if_pos (by omega), ofNat_eq_byte a rfl]
  | two ha hb =>
    rename_i b
    rw [isTail_iff] at hb
    simp only [bits, UInt8.reduceToNat]
    rw [utf8EncodeChar_eq, toNat_ofNat_char (.inl (by omega)), if_neg (by omega), if_pos (by omega),
      ofNat_eq_byte a (by omega), ofNat_eq_byte b (by omega)]
  | three ha hb hc =>
    rename_i b c
    rw [isSecondOfThree_iff] at hb
    rw [isTail_iff] at hc
    simp only [bits, UInt8.reduceToNat]
    rw [utf8EncodeChar_eq, toNat_ofNat_char (by unfold Nat.isValidChar; omega), if_neg (by omega), if_neg (by omega),
      if_pos (by omega), ofNat_eq_byte a (by omega), ofNat_eq_byte b (by omega), ofNat_eq_byte c (by omega)]
  | four ha hb hc hd =>
    rename_i b c d
    rw [isSecondOfFour_iff] at hb
    rw [isTail_iff] at hc hd
    simp only [bits, UInt8.reduceToNat]
    rw [utf8EncodeChar_eq, toNat_ofNat_char (by unfold Nat.isValidChar; omega), if_neg (by omega), if_neg (by omega),
      if_neg (by omega), ofNat_eq_byte a (by omega), ofNat_eq_byte b (by omega), ofNat_eq_byte c (by omega),
      ofNat_eq_byte d (by omega)]

theorem spells_char (char : Char) : ∃ a tail, Spells char.toNat a tail := by
  have hvalid : char.toNat < 0xd800 ∨ (0xdfff < char.toNat ∧ char.toNat < 0x110000) := char.valid
  generalize char.toNat = v at hvalid
  have hlast := toNat_ofNat_byte (by omega : v % 64 + 128 < 256)
  have hthird := toNat_ofNat_byte (by omega : v / 64 % 64 + 128 < 256)
  have hsecond := toNat_ofNat_byte (by omega : v / 4096 % 64 + 128 < 256)
  by_cases hone : v < 128
  · have hlead := toNat_ofNat_byte (by omega : v < 256)
    have h := @Spells.one (UInt8.ofNat v) (by omega)
    rw [hlead] at h
    exact ⟨_, _, h⟩
  by_cases htwo : v < 2048
  · have hlead := toNat_ofNat_byte (by omega : v / 64 + 192 < 256)
    generalize UInt8.ofNat (v / 64 + 192) = a at hlead
    generalize UInt8.ofNat (v % 64 + 128) = b at hlast
    have hv : bits a 0xC0 * 64 + bits b 0x80 = v := by
      simp only [bits, hlead, hlast, UInt8.reduceToNat]
      omega
    exact ⟨a, [b], hv ▸ .two (by omega) (isTail_iff.mpr (by omega))⟩
  by_cases hthree : v < 65536
  · have hlead := toNat_ofNat_byte (by omega : v / 4096 + 224 < 256)
    generalize UInt8.ofNat (v / 4096 + 224) = a at hlead
    generalize UInt8.ofNat (v / 64 % 64 + 128) = b at hthird
    generalize UInt8.ofNat (v % 64 + 128) = c at hlast
    have hv : (bits a 0xE0 * 64 + bits b 0x80) * 64 + bits c 0x80 = v := by
      simp only [bits, hlead, hthird, hlast, UInt8.reduceToNat]
      omega
    exact ⟨a, [b, c], hv ▸ .three (by omega) (isSecondOfThree_iff.mpr (by omega)) (isTail_iff.mpr (by omega))⟩
  have hlead := toNat_ofNat_byte (by omega : v / 262144 + 240 < 256)
  generalize UInt8.ofNat (v / 262144 + 240) = a at hlead
  generalize UInt8.ofNat (v / 4096 % 64 + 128) = b at hsecond
  generalize UInt8.ofNat (v / 64 % 64 + 128) = c at hthird
  generalize UInt8.ofNat (v % 64 + 128) = d at hlast
  have hv : ((bits a 0xF0 * 64 + bits b 0x80) * 64 + bits c 0x80) * 64 + bits d 0x80 = v := by
    simp only [bits, hlead, hsecond, hthird, hlast, UInt8.reduceToNat]
    omega
  exact ⟨a, [b, c, d], hv ▸ .four (by omega) (isSecondOfFour_iff.mpr (by omega)) (isTail_iff.mpr (by omega))
    (isTail_iff.mpr (by omega))⟩

theorem exists_of_headUtf8 {char : Char} {count : Nat} (h : headUtf8 a as = (some char, count)) :
    ∃ tail rest, as = tail ++ rest ∧ tail.length = count ∧ String.utf8EncodeChar char = a :: tail := by
  obtain ⟨v, tail, rest, hsplit, hlength, rfl, hspells⟩ := exists_spells h
  exact ⟨tail, rest, hsplit, hlength, hspells.encode⟩

theorem scanUtf8_append (skipped rest : List UInt8) :
    scanUtf8 skipped.length (skipped ++ rest) = scanUtf8 0 rest := by
  induction skipped with
  | nil => rfl
  | cons byte skipped ih => exact ih

theorem scanUtf8_utf8EncodeChar (char : Char) (rest : List UInt8) :
    scanUtf8 0 (String.utf8EncodeChar char ++ rest) = some char :: scanUtf8 0 rest := by
  obtain ⟨a, tail, hspells⟩ := spells_char char
  have hencode := hspells.encode
  have hhead := hspells.head rest
  rw [Char.ofNat_toNat] at hencode hhead
  rw [hencode, List.cons_append, scanUtf8, hhead, scanUtf8_append]

variable {bytes : List UInt8} {text : List Char}

theorem fromUtf8_eq_some_iff : fromUtf8 bytes = some text ↔ scanUtf8 0 bytes = text.map some := by
  unfold fromUtf8
  generalize scanUtf8 0 bytes = scanned
  induction scanned generalizing text with
  | nil => cases text <;> simp
  | cons first scanned ih =>
    cases first with
    | none => cases text <;> simp
    | some char => cases text <;> simp [Option.bind_eq_some_iff, ih, and_comm]

theorem fromUtf8_toUtf8 (text : List Char) : fromUtf8 (toUtf8 text) = some text := by
  rw [fromUtf8_eq_some_iff]
  induction text with
  | nil => rfl
  | cons char text ih => rw [toUtf8_cons, scanUtf8_utf8EncodeChar, ih, List.map_cons]

theorem toUtf8_of_fromUtf8 (h : fromUtf8 bytes = some text) : toUtf8 text = bytes := by
  rw [fromUtf8_eq_some_iff] at h
  induction text generalizing bytes with
  | nil =>
    cases bytes with
    | nil => rfl
    | cons a as => cases h
  | cons char text ih =>
    cases bytes with
    | nil => cases h
    | cons a as =>
      rw [scanUtf8, List.map_cons, List.cons.injEq] at h
      obtain ⟨hfirst, hrest⟩ := h
      obtain ⟨count, hhead⟩ : ∃ count, headUtf8 a as = (some char, count) := ⟨_, Prod.ext hfirst rfl⟩
      obtain ⟨tail, rest, rfl, rfl, hencode⟩ := exists_of_headUtf8 hhead
      rw [hhead, scanUtf8_append] at hrest
      rw [toUtf8_cons, hencode, ih hrest, List.cons_append]

end Text
