import NixP2p.Base.Bytes
import NixP2p.Base.Fallible

/-!
# Byte readers and the writers they invert

A reader consumes a prefix of its input and fails with the caller's own error when the input runs out. The one law a wire format needs is `Inverts`: a reader returns a value exactly on the inputs that begin with what the writer emits for it. Both halves of a round trip follow from it, and it is closed under reading a fixed number of items.
-/

namespace Wire

variable {ε δ α β : Type}

abbrev Reader (ε α : Type) := StateT (List UInt8) (Except ε) α

def lift (f : δ → ε) (x : Except δ α) : Reader ε α := fun input =>
  match x with
  | .error e => .error (f e)
  | .ok a => .ok (a, input)

variable {x : Reader ε α} {f : α → Reader ε β} {input rest : List UInt8}

theorem bind_ok_iff {b : β} :
    (x >>= f) input = .ok (b, rest) ↔
      ∃ a middle, x input = .ok (a, middle) ∧ f a middle = .ok (b, rest) := by
  have hrun : (x >>= f) input = (x input >>= fun p => f p.1 p.2) := rfl
  rw [hrun, Fallible.bind_eq_ok_iff, Prod.exists]

variable {a : α}

theorem bind_of_ok {middle : List UInt8} (hx : x input = .ok (a, middle)) : (x >>= f) input = f a middle := by
  change (x input >>= fun p => f p.1 p.2) = _
  rw [hx]
  rfl

theorem bind_of_error {fault : ε} (hx : x input = .error fault) : (x >>= f) input = .error fault := by
  change (x input >>= fun p => f p.1 p.2) = _
  rw [hx]
  rfl

theorem pure_ok_iff {b : α} : (pure a : Reader ε α) input = .ok (b, rest) ↔ a = b ∧ input = rest := by
  change Except.ok (a, input) = Except.ok (b, rest) ↔ _
  rw [Except.ok.injEq, Prod.mk.injEq]

theorem branch_ok_iff {c : Prop} [Decidable c] {y : Reader ε α} :
    (if c then x else y) input = .ok (a, rest) ↔
      (c ∧ x input = .ok (a, rest)) ∨ (¬c ∧ y input = .ok (a, rest)) := by
  by_cases hc : c <;> simp [hc]

theorem throw_ok_iff {e : ε} : (throw e : Reader ε α) input = .ok (a, rest) ↔ False := by
  refine ⟨fun h => ?_, False.elim⟩
  cases h

theorem lift_ok_iff {f : δ → ε} {x : Except δ α} : lift f x input = .ok (a, rest) ↔ x = .ok a ∧ input = rest := by
  cases x <;> simp [lift]

section Primitives

variable (short : Nat → Nat → ε)

/-- The next `n` bytes; a shorter input fails with what was needed and what was left. -/
def take (n : Nat) : Reader ε (Bytes n) := fun input =>
  if h : n ≤ input.length then
    .ok (⟨input.take n, by simp [h]⟩, input.drop n)
  else .error (short n input.length)

def u8 : Reader ε UInt8 := do
  let bytes ← take short 1
  return bytes.1.headD 0

def u16 : Reader ε UInt16 := do
  let bytes ← take short 2
  return UInt16.ofNat (ofBe bytes.1)

def u64 : Reader ε UInt64 := do
  let bytes ← take short 8
  return UInt64.ofNat (ofBe bytes.1)

end Primitives

def times (read : Reader ε α) : Nat → Reader ε (List α)
  | 0 => pure []
  | n + 1 => do
    let item ← read
    let items ← times read n
    return item :: items

def u16Be (x : UInt16) : List UInt8 := beBytes 2 x.toNat

def u64Be (x : UInt64) : List UInt8 := beBytes 8 x.toNat

@[simp] theorem length_u16Be (x : UInt16) : (u16Be x).length = 2 := by simp [u16Be]

@[simp] theorem length_u64Be (x : UInt64) : (u64Be x).length = 8 := by simp [u64Be]

/-- The reader returns a value exactly on the inputs that start with its written form. -/
def Inverts (read : Reader ε α) (write : α → List UInt8) (valid : α → Prop) : Prop :=
  ∀ input a rest, read input = .ok (a, rest) ↔ valid a ∧ input = write a ++ rest

variable {write : α → List UInt8} {read : Reader ε α} {valid : α → Prop}

theorem Inverts.read_write (hread : Inverts read write valid) (ha : valid a) (rest : List UInt8) :
    read (write a ++ rest) = .ok (a, rest) :=
  (hread _ _ _).mpr ⟨ha, rfl⟩

theorem Inverts.append_inj (hread : Inverts read write valid) {b : α} (ha : valid a) (hb : valid b)
    {rest' : List UInt8} (h : write a ++ rest = write b ++ rest') : a = b ∧ rest = rest' := by
  have hfirst := hread.read_write ha rest
  rw [h, hread.read_write hb rest', Except.ok.injEq, Prod.mk.injEq] at hfirst
  exact ⟨hfirst.1.symm, hfirst.2.symm⟩

section

variable (short : Nat → Nat → ε)

include short

theorem take_inverts (n : Nat) : Inverts (take short n) Subtype.val fun _ => True := by
  intro input a rest
  obtain ⟨bytes, hbytes⟩ := a
  simp only [take, true_and]
  split
  · rename_i hlength
    simp only [Except.ok.injEq, Prod.mk.injEq, Subtype.mk.injEq]
    constructor
    · rintro ⟨rfl, rfl⟩
      exact (List.take_append_drop n input).symm
    · rintro rfl
      exact ⟨List.take_left' hbytes, List.drop_left' hbytes⟩
  rename_i hlength
  simp only [reduceCtorEq, false_iff]
  rintro rfl
  simp only [List.length_append] at hlength
  omega

theorem take_of_lt {n : Nat} (hshort : input.length < n) :
    take short n input = .error (short n input.length) :=
  dif_neg (by omega)

private theorem convert_inverts {n : Nat} {toBytes : α → List UInt8} {ofBytes : Bytes n → α}
    (hlength : ∀ a, (toBytes a).length = n) (hto : ∀ a, ofBytes ⟨toBytes a, hlength a⟩ = a)
    (hof : ∀ bytes, toBytes (ofBytes bytes) = bytes.1) :
    Inverts (do let bytes ← take short n; return ofBytes bytes) toBytes fun _ => True := by
  intro input a rest
  simp only [bind_ok_iff, pure_ok_iff, take_inverts short n _ _ _, true_and]
  constructor
  · rintro ⟨bytes, _, rfl, rfl, rfl⟩
    rw [hof]
  · rintro rfl
    exact ⟨⟨toBytes a, hlength a⟩, rest, rfl, hto a, rfl⟩

theorem u8_inverts : Inverts (u8 short) (fun byte => [byte]) fun _ => True := by
  refine convert_inverts short (fun _ => rfl) (fun _ => rfl) ?_
  rintro ⟨bytes, hbytes⟩
  obtain ⟨byte, rfl⟩ := List.length_eq_one_iff.mp hbytes
  rfl

theorem u16_inverts : Inverts (u16 short) u16Be fun _ => True := by
  refine convert_inverts short (fun x => length_u16Be x) ?_ ?_
  · intro x
    have hread : ofBe (u16Be x) = x.toNat := ofBe_beBytes (by simpa using x.toNat_lt)
    rw [hread]
    exact UInt16.ofNat_toNat
  · rintro ⟨bytes, hbytes⟩
    have hlt := ofBe_lt bytes
    rw [hbytes] at hlt
    rw [u16Be, UInt16.toNat_ofNat_of_lt' (by simpa using hlt), beBytes_ofBe hbytes]

theorem u64_inverts : Inverts (u64 short) u64Be fun _ => True := by
  refine convert_inverts short (fun x => length_u64Be x) ?_ ?_
  · intro x
    have hread : ofBe (u64Be x) = x.toNat := ofBe_beBytes (by simpa using x.toNat_lt)
    rw [hread]
    exact UInt64.ofNat_toNat
  · rintro ⟨bytes, hbytes⟩
    have hlt := ofBe_lt bytes
    rw [hbytes] at hlt
    rw [u64Be, UInt64.toNat_ofNat_of_lt' (by simpa using hlt), beBytes_ofBe hbytes]

end

theorem times_inverts (hread : Inverts read write valid) (n : Nat) :
    Inverts (times read n) (fun items => items.flatMap write)
      fun items => items.length = n ∧ ∀ item ∈ items, valid item := by
  induction n with
  | zero =>
    intro input items rest
    simp only [times, pure_ok_iff, List.length_eq_zero_iff]
    constructor
    · rintro ⟨rfl, rfl⟩
      simp
    · rintro ⟨⟨rfl, -⟩, rfl⟩
      simp
  | succ n ih =>
    intro input items rest
    simp only [times, bind_ok_iff, pure_ok_iff, hread _ _ _, ih _ _ _]
    constructor
    · rintro ⟨item, _, ⟨hitem, rfl⟩, tail, _, ⟨⟨hlength, htail⟩, rfl⟩, rfl, rfl⟩
      refine ⟨⟨by simp [hlength], ?_⟩, by simp⟩
      exact List.forall_mem_cons.mpr ⟨hitem, htail⟩
    · rintro ⟨⟨hlength, hvalid⟩, rfl⟩
      cases items with
      | nil => simp at hlength
      | cons item tail =>
        simp only [List.length_cons, Nat.add_right_cancel_iff] at hlength
        simp only [List.forall_mem_cons] at hvalid
        exact ⟨item, _, ⟨hvalid.1, by simp⟩, tail, rest, ⟨⟨hlength, hvalid.2⟩, rfl⟩, rfl, rfl⟩

end Wire
