import NixP2p.Durable.Persist

/-!
# The per-key sequence floor

The announcer's table of what it last published for each key, with the operations on it. Everything later is said through `Covers`: the floor has an entry for the key, of at least that sequence. An advance covers what was covered and its own sequence and nothing else, writing a snapshot to the file and loading it covers what the table covered, and the next sequence lies above all that is covered.
-/

namespace NixP2p

open HashTable

def u64Max : UInt64 := UInt64.ofNat (2 ^ 64 - 1)

abbrev SeqFloor := Table ContentKey LastPublished

namespace SeqFloor

def fromDisk : Option (List Char) → SeqFloor
  | none => ∅
  | some text => ofEntries (deserializeSeqs text)

def nextSequence (floor : SeqFloor) (key : ContentKey) : UInt64 :=
  match floor.lookup key with
  | some last => last.sequence + 1
  | none => 1

def contains (floor : SeqFloor) (key : ContentKey) : Bool := (floor.lookup key).isSome

def lastPublished (floor : SeqFloor) (key : ContentKey) : Option LastPublished := floor.lookup key

def advance (floor : SeqFloor) (key : ContentKey) (sequence expiry : UInt64) : SeqFloor :=
  if ((floor.lookup key).getD ⟨sequence, expiry⟩).sequence ≤ sequence then
    floor.insert key ⟨sequence, expiry⟩
  else floor

def snapshot (order : IterOrder (ContentKey × LastPublished)) (floor : SeqFloor) :
    List (ContentKey × LastPublished) :=
  order.arrange (toEntries floor)

def Covers (floor : SeqFloor) (key : ContentKey) (sequence : UInt64) : Prop :=
  ∃ last, floor.lookup key = some last ∧ sequence ≤ last.sequence

def Below (lower upper : SeqFloor) : Prop :=
  ∀ key sequence, lower.Covers key sequence → upper.Covers key sequence

theorem Below.refl (floor : SeqFloor) : floor.Below floor := fun _ _ h => h

theorem Below.trans {first second third : SeqFloor} (h : first.Below second) (h' : second.Below third) :
    first.Below third :=
  fun key sequence hcovers => h' key sequence (h key sequence hcovers)

variable {floor : SeqFloor} {key : ContentKey} {sequence : UInt64}

theorem covers_advance {other : ContentKey} {expiry bound : UInt64} :
    (floor.advance key sequence expiry).Covers other bound ↔
      floor.Covers other bound ∨ other = key ∧ bound ≤ sequence := by
  unfold advance Covers
  by_cases hkey : other = key
  · subst hkey
    cases hlookup : floor.lookup other with
    | none => simp
    | some last =>
      by_cases hle : last.sequence ≤ sequence
      · simp only [Option.getD_some, if_pos hle, lookup_insert, Option.some.injEq, exists_eq_left',
          if_true, true_and]
        exact ⟨.inr, fun h => h.elim (fun hlast => UInt64.le_trans hlast hle) id⟩
      simp only [Option.getD_some, if_neg hle, hlookup, Option.some.injEq, exists_eq_left', true_and]
      have hlt : sequence ≤ last.sequence := UInt64.le_of_lt (UInt64.not_le.mp hle)
      exact ⟨.inl, fun h => h.elim id fun hbound => UInt64.le_trans hbound hlt⟩
  · split
    · simp [hkey]
    · simp [hkey]

theorem below_advance (floor : SeqFloor) (key : ContentKey) (sequence expiry : UInt64) :
    floor.Below (floor.advance key sequence expiry) :=
  fun _ _ hcovers => covers_advance.mpr (.inl hcovers)

theorem covers_snapshot {order : IterOrder (ContentKey × LastPublished)} :
    Covers (ofEntries (floor.snapshot order)) key sequence ↔ floor.Covers key sequence := by
  unfold Covers snapshot
  rw [lookup_ofEntries_arrange]

theorem fromDisk_serializeSeqs (seqs : List (ContentKey × LastPublished)) :
    fromDisk (some (serializeSeqs seqs)) = ofEntries seqs := by
  rw [fromDisk, deserializeSeqs_serializeSeqs]

theorem lt_nextSequence (hcovers : floor.Covers key sequence) (hroom : ¬ floor.Covers key u64Max) :
    sequence < floor.nextSequence key := by
  obtain ⟨last, hlookup, hle⟩ := hcovers
  have hlast : ¬ u64Max ≤ last.sequence := fun h => hroom ⟨last, hlookup, h⟩
  rw [nextSequence, hlookup]
  rw [UInt64.le_iff_toNat_le] at hle hlast
  have hmax : u64Max.toNat = 2 ^ 64 - 1 := by decide
  have hadd : (last.sequence + 1).toNat = last.sequence.toNat + 1 := by
    rw [UInt64.toNat_add, UInt64.toNat_one, Nat.mod_eq_of_lt]
    omega
  rw [UInt64.lt_iff_toNat_lt, hadd]
  omega

theorem nextSequence_of_covers_max (hcovers : floor.Covers key u64Max) : floor.nextSequence key = 0 := by
  obtain ⟨last, hlookup, hle⟩ := hcovers
  have hlast : last.sequence = u64Max := by
    apply UInt64.toNat_inj.mp
    have hmax : u64Max.toNat = 2 ^ 64 - 1 := by decide
    have hlt := last.sequence.toNat_lt
    rw [UInt64.le_iff_toNat_le] at hle
    omega
  rw [nextSequence, hlookup]
  change last.sequence + 1 = 0
  rw [hlast]
  rfl

end SeqFloor

end NixP2p
