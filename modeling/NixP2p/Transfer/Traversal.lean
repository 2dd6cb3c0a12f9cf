import NixP2p.Transfer.Integrity

/-!
# The order of the traversal

The stack of the decoder holds the hash of the subtree that comes next and, under it, those of the right siblings that the path from the root has left for later. The leaves come in the order of their bytes, so the encoder can be given a reader that only goes forward.
-/

namespace NixP2p

open Wire Merkle Fallible

section Stack

variable [Blake3]

/-- A subtree that a path from the root leads to, with its hash, and the right siblings that the path has left for later, the last one first. -/
inductive RootPath (tree : HashTree BaoLeaf) (root : Hash) :
    Pending BaoLeaf → Hash → List (Pending BaoLeaf × Hash) → Prop where
  | root : RootPath tree root ⟨tree, 0, true⟩ root []
  | left {left right index isRoot leftHash rightHash siblings}
    (h : RootPath tree root ⟨.node left right, index, isRoot⟩ (parentHash leftHash rightHash isRoot) siblings) :
    RootPath tree root ⟨left, index + 1, false⟩ leftHash
      ((⟨right, index + 1 + left.nodeCount, false⟩, rightHash) :: siblings)
  | right {left right index isRoot leftHash rightHash siblings}
    (h : RootPath tree root ⟨.node left right, index, isRoot⟩ (parentHash leftHash rightHash isRoot) siblings) :
    RootPath tree root ⟨right, index + 1 + left.nodeCount, false⟩ rightHash siblings

/-- The stack in front of the items that are left: the hash of the subtree that comes next, and those of the siblings. -/
inductive OnPath (tree : HashTree BaoLeaf) (root : Hash) : List BaoChunk → List Hash → Prop where
  | nil : OnPath tree root [] []
  | before {next hash siblings} (h : RootPath tree root next hash siblings) :
    OnPath tree root (pendingItems (next :: siblings.map Prod.fst)) (hash :: siblings.map Prod.snd)

variable {tree : HashTree BaoLeaf} {root : Hash}

section Path

variable {hash : Hash} {next : Pending BaoLeaf} {siblings : List (Pending BaoLeaf × Hash)}

theorem RootPath.sibling {sibling : Pending BaoLeaf × Hash}
    (h : RootPath tree root next hash (sibling :: siblings)) : RootPath tree root sibling.1 sibling.2 siblings := by
  generalize hall : sibling :: siblings = all at h
  induction h with
  | root => cases hall
  | left h =>
    cases hall
    exact .right h
  | right h ih => exact ih hall

theorem RootPath.length_le (h : RootPath tree root next hash siblings) :
    siblings.length + next.tree.depth ≤ tree.depth := by
  induction h with
  | root => exact (Nat.zero_add _).le
  | left h ih =>
    simp only [HashTree.depth, List.length_cons] at ih ⊢
    omega
  | right h ih =>
    simp only [HashTree.depth] at ih ⊢
    omega

end Path

variable [Zstd] [BaoDebug] {onLeaf : OnLeaf} {rawSize : Nat} {codec : WireCodec} {decoder after : Decoder}

theorem OnPath.decodeItem {item : BaoChunk} {items : List BaoChunk}
    (h : OnPath tree root (item :: items) decoder.expected)
    (hitem : decodeItem onLeaf rawSize codec decoder item = .ok after) : OnPath tree root items after.expected := by
  generalize hitems : item :: items = all, hstack : decoder.expected = stack at h
  cases h with
  | nil => cases hitems
  | @before next hash siblings h =>
    obtain ⟨subtree, index, isRoot⟩ := next
    cases subtree with
    | leaf leaf =>
      change item :: items = .leaf leaf.startChunk leaf.size isRoot :: pendingItems (siblings.map Prod.fst) at hitems
      obtain ⟨rfl, rfl⟩ := List.cons.inj hitems
      simp only [NixP2p.decodeItem, bind_eq_ok_iff, mapError_eq_ok_iff, pure_eq_ok_iff] at hitem
      obtain ⟨⟨raw, verified⟩, hverify, delivery, -, rfl⟩ := hitem
      obtain ⟨source, rest, -, htop, rfl⟩ := verifyLeaf_ok hverify
      obtain ⟨-, rfl⟩ := List.cons.inj (htop.symm.trans hstack)
      cases siblings with
      | nil => exact .nil
      | cons sibling siblings => exact .before h.sibling
    | node left right =>
      have hnode : pendingItems (⟨.node left right, index, isRoot⟩ :: siblings.map Prod.fst) =
          .parent index isRoot true true :: pendingItems (⟨left, index + 1, false⟩ ::
            ⟨right, index + 1 + left.nodeCount, false⟩ :: siblings.map Prod.fst) := by
        simp [pendingItems, HashTree.walk, BaoChunk.ofVisit]
      obtain ⟨rfl, rfl⟩ := List.cons.inj (hitems.trans hnode)
      rw [NixP2p.decodeItem, mapError_eq_ok_iff] at hitem
      obtain ⟨pair, source, rest, -, htop, rfl⟩ := decodeParent_ok hitem
      obtain ⟨rfl, rfl⟩ := List.cons.inj (htop.symm.trans hstack)
      exact .before h.left

theorem OnPath.foldlM {done rest : List BaoChunk} (h : OnPath tree root (done ++ rest) decoder.expected)
    (hrun : done.foldlM (NixP2p.decodeItem onLeaf rawSize codec) decoder = .ok after) :
    OnPath tree root rest after.expected := by
  induction done generalizing decoder with
  | nil =>
    cases hrun
    exact h
  | cons item done ih =>
    rw [List.foldlM_cons, bind_eq_ok_iff] at hrun
    obtain ⟨next, hitem, hrun⟩ := hrun
    exact ih (h.decodeItem hitem) hrun

end Stack

/-- The leaves of the tree are the bytes from `start` to `stop`, without a gap and in their order. -/
def Spans : HashTree BaoLeaf → Nat → Nat → Prop
  | .leaf leaf, start, stop => leaf.startByte = start ∧ stop = start + leaf.size
  | .node left right, start, stop => ∃ middle, Spans left start middle ∧ Spans right middle stop

theorem spans_leftComplete {size height first count : Nat} (hpos : 0 < count) (hfits : count ≤ 2 ^ height)
    (hlast : first + count ≤ leafCount size) :
    Spans (HashTree.leftComplete (baoLeaf size) height first count) (first * baoBlockSize)
      (min ((first + count) * baoBlockSize) size) := by
  induction height generalizing first count with
  | zero =>
    obtain rfl : count = 1 := by
      rw [Nat.pow_zero] at hfits
      omega
    simp only [HashTree.leftComplete, Spans, BaoLeaf.startByte, baoLeaf, leafCount, baoBlockSize] at hlast ⊢
    omega
  | succ height ih =>
    rw [Nat.pow_succ] at hfits
    rw [HashTree.leftComplete]
    by_cases hsplit : 2 ^ height < count
    · have hleft := @ih first (2 ^ height) (Nat.two_pow_pos height) (Nat.le_refl _) (by omega)
      have hright := @ih (first + 2 ^ height) (count - 2 ^ height) (by omega) (by omega) (by omega)
      have hwhole : min ((first + 2 ^ height) * baoBlockSize) size = (first + 2 ^ height) * baoBlockSize := by
        simp only [leafCount, baoBlockSize] at hlast ⊢
        omega
      rw [hwhole] at hleft
      rw [show first + 2 ^ height + (count - 2 ^ height) = first + count by omega] at hright
      rw [if_pos hsplit]
      exact ⟨_, hleft, hright⟩
    · rw [if_neg hsplit]
      exact ih hpos (by omega) hlast

theorem spans_baoTree (size : Nat) : Spans (baoTree size) 0 size := by
  have hspans : Spans (baoTree size) (0 * baoBlockSize) (min ((0 + leafCount size) * baoBlockSize) size) :=
    spans_leftComplete (leafCount_pos size) (Nat.le_of_lt Nat.lt_log2_self) (Nat.zero_add (leafCount size)).le
  have hcovers : min ((0 + leafCount size) * baoBlockSize) size = size := by
    simp only [leafCount, baoBlockSize]
    omega
  rwa [hcovers, Nat.zero_mul] at hspans

/-- Wherever the walk of a decode is, the stack is that of the path to what comes next, no higher than the tree and empty exactly when the walk is over; and the leaves are the bytes of the content in their order. -/
theorem traversal_discipline [Blake3] [Zstd] [BaoDebug] (source : Source) (root : Hash) (rawSize : Nat)
    (codec : WireCodec) (onLeaf : OnLeaf) :
    (∀ done rest decoder, responseIter rawSize = done ++ rest →
      done.foldlM (decodeItem onLeaf rawSize codec) ⟨source, [root], ⟨0, none, []⟩⟩ = .ok decoder →
      OnPath (baoTree rawSize) root rest decoder.expected ∧
      decoder.expected.length ≤ (baoTree rawSize).depth + 1 ∧ (decoder.expected = [] ↔ rest = [])) ∧
    Spans (baoTree rawSize) 0 rawSize := by
  refine ⟨fun done rest decoder hsplit hrun => ?_, spans_baoTree rawSize⟩
  have hroot : responseIter rawSize = pendingItems [⟨baoTree rawSize, 0, true⟩] := by
    rw [pendingItems, List.flatMap_singleton]
    rfl
  have hstart : OnPath (baoTree rawSize) root (done ++ rest) [root] := by
    rw [← hsplit, hroot]
    exact .before .root
  have hpath := hstart.foldlM hrun
  refine ⟨hpath, ?_⟩
  generalize decoder.expected = stack at hpath
  cases hpath with
  | nil => exact ⟨Nat.zero_le _, iff_of_true rfl rfl⟩
  | @before next hash siblings h =>
    have hheight := h.length_le
    refine ⟨by rw [List.length_cons, List.length_map]; omega, iff_of_false (List.cons_ne_nil _ _) ?_⟩
    obtain ⟨subtree, index, isRoot⟩ := next
    cases subtree with
    | leaf leaf => exact List.cons_ne_nil _ _
    | node left right => exact List.cons_ne_nil _ _

/-- A reader that only goes forward, in the place of one that is read at any offset. -/
structure MonotonicReadAt where
  reader : Source
  position : Nat

instance : ReadAt MonotonicReadAt where
  readExactAt position size data :=
    let expected := data.position
    -- an empty buffer is full before the first read
    if size ≠ 0 ∧ position ≠ expected then
      .error ⟨.invalidInput,
        s!"full-range Bao replay requested non-monotonic offset {position}, expected {expected}"⟩
    else do
      let (bytes, reader) ← data.reader.readExact size
      let next ← checkedAddBytes expected size "monotonic Bao replay offset"
      return (bytes, ⟨reader, next⟩)

variable [Blake3] [Zstd] [BaoDebug] {O W : Type} [Outboard O] [OwnedWireSink W]

/-- `encodeValidated` over a reader, which has to end where the geometry does. -/
def encodeValidatedReader (reader : Source) (outboard : O) (writer : W) (codec : WireCodec) (level : Int) :
    Except IoError (W × Nat × Nat) := do
  let rawSize := Outboard.size outboard
  let encoder ← (responseIter rawSize).foldlM (encodeItem outboard codec level)
    ⟨(⟨reader, 0⟩ : MonotonicReadAt), writer, [Outboard.root outboard], 0, 0⟩
  if !encoder.expected.isEmpty then
    throw (.invalidData "Bao traversal ended with unconsumed authentication hashes")
  else
    let writer ← OwnedWireSink.flush encoder.writer
    let consumed := encoder.data.position
    if consumed ≠ rawSize then
      throw ⟨.unexpectedEof, s!"Bao replay consumed {consumed} B, expected {rawSize} B"⟩
    else
      let (extra, _) ← encoder.data.reader.readByte
      if extra.isSome then throw (.invalidData s!"Bao replay produced more than declared raw_size {rawSize}")
      else return (writer, encoder.rawBytes, encoder.wireBytes)

/-- The two encoders side by side, `count` bytes on: that far the reader has come. -/
structure Replays (source : Source) (count : Nat) (replay : Encoder MonotonicReadAt W)
    (plain : Encoder (List UInt8) W) : Prop where
  data : replay.data = ⟨⟨source.bytes.drop count, source.ending⟩, count⟩
  counted : replay.rawBytes = count
  reached : count ≤ source.bytes.length
  plain : plain = ⟨source.bytes, replay.writer, replay.expected, count, replay.wireBytes⟩

variable {source : Source} {replay : Encoder MonotonicReadAt W} {plain : Encoder (List UInt8) W} {count : Nat}

omit [Blake3] [Zstd] [BaoDebug] in
theorem Replays.write (h : Replays source count replay plain) (bytes : List UInt8) (context : String) :
    Both (Replays source count) (replay.write bytes context) (plain.write bytes context) := by
  obtain ⟨hdata, hcount, hreached, rfl⟩ := h
  refine (both_eq _).bind ?_
  rintro wireBytes _ rfl
  refine (both_eq _).bind ?_
  rintro writer _ rfl
  exact ⟨hdata, hcount, hreached, rfl⟩

variable {outboard : O} {codec : WireCodec} {level : Int}

theorem Replays.parent (h : Replays source count replay plain) (node : Nat) (isRoot : Bool) :
    Both (Replays source count) (encodeItem outboard codec level replay (.parent node isRoot true true))
      (encodeItem outboard codec level plain (.parent node isRoot true true)) := by
  obtain ⟨hdata, hcount, hreached, rfl⟩ := h
  simp only [encodeItem, encodeParent]
  refine (both_eq _).bind ?_
  rintro loaded _ rfl
  cases loaded with
  | none => trivial
  | some pair =>
    cases hexpected : replay.expected with
    | nil => trivial
    | cons wanted expected =>
      dsimp only
      split
      · trivial
      · refine Replays.write ?_ _ _
        exact ⟨hdata, hcount, hreached, rfl⟩

theorem Replays.leaf (h : Replays source count replay plain) (leaf : BaoLeaf) (isRoot : Bool)
    (hstart : leaf.startByte = count) :
    Both (Replays source (count + leaf.size))
      (encodeItem outboard codec level replay (.leaf leaf.startChunk leaf.size isRoot))
      (encodeItem outboard codec level plain (.leaf leaf.startChunk leaf.size isRoot)) := by
  obtain ⟨hdata, hcount, hreached, rfl⟩ := h
  have hposition : ¬(leaf.size ≠ 0 ∧ leaf.startByte ≠ replay.data.position) := by
    rw [hdata, hstart]
    exact fun h => h.2 rfl
  have hreplay : ReadAt.readExactAt leaf.startByte leaf.size replay.data =
      (Source.readExact leaf.size ⟨source.bytes.drop count, source.ending⟩ >>= fun read => do
        let next ← checkedAddBytes count leaf.size "monotonic Bao replay offset"
        return (read.1, (⟨read.2, next⟩ : MonotonicReadAt))) := by
    refine (if_neg hposition).trans ?_
    rw [hdata]
  have hplain : ReadAt.readExactAt leaf.startByte leaf.size source.bytes =
      (Source.readExact leaf.size ⟨source.bytes.drop count, none⟩ >>= fun read => pure (read.1, source.bytes)) := by
    rw [← hstart]
    rfl
  rw [BaoLeaf.startByte] at hreplay hplain
  simp only [encodeItem, encodeLeaf, hreplay, hplain]
  by_cases hlong : leaf.size ≤ (source.bytes.drop count).length
  · have hlength : ((source.bytes.drop count).take leaf.size).length = leaf.size := List.length_take_of_le hlong
    have hnext : count + leaf.size ≤ source.bytes.length := by
      rw [List.length_drop] at hlong
      omega
    simp only [Source.readExact, dif_pos hlong, ok_bind, List.drop_drop, hcount, pure_bind, bind_assoc, hlength]
    by_cases hfits : count + leaf.size < 2 ^ 64
    · simp only [checkedAddBytes_of_lt _ hfits, ok_bind]
      cases replay.expected with
      | nil => trivial
      | cons wanted expected =>
        dsimp only
        split
        · trivial
        cases codec with
        | raw =>
          refine Replays.write ?_ _ _
          exact ⟨rfl, rfl, hnext, rfl⟩
        | zstd =>
          refine (both_eq _).bind ?_
          rintro framed _ rfl
          refine Replays.write ?_ _ _
          exact ⟨rfl, rfl, hnext, rfl⟩
    · -- the two counts overflow together
      simp only [checkedAddBytes, if_neg hfits]
      cases replay.expected with
      | nil => trivial
      | cons wanted expected =>
        dsimp only
        split <;> trivial
  · simp only [Source.readExact, dif_neg hlong]
    trivial

theorem Replays.walk {tree : HashTree BaoLeaf} {start stop : Nat} (hspans : Spans tree start stop)
    (h : Replays source start replay plain) (index : Nat) (isRoot : Bool) :
    Both (Replays source stop) (((tree.walk index isRoot).map .ofVisit).foldlM (encodeItem outboard codec level) replay)
      (((tree.walk index isRoot).map .ofVisit).foldlM (encodeItem outboard codec level) plain) := by
  induction tree generalizing start stop replay plain index isRoot with
  | leaf leaf =>
    obtain ⟨hbyte, rfl⟩ := hspans
    exact (h.leaf leaf isRoot hbyte).bind fun _ _ h => h
  | node left right ihl ihr =>
    obtain ⟨middle, hleft, hright⟩ := hspans
    rw [HashTree.walk, List.map_cons, List.map_append]
    refine (h.parent index isRoot).bind fun _ _ h => ?_
    rw [List.foldlM_append, List.foldlM_append]
    exact (ihl hleft h _ _).bind fun _ _ h => ihr hright h _ _

/-- A forward-only reader is encoded exactly where its bytes are those of the geometry and would be encoded at random access, with the same result: the walk asks for no byte out of order. -/
theorem encodeValidatedReader_eq_ok_iff (source : Source) (outboard : O) (writer : W) (codec : WireCodec) (level : Int)
    (result : W × Nat × Nat) :
    encodeValidatedReader source outboard writer codec level = .ok result ↔
      source.bytes.length = Outboard.size outboard ∧ source.ending = none ∧
        encodeValidated source.bytes outboard writer codec level = .ok result := by
  have hstart : Replays source 0 ⟨⟨source, 0⟩, writer, [Outboard.root outboard], 0, 0⟩ _ :=
    ⟨rfl, rfl, Nat.zero_le _, rfl⟩
  rw [← and_assoc]
  refine (hstart.walk (spans_baoTree (Outboard.size outboard)) 0 true).bind_eq_ok_iff fun fresh read h => ?_
  obtain ⟨hdata, hcount, hreached, rfl⟩ := h
  -- what is left of the reader is asked for one more byte
  have hend : (∃ extra, Source.readByte ⟨source.bytes.drop (Outboard.size outboard), source.ending⟩ = .ok extra ∧
      ¬extra.1.isSome = true) ↔ source.bytes.length = Outboard.size outboard ∧ source.ending = none := by
    cases hrest : source.bytes.drop (Outboard.size outboard) with
    | nil =>
      have hlength := List.drop_eq_nil_iff.mp hrest
      cases source.ending with
      | none => simp [Source.readByte, Nat.le_antisymm hlength hreached]
      | some error => simp [Source.readByte]
    | cons byte rest =>
      have hlength : source.bytes.length ≠ Outboard.size outboard := fun heq => by simp [← heq] at hrest
      simp [Source.readByte, hlength]
  simp only [hdata, hcount, ne_eq, not_true_eq_false, if_false, throw, throwThe, MonadExceptOf.throw,
    guard_eq_ok_iff, Fallible.bind_eq_ok_iff, pure_eq_ok_iff, ← hend]
  constructor
  · rintro ⟨hempty, writer, hflush, extra, hread, hclean, hresult⟩
    exact ⟨⟨extra, hread, hclean⟩, hempty, writer, hflush, hresult⟩
  · rintro ⟨⟨extra, hread, hclean⟩, hempty, writer, hflush, hresult⟩
    exact ⟨hempty, writer, hflush, extra, hread, hclean, hresult⟩

end NixP2p
