import NixP2p.Transfer.NarV4

/-!
# What the encoder sends, the decoder accepts

A subtree whose hash is on top of the encoder's stack is written as its own body, and that body with the same hash on top of the decoder's stack is read back and delivered leaf by leaf. The two facts are proved subtree by subtree over any framing of leaves that reads back.
-/

namespace NixP2p

open Wire Merkle

section Framing

variable [Zstd]

def framedLeaf (codec : WireCodec) (level : Int) (leaf : List UInt8) : Except IoError (List UInt8) :=
  match codec with
  | .raw => .ok leaf
  | .zstd => encodedLeaf level leaf

def leafWire (codec : WireCodec) (level : Int) (leaf : List UInt8) : List UInt8 :=
  match framedLeaf codec level leaf with
  | .ok wire => wire
  | .error _ => []

/-- A framing that is made of every leaf, reads back, and is within the fixed bound. -/
structure LeafCodec (codec : WireCodec) (level : Int) (leaf : List UInt8) : Prop where
  framed : framedLeaf codec level leaf = .ok (leafWire codec level leaf)
  read_back : ∀ rest ending,
    readLeaf ⟨leafWire codec level leaf ++ rest, ending⟩ leaf.length codec = .ok (leaf, ⟨rest, ending⟩)
  bounded : (leafWire codec level leaf).length ≤ maxEncodedLeafBytes + 4

/-- What is asked of zstd for one leaf: a standard frame within its bound that decodes to the leaf under the leaf's window. -/
structure Zstd.LeafFrame (level : Int) (leaf frame : List UInt8) : Prop where
  compress : Zstd.compress level leaf = .ok frame
  magic : frame.take 4 = [0x28, 0xB5, 0x2F, 0xFD]
  bounded : frame.length ≤ zstdCompressBound leaf.length
  decodes : ∃ decoder, Zstd.newDecoder (leafWindowLogMax leaf.length) = .ok decoder ∧
    Zstd.Decodes decoder frame leaf

variable {leaf : List UInt8}

theorem leafCodec_raw (level : Int) (hleaf : leaf.length ≤ baoBlockSize) : LeafCodec .raw level leaf where
  framed := rfl
  read_back rest ending := by
    simp only [leafWire, framedLeaf, readLeaf, Source.readExact_append ⟨leaf, rfl⟩]
    rfl
  bounded := by
    have hwire : leafWire .raw level leaf = leaf := rfl
    rw [hwire, maxEncodedLeafBytes]
    rw [baoBlockSize] at hleaf
    omega

variable {level : Int} {frame : List UInt8}

theorem decodeFrame_leafFrame (hframe : Zstd.LeafFrame level leaf frame) :
    decodeFrame leaf.length frame = .ok leaf := by
  obtain ⟨decoder, hnew, hdecodes⟩ := hframe.decodes
  obtain ⟨after, hpush, hfinish⟩ :=
    BoundedZstdDecoder.finish_push_frame hdecodes hframe.bounded le_rfl
  simp only [decodeFrame, BoundedZstdDecoder.withWindowLogMax, hnew, Fallible.mapError_ok,
    Fallible.ok_bind, hpush, hfinish]
  cases leaf <;> simp

theorem leafCodec_zstd (hleaf : leaf.length ≤ baoBlockSize) (hframe : Zstd.LeafFrame level leaf frame) :
    LeafCodec .zstd level leaf := by
  have hbound : frame.length ≤ maxEncodedLeafBytes := by
    have := hframe.bounded
    simp only [zstdCompressBound, saturatingAdd] at this
    rw [baoBlockSize] at hleaf
    rw [maxEncodedLeafBytes]
    omega
  have hframed : framedLeaf .zstd level leaf = .ok (leBytes 4 frame.length ++ frame) := by
    simp [framedLeaf, encodedLeaf, hframe.compress, Nat.not_lt.mpr hbound]
  have hwire : leafWire .zstd level leaf = leBytes 4 frame.length ++ frame := by
    rw [leafWire, hframed]
  refine ⟨hwire ▸ hframed, ?_, ?_⟩
  · intro rest ending
    have hlen : ofLe (leBytes 4 frame.length) = frame.length := by
      rw [ofLe_leBytes, Nat.mod_eq_of_lt]
      rw [maxEncodedLeafBytes] at hbound
      omega
    have hmagic : isSkippable frame = false := by
      simp [isSkippable, hframe.magic, ofLe]
    rw [hwire, List.append_assoc]
    simp only [readLeaf, Source.readExact_append ⟨leBytes 4 frame.length, length_leBytes 4 _⟩,
      Fallible.mapError_ok, Fallible.ok_bind, hlen, if_neg (Nat.not_lt.mpr hbound)]
    simp [Source.readExact_append (n := ofLe (leBytes 4 frame.length)) ⟨frame, hlen.symm⟩, hmagic,
      decodeFrame_leafFrame hframe]
  · rw [hwire, List.length_append, length_leBytes]
    omega

/-- Every leaf lies within the content and is framed. -/
def LeavesFramed (codec : WireCodec) (level : Int) (raw : List UInt8) (tree : HashTree BaoLeaf) : Prop :=
  ∀ leaf ∈ tree.leaves,
    (leaf.content raw).length = leaf.size ∧ LeafCodec codec level (leaf.content raw)

variable {codec : WireCodec}

theorem leavesFramed_node {raw : List UInt8} {left right : HashTree BaoLeaf} :
    LeavesFramed codec level raw (.node left right) ↔
      LeavesFramed codec level raw left ∧ LeavesFramed codec level raw right := by
  simp only [LeavesFramed, HashTree.leaves, List.forall_mem_append]

def Zstd.FramesLeaves (level : Int) : Prop :=
  ∀ leaf : List UInt8, leaf.length ≤ baoBlockSize → ∃ frame, Zstd.LeafFrame level leaf frame

theorem leafCodec_of_frames (hzstd : codec = .zstd → Zstd.FramesLeaves level)
    (hleaf : leaf.length ≤ baoBlockSize) : LeafCodec codec level leaf := by
  cases codec with
  | raw => exact leafCodec_raw level hleaf
  | zstd =>
    obtain ⟨frame, hframe⟩ := hzstd rfl leaf hleaf
    exact leafCodec_zstd hleaf hframe

theorem leavesFramed_baoTree (hzstd : codec = .zstd → Zstd.FramesLeaves level) (raw : List UInt8) :
    LeavesFramed codec level raw (baoTree raw.length) := by
  intro leaf hleaf
  have hsize := length_content_of_mem hleaf
  exact ⟨hsize, leafCodec_of_frames hzstd (hsize ▸ size_le_of_mem hleaf)⟩

end Framing

section Encode

variable [Blake3] [Zstd] [BaoDebug] (codec : WireCodec) (level : Int) (raw : List UInt8)

def treeWire : HashTree BaoLeaf → List UInt8
  | .leaf leaf => leafWire codec level (leaf.content raw)
  | .node left right =>
    (hashPair (left.root (baoHashing raw) false, right.root (baoHashing raw) false)).1 ++
      (treeWire left ++ treeWire right)

variable {codec level raw} {encoder : Encoder (List UInt8) (List UInt8)} {isRoot : Bool} {rest : List Hash}

theorem encodeItem_node {outboard : PreOrderOutboard} {node : Nat} {left right : Hash}
    (hload : Outboard.load outboard node = .ok (some (left, right)))
    (htop : encoder.expected = parentHash left right isRoot :: rest) (hwire : encoder.wireBytes + 64 < 2 ^ 64) :
    encodeItem outboard codec level encoder (.ofVisit (.node node isRoot)) =
      .ok { encoder with
        writer := encoder.writer ++ (hashPair (left, right)).1
        expected := left :: right :: rest
        wireBytes := encoder.wireBytes + 64 } := by
  have hlength : (hashPair (left, right)).1.length = 64 := (hashPair (left, right)).2
  simp only [encodeItem, BaoChunk.ofVisit, encodeParent, hload, Fallible.ok_bind, htop, ne_eq,
    not_true_eq_false, if_false, if_true]
  rw [Encoder.write_of_lt (by rw [hlength]; exact hwire), hlength]

theorem encodeItem_leaf {O : Type} [Outboard O] {outboard : O} {leaf : BaoLeaf} (hdata : encoder.data = raw)
    (hsize : (leaf.content raw).length = leaf.size)
    (hframed : framedLeaf codec level (leaf.content raw) = .ok (leafWire codec level (leaf.content raw)))
    (htop : encoder.expected = (baoHashing raw).leaf leaf isRoot :: rest)
    (hraw : encoder.rawBytes + leaf.size < 2 ^ 64)
    (hwire : encoder.wireBytes + (leafWire codec level (leaf.content raw)).length < 2 ^ 64) :
    encodeItem outboard codec level encoder (.ofVisit (.leaf leaf isRoot)) =
      .ok { encoder with
        writer := encoder.writer ++ leafWire codec level (leaf.content raw)
        expected := rest
        rawBytes := encoder.rawBytes + leaf.size
        wireBytes := encoder.wireBytes + (leafWire codec level (leaf.content raw)).length } := by
  have hread : ReadAt.readExactAt leaf.startByte leaf.size encoder.data =
      .ok (⟨leaf.content raw, hsize⟩, encoder.data) := by
    have hwithin : leaf.size ≤ (raw.drop leaf.startByte).length := by
      rw [BaoLeaf.content, List.length_take] at hsize
      omega
    subst hdata
    change (Source.readExact leaf.size ⟨encoder.data.drop leaf.startByte, none⟩ >>= _) = _
    rw [Source.readExact, dif_pos hwithin]
    rfl
  have hhash : hashSubtree leaf.startByte (leaf.content raw) isRoot =
      (baoHashing raw).leaf leaf isRoot := rfl
  have hcounted := checkedAddBytes_of_lt "Bao authenticated raw byte count" (hsize ▸ hraw)
  rw [BaoLeaf.startByte] at hread hhash
  simp only [encodeItem, BaoChunk.ofVisit, encodeLeaf, hread, Fallible.ok_bind, htop, hhash, hcounted,
    ne_eq, not_true_eq_false, if_false]
  generalize leafWire codec level (leaf.content raw) = wire at hframed hwire
  rw [← hsize]
  cases codec with
  | raw =>
    obtain rfl := Except.ok.inj hframed
    exact Encoder.write_of_lt hwire
  | zstd =>
    have hencoded : encodedLeaf level (leaf.content raw) = .ok wire := hframed
    simp only [hencoded, Fallible.ok_bind]
    exact Encoder.write_of_lt hwire

variable (codec level raw) in
/-- An encoder before and after a subtree: the hash on top is the subtree's, its pairs are in the outboard, and the counters have room. -/
structure Encodes (tree : HashTree BaoLeaf) (index : Nat) (isRoot : Bool)
    (encoder after : Encoder (List UInt8) (List UInt8)) : Prop where
  framed : LeavesFramed codec level raw tree
  stored : ∃ before behind, (baoTree raw.length).pairs (baoHashing raw) =
    before ++ tree.pairs (baoHashing raw) ++ behind ∧ before.length = index
  data : encoder.data = raw
  top : encoder.expected = tree.root (baoHashing raw) isRoot :: after.expected
  rawBytes : encoder.rawBytes + treeSize tree < 2 ^ 64
  wireBytes : encoder.wireBytes + (treeWire codec level raw tree).length < 2 ^ 64
  done : after = { encoder with
    writer := encoder.writer ++ treeWire codec level raw tree
    expected := after.expected
    rawBytes := encoder.rawBytes + treeSize tree
    wireBytes := encoder.wireBytes + (treeWire codec level raw tree).length }

theorem encode_walk {tree : HashTree BaoLeaf} {index : Nat} {after : Encoder (List UInt8) (List UInt8)}
    (hencodes : Encodes codec level raw tree index isRoot encoder after) :
    (tree.walk index isRoot).foldlM
      (fun encoder visit => encodeItem (outboardOf raw) codec level encoder (.ofVisit visit)) encoder =
      .ok after := by
  refine HashTree.foldlM_walk ?_ ?_ hencodes
  · intro leaf index isRoot encoder after hspec
    obtain ⟨hsize, hcodec⟩ := hspec.framed leaf (List.mem_singleton.mpr rfl)
    have hraw := hspec.rawBytes
    have hdone := hspec.done
    simp only [treeSize, HashTree.leaves, List.map_cons, List.map_nil, List.sum_singleton] at hraw hdone
    rw [encodeItem_leaf hspec.data hsize hcodec.framed hspec.top hraw hspec.wireBytes]
    exact congrArg _ hdone.symm
  · intro left right index isRoot encoder after hspec
    obtain ⟨hleft, hright⟩ := leavesFramed_node.mp hspec.framed
    obtain ⟨before, behind, hpairs, rfl⟩ := hspec.stored
    have hdone := hspec.done
    have hraw := hspec.rawBytes
    have hwire := hspec.wireBytes
    rw [treeSize_node] at hraw hdone
    rw [treeWire, List.length_append, List.length_append, (hashPair _).2] at hwire hdone
    simp only [HashTree.pairs, List.append_assoc, List.cons_append] at hpairs
    let pair := (left.root (baoHashing raw) false, right.root (baoHashing raw) false)
    refine ⟨{ encoder with
        writer := encoder.writer ++ (hashPair pair).1
        expected := pair.1 :: pair.2 :: after.expected
        wireBytes := encoder.wireBytes + 64 },
      { encoder with
        writer := encoder.writer ++ (hashPair pair).1 ++ treeWire codec level raw left
        expected := pair.2 :: after.expected
        rawBytes := encoder.rawBytes + treeSize left
        wireBytes := encoder.wireBytes + 64 + (treeWire codec level raw left).length }, ?_, ?_, ?_⟩
    · exact encodeItem_node (load_outboardOf hpairs) hspec.top (by omega)
    · exact {
        framed := hleft
        stored := ⟨before ++ [pair], right.pairs (baoHashing raw) ++ behind, by simp [hpairs, pair],
          by simp⟩
        data := hspec.data
        top := rfl
        rawBytes := by dsimp only; omega
        wireBytes := by dsimp only; omega
        done := rfl }
    · exact {
        framed := hright
        stored := ⟨before ++ pair :: left.pairs (baoHashing raw), behind, by simp [hpairs, pair],
          by simp only [List.length_append, List.length_cons, HashTree.length_pairs]; omega⟩
        data := hspec.data
        top := rfl
        rawBytes := by dsimp only; omega
        wireBytes := by dsimp only; omega
        done := hdone.trans (by simp [pair, Nat.add_assoc]) }

end Encode

section Decode

variable [Blake3] [Zstd] [BaoDebug] {onLeaf : OnLeaf} {rawSize : Nat} {codec : WireCodec} {level : Int}
  {raw : List UInt8}

variable {isRoot : Bool} {rest : List Hash} {bytes : List UInt8} {ending : Option IoError} {delivery : Delivery}

theorem decodeItem_node {node : Nat} {left right : Hash} :
    decodeItem onLeaf rawSize codec
      ⟨⟨(hashPair (left, right)).1 ++ bytes, ending⟩, parentHash left right isRoot :: rest, delivery⟩
      (.ofVisit (.node node isRoot)) = .ok ⟨⟨bytes, ending⟩, left :: right :: rest, delivery⟩ := by
  simp only [decodeItem, BaoChunk.ofVisit, decodeParent, Source.readExact_append, Fallible.mapError_ok,
    Fallible.ok_bind, parseHashPair_hashPair]
  simp

theorem decodeItem_leaf {leaf : BaoLeaf} {after : Delivery} (hsize : (leaf.content raw).length = leaf.size)
    (hcodec : LeafCodec codec level (leaf.content raw))
    (haccept : delivery.accept onLeaf rawSize (leaf.content raw) = .ok after) :
    decodeItem onLeaf rawSize codec
      ⟨⟨leafWire codec level (leaf.content raw) ++ bytes, ending⟩,
        (baoHashing raw).leaf leaf isRoot :: rest, delivery⟩
      (.ofVisit (.leaf leaf isRoot)) = .ok ⟨⟨bytes, ending⟩, rest, after⟩ := by
  have hread := hcodec.read_back bytes ending
  rw [hsize] at hread
  have hhash : hashSubtree (leaf.startChunk * 1024) (leaf.content raw) isRoot =
      (baoHashing raw).leaf leaf isRoot := rfl
  simp only [decodeItem, BaoChunk.ofVisit, verifyLeaf, hread, Fallible.ok_bind, hhash]
  simp [haccept]

variable (onLeaf rawSize codec level raw) in
/-- A decoder before and after a subtree: its bytes come next, its hash is on top, and its leaves are delivered. -/
structure Verifies (tree : HashTree BaoLeaf) (_index : Nat) (isRoot : Bool) (decoder after : Decoder) :
    Prop where
  framed : LeavesFramed codec level raw tree
  source : decoder.source =
    ⟨treeWire codec level raw tree ++ after.source.bytes, after.source.ending⟩
  top : decoder.expected = tree.root (baoHashing raw) isRoot :: after.expected
  delivered : (tree.leaves.map (BaoLeaf.content raw)).foldlM (Delivery.accept onLeaf rawSize)
    decoder.delivery = .ok after.delivery

theorem decode_walk {tree : HashTree BaoLeaf} {index : Nat} {decoder after : Decoder}
    (hverifies : Verifies onLeaf rawSize codec level raw tree index isRoot decoder after) :
    (tree.walk index isRoot).foldlM
      (fun decoder visit => decodeItem onLeaf rawSize codec decoder (.ofVisit visit)) decoder =
      .ok after := by
  refine HashTree.foldlM_walk ?_ ?_ hverifies
  · rintro leaf index isRoot ⟨source, expected, delivery⟩ ⟨⟨bytes, ending⟩, rest, after⟩ hspec
    obtain ⟨hframed, rfl, rfl, hdelivered⟩ := hspec
    obtain ⟨hsize, hcodec⟩ := hframed leaf (List.mem_singleton.mpr rfl)
    simp only [HashTree.leaves, List.map_cons, List.map_nil, List.foldlM_cons, List.foldlM_nil,
      bind_pure] at hdelivered
    exact decodeItem_leaf hsize hcodec hdelivered
  · rintro left right index isRoot ⟨source, expected, delivery⟩ ⟨⟨bytes, ending⟩, rest, after⟩ hspec
    obtain ⟨hframed, rfl, rfl, hdelivered⟩ := hspec
    obtain ⟨hleft, hright⟩ := leavesFramed_node.mp hframed
    rw [HashTree.leaves, List.map_append, List.foldlM_append, Fallible.bind_eq_ok_iff] at hdelivered
    obtain ⟨middle, hmiddle, hlast⟩ := hdelivered
    refine ⟨⟨⟨treeWire codec level raw left ++ (treeWire codec level raw right ++ bytes), ending⟩,
        left.root (baoHashing raw) false :: right.root (baoHashing raw) false :: rest, delivery⟩,
      ⟨⟨treeWire codec level raw right ++ bytes, ending⟩,
        right.root (baoHashing raw) false :: rest, middle⟩, ?_, ?_, ?_⟩
    · simp only [treeWire, List.append_assoc]
      exact decodeItem_node
    · exact ⟨hleft, rfl, rfl, hmiddle⟩
    · exact ⟨hright, rfl, rfl, hlast⟩

end Decode

section Deliver

variable {onLeaf : OnLeaf} {rawSize : Nat} (htakes : ∀ calls leaf, onLeaf calls leaf = none)
include htakes

theorem call_of_takes (delivery : Delivery) (leaf : List UInt8) :
    delivery.call onLeaf leaf = .ok { delivery with calls := delivery.calls ++ [⟨leaf, none⟩] } := by
  simp only [Delivery.call, htakes]

theorem foldlM_accept {leaves : List (List UInt8)} {delivery : Delivery} (hsize : rawSize < 2 ^ 64)
    (hroom : delivery.rawBytes + leaves.flatten.length < rawSize) :
    leaves.foldlM (Delivery.accept onLeaf rawSize) delivery = .ok { delivery with
      rawBytes := delivery.rawBytes + leaves.flatten.length
      calls := delivery.calls ++ leaves.map (⟨·, none⟩) } := by
  induction leaves generalizing delivery with
  | nil => simp
  | cons leaf leaves ih =>
    rw [List.flatten_cons, List.length_append] at hroom
    have hcounted : checkedAddBytes delivery.rawBytes leaf.length "Bao verified raw byte count" =
        .ok (delivery.rawBytes + leaf.length) := checkedAddBytes_of_lt _ (by omega)
    have haccept : delivery.accept onLeaf rawSize leaf = .ok { delivery with
        rawBytes := delivery.rawBytes + leaf.length, calls := delivery.calls ++ [⟨leaf, none⟩] } := by
      simp only [Delivery.accept, hcounted, Fallible.mapError_ok, Fallible.ok_bind]
      rw [if_neg (by omega), if_neg (by omega), call_of_takes htakes]
    rw [List.foldlM_cons, haccept, Fallible.ok_bind, ih (by dsimp only; omega)]
    simp [Nat.add_assoc]

/-- A last leaf that completes the size is held back, and finishing delivers it after all others. -/
theorem finish_accept_last {init : List (List UInt8)} {last : List UInt8} (hsize : rawSize < 2 ^ 64)
    (htotal : init.flatten.length + last.length = rawSize)
    (hlast : init = [] ∨ init.flatten.length < rawSize) :
    ∃ after, (init ++ [last]).foldlM (Delivery.accept onLeaf rawSize) ⟨0, none, []⟩ = .ok after ∧
      after.finish onLeaf rawSize = .ok (rawSize, (init ++ [last]).map (⟨·, none⟩)) := by
  have hinit : init.foldlM (Delivery.accept onLeaf rawSize) ⟨0, none, []⟩ =
      .ok ⟨init.flatten.length, none, init.map (⟨·, none⟩)⟩ := by
    rcases hlast with rfl | hroom
    · rfl
    · rw [foldlM_accept htakes hsize (by simpa using hroom)]
      simp
  have hheld : Delivery.accept onLeaf rawSize
      ⟨init.flatten.length, none, init.map (⟨·, none⟩)⟩ last =
      .ok ⟨rawSize, some last, init.map (⟨·, none⟩)⟩ := by
    simp only [Delivery.accept]
    rw [checkedAddBytes_of_lt _ (by omega), htotal]
    simp
  refine ⟨⟨rawSize, some last, init.map (⟨·, none⟩)⟩, ?_, ?_⟩
  · rw [List.foldlM_append, hinit, Fallible.ok_bind, List.foldlM_cons, hheld]
    rfl
  · simp [Delivery.finish, call_of_takes htakes]

end Deliver

section Transfer

variable [Blake3] [Zstd] {codec : WireCodec} {raw : List UInt8} {level : Int}

theorem length_treeWire_le {tree : HashTree BaoLeaf} (hframed : LeavesFramed codec level raw tree) :
    (treeWire codec level raw tree).length ≤
      64 * tree.nodeCount + (maxEncodedLeafBytes + 4) * tree.leaves.length := by
  induction tree with
  | leaf leaf =>
    have := (hframed leaf (List.mem_singleton.mpr rfl)).2.bounded
    simpa [treeWire, HashTree.nodeCount, HashTree.leaves] using this
  | node left right ihl ihr =>
    obtain ⟨hleft, hright⟩ := leavesFramed_node.mp hframed
    have := ihl hleft
    have := ihr hright
    rw [treeWire, List.length_append, List.length_append, (hashPair _).2, HashTree.nodeCount, HashTree.leaves,
      List.length_append, Nat.mul_add (maxEncodedLeafBytes + 4)]
    omega

/-- The tree equation of BLAKE3: the hash of a content is the root of its tree. -/
def Blake3.TreeEquation : Prop :=
  ∀ raw : List UInt8, (baoTree raw.length).root (baoHashing raw) true = Blake3.hash raw

variable [BaoDebug]

theorem encodeValidated_outboardOf (hframed : LeavesFramed codec level raw (baoTree raw.length))
    (hraw : raw.length < 2 ^ 63) (writer : List UInt8) :
    encodeValidated raw (outboardOf raw) writer codec level =
      .ok (writer ++ treeWire codec level raw (baoTree raw.length), raw.length,
        (treeWire codec level raw (baoTree raw.length)).length) := by
  have hwire : (treeWire codec level raw (baoTree raw.length)).length < 2 ^ 64 := by
    have hle := length_treeWire_le hframed
    rw [HashTree.length_leaves, nodeCount_baoTree] at hle
    simp only [leafCount, baoBlockSize, maxEncodedLeafBytes] at hle
    omega
  have hencodes : Encodes codec level raw (baoTree raw.length) 0 true
      ⟨raw, writer, [(baoTree raw.length).root (baoHashing raw) true], 0, 0⟩
      ⟨raw, writer ++ treeWire codec level raw (baoTree raw.length), [], raw.length,
        (treeWire codec level raw (baoTree raw.length)).length⟩ := {
    framed := hframed
    stored := ⟨[], [], by rw [List.nil_append, List.append_nil], rfl⟩
    data := rfl
    top := rfl
    rawBytes := by
      rw [treeSize_baoTree]
      dsimp only
      omega
    wireBytes := by
      dsimp only
      omega
    done := by rw [treeSize_baoTree, Nat.zero_add, Nat.zero_add] }
  simp only [encodeValidated, responseIter, List.foldlM_map, size_outboardOf, root_outboardOf,
    encode_walk hencodes, Fallible.ok_bind]
  rfl

theorem decodeVerified_treeWire {onLeaf : OnLeaf} (hframed : LeavesFramed codec level raw (baoTree raw.length))
    (hraw : raw.length < 2 ^ 63) (htakes : ∀ calls leaf, onLeaf calls leaf = none) :
    decodeVerified ⟨treeWire codec level raw (baoTree raw.length) ++ completeMarker, none⟩
      ((baoTree raw.length).root (baoHashing raw) true) raw.length codec onLeaf =
      .ok (raw.length, ((baoTree raw.length).leaves.map (BaoLeaf.content raw)).map (⟨·, none⟩)) := by
  obtain ⟨init, last, hleaves, htotal, hlast⟩ := exists_last_leaf raw
  obtain ⟨after, hafter, hfinish⟩ :=
    finish_accept_last htakes (show raw.length < 2 ^ 64 by omega) htotal hlast
  have hverifies : Verifies onLeaf raw.length codec level raw (baoTree raw.length) 0 true
      ⟨⟨treeWire codec level raw (baoTree raw.length) ++ completeMarker, none⟩,
        [(baoTree raw.length).root (baoHashing raw) true], ⟨0, none, []⟩⟩
      ⟨⟨completeMarker, none⟩, [], after⟩ :=
    ⟨hframed, rfl, rfl, hleaves ▸ hafter⟩
  have htrailer : readTrailer ⟨completeMarker, none⟩ = .ok () := rfl
  simp only [decodeVerified, responseIter, List.foldlM_map, decode_walk hverifies, Fallible.ok_bind]
  simp [htrailer, hfinish, hleaves]

/-- The outboard built from a content carries its BLAKE3 hash, the encoder sends the content with it, and the decoder accepts the body and hands the content over leaf by leaf. -/
theorem transfer_complete (htree : Blake3.TreeEquation) {codec : WireCodec} {level : Int}
    (hzstd : codec = .zstd → Zstd.FramesLeaves level) {onLeaf : OnLeaf}
    (htakes : ∀ calls leaf, onLeaf calls leaf = none) {raw : List UInt8} (hraw : raw.length < 2 ^ 63) :
    ∃ outboard body wireBytes calls,
      createOutboard ⟨raw, none⟩ raw.length = .ok outboard ∧
      outboard.root = Blake3.hash raw ∧
      encodeValidated raw outboard ([] : List UInt8) codec level = .ok (body, raw.length, wireBytes) ∧
      decodeVerified ⟨body ++ completeMarker, none⟩ (Blake3.hash raw) raw.length codec onLeaf =
        .ok (raw.length, calls) ∧
      (calls.map LeafCall.leaf).flatten = raw := by
  have hframed := leavesFramed_baoTree hzstd raw
  have hdecode := decodeVerified_treeWire hframed hraw htakes
  have hencode := encodeValidated_outboardOf hframed hraw []
  rw [htree raw] at hdecode
  rw [List.nil_append] at hencode
  refine ⟨outboardOf raw, _, _, _, createOutboard_exact raw, htree raw, hencode, hdecode, ?_⟩
  rw [List.map_map, Function.comp_def, List.map_id', flatten_content_baoTree]

end Transfer

section Golden

attribute [local instance] goldenBlake3 goldenZstd goldenDebug

theorem golden_treeEquation : Blake3.TreeEquation := by
  intro raw
  cases htree : baoTree raw.length with
  | leaf leaf =>
    have hcontent := flatten_content_baoTree raw
    rw [htree] at hcontent
    simp only [HashTree.leaves, List.map_cons, List.map_nil, List.flatten_cons, List.flatten_nil,
      List.append_nil] at hcontent
    change Blake3.hash (leaf.content raw) = Blake3.hash raw
    rw [hcontent]
  | node left right =>
    have hlong : raw ≠ goldenNar := by
      rintro rfl
      have hcount := nodeCount_baoTree goldenNar.length
      rw [htree] at hcount
      exact absurd hcount (Nat.succ_ne_zero _)
    exact (if_neg hlong).symm

theorem golden_framesLeaves : Zstd.FramesLeaves 3 := by
  intro leaf hleaf
  have hlength : (goldenFrame leaf).length = leaf.length + 9 := by
    simp [goldenFrame]
    omega
  have hdrop : (goldenFrame leaf).drop 9 = leaf := List.drop_left' (by simp)
  rw [baoBlockSize] at hleaf
  have hroom : ((goldenFrame leaf).drop 9).length ≤ decodeBlock := by
    rw [hdrop, decodeBlock]
    omega
  refine ⟨goldenFrame leaf, rfl, rfl, ?_, (), rfl, ?_⟩
  · simp only [zstdCompressBound, saturatingAdd, hlength]
    omega
  · have hlast : Zstd.Decodes () (goldenFrame leaf) ((goldenFrame leaf).drop 9) :=
      .last (dif_pos hroom) rfl rfl
    rwa [hdrop] at hlast

theorem transfer_complete_golden :
    ∃ outboard body wireBytes calls,
      createOutboard ⟨goldenNar, none⟩ 3 = .ok outboard ∧
      outboard.root = Blake3.hash goldenNar ∧
      encodeValidated goldenNar outboard ([] : List UInt8) .zstd 3 = .ok (body, 3, wireBytes) ∧
      decodeVerified ⟨body ++ completeMarker, none⟩ (Blake3.hash goldenNar) 3 .zstd (fun _ _ => none) =
        .ok (3, calls) ∧
      (calls.map LeafCall.leaf).flatten = goldenNar :=
  transfer_complete golden_treeEquation (fun _ => golden_framesLeaves) (fun _ _ => rfl) (by decide)

end Golden

end NixP2p
