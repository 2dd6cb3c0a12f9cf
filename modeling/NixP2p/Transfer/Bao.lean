import NixP2p.Base.Fallible
import NixP2p.Base.MerkleTree
import NixP2p.Base.Source

/-!
# Bao trees and their outboards

A content is cut into leaves of 64 KiB under a left-complete tree of BLAKE3 hashes. BLAKE3 and the traversal of the Bao library are outside this repository: the hash functions are parameters, and asking for every chunk walks the whole tree in pre-order. An outboard keeps the pair of hashes of each inner node, so that a content can be sent with its proofs without hashing it again.
-/

namespace NixP2p

open Wire Merkle

abbrev Hash := Bytes 32

/-- The hash functions the code takes from BLAKE3. -/
class Blake3 where
  hash : List UInt8 → Hash
  finalizeNonRoot : (offset : Nat) → List UInt8 → Hash
  mergeSubtreesRoot : Hash → Hash → Hash
  mergeSubtreesNonRoot : Hash → Hash → Hash

/-- How the Bao library prints the inner node of a pre-order index, in the tree of a size. -/
class BaoDebug where
  node : (size index : Nat) → String

section Hashes

variable [Blake3]

def hashSubtree (startByte : Nat) (data : List UInt8) (isRoot : Bool) : Hash :=
  if isRoot then Blake3.hash data else Blake3.finalizeNonRoot startByte data

def parentHash (left right : Hash) (isRoot : Bool) : Hash :=
  if isRoot then Blake3.mergeSubtreesRoot left right else Blake3.mergeSubtreesNonRoot left right

end Hashes

def parseHashPair (pair : Bytes 64) : Hash × Hash :=
  (⟨pair.1.take 32, by simp [pair.2]⟩, ⟨pair.1.drop 32, by simp [pair.2]⟩)

def hashPair (pair : Hash × Hash) : Bytes 64 :=
  ⟨pair.1.1 ++ pair.2.1, by simp [pair.1.2, pair.2.2]⟩

@[simp] theorem parseHashPair_hashPair (pair : Hash × Hash) : parseHashPair (hashPair pair) = pair := by
  obtain ⟨⟨left, hleft⟩, ⟨right, hright⟩⟩ := pair
  simp [parseHashPair, hashPair, List.take_left' hleft, List.drop_left' hleft]

def baoBlockSize : Nat := 64 * 1024

structure BaoLeaf where
  startChunk : Nat
  size : Nat
  deriving DecidableEq

def BaoLeaf.startByte (leaf : BaoLeaf) : Nat := leaf.startChunk * 1024

def BaoLeaf.content (raw : List UInt8) (leaf : BaoLeaf) : List UInt8 :=
  (raw.drop leaf.startByte).take leaf.size

def leafCount (size : Nat) : Nat := max ((size + (baoBlockSize - 1)) / baoBlockSize) 1

def baoLeaf (size index : Nat) : BaoLeaf :=
  ⟨index * 64, min baoBlockSize (size - index * baoBlockSize)⟩

def baoTree (size : Nat) : HashTree BaoLeaf :=
  HashTree.leftComplete (baoLeaf size) (Nat.log2 (leafCount size) + 1) 0 (leafCount size)

def outboardSize (size : Nat) : Nat := (leafCount size - 1) * 64

inductive BaoChunk where
  | parent (node : Nat) (isRoot left right : Bool)
  | leaf (startChunk size : Nat) (isRoot : Bool)

def BaoChunk.ofVisit : Visit BaoLeaf → BaoChunk
  | .node index isRoot => .parent index isRoot true true
  | .leaf group isRoot => .leaf group.startChunk group.size isRoot

def responseIter (size : Nat) : List BaoChunk := ((baoTree size).walk 0 true).map .ofVisit

theorem leafCount_pos (size : Nat) : 0 < leafCount size := by
  rw [leafCount]
  omega

theorem leaves_baoTree (size : Nat) :
    (baoTree size).leaves = (List.range (leafCount size)).map (baoLeaf size) := by
  rw [baoTree, HashTree.leaves_leftComplete _ (leafCount_pos size) (Nat.le_of_lt Nat.lt_log2_self),
    List.range_eq_range']

theorem nodeCount_baoTree (size : Nat) : (baoTree size).nodeCount = leafCount size - 1 := by
  have hleaves := HashTree.length_leaves (baoTree size)
  rw [leaves_baoTree, List.length_map, List.length_range] at hleaves
  omega

def treeSize (tree : HashTree BaoLeaf) : Nat := (tree.leaves.map BaoLeaf.size).sum

theorem treeSize_node (left right : HashTree BaoLeaf) :
    treeSize (.node left right) = treeSize left + treeSize right := by
  rw [treeSize, HashTree.leaves, List.map_append, List.sum_append, treeSize, treeSize]

theorem length_content_baoLeaf (raw : List UInt8) (index : Nat) :
    ((baoLeaf raw.length index).content raw).length = (baoLeaf raw.length index).size := by
  simp only [BaoLeaf.content, BaoLeaf.startByte, baoLeaf, baoBlockSize, List.length_take,
    List.length_drop]
  omega

variable {leaf : BaoLeaf} {raw : List UInt8}

theorem length_content_of_mem (hleaf : leaf ∈ (baoTree raw.length).leaves) :
    (leaf.content raw).length = leaf.size := by
  rw [leaves_baoTree, List.mem_map] at hleaf
  obtain ⟨index, -, rfl⟩ := hleaf
  exact length_content_baoLeaf raw index

theorem size_le_of_mem {size : Nat} (hleaf : leaf ∈ (baoTree size).leaves) : leaf.size ≤ baoBlockSize := by
  rw [leaves_baoTree, List.mem_map] at hleaf
  obtain ⟨index, -, rfl⟩ := hleaf
  exact Nat.min_le_left _ _

theorem size_pos_of_mem_tail {size : Nat} (hleaf : leaf ∈ (baoTree size).leaves.tail) : 0 < leaf.size := by
  rw [leaves_baoTree, List.range_eq_range', ← List.map_tail, List.tail_range', List.mem_map] at hleaf
  obtain ⟨index, hindex, rfl⟩ := hleaf
  rw [List.mem_range'_1] at hindex
  simp only [leafCount, baoLeaf, baoBlockSize] at hindex ⊢
  omega

theorem content_baoLeaf (raw : List UInt8) (index : Nat) :
    (baoLeaf raw.length index).content raw = (raw.drop (index * baoBlockSize)).take baoBlockSize := by
  have hstart : (baoLeaf raw.length index).startByte = index * baoBlockSize := by
    simp only [BaoLeaf.startByte, baoLeaf, baoBlockSize]
    omega
  rw [BaoLeaf.content, hstart, List.take_eq_take_min (i := baoBlockSize), List.length_drop]
  rfl

theorem contents_baoTree (raw : List UInt8) :
    (baoTree raw.length).leaves.map (BaoLeaf.content raw) =
      (List.range (leafCount raw.length)).map fun index => (baoLeaf raw.length index).content raw := by
  rw [leaves_baoTree, List.map_map, Function.comp_def]

theorem flatten_content_range (raw : List UInt8) (count : Nat) :
    ((List.range count).map fun index => (baoLeaf raw.length index).content raw).flatten =
      raw.take (count * baoBlockSize) := by
  induction count with
  | zero => simp
  | succ count ih =>
    rw [List.range_succ, List.map_append, List.flatten_append, ih, Nat.succ_mul, List.take_add]
    simp [content_baoLeaf]

theorem flatten_content_baoTree (raw : List UInt8) :
    ((baoTree raw.length).leaves.map (BaoLeaf.content raw)).flatten = raw := by
  have hcovers : raw.length ≤ leafCount raw.length * baoBlockSize := by
    simp only [leafCount, baoBlockSize]
    omega
  rw [contents_baoTree, flatten_content_range, List.take_of_length_le hcovers]

theorem treeSize_baoTree (raw : List UInt8) : treeSize (baoTree raw.length) = raw.length := by
  calc treeSize (baoTree raw.length)
      = ((baoTree raw.length).leaves.map fun leaf => (leaf.content raw).length).sum :=
        congrArg List.sum (List.map_congr_left fun leaf hleaf => (length_content_of_mem hleaf).symm)
    _ = ((baoTree raw.length).leaves.map (BaoLeaf.content raw)).flatten.length := by
        rw [List.length_flatten, List.map_map]
        rfl
    _ = raw.length := by rw [flatten_content_baoTree]

/-- The leaf that completes the content: the others stop short of its end, unless there are none. -/
theorem exists_last_leaf (raw : List UInt8) :
    ∃ init last, (baoTree raw.length).leaves.map (BaoLeaf.content raw) = init ++ [last] ∧
      init.flatten.length + last.length = raw.length ∧
      (init = [] ∨ init.flatten.length < raw.length) := by
  obtain ⟨count, hcount⟩ : ∃ count, leafCount raw.length = count + 1 :=
    ⟨leafCount raw.length - 1, by have := leafCount_pos raw.length; omega⟩
  have hleaves : (baoTree raw.length).leaves.map (BaoLeaf.content raw) =
      (List.range count).map (fun index => (baoLeaf raw.length index).content raw) ++
        [(baoLeaf raw.length count).content raw] := by
    rw [contents_baoTree, hcount, List.range_succ, List.map_append, List.map_singleton]
  refine ⟨_, _, hleaves, ?_, ?_⟩
  · have hall := congrArg List.length (flatten_content_baoTree raw)
    rw [hleaves] at hall
    simpa using hall
  · rw [flatten_content_range, List.length_take]
    simp only [leafCount, baoBlockSize] at hcount ⊢
    rcases Nat.eq_zero_or_pos count with rfl | hpos
    · exact .inl rfl
    · exact .inr (by omega)

/-- The root and the proof pairs of a content, in pre-order. -/
structure PreOrderOutboard where
  root : Hash
  size : Nat
  data : List UInt8

class Outboard (O : Type) where
  size : O → Nat
  root : O → Hash
  load : O → (node : Nat) → Except IoError (Option (Hash × Hash))

instance : Outboard PreOrderOutboard where
  size outboard := outboard.size
  root outboard := outboard.root
  load outboard node :=
    if node < leafCount outboard.size - 1 then do
      let (pair, _) ← Source.readExact 64 ⟨outboard.data.drop (node * 64), none⟩
      return some (parseHashPair pair)
    else .ok none

section Outboards

variable [Blake3]

def baoHashing (raw : List UInt8) : Hashing BaoLeaf Hash where
  leaf leaf isRoot := hashSubtree leaf.startByte (leaf.content raw) isRoot
  node := parentHash

/-- The outboard that the Bao library computes for a content. -/
def outboardOf (raw : List UInt8) : PreOrderOutboard where
  root := (baoTree raw.length).root (baoHashing raw) true
  size := raw.length
  data := ((baoTree raw.length).pairs (baoHashing raw)).flatMap fun pair => (hashPair pair).1

@[simp] theorem size_outboardOf (raw : List UInt8) : Outboard.size (outboardOf raw) = raw.length := rfl

@[simp] theorem root_outboardOf (raw : List UInt8) :
    Outboard.root (outboardOf raw) = (baoTree raw.length).root (baoHashing raw) true := rfl

def createSized (source : Source) (size : Nat) : Except IoError (PreOrderOutboard × Source) := do
  let (raw, rest) ← source.readExact size
  return (outboardOf raw.1, rest)

def createOutboard (source : Source) (rawSize : Nat) : Except IoError PreOrderOutboard := do
  let (outboard, source) ← createSized source rawSize
  let (extra, _) ← source.readByte
  if extra.isSome then
    throw (.invalidData s!"source produced more than declared raw_size {rawSize}")
  else
    let length := outboard.data.length
    let expected := outboardSize outboard.size
    if length ≠ expected then
      throw ⟨.other, s!"Bao outboard representation was {length} B, expected {expected} B"⟩
    else return outboard

end Outboards

theorem length_flatMap_hashPair (pairs : List (Hash × Hash)) :
    (pairs.flatMap fun pair => (hashPair pair).1).length = pairs.length * 64 := by
  induction pairs with
  | nil => rfl
  | cons pair pairs ih =>
    rw [List.flatMap_cons, List.length_append, ih, (hashPair pair).2, List.length_cons]
    omega

theorem createOutboard_exact [Blake3] (raw : List UInt8) :
    createOutboard ⟨raw, none⟩ raw.length = .ok (outboardOf raw) := by
  have hread : Source.readExact raw.length ⟨raw, none⟩ = .ok (⟨raw, rfl⟩, ⟨[], none⟩) := by
    have hexact := Source.readExact_append ⟨raw, rfl⟩ [] none
    rwa [List.append_nil] at hexact
  have hdata : (outboardOf raw).data.length = outboardSize (outboardOf raw).size := by
    simp only [outboardOf, outboardSize, length_flatMap_hashPair, HashTree.length_pairs,
      nodeCount_baoTree]
  simp only [createOutboard, createSized, hread, Fallible.ok_bind]
  simp [Source.readByte, hdata]

theorem load_outboardOf [Blake3] {before after : List (Hash × Hash)} {pair : Hash × Hash}
    (hpairs : (baoTree raw.length).pairs (baoHashing raw) = before ++ pair :: after) :
    Outboard.load (outboardOf raw) before.length = .ok (some pair) := by
  have hinner : before.length < leafCount raw.length - 1 := by
    have hcount := congrArg List.length hpairs
    rw [HashTree.length_pairs, nodeCount_baoTree, List.length_append, List.length_cons] at hcount
    omega
  have hdrop : (outboardOf raw).data.drop (before.length * 64) =
      (hashPair pair).1 ++ after.flatMap fun pair => (hashPair pair).1 := by
    simp only [outboardOf]
    rw [hpairs, List.flatMap_append, List.flatMap_cons, List.drop_left' (length_flatMap_hashPair _)]
  change (if before.length < leafCount raw.length - 1 then _ else _) = _
  rw [if_pos hinner, hdrop, Source.readExact_append]
  change Except.ok (some (parseHashPair (hashPair pair))) = _
  rw [parseHashPair_hashPair]

end NixP2p
