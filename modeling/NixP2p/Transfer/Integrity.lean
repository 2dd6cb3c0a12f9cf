import Mathlib.Algebra.Order.BigOperators.Group.List
import NixP2p.Transfer.NarV4

/-!
# What the decoder passes on is the content

While the decoder walks the tree of the declared size, its stack of expected hashes is the list of the roots of the subtrees still to visit: a pair or a leaf that hashes to the top of the stack is the content's own, unless two inputs of the hash functions collide. Only the inputs hashed in the run and for the root of the content matter.
-/

namespace NixP2p

open Wire Merkle Fallible

inductive HashInput where
  | subtree (startByte : Nat) (data : List UInt8) (isRoot : Bool)
  | parent (left right : Hash) (isRoot : Bool)
  deriving DecidableEq

/-- Both hash functions are injective on the given inputs. -/
structure CollisionFree [Blake3] (inputs : List HashInput) : Prop where
  subtree : ∀ start data isRoot start' data' isRoot',
    .subtree start data isRoot ∈ inputs → .subtree start' data' isRoot' ∈ inputs →
      hashSubtree start data isRoot = hashSubtree start' data' isRoot' →
        start = start' ∧ data = data' ∧ isRoot = isRoot'
  parent : ∀ left right isRoot left' right' isRoot',
    .parent left right isRoot ∈ inputs → .parent left' right' isRoot' ∈ inputs →
      parentHash left right isRoot = parentHash left' right' isRoot' →
        left = left' ∧ right = right' ∧ isRoot = isRoot'

/-- The inputs hashed to compute the root of a subtree of a content. -/
def contentInputs [Blake3] (content : List UInt8) : HashTree BaoLeaf → Bool → List HashInput
  | .leaf leaf, isRoot => [.subtree leaf.startByte (leaf.content content) isRoot]
  | .node left right, isRoot =>
    .parent (left.root (baoHashing content) false) (right.root (baoHashing content) false) isRoot ::
      (contentInputs content left false ++ contentInputs content right false)

section Inputs

variable [Blake3] [Zstd] [BaoDebug] (onLeaf : OnLeaf) (rawSize : Nat) (codec : WireCodec)

/-- The input the decoder hashes at an item: the pair or the leaf it has read, if a hash is expected. -/
def hashInput (decoder : Decoder) : BaoChunk → Option HashInput
  | .parent _ isRoot _ _ =>
    match decoder.source.readExact 64, decoder.expected with
    | .ok (pair, _), _ :: _ => some (.parent (parseHashPair pair).1 (parseHashPair pair).2 isRoot)
    | _, _ => none
  | .leaf startChunk size isRoot =>
    match readLeaf decoder.source size codec, decoder.expected with
    | .ok (leaf, _), _ :: _ => some (.subtree (startChunk * 1024) leaf isRoot)
    | _, _ => none

def hashInputs : List BaoChunk → Decoder → List HashInput
  | [], _ => []
  | item :: items, decoder =>
    (hashInput codec decoder item).toList ++
      match decodeItem onLeaf rawSize codec decoder item with
      | .ok next => hashInputs items next
      | .error _ => []

end Inputs

/-- The leaves passed on so far, in order, are a part of the content from its start. -/
def StartOf (content : List UInt8) (calls : List LeafCall) : Prop :=
  (calls.map LeafCall.leaf).flatten <+: content

/-- The leaves before `remaining` were counted and passed on, or the last of them held back. -/
structure Delivered (content : List UInt8) (remaining : List BaoLeaf) (delivery : Delivery) : Prop where
  leaves : ∃ done, (baoTree content.length).leaves = done ++ remaining ∧
    delivery.calls.map LeafCall.leaf ++ delivery.finalLeaf.toList = done.map (BaoLeaf.content content) ∧
    delivery.rawBytes = (done.map BaoLeaf.size).sum
  held : delivery.finalLeaf = none ∨ remaining = []

variable {content : List UInt8} {rest : List BaoLeaf}

theorem startOf_of_leaves {calls : List LeafCall} {done : List BaoLeaf} {held : List (List UInt8)}
    (hleaves : (baoTree content.length).leaves = done ++ rest)
    (hcalls : calls.map LeafCall.leaf ++ held = done.map (BaoLeaf.content content)) : StartOf content calls := by
  have hcontent := flatten_content_baoTree content
  rw [hleaves, List.map_append, ← hcalls, List.flatten_append, List.flatten_append,
    List.append_assoc] at hcontent
  exact ⟨_, hcontent⟩

variable {delivery : Delivery}

theorem Delivered.startOf {remaining : List BaoLeaf} (hdelivered : Delivered content remaining delivery) :
    StartOf content delivery.calls := by
  obtain ⟨done, hleaves, hcalls, -⟩ := hdelivered.leaves
  exact startOf_of_leaves hleaves hcalls

theorem mem_tail_append_cons {α : Type} {before rest : List α} {a b : α} (hb : b ∈ rest) :
    b ∈ (before ++ a :: rest).tail := by
  cases before with
  | nil => exact hb
  | cons c before => exact List.mem_append_right _ (List.mem_cons_of_mem _ hb)

variable {onLeaf : OnLeaf}

theorem Delivered.accept {leaf : BaoLeaf} (hdelivered : Delivered content (leaf :: rest) delivery) :
    Fallible.Ends (Delivered content rest) (fun stopped => StartOf content stopped.calls)
      (delivery.accept onLeaf content.length (leaf.content content)) := by
  obtain ⟨done, hleaves, hcalls, hbytes⟩ := hdelivered.leaves
  have hnone : delivery.finalLeaf = none := hdelivered.held.resolve_right (List.cons_ne_nil _ _)
  have hleaf : leaf ∈ (baoTree content.length).leaves := by rw [hleaves]; simp
  have hsize := length_content_of_mem hleaf
  have hleaves' : (baoTree content.length).leaves = (done ++ [leaf]) ++ rest := by
    rw [hleaves, List.append_assoc, List.singleton_append]
  have hbytes' : delivery.rawBytes + (leaf.content content).length =
      ((done ++ [leaf]).map BaoLeaf.size).sum := by
    rw [hbytes, hsize]
    simp
  rw [hnone, Option.toList_none, List.append_nil] at hcalls
  have hpassed : ∀ answer, (delivery.calls ++ [LeafCall.mk (leaf.content content) answer]).map LeafCall.leaf =
      (done ++ [leaf]).map (BaoLeaf.content content) := by
    intro answer
    rw [List.map_append, List.map_append, hcalls]
    rfl
  refine Delivery.accept_ends (fun _ => hdelivered.startOf) (fun hfull => ?_) fun hshort => ?_
  · refine ⟨⟨done ++ [leaf], hleaves', ?_, hfull ▸ hbytes'⟩, .inr ?_⟩
    · rw [List.map_append, hcalls]
      rfl
    · -- nothing is left to count, and no leaf but the first is empty
      have hlast := treeSize_baoTree content
      rw [treeSize, hleaves', List.map_append, List.sum_append, ← hbytes', hfull] at hlast
      refine List.eq_nil_iff_forall_not_mem.mpr fun next hnext => ?_
      have hpos : 0 < next.size := size_pos_of_mem_tail (by rw [hleaves]; exact mem_tail_append_cons hnext)
      have hle := List.le_sum_of_mem (List.mem_map_of_mem (f := BaoLeaf.size) hnext)
      omega
  · refine Delivery.call_ends ⟨⟨done ++ [leaf], hleaves', ?_, hbytes'⟩, .inl hnone⟩ fun error => ?_
    · rw [hnone, Option.toList_none, List.append_nil]
      exact hpassed none
    · exact startOf_of_leaves hleaves' ((List.append_nil _).trans (hpassed _))

theorem Delivered.finish (hdelivered : Delivered content [] delivery) :
    Fallible.Ends (fun result => (result.2.map LeafCall.leaf).flatten = content)
      (fun stopped => StartOf content stopped.calls) (delivery.finish onLeaf content.length) := by
  obtain ⟨done, hleaves, hcalls, -⟩ := hdelivered.leaves
  have hall := flatten_content_baoTree content
  rw [hleaves, List.append_nil, ← hcalls] at hall
  refine Delivery.finish_ends (fun _ => hdelivered.startOf) (fun _ hnone => ?_) fun leaf _ hsome => ?_
  · rwa [hnone, Option.toList_none, List.append_nil] at hall
  · rw [hsome, Option.toList_some] at hall
    have hpassed : ∀ answer,
        ((delivery.calls ++ [LeafCall.mk leaf answer]).map LeafCall.leaf).flatten = content := by
      intro answer
      rw [List.map_append]
      exact hall
    exact ⟨hpassed none, fun error => ⟨[], by rw [List.append_nil]; exact hpassed _⟩⟩

section Walk

variable [Blake3] [Zstd] [BaoDebug]

def pendingItems (pending : List (Pending BaoLeaf)) : List BaoChunk :=
  pending.flatMap fun subtree => (subtree.tree.walk subtree.index subtree.isRoot).map .ofVisit

/-- The stack holds the hashes of the subtrees still to visit, and every input hashed from here on is among `inputs`. -/
structure AuthenticWalk (content : List UInt8) (codec : WireCodec) (onLeaf : OnLeaf)
    (inputs : List HashInput) (pending : List (Pending BaoLeaf)) (decoder : Decoder) : Prop where
  stack : decoder.expected =
    pending.map fun subtree => subtree.tree.root (baoHashing content) subtree.isRoot
  hashed : ∀ input ∈ hashInputs onLeaf content.length codec (pendingItems pending) decoder,
    input ∈ inputs
  honest : ∀ subtree ∈ pending, ∀ input ∈ contentInputs content subtree.tree subtree.isRoot,
    input ∈ inputs
  delivered : Delivered content (pending.flatMap fun subtree => subtree.tree.leaves) decoder.delivery

variable {content : List UInt8} {codec : WireCodec} {onLeaf : OnLeaf} {inputs : List HashInput} {decoder : Decoder}

variable {rawSize : Nat} {item : BaoChunk} {items : List BaoChunk}

theorem mem_of_hashInputs_cons {input : HashInput}
    (hhashed : ∀ input ∈ hashInputs onLeaf rawSize codec (item :: items) decoder, input ∈ inputs)
    (hinput : hashInput codec decoder item = some input) : input ∈ inputs := by
  refine hhashed input ?_
  rw [hashInputs, hinput]
  exact List.mem_append_left _ (List.mem_singleton.mpr rfl)

theorem hashed_of_decodeItem {next : Decoder}
    (hhashed : ∀ input ∈ hashInputs onLeaf rawSize codec (item :: items) decoder, input ∈ inputs)
    (hitem : decodeItem onLeaf rawSize codec decoder item = .ok next) :
    ∀ input ∈ hashInputs onLeaf rawSize codec items next, input ∈ inputs := by
  intro input hinput
  refine hhashed input ?_
  rw [hashInputs, hitem]
  exact List.mem_append_right _ hinput

variable {rest : List (Pending BaoLeaf)} {isRoot : Bool}

theorem AuthenticWalk.leaf (hfree : CollisionFree inputs) {leaf : BaoLeaf} {index : Nat}
    (hauth : AuthenticWalk content codec onLeaf inputs (⟨.leaf leaf, index, isRoot⟩ :: rest) decoder) :
    Fallible.Ends (AuthenticWalk content codec onLeaf inputs rest) (fun stopped => StartOf content stopped.calls)
      (decodeItem onLeaf content.length codec decoder (.ofVisit (.leaf leaf isRoot))) := by
  let hashes := rest.map fun subtree => subtree.tree.root (baoHashing content) subtree.isRoot
  have hends : Fallible.Ends (fun next : Decoder => next.expected = hashes ∧
        Delivered content (rest.flatMap fun subtree => subtree.tree.leaves) next.delivery)
      (fun stopped => StartOf content stopped.calls)
      (decodeItem onLeaf content.length codec decoder (.ofVisit (.leaf leaf isRoot))) := by
    refine Fallible.Ends.bind (m := fun verified : List UInt8 × Decoder => verified.1 = leaf.content content ∧
      verified.2.expected = hashes ∧ verified.2.delivery = decoder.delivery)
      (ends_mapError ?_ fun _ => hauth.delivered.startOf) ?_
    · rintro ⟨data, next⟩ hverify
      obtain ⟨source, tail, hread, htop, rfl⟩ := verifyLeaf_ok hverify
      have hinput : hashInput codec decoder (.ofVisit (.leaf leaf isRoot)) =
          some (.subtree leaf.startByte data isRoot) := by
        simp only [hashInput, BaoChunk.ofVisit, hread, htop]
        rfl
      have hhonest := hauth.honest _ (List.mem_cons_self ..) _ (List.mem_singleton.mpr rfl)
      obtain ⟨hhash, htail⟩ := List.cons.inj (htop.symm.trans hauth.stack)
      obtain ⟨-, hdata, -⟩ := hfree.subtree _ _ _ _ _ _ (mem_of_hashInputs_cons hauth.hashed hinput)
        hhonest hhash
      exact ⟨hdata, htail, rfl⟩
    · rintro ⟨data, next⟩ ⟨hdata, hexpected, hdelivery⟩
      have hdelivered : Delivered content (leaf :: rest.flatMap fun subtree => subtree.tree.leaves)
          next.delivery := by
        rw [hdelivery]
        exact hauth.delivered
      obtain rfl : data = leaf.content content := hdata
      exact hdelivered.accept.bind fun _ hnext => ⟨hexpected, hnext⟩
  refine hends.imp fun next hitem hnext => ⟨hnext.1, hashed_of_decodeItem hauth.hashed hitem, ?_, hnext.2⟩
  exact fun subtree hsubtree => hauth.honest subtree (List.mem_cons_of_mem _ hsubtree)

theorem AuthenticWalk.node (hfree : CollisionFree inputs) {left right : HashTree BaoLeaf} {index : Nat}
    (hauth : AuthenticWalk content codec onLeaf inputs (⟨.node left right, index, isRoot⟩ :: rest) decoder) :
    Fallible.Ends (AuthenticWalk content codec onLeaf inputs
        (⟨left, index + 1, false⟩ :: ⟨right, index + 1 + left.nodeCount, false⟩ :: rest))
      (fun stopped => StartOf content stopped.calls)
      (decodeItem onLeaf content.length codec decoder (.ofVisit (.node index isRoot))) := by
  have hitems : pendingItems (⟨.node left right, index, isRoot⟩ :: rest) =
      .ofVisit (.node index isRoot) :: pendingItems
        (⟨left, index + 1, false⟩ :: ⟨right, index + 1 + left.nodeCount, false⟩ :: rest) := by
    simp [pendingItems, HashTree.walk]
  have hhashed := hauth.hashed
  rw [hitems] at hhashed
  have hends : Fallible.Ends (fun next : Decoder => next.expected =
        left.root (baoHashing content) false :: right.root (baoHashing content) false ::
          rest.map (fun subtree => subtree.tree.root (baoHashing content) subtree.isRoot) ∧
        next.delivery = decoder.delivery)
      (fun stopped => StartOf content stopped.calls)
      (decodeItem onLeaf content.length codec decoder (.ofVisit (.node index isRoot))) := by
    refine ends_mapError (fun next hparent => ?_) fun _ => hauth.delivered.startOf
    obtain ⟨pair, source, tail, hread, htop, rfl⟩ := decodeParent_ok hparent
    have hinput : hashInput codec decoder (.ofVisit (.node index isRoot)) =
        some (.parent (parseHashPair pair).1 (parseHashPair pair).2 isRoot) := by
      simp only [hashInput, BaoChunk.ofVisit, hread, htop]
    have hhonest := hauth.honest _ (List.mem_cons_self ..) _ (List.mem_cons_self ..)
    obtain ⟨hhash, htail⟩ := List.cons.inj (htop.symm.trans hauth.stack)
    obtain ⟨hleft, hright, -⟩ := hfree.parent _ _ _ _ _ _ (mem_of_hashInputs_cons hhashed hinput)
      hhonest hhash
    refine ⟨?_, rfl⟩
    simp only [if_true, List.singleton_append, hleft, hright, htail]
  refine hends.imp fun next hitem hnext => ⟨hnext.1, hashed_of_decodeItem hhashed hitem, ?_, ?_⟩
  · simp only [List.forall_mem_cons]
    have hhonest := hauth.honest _ (List.mem_cons_self ..)
    refine ⟨fun input hinput => hhonest input ?_, fun input hinput => hhonest input ?_,
      fun subtree hsubtree => hauth.honest subtree (List.mem_cons_of_mem _ hsubtree)⟩
    · exact List.mem_cons_of_mem _ (List.mem_append_left _ hinput)
    · exact List.mem_cons_of_mem _ (List.mem_append_right _ hinput)
  · have hdelivered := hauth.delivered
    rw [List.flatMap_cons, HashTree.leaves, List.append_assoc, ← hnext.2] at hdelivered
    exact hdelivered

/-- The inputs of the hash functions in a decode: those behind the root of the content, and those the decoder hashes. -/
def inputsUsed (content : List UInt8) (source : Source) (codec : WireCodec) (onLeaf : OnLeaf) :
    List HashInput :=
  contentInputs content (baoTree content.length) true ++
    hashInputs onLeaf content.length codec (responseIter content.length)
      ⟨source, [(baoTree content.length).root (baoHashing content) true], ⟨0, none, []⟩⟩

theorem decodeVerified_ends {source : Source}
    (hfree : CollisionFree (inputsUsed content source codec onLeaf)) :
    Fallible.Ends (fun result => (result.2.map LeafCall.leaf).flatten = content)
      (fun stopped => StartOf content stopped.calls)
      (decodeVerified source ((baoTree content.length).root (baoHashing content) true) content.length
        codec onLeaf) := by
  have hstart : AuthenticWalk content codec onLeaf (inputsUsed content source codec onLeaf)
      [⟨baoTree content.length, 0, true⟩]
      ⟨source, [(baoTree content.length).root (baoHashing content) true], ⟨0, none, []⟩⟩ := {
    stack := rfl
    hashed := by
      rw [pendingItems, List.flatMap_singleton]
      exact fun input hinput => List.mem_append_right _ hinput
    honest := by
      rw [List.forall_mem_singleton]
      exact fun input hinput => List.mem_append_left _ hinput
    delivered := by
      rw [List.flatMap_singleton]
      exact ⟨⟨[], (List.nil_append _).symm, rfl, rfl⟩, .inl rfl⟩ }
  have hwalk : Fallible.Ends (AuthenticWalk content codec onLeaf (inputsUsed content source codec onLeaf) [])
      (fun stopped => StartOf content stopped.calls)
      (((baoTree content.length).walk 0 true).foldlM
        (fun decoder visit => decodeItem onLeaf content.length codec decoder (.ofVisit visit))
        ⟨source, [(baoTree content.length).root (baoHashing content) true], ⟨0, none, []⟩⟩) :=
    HashTree.walk_ends (fun _ _ _ _ _ => AuthenticWalk.leaf hfree)
      (fun _ _ _ _ _ _ => AuthenticWalk.node hfree) hstart
  rw [← List.foldlM_map] at hwalk
  refine Fallible.Ends.bind hwalk fun decoder hauth => ?_
  have hempty : (!decoder.expected.isEmpty) = false := by
    rw [hauth.stack]
    rfl
  rw [hempty, if_neg Bool.false_ne_true]
  exact Fallible.Ends.bind (m := fun _ : Unit => True)
    (ends_mapError (fun _ _ => trivial) fun _ => hauth.delivered.startOf)
    fun _ _ => hauth.delivered.finish

/-- **Integrity.** Whatever is on the wire, the leaves passed on are the content from its start, and all of it when the decode succeeds. -/
theorem verified_stream_integrity {source : Source} {root : Hash} {rawSize : Nat}
    (hsize : content.length = rawSize)
    (hroot : (baoTree content.length).root (baoHashing content) true = root)
    (hfree : CollisionFree (inputsUsed content source codec onLeaf)) :
    (∀ stopped, decodeVerified source root rawSize codec onLeaf = .error stopped →
        (stopped.calls.map LeafCall.leaf).flatten <+: content) ∧
      ∀ bytes calls, decodeVerified source root rawSize codec onLeaf = .ok (bytes, calls) →
        (calls.map LeafCall.leaf).flatten = content := by
  subst hsize hroot
  have hends := decodeVerified_ends hfree
  refine ⟨fun stopped herror => ?_, fun bytes calls hok => ?_⟩
  · rw [herror] at hends
    exact hends
  · rw [hok] at hends
    exact hends

end Walk

section Golden

attribute [local instance] goldenBlake3 goldenZstd goldenDebug

theorem verified_stream_integrity_golden :
    ∃ calls, decodeVerified ⟨goldenNar ++ completeMarker, none⟩ (Blake3.hash goldenNar) 3 .raw
        (fun _ _ => none) = .ok (3, calls) ∧ (calls.map LeafCall.leaf).flatten = goldenNar := by
  have hinputs : inputsUsed goldenNar ⟨goldenNar ++ completeMarker, none⟩ .raw (fun _ _ => none) =
      [.subtree 0 goldenNar true, .subtree 0 goldenNar true] := by rfl
  have hfree : CollisionFree
      (inputsUsed goldenNar ⟨goldenNar ++ completeMarker, none⟩ .raw (fun _ _ => none)) := by
    rw [hinputs]
    constructor <;> simp +contextual
  have hdecode : decodeVerified ⟨goldenNar ++ completeMarker, none⟩ (Blake3.hash goldenNar) 3 .raw
      (fun _ _ => none) = .ok (3, [⟨goldenNar, none⟩]) := by rfl
  exact ⟨_, hdecode, (verified_stream_integrity rfl rfl hfree).2 _ _ hdecode⟩

end Golden

end NixP2p
