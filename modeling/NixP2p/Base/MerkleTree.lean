import Mathlib.Algebra.Ring.Nat
import Mathlib.Data.List.Basic
import NixP2p.Base.Fallible

/-!
# Merkle trees and their pre-order walk

A binary tree with contents at its leaves, hashed bottom up. A walk visits it in pre-order and names each inner node by how many inner nodes come before it. `foldlM_walk` reduces a fold over a walk to what the step does at a leaf and at an inner node, and `walk_ends` does the same for an invariant of the subtrees still to visit.
-/

namespace Merkle

variable {α η σ ε : Type}

inductive HashTree (α : Type) where
  | leaf (content : α)
  | node (left right : HashTree α)

/-- One stop of a walk: an inner node with its pre-order index, or a leaf; both say whether they are the root. -/
inductive Visit (α : Type) where
  | node (index : Nat) (isRoot : Bool)
  | leaf (content : α) (isRoot : Bool)

/-- The hash of a leaf and of a pair of hashes; the root is hashed apart from the nodes below it. -/
structure Hashing (α η : Type) where
  leaf : α → Bool → η
  node : η → η → Bool → η

namespace HashTree

def leaves : HashTree α → List α
  | .leaf content => [content]
  | .node left right => left.leaves ++ right.leaves

def nodeCount : HashTree α → Nat
  | .leaf _ => 0
  | .node left right => left.nodeCount + right.nodeCount + 1

def depth : HashTree α → Nat
  | .leaf _ => 0
  | .node left right => max left.depth right.depth + 1

def walk : HashTree α → Nat → Bool → List (Visit α)
  | .leaf content, _, isRoot => [.leaf content isRoot]
  | .node left right, index, isRoot =>
    .node index isRoot ::
      (left.walk (index + 1) false ++ right.walk (index + 1 + left.nodeCount) false)

section Hashed

variable (hashing : Hashing α η)

def root : HashTree α → Bool → η
  | .leaf content, isRoot => hashing.leaf content isRoot
  | .node left right, isRoot => hashing.node (left.root false) (right.root false) isRoot

def pairs : HashTree α → List (η × η)
  | .leaf _ => []
  | .node left right =>
    (left.root hashing false, right.root hashing false) :: (left.pairs ++ right.pairs)

@[simp] theorem length_pairs (tree : HashTree α) : (tree.pairs hashing).length = tree.nodeCount := by
  induction tree with
  | leaf => rfl
  | node left right ihl ihr => simp [pairs, nodeCount, ihl, ihr]

end Hashed

theorem length_leaves (tree : HashTree α) : tree.leaves.length = tree.nodeCount + 1 := by
  induction tree with
  | leaf => rfl
  | node left right ihl ihr =>
    rw [leaves, nodeCount, List.length_append, ihl, ihr]
    omega

def weigh (perNode : Nat) (weight : α → Nat) : Visit α → Nat
  | .node _ _ => perNode
  | .leaf content _ => weight content

theorem sum_walk (perNode : Nat) (weight : α → Nat) (tree : HashTree α) (index : Nat) (isRoot : Bool) :
    ((tree.walk index isRoot).map (weigh perNode weight)).sum =
      tree.nodeCount * perNode + (tree.leaves.map weight).sum := by
  induction tree generalizing index isRoot with
  | leaf content => simp [walk, nodeCount, leaves, weigh]
  | node left right ihl ihr =>
    rw [walk, List.map_cons, List.sum_cons, List.map_append, List.sum_append, ihl, ihr, nodeCount, leaves,
      List.map_append, List.sum_append, Nat.add_mul, Nat.add_mul, Nat.one_mul, weigh]
    omega

variable {tree : HashTree α}

theorem exists_mem_walk {content : α} (h : content ∈ tree.leaves) (index : Nat) (isRoot : Bool) :
    ∃ isRoot', .leaf content isRoot' ∈ tree.walk index isRoot := by
  induction tree generalizing index isRoot with
  | leaf other =>
    obtain rfl := List.mem_singleton.mp h
    exact ⟨isRoot, List.mem_singleton.mpr rfl⟩
  | node left right ihl ihr =>
    rcases List.mem_append.mp h with hleft | hright
    · obtain ⟨isRoot', hmem⟩ := ihl hleft (index + 1) false
      exact ⟨isRoot', List.mem_cons_of_mem _ (List.mem_append_left _ hmem)⟩
    · obtain ⟨isRoot', hmem⟩ := ihr hright (index + 1 + left.nodeCount) false
      exact ⟨isRoot', List.mem_cons_of_mem _ (List.mem_append_right _ hmem)⟩

/-- The tree over `count` leaves from `first` on in which every left subtree is perfect, for a height that holds them. -/
def leftComplete (content : Nat → α) : Nat → Nat → Nat → HashTree α
  | 0, first, _ => .leaf (content first)
  | height + 1, first, count =>
    -- the left part takes the largest power of two below the count
    if 2 ^ height < count then
      .node (leftComplete content height first (2 ^ height))
        (leftComplete content height (first + 2 ^ height) (count - 2 ^ height))
    else leftComplete content height first count

theorem leaves_leftComplete (content : Nat → α) {height first count : Nat} (hpos : 0 < count)
    (hfits : count ≤ 2 ^ height) :
    (leftComplete content height first count).leaves = (List.range' first count).map content := by
  induction height generalizing first count with
  | zero =>
    obtain rfl : count = 1 := by
      rw [Nat.pow_zero] at hfits
      omega
    rfl
  | succ height ih =>
    rw [Nat.pow_succ] at hfits
    rw [leftComplete]
    by_cases hsplit : 2 ^ height < count
    · have hcount : count = 2 ^ height + (count - 2 ^ height) := by omega
      rw [if_pos hsplit, leaves, ih (Nat.two_pow_pos height) (Nat.le_refl _), ih (by omega) (by omega),
        ← List.map_append, List.range'_append_1, ← hcount]
    · rw [if_neg hsplit, ih hpos (by omega)]

/-- What a step does at a leaf and at an inner node, with both subtrees met in turn, is what it does over the whole walk. -/
theorem foldlM_walk {step : σ → Visit α → Except ε σ} {Spec : HashTree α → Nat → Bool → σ → σ → Prop}
    (hleaf : ∀ content index isRoot s s', Spec (.leaf content) index isRoot s s' → step s (.leaf content isRoot) = .ok s')
    (hnode : ∀ left right index isRoot s s', Spec (.node left right) index isRoot s s' → ∃ s₁ s₂, step s (.node index isRoot) = .ok s₁ ∧ Spec left (index + 1) false s₁ s₂ ∧ Spec right (index + 1 + left.nodeCount) false s₂ s')
    {index : Nat} {isRoot : Bool} {s s' : σ} (hspec : Spec tree index isRoot s s') :
    (tree.walk index isRoot).foldlM step s = .ok s' := by
  induction tree generalizing index isRoot s s' with
  | leaf content =>
    rw [walk, List.foldlM_cons, hleaf _ _ _ _ _ hspec]
    rfl
  | node left right ihl ihr =>
    obtain ⟨s₁, s₂, hstep, hleft, hright⟩ := hnode _ _ _ _ _ _ hspec
    have hrest := ihr hright
    rw [walk, List.foldlM_cons, hstep]
    change List.foldlM step s₁ (left.walk _ _ ++ right.walk _ _) = _
    rw [List.foldlM_append, ihl hleft]
    exact hrest

end HashTree

structure Pending (α : Type) where
  tree : HashTree α
  index : Nat
  isRoot : Bool

/-- What holds of the subtrees still to visit holds when a walk is over; every other end satisfies `fail`. -/
theorem HashTree.walk_ends {step : σ → Visit α → Except ε σ} {I : List (Pending α) → σ → Prop}
    {fail : ε → Prop}
    (hleaf : ∀ content index isRoot rest s, I (⟨.leaf content, index, isRoot⟩ :: rest) s →
      Fallible.Ends (I rest) fail (step s (.leaf content isRoot)))
    (hnode : ∀ left right index isRoot rest s, I (⟨.node left right, index, isRoot⟩ :: rest) s →
      Fallible.Ends (I (⟨left, index + 1, false⟩ :: ⟨right, index + 1 + left.nodeCount, false⟩ :: rest))
        fail (step s (.node index isRoot)))
    {tree : HashTree α} {index : Nat} {isRoot : Bool} {rest : List (Pending α)} {s : σ}
    (hstart : I (⟨tree, index, isRoot⟩ :: rest) s) :
    Fallible.Ends (I rest) fail ((tree.walk index isRoot).foldlM step s) := by
  induction tree generalizing index isRoot rest s with
  | leaf content =>
    rw [walk, List.foldlM_cons]
    exact (hleaf _ _ _ _ _ hstart).bind fun _ hlast => hlast
  | node left right ihl ihr =>
    rw [walk, List.foldlM_cons]
    refine (hnode _ _ _ _ _ _ hstart).bind fun _ hleft => ?_
    rw [List.foldlM_append]
    exact (ihl hleft).bind fun _ hright => ihr hright

end Merkle
