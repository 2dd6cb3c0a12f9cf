import Mathlib.Data.Finset.Max

/-!
# The least members of a stream

Of a stream of items over a linear order only the `k` least are kept: an item is added to the kept set, and when the set has grown past `k` its greatest member is dropped and the loss is noted. However often and in whatever order the stream names its items, what is kept are the `k` least of all items named so far, and a loss is noted exactly when more than `k` were named.
-/

namespace Smallest

variable {α : Type} [LinearOrder α]

/-- `kept` are the `k` least members of `named`, all of them where there are no more. -/
structure LeastOf (k : Nat) (named kept : Finset α) : Prop where
  subset : kept ⊆ named
  card : kept.card = min k named.card
  below : ∀ item ∈ kept, ∀ other ∈ named, other ∉ kept → item < other

variable {k : Nat} {named kept : Finset α}

theorem LeastOf.card_le (h : LeastOf k named kept) : kept.card ≤ k :=
  h.card.trans_le (Nat.min_le_left _ _)

theorem LeastOf.eq_of_card_lt (h : LeastOf k named kept) (hlt : kept.card < k) : kept = named := by
  refine Finset.eq_of_subset_of_card_le h.subset ?_
  have := h.card
  omega

theorem LeastOf.unique {kept' : Finset α} (h : LeastOf k named kept) (h' : LeastOf k named kept') : kept = kept' := by
  refine Finset.eq_of_subset_of_card_le ?_ (h'.card.trans h.card.symm).le
  by_contra hsub
  obtain ⟨item, hitem, hmissing⟩ := Finset.not_subset.mp hsub
  -- as many items are in `kept'` and not in `kept`, and each of two such items is below the other
  have hmore : (kept ∩ kept').card < kept'.card := by
    rw [← h.card.trans h'.card.symm]
    refine Finset.card_lt_card ⟨Finset.inter_subset_left, fun hback => ?_⟩
    exact hmissing (Finset.mem_inter.mp (hback hitem)).2
  obtain ⟨other, hother, hnot⟩ := Finset.exists_mem_notMem_of_card_lt_card hmore
  have habsent : other ∉ kept := fun hkept => hnot (Finset.mem_inter.mpr ⟨hkept, hother⟩)
  exact lt_asymm (h.below item hitem other (h'.subset hother) habsent)
    (h'.below other hother item (h.subset hitem) hmissing)

theorem leastOf_zero (named : Finset α) : LeastOf 0 named ∅ :=
  ⟨Finset.empty_subset _, (Nat.zero_min _).symm, fun _ h => absurd h (Finset.notMem_empty _)⟩

theorem LeastOf.insert_least [DecidableEq α] {least : α} (hmem : least ∈ named)
    (hleast : ∀ other ∈ named, least ≤ other) (h : LeastOf k (named.erase least) kept) :
    LeastOf (k + 1) named (insert least kept) := by
  have hfresh : least ∉ kept := fun hkept => absurd rfl (Finset.mem_erase.mp (h.subset hkept)).1
  have hcard := h.card
  rw [Finset.card_erase_of_mem hmem] at hcard
  have hpos := Finset.card_pos.mpr ⟨least, hmem⟩
  refine ⟨fun item hitem => ?_, ?_, fun item hitem other hother habsent => ?_⟩
  · obtain rfl | hkept := Finset.mem_insert.mp hitem
    · exact hmem
    · exact Finset.mem_of_mem_erase (h.subset hkept)
  · rw [Finset.card_insert_of_notMem hfresh]
    omega
  · have hne : other ≠ least := fun heq => habsent (heq ▸ Finset.mem_insert_self _ _)
    obtain rfl | hkept := Finset.mem_insert.mp hitem
    · exact lt_of_le_of_ne (hleast other hother) (Ne.symm hne)
    · exact h.below item hkept other (Finset.mem_erase.mpr ⟨hne, hother⟩)
        fun hin => habsent (Finset.mem_insert_of_mem hin)

structure Selection (α : Type) where
  found : Finset α
  discarded : Bool

def Selection.empty : Selection α := ⟨∅, false⟩

def Selection.retain (k : Nat) (selection : Selection α) (item : α) : Selection α :=
  if item ∈ selection.found then selection
  else
    let grown := insert item selection.found
    if k < grown.card then ⟨grown.erase (grown.max' (Finset.insert_nonempty _ _)), true⟩
    else { selection with found := grown }

/-- The state of a selection that was fed exactly the members of `named`. -/
structure Selects (k : Nat) (named : Finset α) (selection : Selection α) : Prop where
  least : LeastOf k named selection.found
  discarded_iff : selection.discarded = true ↔ k < named.card

variable {selection : Selection α}

theorem Selects.unique {selection' : Selection α} (h : Selects k named selection)
    (h' : Selects k named selection') : selection = selection' := by
  obtain ⟨found, discarded⟩ := selection
  obtain ⟨found', discarded'⟩ := selection'
  have hfound : found = found' := h.least.unique h'.least
  have hdiscarded : discarded = discarded' :=
    Bool.eq_iff_iff.mpr (h.discarded_iff.trans h'.discarded_iff.symm)
  rw [hfound, hdiscarded]

theorem selects_empty (k : Nat) : Selects k ∅ (Selection.empty : Selection α) where
  least := ⟨Finset.Subset.refl _, by rw [Selection.empty, Finset.card_empty, Nat.min_zero],
    fun _ hitem => absurd hitem (Finset.notMem_empty _)⟩
  discarded_iff := by
    rw [Finset.card_empty]
    exact ⟨fun h => Bool.noConfusion h, fun h => absurd h (Nat.not_lt_zero k)⟩

theorem LeastOf.erase_max {item : α} (h : LeastOf k named kept) (hitem : item ∉ kept) (hfull : kept.card = k) :
    LeastOf k (insert item named)
      ((insert item kept).erase ((insert item kept).max' (Finset.insert_nonempty _ _))) := by
  have hgrown : (insert item kept).card = k + 1 := by rw [Finset.card_insert_of_notMem hitem, hfull]
  have hsub : insert item kept ⊆ insert item named := Finset.insert_subset_insert item h.subset
  have hmem := (insert item kept).max'_mem (Finset.insert_nonempty _ _)
  have hmax : ∀ x ∈ insert item kept, x ≤ (insert item kept).max' (Finset.insert_nonempty _ _) :=
    (insert item kept).le_max'
  generalize (insert item kept).max' (Finset.insert_nonempty _ _) = greatest at hmem hmax
  refine ⟨(Finset.erase_subset _ _).trans hsub, ?_, fun x hx y hy hout => ?_⟩
  · have := Finset.card_le_card hsub
    rw [Finset.card_erase_of_mem hmem]
    omega
  · obtain ⟨hne, hx⟩ := Finset.mem_erase.mp hx
    have hlt : x < greatest := lt_of_le_of_ne (hmax x hx) hne
    by_cases hgreatest : y = greatest
    · rw [hgreatest]
      exact hlt
    -- `y` was left out before, so it is above every item kept before
    have hskip : y ∉ insert item kept := fun hin => hout (Finset.mem_erase.mpr ⟨hgreatest, hin⟩)
    have hold : y ∈ named :=
      Finset.mem_of_mem_insert_of_ne hy fun heq => hskip (heq ▸ Finset.mem_insert_self _ _)
    have hunkept : y ∉ kept := fun hin => hskip (Finset.mem_insert_of_mem hin)
    obtain heq | hkept := Finset.mem_insert.mp hx
    · have : greatest ∈ kept := Finset.mem_of_mem_insert_of_ne hmem fun h => hne (heq.trans h.symm)
      exact hlt.trans (h.below greatest this y hold hunkept)
    · exact h.below x hkept y hold hunkept

theorem Selects.retain (h : Selects k named selection) (item : α) :
    Selects k (insert item named) (selection.retain k item) := by
  unfold Selection.retain
  by_cases hitem : item ∈ selection.found
  · rw [if_pos hitem, Finset.insert_eq_self.mpr (h.least.subset hitem)]
    exact h
  have hcard := Finset.card_insert_of_notMem hitem
  have hsub : insert item selection.found ⊆ insert item named :=
    Finset.insert_subset_insert item h.least.subset
  have hle := h.least.card_le
  rw [if_neg hitem]
  by_cases hover : k < (insert item selection.found).card
  · simp only [if_pos hover]
    exact ⟨h.least.erase_max hitem (by omega),
      ⟨fun _ => hover.trans_le (Finset.card_le_card hsub), fun _ => rfl⟩⟩
  simp only [if_neg hover]
  have hall : selection.found = named := h.least.eq_of_card_lt (by omega)
  refine ⟨⟨hsub, ?_, fun x _ y hy hout => absurd (hall ▸ hy) hout⟩, ?_⟩
  · rw [← hall]
    exact (Nat.min_eq_right (Nat.le_of_not_lt hover)).symm
  · rw [h.discarded_iff, ← hall]
    omega

theorem Selects.foldl_retain (h : Selects k named selection) (items : List α) :
    Selects k (named ∪ items.toFinset) (items.foldl (Selection.retain k) selection) := by
  induction items generalizing named selection with
  | nil => rw [List.toFinset_nil, Finset.union_empty]; exact h
  | cons item items ih =>
    rw [List.toFinset_cons, Finset.union_insert, ← Finset.insert_union]
    exact ih (h.retain item)

end Smallest
