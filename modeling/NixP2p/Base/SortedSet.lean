import Mathlib.Data.List.Sort

/-!
# Sets kept in order

A set over a strict total order, held as the ascending list of its members. A member is entered at its place or found there, so the list is determined by the set: two ascending lists with the same members are equal, whatever was entered in which order and how often.
-/

namespace SortedSet

variable {α : Type} (lt : α → α → Prop) [DecidableRel lt]

def insert (item : α) : List α → List α
  | [] => [item]
  | head :: rest =>
    if lt item head then item :: head :: rest
    else if lt head item then head :: insert item rest
    else head :: rest

def Ascending (items : List α) : Prop := items.Pairwise lt

variable {lt} [IsStrictTotalOrder α lt] {items other : List α} {item : α}

theorem mem_insert {member : α} : member ∈ insert lt item items ↔ member = item ∨ member ∈ items := by
  induction items with
  | nil => rw [insert, List.mem_singleton, or_iff_left List.not_mem_nil]
  | cons head rest ih =>
    rw [insert]
    split
    · rw [List.mem_cons]
    rename_i hnotBefore
    split
    · rw [List.mem_cons, ih, List.mem_cons]
      exact or_left_comm
    rename_i hnotAfter
    obtain rfl : item = head := by
      rcases trichotomous_of lt item head with hlt | heq | hgt
      · exact absurd hlt hnotBefore
      · exact heq
      · exact absurd hgt hnotAfter
    rw [List.mem_cons, ← or_assoc, or_self]

theorem Ascending.insert (hitems : Ascending lt items) (item : α) : Ascending lt (insert lt item items) := by
  induction items with
  | nil => exact List.pairwise_singleton lt item
  | cons head rest ih =>
    obtain ⟨hhead, hrest⟩ := List.pairwise_cons.mp hitems
    rw [SortedSet.insert]
    split
    · rename_i hbefore
      refine List.pairwise_cons.mpr ⟨fun member hmember => ?_, hitems⟩
      rcases List.mem_cons.mp hmember with rfl | hmember
      · exact hbefore
      · exact trans_of lt hbefore (hhead member hmember)
    split
    · rename_i hafter
      refine List.pairwise_cons.mpr ⟨fun member hmember => ?_, ih hrest⟩
      rcases mem_insert.mp hmember with rfl | hmember
      · exact hafter
      · exact hhead member hmember
    · exact hitems

omit [DecidableRel lt] in
theorem Ascending.nodup (hitems : Ascending lt items) : items.Nodup := by
  refine List.Pairwise.imp (fun hlt heq => ?_) hitems
  rw [heq] at hlt
  exact irrefl_of lt _ hlt

omit [DecidableRel lt] in
theorem Ascending.eq_of_mem_iff (hitems : Ascending lt items) (hother : Ascending lt other)
    (hmem : ∀ member, member ∈ items ↔ member ∈ other) : items = other := by
  have hperm : items.Perm other := (List.perm_ext_iff_of_nodup hitems.nodup hother.nodup).mpr hmem
  exact hperm.eq_of_pairwise (fun _ _ _ _ hlt hgt => absurd hgt (asymm_of lt hlt)) hitems hother

end SortedSet
