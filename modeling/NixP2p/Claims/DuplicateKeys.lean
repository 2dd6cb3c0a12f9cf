import NixP2p.Base.Fallible
import NixP2p.Claims.BatchHold

/-!
# No object of a wire text repeats a key

The JSON library keeps the last of two members with one key, so the decoders walk a text first and refuse it if an object anywhere in it repeats a key. What the library's deserializer presents to the walk is a tree that may break off, and keys are compared as the strings they decode to.
-/

namespace NixP2p

open Fallible

mutual

/-- A value, by the method of the visitor that it calls. -/
inductive JsonTree where
  | unit
  | bool (value : Bool)
  | i64 (value : Int)
  | u64 (value : Nat)
  | f64 (bits : UInt64)
  | str (raw : List UInt8)
  | none
  | some (value : JsonTree)
  | seq (items : JsonItems)
  | map (members : JsonMembers)
  | fault (why : String)

inductive JsonItems where
  | done
  | next (item : JsonTree) (rest : JsonItems)
  | fault (why : String)

inductive JsonMembers where
  | done
  | next (key : List UInt8) (value : JsonTree) (rest : JsonMembers)
  | fault (why : String)

end

/-- The JSON library: what it presents of a text, what follows the first value, how a key is decoded and an error worded. -/
class SerdeJson where
  present : List UInt8 → JsonTree
  finish : List UInt8 → Except String Unit
  decodeKey : List UInt8 → Except String String
  custom : String → String
  debug : String → String

section Guard

variable [SerdeJson]

mutual

def JsonTree.guardKeys : JsonTree → Except String Unit
  | .unit => .ok ()
  | .bool _ => .ok ()
  | .i64 _ => .ok ()
  | .u64 _ => .ok ()
  | .f64 _ => .ok ()
  | .str _ => .ok ()
  | .none => .ok ()
  | .some value => value.guardKeys
  | .seq items => items.guardKeys
  | .map members => members.guardKeys []
  | .fault why => .error why

def JsonItems.guardKeys : JsonItems → Except String Unit
  | .done => .ok ()
  | .next item rest =>
    match item.guardKeys with
    | .error why => .error why
    | .ok () => rest.guardKeys
  | .fault why => .error why

def JsonMembers.guardKeys (seen : List String) : JsonMembers → Except String Unit
  | .done => .ok ()
  | .next raw value rest =>
    match SerdeJson.decodeKey raw with
    | .error why => .error why
    | .ok key =>
      if seen.contains key then
        .error (SerdeJson.custom s!"duplicate key {SerdeJson.debug key} (ambiguous wire is rejected)")
      else match value.guardKeys with
        | .error why => .error why
        | .ok () => rest.guardKeys (key :: seen)
  | .fault why => .error why

end

def rejectDuplicateKeys (bytes : List UInt8) : Except ClaimCodecError Unit := do
  (SerdeJson.present bytes).guardKeys.mapError .malformed
  (SerdeJson.finish bytes).mapError .malformed

def JsonItems.toList : JsonItems → List JsonTree
  | .done => []
  | .next item rest => item :: rest.toList
  | .fault _ => []

def JsonMembers.toList : JsonMembers → List (List UInt8 × JsonTree)
  | .done => []
  | .next key value rest => (key, value) :: rest.toList
  | .fault _ => []

def JsonItems.Ends : JsonItems → Prop
  | .done => True
  | .next _ rest => rest.Ends
  | .fault _ => False

def JsonMembers.Ends : JsonMembers → Prop
  | .done => True
  | .next _ _ rest => rest.Ends
  | .fault _ => False

/-- A value at any depth of another one. -/
inductive JsonTree.Inside : JsonTree → JsonTree → Prop where
  | self (tree : JsonTree) : Inside tree tree
  | some {inner value : JsonTree} (hinner : Inside inner value) : Inside inner (.some value)
  | seq {inner item : JsonTree} {items : JsonItems} (hitem : item ∈ items.toList) (hinner : Inside inner item) :
      Inside inner (.seq items)
  | map {inner value : JsonTree} {key : List UInt8} {members : JsonMembers} (hmember : (key, value) ∈ members.toList)
      (hinner : Inside inner value) : Inside inner (.map members)

def JsonTree.Sound : JsonTree → Prop
  | .seq items => items.Ends
  | .map members => members.Ends ∧ ∀ member ∈ members.toList, ∃ key, SerdeJson.decodeKey member.1 = .ok key
  | .fault _ => False
  | _ => True

/-- The parser accepts the text: no fault at any depth, and nothing after the value. -/
def ParserAccepts (bytes : List UInt8) : Prop :=
  (∀ tree, JsonTree.Inside tree (SerdeJson.present bytes) → tree.Sound) ∧ SerdeJson.finish bytes = .ok ()

def JsonMembers.keys (members : JsonMembers) : List String :=
  members.toList.filterMap fun member => (SerdeJson.decodeKey member.1).toOption

/-- No object at any depth of the text has two members whose decoded keys are equal. -/
def KeysUnique (bytes : List UInt8) : Prop :=
  ∀ members, JsonTree.Inside (.map members) (SerdeJson.present bytes) → members.keys.Nodup

/-- Neither a fault nor a repeated key at any depth. -/
def JsonTree.Clean (tree : JsonTree) : Prop :=
  (∀ inner, JsonTree.Inside inner tree → inner.Sound) ∧
    ∀ members, JsonTree.Inside (.map members) tree → members.keys.Nodup

def JsonTree.Scalar : JsonTree → Prop
  | .some _ | .seq _ | .map _ | .fault _ => False
  | _ => True

namespace JsonTree

theorem clean_of_scalar {tree : JsonTree} (hscalar : tree.Scalar) : tree.Clean := by
  constructor
  · intro inner hinner
    cases hinner with
    | self => cases tree <;> trivial
    | some | seq | map => exact hscalar.elim
  · intro members hinner
    cases hinner with
    | self | some | seq | map => exact hscalar.elim

theorem clean_some_iff (value : JsonTree) : (JsonTree.some value).Clean ↔ value.Clean := by
  constructor
  · rintro ⟨hsound, hkeys⟩
    exact ⟨fun inner hinner => hsound inner (.some hinner), fun members hinner => hkeys members (.some hinner)⟩
  · rintro ⟨hsound, hkeys⟩
    constructor
    · intro inner hinner
      cases hinner with
      | self => trivial
      | some hinner => exact hsound inner hinner
    · intro members hinner
      cases hinner with
      | some hinner => exact hkeys members hinner

theorem clean_seq_iff (items : JsonItems) :
    (JsonTree.seq items).Clean ↔ items.Ends ∧ ∀ item ∈ items.toList, item.Clean := by
  constructor
  · rintro ⟨hsound, hkeys⟩
    refine ⟨hsound _ (.self _), fun item hitem => ⟨fun inner hinner => ?_, fun members hinner => ?_⟩⟩
    · exact hsound inner (.seq hitem hinner)
    · exact hkeys members (.seq hitem hinner)
  · rintro ⟨hends, hitems⟩
    constructor
    · intro inner hinner
      cases hinner with
      | self => exact hends
      | seq hitem hinner => exact (hitems _ hitem).1 inner hinner
    · intro members hinner
      cases hinner with
      | seq hitem hinner => exact (hitems _ hitem).2 members hinner

theorem clean_map_iff (members : JsonMembers) :
    (JsonTree.map members).Clean ↔ members.Ends ∧
      (∀ member ∈ members.toList, (∃ key, SerdeJson.decodeKey member.1 = .ok key) ∧ member.2.Clean) ∧
        members.keys.Nodup := by
  constructor
  · rintro ⟨hsound, hkeys⟩
    obtain ⟨hends, hdecoded⟩ := hsound _ (.self _)
    refine ⟨hends, fun member hmember => ⟨hdecoded member hmember, ?_, ?_⟩, hkeys members (.self _)⟩
    · exact fun inner hinner => hsound inner (.map hmember hinner)
    · exact fun nested hinner => hkeys nested (.map hmember hinner)
  · rintro ⟨hends, hmembers, hnodup⟩
    constructor
    · intro inner hinner
      cases hinner with
      | self => exact ⟨hends, fun member hmember => (hmembers member hmember).1⟩
      | map hmember hinner => exact (hmembers _ hmember).2.1 inner hinner
    · intro nested hinner
      cases hinner with
      | self => exact hnodup
      | map hmember hinner => exact (hmembers _ hmember).2.2 nested hinner

theorem not_clean_fault (why : String) : ¬(JsonTree.fault why).Clean :=
  fun hclean => hclean.1 _ (.self _)

end JsonTree

theorem JsonItems.guardKeys_next_eq_ok_iff (item : JsonTree) (rest : JsonItems) :
    (JsonItems.next item rest).guardKeys = .ok () ↔ item.guardKeys = .ok () ∧ rest.guardKeys = .ok () := by
  rw [JsonItems.guardKeys]
  cases item.guardKeys with
  | error why => simp only [reduceCtorEq, false_and]
  | ok done => simp only [true_and]

/-- One pass of the loop over the members: the key decodes, has not been seen, and counts as seen from then on. -/
theorem JsonMembers.guardKeys_next_eq_ok_iff (seen : List String) (raw : List UInt8) (value : JsonTree)
    (rest : JsonMembers) :
    (JsonMembers.next raw value rest).guardKeys seen = .ok () ↔
      ∃ key, SerdeJson.decodeKey raw = .ok key ∧ key ∉ seen ∧ value.guardKeys = .ok () ∧
        rest.guardKeys (key :: seen) = .ok () := by
  rw [JsonMembers.guardKeys]
  cases SerdeJson.decodeKey raw with
  | error why => simp only [reduceCtorEq, false_and, exists_false]
  | ok key =>
    simp only [guard_eq_ok_iff, List.contains_iff_mem, Except.ok.injEq, exists_eq_left']
    cases value.guardKeys with
    | error why => simp only [reduceCtorEq, and_false, false_and]
    | ok done => simp only [true_and]

theorem JsonMembers.keys_next {raw : List UInt8} {key : String} (hkey : SerdeJson.decodeKey raw = .ok key)
    (value : JsonTree) (rest : JsonMembers) : (JsonMembers.next raw value rest).keys = key :: rest.keys := by
  simp only [JsonMembers.keys, JsonMembers.toList, List.filterMap_cons, hkey, Except.toOption]

-- The induction follows the walk; the loop over the members carries the keys it has passed.
mutual

theorem JsonTree.guardKeys_eq_ok_iff : (tree : JsonTree) → (tree.guardKeys = .ok () ↔ tree.Clean)
  | .unit | .bool _ | .i64 _ | .u64 _ | .f64 _ | .str _ | .none => by
    rw [JsonTree.guardKeys]
    exact iff_of_true rfl (JsonTree.clean_of_scalar trivial)
  | .some value => by
    rw [JsonTree.guardKeys, JsonTree.clean_some_iff]
    exact value.guardKeys_eq_ok_iff
  | .seq items => by
    rw [JsonTree.guardKeys, JsonTree.clean_seq_iff]
    exact items.guardKeys_eq_ok_iff
  | .map members => by
    rw [JsonTree.guardKeys, JsonTree.clean_map_iff, members.guardKeys_eq_ok_iff []]
    simp only [List.not_mem_nil, not_false_eq_true, implies_true, and_true]
  | .fault why => by
    simp only [JsonTree.guardKeys, reduceCtorEq, JsonTree.not_clean_fault why]

theorem JsonItems.guardKeys_eq_ok_iff : (items : JsonItems) →
    (items.guardKeys = .ok () ↔ items.Ends ∧ ∀ item ∈ items.toList, item.Clean)
  | .done => by simp [JsonItems.guardKeys, JsonItems.Ends, JsonItems.toList]
  | .next item rest => by
    rw [JsonItems.guardKeys_next_eq_ok_iff, item.guardKeys_eq_ok_iff, rest.guardKeys_eq_ok_iff]
    simp only [JsonItems.Ends, JsonItems.toList, List.forall_mem_cons]
    exact and_left_comm
  | .fault why => by simp [JsonItems.guardKeys, JsonItems.Ends]

theorem JsonMembers.guardKeys_eq_ok_iff : (members : JsonMembers) → (seen : List String) →
    (members.guardKeys seen = .ok () ↔ members.Ends ∧
      (∀ member ∈ members.toList, (∃ key, SerdeJson.decodeKey member.1 = .ok key) ∧ member.2.Clean) ∧
        members.keys.Nodup ∧ ∀ key ∈ members.keys, key ∉ seen)
  | .done, seen => by
    simp [JsonMembers.guardKeys, JsonMembers.Ends, JsonMembers.toList, JsonMembers.keys]
  | .next raw value rest, seen => by
    rw [JsonMembers.guardKeys_next_eq_ok_iff]
    simp only [value.guardKeys_eq_ok_iff, fun key => rest.guardKeys_eq_ok_iff (key :: seen), JsonMembers.Ends,
      JsonMembers.toList, List.forall_mem_cons]
    constructor
    · rintro ⟨key, hkey, hfresh, hvalue, hends, hrest, hnodup, hunseen⟩
      rw [JsonMembers.keys_next hkey]
      have hapart : key ∉ rest.keys := fun hmem => hunseen key hmem List.mem_cons_self
      refine ⟨hends, ⟨⟨⟨key, hkey⟩, hvalue⟩, hrest⟩, List.nodup_cons.mpr ⟨hapart, hnodup⟩, ?_⟩
      refine List.forall_mem_cons.mpr ⟨hfresh, fun other hother hseen => ?_⟩
      exact hunseen other hother (List.mem_cons_of_mem _ hseen)
    · rintro ⟨hends, ⟨⟨⟨key, hkey⟩, hvalue⟩, hrest⟩, hnodup, hunseen⟩
      rw [JsonMembers.keys_next hkey] at hnodup hunseen
      obtain ⟨hapart, hnodup⟩ := List.nodup_cons.mp hnodup
      obtain ⟨hfresh, hunseen⟩ := List.forall_mem_cons.mp hunseen
      refine ⟨key, hkey, hfresh, hvalue, hends, hrest, hnodup, fun other hother => ?_⟩
      refine List.not_mem_cons_of_ne_of_not_mem ?_ (hunseen other hother)
      rintro rfl
      exact hapart hother
  | .fault why, seen => by simp [JsonMembers.guardKeys, JsonMembers.Ends]

end

theorem rejectDuplicateKeys_eq_ok_iff (bytes : List UInt8) :
    rejectDuplicateKeys bytes = .ok () ↔ ParserAccepts bytes ∧ KeysUnique bytes := by
  have hwalk := (SerdeJson.present bytes).guardKeys_eq_ok_iff
  simp only [rejectDuplicateKeys, bind_eq_ok_iff, mapError_eq_ok_iff]
  constructor
  · rintro ⟨⟨⟩, hdone, hfinish⟩
    obtain ⟨hsound, hkeys⟩ := hwalk.mp hdone
    exact ⟨⟨hsound, hfinish⟩, hkeys⟩
  · rintro ⟨⟨hsound, hfinish⟩, hkeys⟩
    exact ⟨(), hwalk.mpr ⟨hsound, hkeys⟩, hfinish⟩

/-- Of the texts the parser accepts the walk passes those in which no object at any depth repeats a decoded key, and it passes no other text. -/
theorem duplicate_rejection_complete (bytes : List UInt8) :
    (ParserAccepts bytes → (rejectDuplicateKeys bytes = .ok () ↔ KeysUnique bytes)) ∧
      (rejectDuplicateKeys bytes = .ok () → ParserAccepts bytes) := by
  rw [rejectDuplicateKeys_eq_ok_iff]
  exact ⟨fun haccepts => and_iff_right haccepts, And.left⟩

end Guard

end NixP2p
