import Mathlib.Data.List.Perm.Subperm
import NixP2p.Base.Compaction
import NixP2p.Base.Fallible
import NixP2p.Claims.BatchHold

/-!
# What compaction keeps

`Bindings` is what the binding check accepts, said of the slots and the positions the answers name. Compaction renames those positions through `Compaction.renamed`, so each answer still names the same known offers in the same order, and the response is written in no more bytes than the one that came in.
-/

namespace NixP2p

open Compaction Fallible Holdings

def OfferSlot.known? : OfferSlot → Option KnownTransport
  | .known offer => some offer
  | .unknown _ => none

def BatchHoldAnswer.offerIndices : BatchHoldAnswer → List OfferIndex
  | .holds _ offerIndices => offerIndices
  | .absent => []

def BatchHoldAnswer.isHave : BatchHoldAnswer → Bool
  | .holds _ _ => true
  | .absent => false

def BatchHoldAnswer.positions (answer : BatchHoldAnswer) : List Nat :=
  answer.offerIndices.map (·.toNat)

def tagAt (offers : List OfferSlot) (position : Nat) : Option String :=
  offers[position]?.map (·.wireTag)

/-! ### What the check accepts -/

structure AnswerBinds (offers : List OfferSlot) (positions : List Nat) : Prop where
  count_le : positions.length ≤ maxOffersPerAnswer
  in_range : ∀ position ∈ positions, position < offers.length
  distinct : positions.Nodup
  one_per_kind : (positions.map (tagAt offers)).Nodup

structure Bindings (offers : List OfferSlot) (answers : List BatchHoldAnswer) : Prop where
  nonempty : answers ≠ []
  answers_le : answers.length ≤ maxBatchHoldKeys
  offers_le : offers.length ≤ maxBatchHoldOffers
  binds : ∀ answer ∈ answers, AnswerBinds offers answer.positions
  referenced : ∀ position < offers.length, ∃ answer ∈ answers, position ∈ answer.positions

def mark (referenced : List Bool) (positions : List Nat) : List Bool :=
  positions.foldl (fun flags position => flags.set position true) referenced

theorem length_mark (referenced : List Bool) (positions : List Nat) :
    (mark referenced positions).length = referenced.length := by
  induction positions generalizing referenced with
  | nil => rfl
  | cons position positions ih =>
    change (mark (referenced.set position true) positions).length = _
    rw [ih, List.length_set]

theorem getElem?_mark (referenced : List Bool) (positions : List Nat) (slot : Nat) :
    (mark referenced positions)[slot]? =
      if slot ∈ positions then referenced[slot]?.map fun _ => true else referenced[slot]? := by
  induction positions generalizing referenced with
  | nil => rfl
  | cons position positions ih =>
    change (mark (referenced.set position true) positions)[slot]? = _
    rw [ih, List.getElem?_set]
    by_cases heq : position = slot
    · subst heq
      by_cases hlt : position < referenced.length
      · simp [hlt]
      · simp [hlt]
    · have hne : slot ≠ position := fun h => heq h.symm
      simp [heq, hne]

variable {positions : List Nat}

theorem findIdx?_mark_eq_none_iff {count : Nat} :
    (mark (List.replicate count false) positions).findIdx? (!·) = none ↔
      ∀ slot < count, slot ∈ positions := by
  have hlength : (mark (List.replicate count false) positions).length = count := by
    rw [length_mark, List.length_replicate]
  have hflag : ∀ slot < count, (mark (List.replicate count false) positions)[slot]? =
      some (decide (slot ∈ positions)) := by
    intro slot hslot
    rw [getElem?_mark, List.getElem?_replicate_of_lt hslot]
    by_cases hmem : slot ∈ positions <;> simp [hmem]
  rw [List.findIdx?_eq_none_iff]
  constructor
  · intro hall slot hslot
    have hup := hall _ (List.mem_of_getElem? (hflag slot hslot))
    simpa using hup
  · intro hall flag hmem
    obtain ⟨slot, hslot⟩ := List.mem_iff_getElem?.mp hmem
    have hlt : slot < count := by
      rw [← hlength]
      exact (List.getElem?_eq_some_iff.mp hslot).1
    rw [hflag slot hlt, decide_eq_true (hall slot hlt)] at hslot
    obtain rfl := Option.some.inj hslot
    rfl

section Check

variable {offers : List OfferSlot} {position : Nat} {scan : IndexScan}

theorem scanIndex_eq_ok_iff {next : IndexScan} {index : OfferIndex} :
    scanIndex offers position scan index = .ok next ↔
      ∃ kind, tagAt offers index.toNat = some kind ∧ index.toNat ∉ scan.seen ∧ kind ∉ scan.kinds ∧
        next = ⟨index.toNat :: scan.seen, kind :: scan.kinds, scan.referenced.set index.toNat true⟩ := by
  cases hoffer : offers[index.toNat]? with
  | none => simp [scanIndex, tagAt, hoffer]
  | some offer =>
    simp only [scanIndex, tagAt, hoffer, guard_eq_ok_iff, Option.map_some, Option.some.injEq,
      Except.ok.injEq, exists_eq_left']
    simp only [eq_comm]

theorem tagAt_isSome_iff : (∃ kind, tagAt offers position = some kind) ↔ position < offers.length := by
  rw [tagAt, ← Option.isSome_iff_exists, Option.isSome_map, isSome_getElem?]

variable {referenced : List Bool}

/-- The inner loop: no position repeats or was seen, no kind repeats or was seen, and the flags of the positions are set. -/
theorem foldlM_scanIndex_eq_ok_iff {indices : List OfferIndex} :
    (indices.foldlM (scanIndex offers position) scan).map (·.referenced) = .ok referenced ↔
      (∀ slot ∈ indices.map (·.toNat), slot < offers.length ∧ slot ∉ scan.seen ∧
        tagAt offers slot ∉ scan.kinds.map some) ∧
      (indices.map (·.toNat)).Nodup ∧ ((indices.map (·.toNat)).map (tagAt offers)).Nodup ∧
      referenced = mark scan.referenced (indices.map (·.toNat)) := by
  induction indices generalizing scan with
  | nil =>
    change Except.ok scan.referenced = .ok referenced ↔ _
    simp [mark, eq_comm]
  | cons index indices ih =>
    rw [map_foldlM_cons_eq_ok_iff]
    constructor
    · rintro ⟨next, hnext, hrest⟩
      obtain ⟨kind, hkind, hseen, hkinds, rfl⟩ := scanIndex_eq_ok_iff.mp hnext
      obtain ⟨hall, hnodup, hone, hmark⟩ := ih.mp hrest
      simp only [List.mem_cons, not_or, List.map_cons] at hall
      refine ⟨?_, ?_, ?_, hmark⟩
      · intro slot hslot
        rcases List.mem_cons.mp hslot with rfl | hslot
        · exact ⟨tagAt_isSome_iff.mp ⟨kind, hkind⟩, hseen, by simpa [hkind] using hkinds⟩
        · obtain ⟨hlt, ⟨-, hnew⟩, -, hother⟩ := hall slot hslot
          exact ⟨hlt, hnew, hother⟩
      · exact List.nodup_cons.mpr ⟨fun hmem => (hall _ hmem).2.1.1 rfl, hnodup⟩
      · refine List.nodup_cons.mpr ⟨fun hmem => ?_, hone⟩
        obtain ⟨slot, hslot, htag⟩ := List.mem_map.mp hmem
        exact (hall slot hslot).2.2.1 (htag.trans hkind)
    · rintro ⟨hall, hnodup, hone, hmark⟩
      rw [List.map_cons, List.map_cons] at hone
      obtain ⟨hfresh, hnodup⟩ := List.nodup_cons.mp hnodup
      obtain ⟨hkindFresh, hone⟩ := List.nodup_cons.mp hone
      obtain ⟨hlt, hseen, hkinds⟩ := hall index.toNat List.mem_cons_self
      obtain ⟨kind, hkind⟩ := tagAt_isSome_iff.mpr hlt
      rw [hkind] at hkinds hkindFresh
      have hnext : scanIndex offers position scan index = .ok _ := scanIndex_eq_ok_iff.mpr
        ⟨kind, hkind, hseen, fun hmem => hkinds (List.mem_map_of_mem hmem), rfl⟩
      refine ⟨_, hnext, ih.mpr ⟨fun slot hslot => ?_, hnodup, hone, hmark⟩⟩
      obtain ⟨hlt, hold, hother⟩ := hall slot (List.mem_cons_of_mem _ hslot)
      have hne : slot ≠ index.toNat := by
        rintro rfl
        exact hfresh hslot
      have htag : tagAt offers slot ≠ some kind := fun h =>
        hkindFresh (h ▸ List.mem_map_of_mem hslot)
      exact ⟨hlt, by simp [hne, hold], by simpa [htag] using hother⟩

variable {next : List Bool}

theorem scanAnswer_eq_ok_iff {answer : BatchHoldAnswer} :
    scanAnswer offers referenced (answer, position) = .ok next ↔
      AnswerBinds offers answer.positions ∧ next = mark referenced answer.positions := by
  cases answer with
  | absent =>
    have hbinds : AnswerBinds offers [] :=
      ⟨Nat.zero_le _, fun _ h => absurd h List.not_mem_nil, .nil, .nil⟩
    change Except.ok referenced = .ok next ↔ AnswerBinds offers [] ∧ next = referenced
    simp [hbinds, eq_comm]
  | holds blake3 indices =>
    rw [scanAnswer, guard_eq_ok_iff, foldlM_scanIndex_eq_ok_iff]
    constructor
    · rintro ⟨hcount, hall, hnodup, hone, hmark⟩
      refine ⟨⟨?_, fun slot hslot => (hall slot hslot).1, hnodup, hone⟩, hmark⟩
      change (indices.map _).length ≤ _
      rw [List.length_map]
      omega
    · rintro ⟨⟨hcount, hrange, hnodup, hone⟩, hmark⟩
      refine ⟨?_, fun slot hslot => ⟨hrange slot hslot, by simp⟩, hnodup, hone, hmark⟩
      change (indices.map _).length ≤ _ at hcount
      rw [List.length_map] at hcount
      omega

variable {answers : List BatchHoldAnswer}

theorem foldlM_scanAnswer_eq_ok_iff {start : Nat} :
    (answers.zipIdx start).foldlM (scanAnswer offers) referenced = .ok next ↔
      (∀ answer ∈ answers, AnswerBinds offers answer.positions) ∧
        next = mark referenced (answers.flatMap (·.positions)) := by
  induction answers generalizing start referenced with
  | nil =>
    change Except.ok referenced = .ok next ↔ _
    simp [mark, eq_comm]
  | cons answer answers ih =>
    have hflat : mark referenced ((answer :: answers).flatMap (·.positions)) =
        mark (mark referenced answer.positions) (answers.flatMap (·.positions)) := by
      rw [List.flatMap_cons, mark, List.foldl_append]
      rfl
    rw [List.zipIdx_cons, List.foldlM_cons, bind_eq_ok_iff, hflat]
    simp only [scanAnswer_eq_ok_iff, ih, List.forall_mem_cons]
    constructor
    · rintro ⟨_, ⟨hanswer, rfl⟩, hanswers, hnext⟩
      exact ⟨⟨hanswer, hanswers⟩, hnext⟩
    · rintro ⟨⟨hanswer, hanswers⟩, hnext⟩
      exact ⟨_, ⟨hanswer, rfl⟩, hanswers, hnext⟩

theorem checkBatchOfferBindings_eq_ok_iff :
    checkBatchOfferBindings offers answers = .ok () ↔ Bindings offers answers := by
  simp only [checkBatchOfferBindings, guard_eq_ok_iff, bind_eq_ok_iff, foldlM_scanAnswer_eq_ok_iff]
  constructor
  · rintro ⟨hnonempty, hkeys, hoffers, referenced, ⟨hbinds, rfl⟩, horphan⟩
    have hnone : (mark (List.replicate offers.length false) (answers.flatMap (·.positions))).findIdx?
        (!·) = none := by
      split at horphan
      · cases horphan
      · assumption
    refine ⟨hnonempty, by omega, by omega, hbinds, fun position hlt => ?_⟩
    exact List.mem_flatMap.mp (findIdx?_mark_eq_none_iff.mp hnone position hlt)
  · intro h
    have hnone := findIdx?_mark_eq_none_iff.mpr fun position hlt =>
      List.mem_flatMap.mpr (h.referenced position hlt)
    refine ⟨h.nonempty, Nat.not_lt.mpr h.answers_le, Nat.not_lt.mpr h.offers_le, _, ⟨h.binds, rfl⟩, ?_⟩
    rw [hnone]

/-- Every slot is named and an answer names at most four, so the slots are bounded by the positive answers. -/
theorem Bindings.length_le (h : Bindings offers answers) :
    offers.length ≤ maxOffersPerAnswer * (answers.filter (·.isHave)).length := by
  have hsub : List.range offers.length ⊆ answers.flatMap (·.positions) := fun position hmem =>
    List.mem_flatMap.mpr (h.referenced position (List.mem_range.mp hmem))
  have hnamed : offers.length ≤ (answers.flatMap (·.positions)).length := by
    simpa using (List.nodup_range.subperm hsub).length_le
  have hcount : ∀ named : List BatchHoldAnswer, (∀ answer ∈ named, AnswerBinds offers answer.positions) →
      (named.flatMap (·.positions)).length ≤ maxOffersPerAnswer * (named.filter (·.isHave)).length := by
    intro named hbinds
    induction named with
    | nil => exact Nat.zero_le _
    | cons answer named ih =>
      have hrest := ih fun other hother => hbinds other (List.mem_cons_of_mem answer hother)
      rw [List.flatMap_cons, List.length_append]
      cases answer with
      | absent =>
        change 0 + _ ≤ maxOffersPerAnswer * (named.filter (·.isHave)).length
        omega
      | holds blake3 indices =>
        have hle := (hbinds _ List.mem_cons_self).count_le
        rw [List.filter_cons_of_pos rfl, List.length_cons, Nat.mul_succ]
        omega
  exact hnamed.trans (hcount answers h.binds)

end Check

/-! ### Compaction as renaming -/

theorem foldl_push (slots : List OfferSlot) (table : SlotRemap) :
    slots.foldl SlotRemap.push table =
      ⟨table.remap ++ (remap OfferSlot.known? table.kept.length slots).map (·.map UInt16.ofNat),
        table.kept ++ slots.filterMap OfferSlot.known?⟩ := by
  induction slots generalizing table with
  | nil => simp [remap]
  | cons slot slots ih =>
    rw [List.foldl_cons, ih]
    cases slot with
    | known offer => simp [SlotRemap.push, remap, OfferSlot.known?]
    | unknown tag =>
      have hdropped : OfferSlot.known? (.unknown tag) = none := rfl
      rw [List.filterMap_cons_none hdropped]
      simp [SlotRemap.push, remap, OfferSlot.known?]

def newIndex (slots : List OfferSlot) (index : OfferIndex) : Option OfferIndex :=
  (renamed OfferSlot.known? slots index.toNat).map UInt16.ofNat

def BatchHoldAnswer.reindexed (slots : List OfferSlot) : BatchHoldAnswer → BatchHoldAnswer
  | .holds blake3 indices => .holds blake3 (indices.filterMap (newIndex slots))
  | .absent => .absent

theorem compactOfferSlots_eq (slots : List OfferSlot) (answers : List BatchHoldAnswer) :
    compactOfferSlots slots answers =
      (slots.filterMap OfferSlot.known?, answers.map (·.reindexed slots)) := by
  have hindex : ∀ index : OfferIndex,
      ((remap OfferSlot.known? 0 slots).map (·.map UInt16.ofNat))[index.toNat]?.join =
        newIndex slots index := by
    intro index
    rw [List.getElem?_map, newIndex, renamed]
    cases (remap OfferSlot.known? 0 slots)[index.toNat]? <;> rfl
  have hanswer : ∀ answer : BatchHoldAnswer,
      reindexAnswer ((remap OfferSlot.known? 0 slots).map (·.map UInt16.ofNat)) answer =
        answer.reindexed slots := by
    intro answer
    cases answer with
    | absent => rfl
    | holds blake3 indices => simp only [reindexAnswer, hindex]; rfl
  rw [compactOfferSlots, foldl_push]
  simp only [List.nil_append, List.length_nil, List.map_congr_left fun answer _ => hanswer answer]

section Renaming

variable {slots : List OfferSlot}

theorem lt_of_renamed {position target : Nat}
    (h : renamed OfferSlot.known? slots position = some target) :
    target < (slots.filterMap OfferSlot.known?).length := by
  obtain ⟨-, value, -, hvalue⟩ := renamed_eq_some h
  exact (List.getElem?_eq_some_iff.mp hvalue).1

variable (hslots : slots.length ≤ maxBatchHoldOffers)
include hslots

theorem newIndex_toNat (index : OfferIndex) :
    (newIndex slots index).map (·.toNat) = renamed OfferSlot.known? slots index.toNat := by
  rw [newIndex]
  cases hrenamed : renamed OfferSlot.known? slots index.toNat with
  | none => rfl
  | some target =>
    have hlt := lt_of_renamed hrenamed
    have hle : (slots.filterMap OfferSlot.known?).length ≤ slots.length := List.length_filterMap_le _ _
    have hcap : maxBatchHoldOffers < UInt16.size := by decide
    have hexact := UInt16.toNat_ofNat_of_lt' (show target < UInt16.size by omega)
    simp only [Option.map_some, hexact]

theorem positions_reindexed (answer : BatchHoldAnswer) :
    (answer.reindexed slots).positions =
      answer.positions.filterMap (renamed OfferSlot.known? slots) := by
  cases answer with
  | absent => rfl
  | holds blake3 indices =>
    change (indices.filterMap (newIndex slots)).map (·.toNat) =
      (indices.map (·.toNat)).filterMap (renamed OfferSlot.known? slots)
    rw [List.map_filterMap, List.filterMap_map]
    exact List.filterMap_congr fun index _ => newIndex_toNat hslots index

end Renaming

variable {slots : List OfferSlot}

theorem tagAt_of_renamed {position target : Nat} (h : renamed OfferSlot.known? slots position = some target) :
    tagAt (asOfferSlots (slots.filterMap OfferSlot.known?)) target = tagAt slots position := by
  obtain ⟨-, offer, hheld, hkept⟩ := renamed_eq_some h
  obtain ⟨slot, hslot, hknown⟩ := Option.bind_eq_some_iff.mp hheld
  rw [tagAt, asOfferSlots, List.getElem?_map, hkept, tagAt, hslot]
  cases slot with
  | known other =>
    obtain rfl : other = offer := Option.some.inj hknown
    rfl
  | unknown tag => cases hknown

theorem AnswerBinds.renamed (h : AnswerBinds slots positions) :
    AnswerBinds (asOfferSlots (slots.filterMap OfferSlot.known?))
      (positions.filterMap (Compaction.renamed OfferSlot.known? slots)) := by
  refine ⟨(List.length_filterMap_le _ _).trans h.count_le, ?_, nodup_filterMap_renamed h.distinct, ?_⟩
  · intro target htarget
    obtain ⟨position, -, hrenamed⟩ := List.mem_filterMap.mp htarget
    rw [asOfferSlots, List.length_map]
    exact lt_of_renamed hrenamed
  · rw [List.map_filterMap]
    refine List.pairwise_filterMap.mpr ((List.pairwise_map.mp h.one_per_kind).imp ?_)
    intro left right hne leftTag hleft rightTag hright
    obtain ⟨leftTarget, hleftTarget, rfl⟩ := Option.map_eq_some_iff.mp hleft
    obtain ⟨rightTarget, hrightTarget, rfl⟩ := Option.map_eq_some_iff.mp hright
    rw [tagAt_of_renamed hleftTarget, tagAt_of_renamed hrightTarget]
    exact hne

variable {answers : List BatchHoldAnswer}

theorem Bindings.compacted (h : Bindings slots answers) :
    Bindings (asOfferSlots (slots.filterMap OfferSlot.known?)) (answers.map (·.reindexed slots)) where
  nonempty := by
    intro hnil
    exact h.nonempty (List.map_eq_nil_iff.mp hnil)
  answers_le := by
    rw [List.length_map]
    exact h.answers_le
  offers_le := by
    rw [asOfferSlots, List.length_map]
    exact (List.length_filterMap_le _ _).trans h.offers_le
  binds := by
    intro answer hanswer
    obtain ⟨original, horiginal, rfl⟩ := List.mem_map.mp hanswer
    rw [positions_reindexed h.offers_le]
    exact (h.binds original horiginal).renamed
  referenced := by
    intro target htarget
    rw [asOfferSlots, List.length_map] at htarget
    obtain ⟨position, hlt, hrenamed⟩ := exists_renamed htarget
    obtain ⟨answer, hanswer, hnamed⟩ := h.referenced position hlt
    refine ⟨_, List.mem_map_of_mem hanswer, ?_⟩
    rw [positions_reindexed h.offers_le]
    exact List.mem_filterMap.mpr ⟨position, hnamed, hrenamed⟩

/-! ### Meaning -/

/-- An answer of the same kind, for the same content, whose locators are the known offers the first one names. -/
def SameMeaning (slots : List OfferSlot) (kept : List KnownTransport) :
    BatchHoldAnswer → BatchHoldAnswer → Prop
  | .holds blake3 indices, .holds blake3' indices' =>
    blake3 = blake3' ∧
      indices'.map (fun index => kept[index.toNat]?) =
        (indices.filterMap fun index => slots[index.toNat]?.bind OfferSlot.known?).map some
  | .absent, .absent => True
  | _, _ => False

theorem sameMeaning_reindexed (hslots : slots.length ≤ maxBatchHoldOffers) (answer : BatchHoldAnswer) :
    SameMeaning slots (slots.filterMap OfferSlot.known?) answer (answer.reindexed slots) := by
  cases answer with
  | absent => trivial
  | holds blake3 indices =>
    refine ⟨rfl, ?_⟩
    have hpositions := positions_reindexed hslots (.holds blake3 indices)
    change (indices.filterMap (newIndex slots)).map (·.toNat) = _ at hpositions
    calc (indices.filterMap (newIndex slots)).map
          (fun index => (slots.filterMap OfferSlot.known?)[index.toNat]?)
      _ = ((indices.filterMap (newIndex slots)).map (·.toNat)).map
          ((slots.filterMap OfferSlot.known?)[·]?) := by rw [List.map_map]; rfl
      _ = (((indices.map (·.toNat)).filterMap (renamed OfferSlot.known? slots)).map
          ((slots.filterMap OfferSlot.known?)[·]?)) := by rw [hpositions]; rfl
      _ = ((indices.map (·.toNat)).filterMap (held OfferSlot.known? slots)).map some :=
          map_filterMap_renamed _
      _ = _ := by rw [List.filterMap_map]; rfl

/-! ### Sizes -/

/-- The least text of an offer a peer sends: a known one in full, an unknown one as an empty object. -/
def OfferSlot.leastText : OfferSlot → List UInt8
  | .known offer => offer.toJson
  | .unknown _ => JsonText.object []

def BatchHoldResponseWire.leastText (wire : BatchHoldResponseWire) : List UInt8 :=
  responseText wire.schemaVersion (wire.offers.map (·.leastText)) wire.answers

theorem length_responseText_le {version : UInt16} {offers offers' : List (List UInt8)}
    {answers' : List BatchHoldAnswer}
    (hoffers : (JsonText.array offers').length ≤ (JsonText.array offers).length)
    (hanswers : (JsonText.array (answers'.map (·.toJson))).length ≤ (JsonText.array (answers.map (·.toJson))).length) :
    (responseText version offers' answers').length ≤ (responseText version offers answers).length := by
  simp only [responseText, JsonText.object, List.length_append, List.length_cons,
    JsonText.length_separated, total, List.map_cons, List.map_nil, List.sum_cons, List.sum_nil]
  omega

theorem length_toJson_reindexed (slots : List OfferSlot) (hslots : slots.length ≤ maxBatchHoldOffers)
    (answer : BatchHoldAnswer) : (answer.reindexed slots).toJson.length ≤ answer.toJson.length := by
  cases answer with
  | absent => exact Nat.le_refl _
  | holds blake3 indices =>
    have hindices : (JsonText.array ((indices.filterMap (newIndex slots)).map
          fun index => JsonText.decimal index.toNat)).length ≤
        (JsonText.array (indices.map fun index => JsonText.decimal index.toNat)).length := by
      apply JsonText.length_array_le
      apply JsonText.total_filterMap_le
      intro index _ image himage
      -- An entry only moves down, so its index is written with no more digits.
      have hrenamed := newIndex_toNat hslots index
      rw [himage] at hrenamed
      exact JsonText.length_decimal_le (renamed_eq_some hrenamed.symm).1
    simp only [BatchHoldAnswer.reindexed, BatchHoldAnswer.toJson, JsonText.object, List.length_append,
      List.length_cons, JsonText.length_separated, total, List.map_cons, List.map_nil, List.sum_cons,
      List.sum_nil]
    omega

theorem length_toJson_compacted (wire : BatchHoldResponseWire)
    (hslots : wire.offers.length ≤ maxBatchHoldOffers) :
    (responseText wire.schemaVersion ((wire.offers.filterMap OfferSlot.known?).map (·.toJson))
      (wire.answers.map (·.reindexed wire.offers))).length ≤ wire.leastText.length := by
  apply length_responseText_le
  · apply JsonText.length_array_le
    apply JsonText.total_filterMap_le
    intro slot _ offer hoffer
    cases slot with
    | known other =>
      obtain rfl : other = offer := Option.some.inj hoffer
      exact Nat.le_refl _
    | unknown tag => cases hoffer
  · apply JsonText.length_array_le
    have hsame : wire.answers.map (·.reindexed wire.offers) =
        wire.answers.filterMap fun answer => some (answer.reindexed wire.offers) := by
      rw [List.filterMap_eq_map']
    rw [hsame]
    apply JsonText.total_filterMap_le
    intro answer _ image himage
    obtain rfl := Option.some.inj himage
    exact length_toJson_reindexed wire.offers hslots answer

/-! ### Decoded responses -/

theorem checkSize_eq_ok_iff {len : Nat} : checkSize len = .ok () ↔ len ≤ maxClaimWireBytes := by
  rw [checkSize, guard_eq_ok_iff, Nat.not_lt]
  simp

variable {response : BatchHoldResponse}

theorem wire_of_decodeBatchHoldResponse [ClaimJson] {bytes : List UInt8} {keysAsked : Nat}
    (h : decodeBatchHoldResponse bytes keysAsked = .ok response) :
    ∃ wire, ClaimJson.fromSlice bytes = .ok wire ∧ bytes.length ≤ maxClaimWireBytes ∧
      Bindings wire.offers wire.answers ∧
      response = ⟨wire.schemaVersion, wire.offers.filterMap OfferSlot.known?,
        wire.answers.map (·.reindexed wire.offers)⟩ := by
  simp only [decodeBatchHoldResponse, bind_eq_ok_iff, guard_eq_ok_iff, mapError_eq_ok_iff,
    pure_eq_ok_iff, compactOfferSlots_eq] at h
  obtain ⟨⟨⟩, hsize, -, -, -, -, wire, hwire, -, -, -, ⟨⟩, hcheck, hresponse⟩ := h
  exact ⟨wire, hwire, checkSize_eq_ok_iff.mp hsize, checkBatchOfferBindings_eq_ok_iff.mp hcheck,
    hresponse.symm⟩

theorem encodeBatchHoldResponse_of_bindings (h : Bindings (asOfferSlots response.offers) response.answers) :
    encodeBatchHoldResponse response = encodeChecked response.toJson := by
  rw [encodeBatchHoldResponse, checkBatchOfferBindings_eq_ok_iff.mpr h, ok_bind]

theorem compactOfferSlots_known {offers : List KnownTransport} {answers : List BatchHoldAnswer}
    (h : Bindings (asOfferSlots offers) answers) :
    compactOfferSlots (asOfferSlots offers) answers = (offers, answers) := by
  have hkept : (asOfferSlots offers).filterMap OfferSlot.known? = offers := by
    rw [asOfferSlots, List.filterMap_map]
    exact List.filterMap_some
  have hknown : ∀ slot ∈ asOfferSlots offers, slot.known?.isSome := by
    intro slot hslot
    obtain ⟨offer, -, rfl⟩ := List.mem_map.mp hslot
    rfl
  have hanswer : ∀ answer ∈ answers, answer.reindexed (asOfferSlots offers) = answer := by
    intro answer hmem
    cases answer with
    | absent => rfl
    | holds blake3 indices =>
      have hindex : ∀ index ∈ indices, newIndex (asOfferSlots offers) index = some index := by
        intro index hindex
        have hrange := (h.binds _ hmem).in_range _ (List.mem_map_of_mem hindex)
        rw [newIndex, renamed, remap_of_forall _ hknown, List.getElem?_map, List.getElem?_range' hrange]
        simp
      rw [BatchHoldAnswer.reindexed, List.filterMap_congr hindex, List.filterMap_some]
  rw [compactOfferSlots_eq, hkept, List.map_congr_left hanswer, List.map_id']

theorem agreed_of_decodeBatchHoldResponse [ClaimJson] {bytes : List UInt8} {keysAsked : Nat}
    (h : decodeBatchHoldResponse bytes keysAsked = .ok response) :
    response.schemaVersion = querySchemaVersion ∧ response.answers.length = keysAsked := by
  simp only [decodeBatchHoldResponse, bind_eq_ok_iff, guard_eq_ok_iff, mapError_eq_ok_iff,
    pure_eq_ok_iff, compactOfferSlots_eq] at h
  obtain ⟨-, -, -, -, -, -, wire, -, ⟨⟩, hversion, hcount, -, -, rfl⟩ := h
  rw [List.length_map]
  refine ⟨?_, not_not.mp hcount⟩
  by_contra hother
  rw [checkVersion, if_neg hother] at hversion
  cases hversion

/-- Where the JSON library reads the text of a response as written, the decoder gives the response back to one who asked for as many keys; and one that was decoded is decoded again from its own text. -/
theorem batch_hold_round_trip [ClaimJson] (hkeys : ClaimJson.noDuplicateKeys response.toJson = .ok ())
    (hslots : ClaimJson.fromSlice response.toJson =
      .ok ⟨response.schemaVersion, asOfferSlots response.offers, response.answers⟩)
    {text : List UInt8} (htext : encodeBatchHoldResponse response = .ok text) (keysAsked : Nat) :
    (decodeBatchHoldResponse text keysAsked = .ok response ↔
      response.schemaVersion = querySchemaVersion ∧ response.answers.length = keysAsked) ∧
    ∀ bytes, decodeBatchHoldResponse bytes keysAsked = .ok response →
      decodeBatchHoldResponse text keysAsked = .ok response := by
  simp only [encodeBatchHoldResponse, encodeChecked, bind_eq_ok_iff, pure_eq_ok_iff] at htext
  obtain ⟨⟨⟩, hcheck, ⟨⟩, hsize, rfl⟩ := htext
  have hbindings := checkBatchOfferBindings_eq_ok_iff.mp hcheck
  have hread : response.schemaVersion = querySchemaVersion ∧ response.answers.length = keysAsked →
      decodeBatchHoldResponse response.toJson keysAsked = .ok response := by
    rintro ⟨hversion, rfl⟩
    have hsome : response.answers.length ≠ 0 := by simpa using hbindings.nonempty
    simp only [decodeBatchHoldResponse, hsize, ok_bind, hkeys, hslots, mapError_ok, if_neg hsome,
      if_neg (Nat.not_lt.mpr hbindings.answers_le), checkVersion, if_pos hversion, ne_eq, not_true_eq_false,
      if_false, hcheck, compactOfferSlots_known hbindings]
    rfl
  exact ⟨⟨agreed_of_decodeBatchHoldResponse, hread⟩, fun bytes h => hread (agreed_of_decodeBatchHoldResponse h)⟩

/-! ### A response with an unknown transport -/

def pigeonNode : NodeId := ⟨⟨List.replicate 32 0x11, rfl⟩⟩

def pigeonTorrent : InfoHash := .v1 ⟨List.replicate 20 0xbb, rfl⟩

def pigeonDigest : Blake3Digest := ⟨⟨List.replicate 32 0xaa, rfl⟩⟩

def pigeonSlots : List OfferSlot :=
  [.known (.iroh pigeonNode), .unknown "carrier_pigeon", .known (.bitTorrent pigeonTorrent)]

def pigeonAnswers : List BatchHoldAnswer :=
  [.holds pigeonDigest [2, 1, 0], .absent, .holds pigeonDigest [1]]

def pigeonWire : BatchHoldResponseWire := ⟨querySchemaVersion, pigeonSlots, pigeonAnswers⟩

def pigeonOffers : List KnownTransport := [.iroh pigeonNode, .bitTorrent pigeonTorrent]

/-- The last answer asserts a holding this build cannot fetch. -/
def pigeonReindexed : List BatchHoldAnswer :=
  [.holds pigeonDigest [1, 0], .absent, .holds pigeonDigest []]

@[reducible] def pigeonJson : ClaimJson where
  noDuplicateKeys _ := .ok ()
  fromSlice _ := .ok pigeonWire

def pigeonResponse : BatchHoldResponse := ⟨querySchemaVersion, pigeonOffers, pigeonReindexed⟩

theorem batch_hold_round_trip_pigeon :
    ∃ json : ClaimJson, @decodeBatchHoldResponse json pigeonResponse.toJson 3 = .ok pigeonResponse := by
  let json : ClaimJson := ⟨fun _ => .ok (), fun _ => .ok ⟨querySchemaVersion, asOfferSlots pigeonOffers, pigeonReindexed⟩⟩
  exact ⟨json, (batch_hold_round_trip rfl rfl (by decide +kernel) 3).1.mpr ⟨rfl, rfl⟩⟩

end NixP2p
