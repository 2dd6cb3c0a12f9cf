import NixP2p.Base.Fallible
import NixP2p.Claims.BatchHold

/-!
# The two decoders of an offer list

A claim keeps the offers of the transports it knows; a hold response keeps a slot for every element, so that indices do not shift, and drops the unknown ones later. Both refuse an element over the byte cap, a malformed offer of a known transport, and an unknown one that could name a list of identities. What the JSON library makes of a value is a field of `JsonValueCodec`.
-/

namespace NixP2p

open Fallible

/-- A value of the JSON library; the members of an object are in the order of its map. -/
inductive JsonValue where
  | null
  | bool (value : Bool)
  | number (text : String)
  | string (text : String)
  | array (items : List JsonValue)
  | object (members : List (String × JsonValue))

namespace JsonValue

def asStr : JsonValue → Option String
  | string text => some text
  | _ => none

def get (value : JsonValue) (key : String) : Option JsonValue :=
  match value with
  | object members => members.lookup key
  | _ => none

end JsonValue

/-- The compact text of a value, and the offer that a value spells. -/
class JsonValueCodec where
  toString : JsonValue → Except String String
  fromValue : JsonValue → Except String KnownTransport

def knownTransportTags : List String := ["iroh", "bittorrent"]

def maxOfferWireBytes : Nat := 2 * 1024

def checkExtraFields : Nat → List (String × JsonValue) → Except String Unit
  | _, [] => .ok ()
  | extraFields, (fieldName, fieldValue) :: rest =>
    if fieldName = "transport" then checkExtraFields extraFields rest
    else if 1 < extraFields + 1 then
      .error s!"an unknown-kind transport offer carries more than one field besides `transport` (`{fieldName}` is a second); at most one scalar string locator is tolerated, or it could name a LIST of content identities the asker never queried"
    else if fieldValue.asStr = none then
      .error s!"an unknown-kind transport offer field `{fieldName}` is not a scalar string; an array or nested object is a LIST affordance for naming several content identities at once, which the schema must not express"
    else checkExtraFields (extraFields + 1) rest

def rejectEnumerationShapedUnknownOffer (value : JsonValue) : Except String Unit :=
  match value with
  | .object members =>
    match value.get "transport" with
    | some (.string _) => checkExtraFields 0 members
    | _ => .error "an unknown-kind transport offer's `transport` tag must be present and a string; an absent, null, numeric, boolean, array, or object tag is refused (only a positively-declared string kind is tolerated for forward compat)"
  | _ => .error "an unknown-kind transport offer must be a JSON object"

def keepKnownOffers (slots : List OfferSlot) : List KnownTransport :=
  slots.filterMap fun
    | .known offer => some offer
    | .unknown _ => none

section Decoders

variable [JsonValueCodec]

def offerWithinByteCap (value : JsonValue) : Except String Unit := do
  let text ← (JsonValueCodec.toString value).mapError fun e =>
    s!"a transport offer could not be measured for its byte cap: {e}"
  if maxOfferWireBytes < text.utf8ByteSize then
    .error s!"a transport offer is {text.utf8ByteSize} serialized bytes, over the {maxOfferWireBytes}-byte per-offer cap; a single offer this large could pad a response toward the {maxClaimWireBytes}-byte frame (byte-amplification residual, TASK-223). Every legitimate locator is far smaller; loosening the cap later is backward-safe if a future transport ever needs more"
  else .ok ()

def pushKnownTransport (offers : List KnownTransport) (value : JsonValue) : Except String (List KnownTransport) := do
  offerWithinByteCap value
  if ((value.get "transport").bind JsonValue.asStr).any knownTransportTags.contains then
    return offers ++ [← JsonValueCodec.fromValue value]
  else
    rejectEnumerationShapedUnknownOffer value
    return offers

def deserializeKnownTransports (raw : List JsonValue) : Except String (List KnownTransport) :=
  raw.foldlM pushKnownTransport []

def pushTransportSlot (slots : List OfferSlot) (value : JsonValue) : Except String (List OfferSlot) := do
  offerWithinByteCap value
  let tag := (value.get "transport").bind JsonValue.asStr
  if tag.any knownTransportTags.contains then
    return slots ++ [.known (← JsonValueCodec.fromValue value)]
  else
    rejectEnumerationShapedUnknownOffer value
    return slots ++ [.unknown (tag.getD "")]

def deserializeTransportSlots (raw : List JsonValue) : Except String (List OfferSlot) :=
  raw.foldlM pushTransportSlot []

def JsonValue.WithinByteCap (value : JsonValue) : Prop :=
  ∃ text, JsonValueCodec.toString value = .ok text ∧ text.utf8ByteSize ≤ maxOfferWireBytes

def JsonValue.NamesKnown (value : JsonValue) : Prop :=
  ∃ tag ∈ knownTransportTags, value.get "transport" = some (.string tag)

/-- An object with a tag that is a string and at most one more member, which is a string too. -/
def JsonValue.Tolerable : JsonValue → Prop
  | .object members =>
    (∃ tag, members.lookup "transport" = some (.string tag)) ∧
      (members.filter (·.1 ≠ "transport")).length ≤ 1 ∧
      ∀ member ∈ members.filter (·.1 ≠ "transport"), ∃ locator, member.2 = .string locator
  | _ => False

/-- An offer of a known transport that is well formed, or an unknown one that names no list. -/
def JsonValue.Acceptable (value : JsonValue) : Prop :=
  value.WithinByteCap ∧ (value.NamesKnown → ∃ offer, JsonValueCodec.fromValue value = .ok offer) ∧
    (¬value.NamesKnown → value.Tolerable)

variable {value : JsonValue}

omit [JsonValueCodec] in
theorem JsonValue.asStr_eq_some_iff {text : String} : value.asStr = some text ↔ value = .string text := by
  cases value <;> simp [asStr]

omit [JsonValueCodec] in
theorem checkExtraFields_eq_ok_iff {extraFields : Nat} (h : extraFields ≤ 1) {members : List (String × JsonValue)} :
    checkExtraFields extraFields members = .ok () ↔
      extraFields + (members.filter (·.1 ≠ "transport")).length ≤ 1 ∧
        ∀ member ∈ members.filter (·.1 ≠ "transport"), ∃ locator, member.2 = .string locator := by
  induction members generalizing extraFields with
  | nil => simpa [checkExtraFields] using h
  | cons member members ih =>
    obtain ⟨fieldName, fieldValue⟩ := member
    by_cases htag : fieldName = "transport"
    · simp [checkExtraFields, htag, ih h]
    rw [checkExtraFields, if_neg htag, guard_eq_ok_iff, guard_eq_ok_iff, List.filter_cons_of_pos (by simpa using htag),
      List.length_cons, List.forall_mem_cons]
    have hstring : ¬fieldValue.asStr = none ↔ ∃ locator, fieldValue = .string locator := by
      rw [← ne_eq, Option.ne_none_iff_exists']
      exact exists_congr fun _ => JsonValue.asStr_eq_some_iff
    rw [hstring]
    constructor
    · rintro ⟨hroom, hvalue, hrest⟩
      obtain ⟨hlength, hrest⟩ := (ih (by omega)).mp hrest
      exact ⟨by omega, hvalue, hrest⟩
    · rintro ⟨hlength, hvalue, hrest⟩
      exact ⟨by omega, hvalue, (ih (by omega)).mpr ⟨by omega, hrest⟩⟩

omit [JsonValueCodec] in
theorem rejectEnumerationShapedUnknownOffer_eq_ok_iff :
    rejectEnumerationShapedUnknownOffer value = .ok () ↔ value.Tolerable := by
  cases value with
  | object members =>
    simp only [rejectEnumerationShapedUnknownOffer, JsonValue.get, JsonValue.Tolerable]
    split
    · rename_i tag hget
      rw [checkExtraFields_eq_ok_iff (Nat.zero_le 1), Nat.zero_add]
      exact ⟨fun h => ⟨⟨tag, hget⟩, h⟩, And.right⟩
    · rename_i hget
      exact iff_of_false (by simp) fun htag => hget _ htag.1.choose_spec
  | _ => simp [rejectEnumerationShapedUnknownOffer, JsonValue.Tolerable]

theorem offerWithinByteCap_eq_ok_iff : offerWithinByteCap value = .ok () ↔ value.WithinByteCap := by
  simp [offerWithinByteCap, JsonValue.WithinByteCap]

omit [JsonValueCodec] in
theorem any_knownTransportTags_iff :
    ((value.get "transport").bind JsonValue.asStr).any knownTransportTags.contains = true ↔ value.NamesKnown := by
  simp only [JsonValue.NamesKnown, Option.any_eq_true, Option.bind_eq_some_iff, JsonValue.asStr_eq_some_iff,
    List.contains_iff_mem]
  constructor
  · rintro ⟨tag, ⟨_, hget, rfl⟩, htag⟩
    exact ⟨tag, htag, hget⟩
  · rintro ⟨tag, htag, hget⟩
    exact ⟨tag, ⟨_, hget, rfl⟩, htag⟩

theorem map_pushTransportSlot (slots : List OfferSlot) (value : JsonValue) :
    (pushTransportSlot slots value).map keepKnownOffers = pushKnownTransport (keepKnownOffers slots) value := by
  unfold pushTransportSlot pushKnownTransport
  cases offerWithinByteCap value with
  | error why => rfl
  | ok =>
    simp only [ok_bind]
    split_ifs
    · cases JsonValueCodec.fromValue value with
      | error why => rfl
      | ok offer => exact congrArg Except.ok List.filterMap_append
    · cases rejectEnumerationShapedUnknownOffer value with
      | error why => rfl
      | ok => exact congrArg Except.ok (List.filterMap_append.trans (List.append_nil _))

theorem map_foldlM_pushTransportSlot (raw : List JsonValue) (slots : List OfferSlot) :
    (raw.foldlM pushTransportSlot slots).map keepKnownOffers = raw.foldlM pushKnownTransport (keepKnownOffers slots) := by
  induction raw generalizing slots with
  | nil => rfl
  | cons value raw ih =>
    rw [List.foldlM_cons, List.foldlM_cons, ← map_pushTransportSlot]
    cases pushTransportSlot slots value with
    | error why => rfl
    | ok next => exact ih next

theorem exists_pushKnownTransport_iff (offers : List KnownTransport) (value : JsonValue) :
    (∃ next, pushKnownTransport offers value = .ok next) ↔ value.Acceptable := by
  unfold pushKnownTransport JsonValue.Acceptable
  simp only [bind_eq_ok_iff]
  by_cases hknown : value.NamesKnown
  · simp only [if_pos (any_knownTransportTags_iff.mpr hknown), bind_eq_ok_iff, hknown, true_implies, not_true,
      false_implies, and_true]
    constructor
    · rintro ⟨_, _, hcap, offer, hoffer, _⟩
      exact ⟨offerWithinByteCap_eq_ok_iff.mp hcap, offer, hoffer⟩
    · rintro ⟨hcap, offer, hoffer⟩
      exact ⟨_, (), offerWithinByteCap_eq_ok_iff.mpr hcap, offer, hoffer, rfl⟩
  simp only [if_neg (mt any_knownTransportTags_iff.mp hknown), bind_eq_ok_iff, hknown, false_implies,
    not_false_eq_true, true_implies, true_and, ← rejectEnumerationShapedUnknownOffer_eq_ok_iff]
  constructor
  · rintro ⟨_, _, hcap, _, hshape, _⟩
    exact ⟨offerWithinByteCap_eq_ok_iff.mp hcap, hshape⟩
  · rintro ⟨hcap, hshape⟩
    exact ⟨_, (), offerWithinByteCap_eq_ok_iff.mpr hcap, (), hshape, rfl⟩

theorem exists_foldlM_pushKnownTransport_iff (raw : List JsonValue) (offers : List KnownTransport) :
    (∃ last, raw.foldlM pushKnownTransport offers = .ok last) ↔ ∀ value ∈ raw, value.Acceptable := by
  induction raw generalizing offers with
  | nil => exact iff_of_true ⟨offers, rfl⟩ (by simp)
  | cons value raw ih =>
    simp only [List.foldlM_cons, bind_eq_ok_iff, List.forall_mem_cons]
    rw [← exists_pushKnownTransport_iff offers value]
    constructor
    · rintro ⟨last, next, hnext, hlast⟩
      exact ⟨⟨next, hnext⟩, (ih next).mp ⟨last, hlast⟩⟩
    · rintro ⟨⟨next, hnext⟩, hrest⟩
      obtain ⟨last, hlast⟩ := (ih next).mpr hrest
      exact ⟨last, next, hnext, hlast⟩

/-- The slots of a list without the unknown ones are its known offers, or both decoders fail for one reason; both succeed exactly where every element is acceptable. -/
theorem transport_decoders_agree (raw : List JsonValue) :
    (deserializeTransportSlots raw).map keepKnownOffers = deserializeKnownTransports raw ∧
      ((∃ offers, deserializeKnownTransports raw = .ok offers) ↔ ∀ value ∈ raw, value.Acceptable) ∧
      ((∃ slots, deserializeTransportSlots raw = .ok slots) ↔ ∀ value ∈ raw, value.Acceptable) := by
  have hsame : (deserializeTransportSlots raw).map keepKnownOffers = deserializeKnownTransports raw :=
    map_foldlM_pushTransportSlot raw []
  have hknown := exists_foldlM_pushKnownTransport_iff raw []
  refine ⟨hsame, hknown, Iff.trans ?_ hknown⟩
  change _ ↔ ∃ offers, deserializeKnownTransports raw = .ok offers
  rw [← hsame]
  simp only [map_eq_ok_iff]
  constructor
  · rintro ⟨slots, hslots⟩
    exact ⟨_, slots, hslots, rfl⟩
  · rintro ⟨_, slots, hslots, _⟩
    exact ⟨slots, hslots⟩

end Decoders

end NixP2p
