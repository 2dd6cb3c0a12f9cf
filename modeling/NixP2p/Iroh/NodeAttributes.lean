import Mathlib.Data.Bool.AllAny
import NixP2p.Iroh.NodeRecord

/-!
# The attributes of a node record

Every piece of a record is written as one attribute and read back from it. What the validation lets through contains no equals sign, so an attribute splits where it was joined, and apart from a relay each fits the 255 bytes of a string. The order of locations is linear, so the sorted list without repetitions is determined by its members.
-/

namespace NixP2p.IrohRecord

open Fallible Wire

theorem length_segments (ip : Ipv6Addr) : (segments ip).length = 8 := by
  rw [segments, List.length_cons, Vector.length_toList]

namespace SocketAddr

theorem normalize_withoutFlow {address : SocketAddr} (hnormal : normalizeSocketAddr address = address) :
    normalizeSocketAddr address.withoutFlow = address.withoutFlow := by
  cases address with
  | v4 ip port => rfl
  | v6 ip port flowinfo scopeId =>
    simp only [normalizeSocketAddr, withoutFlow] at hnormal ⊢
    cases hmapped : toIpv4Mapped ip with
    | none => rfl
    | some ipv4 =>
      rw [hmapped] at hnormal
      cases hnormal

end SocketAddr

variable {address : SocketAddr}

theorem normalize_of_validate [SocketText] (h : validateDirectAddress address = .ok ()) :
    normalizeSocketAddr address = address := by
  unfold validateDirectAddress at h
  by_contra hnormal
  simp only [ne_eq, hnormal, not_false_eq_true, if_true, reduceCtorEq] at h

theorem validateDirectAddress_withoutFlow [SocketText] (h : validateDirectAddress address = .ok ()) :
    validateDirectAddress address.withoutFlow = .ok () := by
  have hnormal := normalize_of_validate h
  have hnormal' := SocketAddr.normalize_withoutFlow hnormal
  cases address with
  | v4 ip port => exact h
  | v6 ip port flowinfo scopeId =>
    have htext : (SocketAddr.v6 ip port flowinfo scopeId).withoutFlow.text = _ := SocketText.text_withoutFlow _
    unfold validateDirectAddress at h ⊢
    rw [if_neg (not_not.mpr hnormal)] at h
    rw [if_neg (not_not.mpr hnormal'), htext]
    exact h

theorem map_toNat_injective {left right : List UInt16} (h : left.map UInt16.toNat = right.map UInt16.toNat) :
    left = right :=
  List.map_injective_iff.mpr (fun _ _ heq => UInt16.toNat_inj.mp heq) h

theorem segments_injective {left right : Ipv6Addr} (h : segments left = segments right) : left = right := by
  obtain ⟨hfirst, hrest⟩ := List.cons.inj h
  rw [Ipv6Addr.mk.injEq]
  exact ⟨hfirst, Vector.toList_inj.mp hrest⟩

theorem NodeLocation.sortKey_injective {left right : NodeLocation} (h : left.sortKey = right.sortKey) :
    left = right := by
  match left, right with
  | .direct (.v4 ⟨a, b, c, d⟩ port), .direct (.v4 ⟨a', b', c', d'⟩ port') =>
    simp only [NodeLocation.sortKey, List.cons.injEq, UInt8.toNat_inj, UInt16.toNat_inj] at h
    obtain ⟨-, -, rfl, rfl, rfl, rfl, rfl, -⟩ := h
    rfl
  | .direct (.v6 ip port flowinfo scopeId), .direct (.v6 ip' port' flowinfo' scopeId') =>
    simp only [NodeLocation.sortKey, List.cons_append, List.cons.injEq, true_and] at h
    have hlength : ((segments ip).map UInt16.toNat).length = ((segments ip').map UInt16.toNat).length := by
      rw [List.length_map, List.length_map, length_segments, length_segments]
    obtain ⟨hip, hrest⟩ := List.append_inj h hlength
    simp only [List.cons.injEq, UInt16.toNat_inj, UInt32.toNat_inj] at hrest
    obtain ⟨rfl, rfl, rfl, -⟩ := hrest
    rw [segments_injective (map_toNat_injective hip)]
  | .relay url, .relay url' =>
    simp only [NodeLocation.sortKey, List.cons.injEq, true_and] at h
    have hbytes := List.map_injective_iff.mpr (fun _ _ heq => UInt8.toNat_inj.mp heq) h
    rw [Text.toUtf8_injective hbytes]
  | .direct (.v4 ⟨_, _, _, _⟩ _), .direct (.v6 _ _ _ _) | .direct (.v6 _ _ _ _), .direct (.v4 ⟨_, _, _, _⟩ _) =>
    simp [NodeLocation.sortKey] at h
  | .direct (.v4 ⟨_, _, _, _⟩ _), .relay _ | .direct (.v6 _ _ _ _), .relay _ | .relay _, .direct (.v4 ⟨_, _, _, _⟩ _)
  | .relay _, .direct (.v6 _ _ _ _) => simp [NodeLocation.sortKey] at h

instance : Std.Total NodeLocation.Le where
  total left right := List.le_total left.sortKey right.sortKey

instance : IsTrans NodeLocation NodeLocation.Le where
  trans _ _ _ h h' := List.le_trans h h'

instance : Std.Antisymm NodeLocation.Le where
  antisymm _ _ h h' := NodeLocation.sortKey_injective (List.le_antisymm h h')

def Ascending (locations : List NodeLocation) : Prop :=
  locations.Pairwise fun left right => left.Le right ∧ left ≠ right

variable {location : NodeLocation} {locations : List NodeLocation}

theorem mem_dedup : location ∈ dedup locations ↔ location ∈ locations := by
  induction locations using dedup.induct with
  | case1 => rfl
  | case2 only => rfl
  | case3 first rest ih =>
    rw [dedup, if_pos rfl, ih]
    simp
  | case4 first second rest hne ih => rw [dedup, if_neg hne, List.mem_cons, ih, ← List.mem_cons]

theorem ascending_dedup (hsorted : locations.Pairwise NodeLocation.Le) : Ascending (dedup locations) := by
  induction locations using dedup.induct with
  | case1 => exact .nil
  | case2 only => exact List.pairwise_singleton _ _
  | case3 first rest ih =>
    rw [dedup, if_pos rfl]
    exact ih (List.pairwise_cons.mp hsorted).2
  | case4 first second rest hne ih =>
    obtain ⟨hfirst, hrest⟩ := List.pairwise_cons.mp hsorted
    rw [dedup, if_neg hne]
    refine List.pairwise_cons.mpr ⟨fun location hlocation => ?_, ih hrest⟩
    have hmem := mem_dedup.mp hlocation
    refine ⟨hfirst location hmem, ?_⟩
    rintro rfl
    -- The first would be both below and above the second.
    rcases List.mem_cons.mp hmem with heq | hmem
    · exact hne heq
    · have hle : second.Le first := (List.pairwise_cons.mp hrest).1 first hmem
      exact hne (Std.Antisymm.antisymm _ _ (hfirst second List.mem_cons_self) hle)

theorem dedup_of_ascending (h : Ascending locations) : dedup locations = locations := by
  induction locations using dedup.induct with
  | case1 => rfl
  | case2 only => rfl
  | case3 first rest ih => exact absurd rfl ((List.pairwise_cons.mp h).1 first List.mem_cons_self).2
  | case4 first second rest hne ih => rw [dedup, if_neg hne, ih (List.pairwise_cons.mp h).2]

theorem ascending_canonicalLocations (locations : List NodeLocation) : Ascending (canonicalLocations locations) :=
  ascending_dedup (List.pairwise_insertionSort NodeLocation.Le locations)

theorem mem_canonicalLocations : location ∈ canonicalLocations locations ↔ location ∈ locations := by
  rw [canonicalLocations, mem_dedup, List.mem_insertionSort]

theorem insertionSort_of_ascending (h : Ascending locations) :
    locations.insertionSort NodeLocation.Le = locations :=
  List.Pairwise.insertionSort_eq (h.imp And.left)

theorem canonicalLocations_of_ascending (h : Ascending locations) : canonicalLocations locations = locations := by
  rw [canonicalLocations, insertionSort_of_ascending h, dedup_of_ascending h]

theorem ascending_concat_iff :
    Ascending (locations ++ [location]) ↔
      Ascending locations ∧ ∀ previous ∈ locations.getLast?, ¬location.Le previous := by
  simp only [Ascending, List.pairwise_append, List.pairwise_cons, List.mem_singleton, forall_eq, List.not_mem_nil,
    false_implies, implies_true, List.Pairwise.nil, true_and]
  refine and_congr_right fun hascending => ⟨fun hbefore previous hprevious hle => ?_, fun hlast previous hprevious => ?_⟩
  · obtain ⟨hle', hne⟩ := hbefore previous (List.mem_of_getLast? hprevious)
    exact hne (Std.Antisymm.antisymm _ _ hle' hle)
  · -- The last of the list is the largest, and the new location comes after it.
    obtain ⟨front, last, rfl⟩ := (List.eq_nil_or_concat' locations).resolve_left (List.ne_nil_of_mem hprevious)
    have hafter := hlast last (by simp)
    have hle : last.Le location := (Std.Total.total last location).resolve_right hafter
    rcases List.mem_append.mp hprevious with hfront | hself
    · have hbelow := ((List.pairwise_append.mp hascending).2.2 previous hfront last List.mem_cons_self).1
      refine ⟨IsTrans.trans _ _ _ hbelow hle, ?_⟩
      rintro rfl
      exact hafter hbelow
    obtain rfl := List.mem_singleton.mp hself
    refine ⟨hle, ?_⟩
    rintro rfl
    exact hafter hle

theorem not_mem_of_ascending_concat (h : Ascending (locations ++ [location])) : location ∉ locations := by
  intro hmem
  exact ((List.pairwise_append.mp h).2.2 location hmem location List.mem_cons_self).2 rfl

theorem parseU64_showU64 (label : String) (value : UInt64) : parseU64 label (Text.showU64 value) = .ok value := by
  have hall : (Text.showU64 value).all Char.isDigit = true :=
    List.all_eq_true.mpr fun char hchar => Text.isDigit_of_mem_toDigits hchar
  have hzero : ¬(1 < (Text.showU64 value).length ∧ (Text.showU64 value).head? = some '0') := by
    rintro ⟨hlong, hhead⟩
    by_cases hvalue : value.toNat = 0
    · rw [Text.showU64, hvalue, Nat.toDigits_zero] at hlong
      exact absurd hlong (by decide)
    · exact Text.head?_toDigits_ne_zero hvalue hhead
  have hne : Text.showU64 value ≠ [] := Nat.toDigits_ne_nil
  rw [parseU64, hall, if_neg (by simp [hne]), if_neg hzero, Text.parseU64_showU64]

variable {raw : List Char}

theorem dropPlus_of_digits (h : ∀ char ∈ raw, char.isDigit = true) : Text.dropPlus raw = raw := by
  unfold Text.dropPlus
  split
  · cases h '+' List.mem_cons_self
  · rfl

theorem parseU64_eq_ok_iff {label : String} {value : UInt64} :
    parseU64 label raw = .ok value ↔ raw = Text.showU64 value := by
  constructor
  · intro h
    simp only [parseU64, guard_eq_ok_iff, not_or, not_and, Bool.not_eq_false] at h
    obtain ⟨⟨hne, hall⟩, hzero, h⟩ := h
    have hdigits := List.all_eq_true.mp hall
    have hcanonical := Text.toDigits_ofDigitChars hne hdigits hzero
    cases hparse : Text.parseU64 raw with
    | none => simp [hparse] at h
    | some parsed =>
      simp only [hparse, Except.ok.injEq] at h
      subst h
      rw [Text.parseU64, dropPlus_of_digits hdigits, if_neg (by simp [hne, hall])] at hparse
      split_ifs at hparse with hfits
      obtain rfl := Option.some.inj hparse
      rw [Text.showU64, UInt64.toNat_ofNat_of_lt' hfits, hcanonical]
  · rintro rfl
    exact parseU64_showU64 label value

theorem parseU32_eq_ok_iff {label : String} {value : UInt32} :
    parseU32 label raw = .ok value ↔ raw = Nat.toDigits 10 value.toNat := by
  simp only [parseU32, bind_eq_ok_iff, parseU64_eq_ok_iff]
  constructor
  · rintro ⟨wide, rfl, h⟩
    split_ifs at h with hfits
    obtain rfl := Except.ok.inj h
    rw [Text.showU64, UInt64.toNat_toUInt32, Nat.mod_eq_of_lt hfits]
  · rintro rfl
    refine ⟨value.toUInt64, ?_, ?_⟩
    · rw [Text.showU64, UInt32.toNat_toUInt64]
    · rw [if_pos (by rw [UInt32.toNat_toUInt64]; exact value.toNat_lt)]
      exact congrArg Except.ok (by simp)

namespace NodeLocation

def entry [SocketText] : NodeLocation → List Char × List Char
  | direct address => ("addr".toList, address.text)
  | relay url => ("relay".toList, url)

theorem attributeText_eq [SocketText] (location : NodeLocation) : location.attributeText = attributeOf location.entry := by
  cases location <;> rfl

def withoutFlow : NodeLocation → NodeLocation
  | direct address => direct address.withoutFlow
  | relay url => relay url

end NodeLocation

section Attributes

variable [UrlLibrary]

theorem splitAttribute_eq_ok_iff {value : List Char} {entry : List Char × List Char} :
    splitAttribute value = .ok entry ↔
      value = attributeOf entry ∧ entry.1 ≠ [] ∧ '=' ∉ entry.1 ∧ entry.2 ≠ [] ∧ '=' ∉ entry.2 := by
  obtain ⟨key, raw⟩ := entry
  constructor
  · intro h
    rw [splitAttribute] at h
    cases hsplit : Text.splitOnce '=' value with
    | none => simp [hsplit] at h
    | some parts =>
      obtain ⟨left, right⟩ := parts
      simp only [hsplit, guard_eq_ok_iff, Except.ok.injEq, Prod.mk.injEq, not_or] at h
      obtain ⟨⟨hleft, hright, hmark⟩, rfl, rfl⟩ := h
      have hfirst := Text.not_mem_of_splitOnce hsplit
      exact ⟨Text.eq_of_splitOnce hsplit, hleft, hfirst, hright, by simpa using hmark⟩
  · rintro ⟨rfl, hkey, hmark, hraw, hmark'⟩
    simp only at hkey hraw hmark hmark'
    simp [splitAttribute, attributeOf, Text.splitOnce_append hmark, hkey, hraw, hmark']

variable {url : List Char}

theorem parseRelay_of_validate (h : validateRelayUrl url = .ok ()) :
    '=' ∉ url ∧ ∃ parsed, parseRelay url = .ok parsed ∧ parsed.asStr = url := by
  unfold validateRelayUrl at h
  simp only [guard_eq_ok_iff, bind_eq_ok_iff] at h
  obtain ⟨hmark, parsed, hparse, h⟩ := h
  refine ⟨by simpa using hmark, parsed, hparse, ?_⟩
  cases hhost : parsed.host with
  | none => simp [hhost] at h
  | some host =>
    simp only [hhost, guard_eq_ok_iff] at h
    exact not_not.mp h.2.2.2.2.1

theorem relay_ne_nil (h : validateRelayUrl url = .ok ()) : url ≠ [] := by
  obtain ⟨-, parsed, hparse, rfl⟩ := parseRelay_of_validate h
  exact UrlLibrary.asStr_ne_nil _ _ (mapError_eq_ok_iff.mp hparse)

variable [SocketText] {location : NodeLocation}

theorem NodeLocation.entry_fair (h : location.validate = .ok ()) :
    location.entry.1 ≠ [] ∧ '=' ∉ location.entry.1 ∧ location.entry.2 ≠ [] ∧ '=' ∉ location.entry.2 := by
  cases location with
  | direct address =>
    have hkey : "addr".toList ≠ [] ∧ '=' ∉ "addr".toList := by decide
    refine ⟨hkey.1, hkey.2, SocketText.text_ne_nil address, fun hmem => ?_⟩
    exact (SocketText.forall_mem_text address _ hmem).1 rfl
  | relay url =>
    have hkey : "relay".toList ≠ [] ∧ '=' ∉ "relay".toList := by decide
    exact ⟨hkey.1, hkey.2, relay_ne_nil h, (parseRelay_of_validate h).1⟩

theorem decodeDirect_text {address : SocketAddr} (h : validateDirectAddress address = .ok ()) :
    decodeDirect address.text = .ok (.direct address.withoutFlow) := by
  have hnormal := normalize_of_validate h
  have hnormal' := SocketAddr.normalize_withoutFlow hnormal
  rw [decodeDirect, SocketAddr.text, SocketText.parse_text]
  simp only [SocketAddr.text, SocketText.text_withoutFlow, hnormal', ne_eq, not_true_eq_false, if_false, NodeLocation.ofDirect,
    validateDirectAddress_withoutFlow h]
  rfl

omit [SocketText] in
theorem decodeRelay_url (h : validateRelayUrl url = .ok ()) : decodeRelay url = .ok (.relay url) := by
  obtain ⟨-, parsed, hparse, hself⟩ := parseRelay_of_validate h
  have hrelay : NodeLocation.ofRelay url = .ok (.relay url) := by
    rw [NodeLocation.ofRelay, hparse, ok_bind, hself, h]
    rfl
  rw [decodeRelay, hrelay, ok_bind, if_neg (not_not.mpr rfl)]

theorem decodeLocation_entry (h : location.validate = .ok ()) :
    decodeLocation location.entry.1 location.entry.2 = .ok location.withoutFlow := by
  cases location with
  | direct address => exact decodeDirect_text h
  | relay url => exact decodeRelay_url h

variable {raw : List Char}

theorem of_decodeDirect (h : decodeDirect raw = .ok location) :
    ∃ address, location = .direct address ∧ address.text = raw ∧ address.withoutFlow = address ∧
      validateDirectAddress address = .ok () := by
  rw [decodeDirect] at h
  cases hparse : SocketText.parse raw with
  | none => simp [hparse] at h
  | some address =>
    simp only [hparse, guard_eq_ok_iff, not_not, NodeLocation.ofDirect, bind_eq_ok_iff, pure_eq_ok_iff] at h
    obtain ⟨htext, hnormal, _, hvalid, rfl⟩ := h
    rw [hnormal] at hvalid ⊢
    have hflow := SocketText.parse_text address
    rw [show SocketText.text address = raw from htext, hparse] at hflow
    exact ⟨address, rfl, htext, (Option.some.inj hflow).symm, hvalid⟩

omit [SocketText] in
theorem of_decodeRelay (h : decodeRelay raw = .ok location) :
    location = .relay raw ∧ validateRelayUrl raw = .ok () := by
  simp only [decodeRelay, bind_eq_ok_iff, guard_eq_ok_iff, not_not, NodeLocation.ofRelay, pure_eq_ok_iff,
    Except.ok.injEq] at h
  obtain ⟨_, ⟨parsed, _, _, hvalid, rfl⟩, hself, rfl⟩ := h
  injection hself with hself
  rw [hself] at hvalid ⊢
  exact ⟨rfl, hvalid⟩

theorem decodeLocation_eq_ok_iff {key : List Char} :
    decodeLocation key raw = .ok location ↔
      (key, raw) = location.entry ∧ location.validate = .ok () ∧ location.withoutFlow = location := by
  constructor
  · intro h
    unfold decodeLocation at h
    split_ifs at h with haddr hrelay
    · obtain ⟨address, rfl, rfl, hflow, hvalid⟩ := of_decodeDirect h
      exact ⟨by rw [haddr]; rfl, hvalid, congrArg NodeLocation.direct hflow⟩
    · obtain ⟨rfl, hvalid⟩ := of_decodeRelay h
      exact ⟨by rw [hrelay]; rfl, hvalid, rfl⟩
  · rintro ⟨hentry, hvalid, hflow⟩
    have hread := decodeLocation_entry hvalid
    rw [← hentry, hflow] at hread
    exact hread

omit [SocketText] in
theorem decodeState_eq_ok_iff {state : PublicationState} :
    decodeState raw = .ok state ↔ raw = stateText state := by
  unfold decodeState
  split_ifs with hlive hwithdrawn
  · subst hlive
    cases state with
    | live => exact iff_of_true rfl rfl
    | withdrawn => exact iff_of_false (by simp) (by decide)
  · subst hwithdrawn
    cases state with
    | live => exact iff_of_false (by simp) (by decide)
    | withdrawn => exact iff_of_true rfl rfl
  · cases state with
    | live => exact iff_of_false (by simp) hlive
    | withdrawn => exact iff_of_false (by simp) hwithdrawn

end Attributes

/-- A value that splits off again and is no longer than a bound. -/
structure Fits (most : Nat) (raw : List Char) : Prop where
  ne_nil : raw ≠ []
  unmarked : '=' ∉ raw
  short : (Text.toUtf8 raw).length ≤ most

theorem Fits.mono {least most : Nat} (h : Fits least raw) (hle : least ≤ most) : Fits most raw :=
  ⟨h.ne_nil, h.unmarked, Nat.le_trans h.short hle⟩

theorem fits_of_ascii (hne : raw ≠ []) (hchars : ∀ char ∈ raw, char ≠ '=' ∧ char.toNat < 0x80) :
    Fits raw.length raw where
  ne_nil := hne
  unmarked hmem := (hchars '=' hmem).1 rfl
  short := by rw [Text.length_toUtf8 fun char hchar => (hchars char hchar).2]

theorem unmarked_of_bytes (h : (0x3d : UInt8) ∉ Text.toUtf8 raw) : '=' ∉ raw := by
  intro hmem
  exact h (List.mem_flatMap.mpr ⟨'=', hmem, by decide⟩)

theorem fits_of_bytes {most : Nat} {allowed : UInt8 → Bool}
    (hlength : ¬(Text.toUtf8 raw = [] ∨ most < (Text.toUtf8 raw).length))
    (hall : (Text.toUtf8 raw).all allowed = true) (hmark : allowed 0x3d = false) : Fits most raw where
  ne_nil hnil := hlength (.inl (by rw [hnil]; rfl))
  unmarked := unmarked_of_bytes fun hmem => by
    have hallowed := List.all_eq_true.mp hall _ hmem
    rw [hmark] at hallowed
    cases hallowed
  short := Nat.le_of_not_lt fun hlong => hlength (.inr hlong)

variable {label : List Char}

theorem fits_of_validateNamespace (h : validateNamespace label = .ok ()) : Fits maxNamespaceBytes label := by
  simp only [validateNamespace, guard_eq_ok_iff, Bool.not_eq_false, Bool.and_eq_true] at h
  exact fits_of_bytes h.1 h.2.1.2 (by decide)

variable {recipient : List Char}

theorem fits_of_validateRecipient (h : validateRecipient recipient = .ok ()) :
    Fits maxRecipientBytes recipient := by
  simp only [validateRecipient, validateToken, bind_eq_ok_iff, guard_eq_ok_iff, Bool.not_eq_false] at h
  obtain ⟨_, ⟨hlength, hall, -⟩, -⟩ := h
  exact fits_of_bytes hlength hall (by decide)

theorem length_toZ32 (key : Bytes 32) : (toZ32 key).length = 52 := by
  rw [toZ32, List.length_map, List.length_range]

theorem mem_toZ32 {key : Bytes 32} {char : Char} (h : char ∈ toZ32 key) : char ∈ z32Alphabet := by
  obtain ⟨index, -, rfl⟩ := List.mem_map.mp h
  have hrange : ∀ n, n < 32 → z32Alphabet.getD n 'y' ∈ z32Alphabet := by decide
  exact hrange _ (Nat.mod_lt _ (by decide))

theorem fits_toZ32 (key : Bytes 32) : Fits 52 (toZ32 key) := by
  rw [← length_toZ32 key]
  refine fits_of_ascii (List.ne_nil_of_length_pos (by rw [length_toZ32]; decide)) fun char hchar => ?_
  have hletters : ∀ letter ∈ z32Alphabet, letter ≠ '=' ∧ letter.toNat < 0x80 :=
    List.all_iff_forall_prop.mp (by decide)
  exact hletters char (mem_toZ32 hchar)

theorem fits_hex (key : Bytes 32) : Fits 64 (Hex.encode key.1) := by
  have hlength : (Hex.encode key.1).length = 64 := by rw [Hex.length_encode, key.2]
  rw [← hlength]
  refine fits_of_ascii (List.ne_nil_of_length_pos (by omega)) fun char hchar => ?_
  have hletters : ∀ letter ∈ "0123456789abcdef".toList, letter ≠ '=' ∧ letter.toNat < 0x80 :=
    List.all_iff_forall_prop.mp (by decide)
  exact hletters char (Hex.mem_encode hchar)

theorem fits_decimal {n : Nat} (hn : n < 2 ^ 64) : Fits 20 (Nat.toDigits 10 n) := by
  refine (fits_of_ascii Nat.toDigits_ne_nil fun char hchar => ?_).mono
    ((Nat.length_toDigits_le_iff (by decide) (by decide)).mpr (Nat.lt_trans hn (by decide)))
  have hdigit := Text.isDigit_of_mem_toDigits hchar
  refine ⟨?_, ?_⟩
  · rintro rfl
    cases hdigit
  · simp only [Char.isDigit, Bool.and_eq_true, decide_eq_true_eq, ge_iff_le, UInt32.le_iff_toNat_le] at hdigit
    exact Nat.lt_of_le_of_lt hdigit.2 (by decide)

theorem fits_stateText (state : PublicationState) : Fits 9 (stateText state) := by
  cases state with
  | live => exact ⟨by decide, by decide, by decide⟩
  | withdrawn => exact ⟨by decide, by decide, by decide⟩

theorem key_fits {key : List Char} (h : key ∈ metadataKeys) : Fits 19 key := by
  have hkeys : ∀ key ∈ metadataKeys, key ≠ [] ∧ key.length ≤ 19 ∧
      key.all (fun char => decide (char ≠ '=' ∧ char.toNat < 0x80)) = true := by decide
  obtain ⟨hne, hlength, hchars⟩ := hkeys key h
  exact (fits_of_ascii hne (List.all_iff_forall_prop.mp hchars)).mono hlength

theorem value_fits {publicKey : Bytes 32} {ttlSeconds : UInt32} {sequence expiresUnixMicros : UInt64}
    {state : PublicationState} (hlabel : validateNamespace label = .ok ())
    (hrecipient : validateRecipient recipient = .ok ()) {entry : List Char × List Char}
    (hentry : entry ∈ metadataEntries publicKey label recipient ttlSeconds sequence expiresUnixMicros state) :
    Fits maxRecipientBytes entry.2 := by
  have hschema : Fits 24 nodePublicationSchema := ⟨by decide, by decide, by decide⟩
  have httl : ttlSeconds.toNat < 2 ^ 64 := Nat.lt_trans ttlSeconds.toNat_lt (by decide)
  simp only [metadataEntries, List.mem_cons, List.not_mem_nil, or_false] at hentry
  rcases hentry with rfl | rfl | rfl | rfl | rfl | rfl | rfl | rfl | rfl
  · exact hschema.mono (by decide)
  · exact (fits_of_validateNamespace hlabel).mono (by decide)
  · exact (fits_toZ32 publicKey).mono (by decide)
  · exact (fits_hex publicKey).mono (by decide)
  · exact fits_of_validateRecipient hrecipient
  · exact (fits_decimal httl).mono (by decide)
  · exact (fits_decimal sequence.toNat_lt).mono (by decide)
  · exact (fits_decimal expiresUnixMicros.toNat_lt).mono (by decide)
  · exact (fits_stateText state).mono (by decide)

theorem length_attributeOf (entry : List Char × List Char) :
    (Text.toUtf8 (attributeOf entry)).length =
      (Text.toUtf8 entry.1).length + 1 + (Text.toUtf8 entry.2).length := by
  have hmark : Text.toUtf8 ('=' :: entry.2) = 0x3d :: Text.toUtf8 entry.2 := Text.toUtf8_cons '=' entry.2
  rw [attributeOf, Text.toUtf8_append, hmark, List.length_append, List.length_cons]
  omega

theorem NodeLocation.length_attributeText_direct [SocketText] (address : SocketAddr) :
    (Text.toUtf8 (direct address).attributeText).length ≤ 255 := by
  have hkey : (Text.toUtf8 "addr".toList).length = 4 := by decide
  have hraw : (Text.toUtf8 address.text).length ≤ 100 := by
    rw [SocketAddr.text, Text.length_toUtf8 fun char hchar => (SocketText.forall_mem_text address char hchar).2]
    exact SocketText.length_text_le address
  rw [attributeText_eq, length_attributeOf]
  simp only [entry, hkey]
  omega

theorem NodeLocation.length_attributeText_relay [SocketText] (url : List Char) :
    (Text.toUtf8 (relay url).attributeText).length = 6 + (Text.toUtf8 url).length := by
  have hkey : (Text.toUtf8 "relay".toList).length = 5 := by decide
  rw [attributeText_eq, length_attributeOf, entry, hkey]

theorem plainName_ownerName {relativeName : List Char} (key : Bytes 32) (hshort : relativeName.length ≤ 63)
    (hpos : 0 < relativeName.length)
    (hchars : ∀ char ∈ relativeName, char.isLower ∨ char.isDigit ∨ char = '-' ∨ char = '_') :
    PlainName (ownerName relativeName (toZ32 key)) := by
  have hletters : ∀ letter ∈ z32Alphabet, letter.isLower = true ∨ letter.isDigit = true :=
    List.all_iff_forall_prop.mp (by decide)
  have hz32 : ∀ char ∈ toZ32 key, char.isLower ∨ char.isDigit ∨ char = '-' ∨ char = '_' := fun char hchar => by
    rcases hletters char (mem_toZ32 hchar) with hlower | hdigit
    · exact .inl hlower
    · exact .inr (.inl hdigit)
  have hdot : ∀ text : List Char, (∀ char ∈ text, char.isLower ∨ char.isDigit ∨ char = '-' ∨ char = '_') →
      '.' ∉ text := fun text htext hmem => absurd (htext '.' hmem) (by decide)
  have hsplit : (ownerName relativeName (toZ32 key)).splitOn '.' = [relativeName, toZ32 key] := by
    have hjoin : ownerName relativeName (toZ32 key) = ['.'].intercalate [relativeName, toZ32 key] := by
      simp [ownerName]
    rw [hjoin, List.splitOn_intercalate]
    · intro text htext
      rcases List.mem_pair.mp htext with rfl | rfl
      · exact hdot _ hchars
      · exact hdot _ hz32
    · exact List.cons_ne_nil _ _
  have hlength := length_toZ32 key
  refine ⟨?_, fun text htext => ?_⟩
  · simp only [ownerName, List.length_append, List.length_cons]
    omega
  · rw [hsplit] at htext
    rcases List.mem_pair.mp htext with rfl | rfl
    · exact ⟨hpos, hshort, hchars⟩
    · exact ⟨by omega, by omega, hz32⟩

end NixP2p.IrohRecord
