import NixP2p.Iroh.NodeAttributes

/-!
# The answers of a node record

The writer and the reader of a record meet at one description of it: what its answers show, line by line, and what its fields satisfy. A run of the reader succeeds if and only if the answers tell locations in order and then the attributes in their places.
-/

namespace NixP2p.IrohRecord

open Fallible Wire

/-! ### What a record shows -/

variable [SocketText]

def answerLines (locations : List NodeLocation) (metadata : List (List Char × List Char)) :
    List (List Char × List Char) :=
  locations.map (fun location => (irohRecordName, location.attributeText)) ++
    metadata.map fun entry => (metadataRecordName, attributeOf entry)

namespace NodeRecord

def metadata (record : NodeRecord) : List (List Char × List Char) :=
  metadataEntries record.nodeId.bytes record.label record.recipient record.ttlSeconds record.sequence
    record.expiresUnixMicros record.state

def answers (record : NodeRecord) : List (List Char × List Char) := answerLines record.locations record.metadata

structure Proper [UrlLibrary] (record : NodeRecord) : Prop where
  label : validateNamespace record.label = .ok ()
  recipient : validateRecipient record.recipient = .ok ()
  ttl : record.ttlSeconds ≠ 0
  expiry : recordExpiry record.sequence record.ttlSeconds = .ok record.expiresUnixMicros
  ascending : Ascending record.locations
  few : record.locations.length ≤ maxNodeLocations
  valid : ∀ location ∈ record.locations, location.validate = .ok ()
  state : record.state = .live ↔ record.locations ≠ []

def Flowless (record : NodeRecord) : Prop := ∀ location ∈ record.locations, location.withoutFlow = location

end NodeRecord

variable {record : NodeRecord}

theorem NodeRecord.Proper.fits_iff [UrlLibrary] (h : record.Proper) :
    (∀ line ∈ record.answers, (Text.toUtf8 line.2).length ≤ 255) ↔
      ∀ url, .relay url ∈ record.locations → (Text.toUtf8 url).length ≤ 249 := by
  constructor
  · intro hfits url hurl
    have hline := hfits _ (List.mem_append_left _ (List.mem_map_of_mem hurl))
    have hlength := NodeLocation.length_attributeText_relay url
    simp only [hlength] at hline
    omega
  · intro hrelays line hline
    rcases List.mem_append.mp hline with hline | hline
    · obtain ⟨location, hlocation, rfl⟩ := List.mem_map.mp hline
      cases location with
      | direct address =>
        exact NodeLocation.length_attributeText_direct address
      | relay url =>
        have hlength := NodeLocation.length_attributeText_relay url
        have hurl := hrelays url hlocation
        simp only [hlength]
        omega
    obtain ⟨entry, hentry, rfl⟩ := List.mem_map.mp hline
    have hkey : entry.1 ∈ metadataKeys := List.mem_map_of_mem (f := Prod.fst) hentry
    have hshort := (key_fits hkey).short
    have hvalue : (Text.toUtf8 entry.2).length ≤ 192 := (value_fits h.label h.recipient hentry).short
    simp only [length_attributeOf]
    omega

theorem plainName_of_mem {key : Bytes 32} {line : List Char × List Char} (h : line ∈ record.answers) :
    PlainName (ownerName line.1 (toZ32 key)) := by
  have hname : line.1 = irohRecordName ∨ line.1 = metadataRecordName := by
    rcases List.mem_append.mp h with h | h
    · obtain ⟨location, -, rfl⟩ := List.mem_map.mp h
      exact .inl rfl
    · obtain ⟨entry, -, rfl⟩ := List.mem_map.mp h
      exact .inr rfl
  rcases hname with hname | hname
  · rw [hname]
    exact plainName_ownerName key (by decide) (by decide) (List.all_iff_forall_prop.mp (by decide))
  · rw [hname]
    exact plainName_ownerName key (by decide) (by decide) (List.all_iff_forall_prop.mp (by decide))

omit [SocketText] in
theorem checkState_eq_ok_iff {state : PublicationState} {locations : List NodeLocation} {none some : NodeRecordError} :
    checkState state locations none some = .ok () ↔ (state = .live ↔ locations ≠ []) := by
  cases state with
  | live => simp [checkState]
  | withdrawn => simp [checkState]

theorem answerLines_location (locations : List NodeLocation) (location : NodeLocation) :
    answerLines (locations ++ [location]) [] =
      answerLines locations [] ++ [(irohRecordName, location.attributeText)] := by
  simp [answerLines]

theorem answerLines_entry (locations : List NodeLocation) (metadata : List (List Char × List Char))
    (entry : List Char × List Char) :
    answerLines locations (metadata ++ [entry]) =
      answerLines locations metadata ++ [(metadataRecordName, attributeOf entry)] := by
  simp [answerLines]

variable {metadata : List (List Char × List Char)}

omit [SocketText] in
theorem keys_concat_iff {entry : List Char × List Char} :
    (metadata ++ [entry]).map Prod.fst = metadataKeys.take (metadata ++ [entry]).length ↔
      metadata.map Prod.fst = metadataKeys.take metadata.length ∧
        metadataKeys[metadata.length]? = some entry.1 := by
  rw [List.map_append, List.length_append, List.length_singleton, List.take_add_one]
  constructor
  · intro h
    cases hkey : metadataKeys[metadata.length]? with
    | none =>
      have hlength := congrArg List.length h
      have hshort := List.length_take_le metadata.length metadataKeys
      simp [hkey] at hlength
      omega
    | some key =>
      rw [hkey] at h
      obtain ⟨hfront, hlast⟩ := List.append_inj' h rfl
      obtain rfl := (List.cons.inj hlast).1
      exact ⟨hfront, rfl⟩
  · rintro ⟨hfront, hkey⟩
    rw [hfront, hkey]
    rfl

omit [SocketText] in
theorem lookup_none_of_next {key : List Char} (hkeys : metadata.map Prod.fst = metadataKeys.take metadata.length)
    (hnext : metadataKeys[metadata.length]? = some key) : metadata.lookup key = none := by
  have hnodup : (metadataKeys.take metadata.length ++ [key]).Nodup := by
    have hstep : metadataKeys.take (metadata.length + 1) = metadataKeys.take metadata.length ++ [key] := by
      rw [List.take_add_one, hnext]
      rfl
    have hall : metadataKeys.Nodup := by decide
    exact hstep ▸ hall.sublist (List.take_sublist _ _)
  rw [List.lookup_eq_none_iff]
  intro entry hentry
  have hmem : entry.1 ∈ metadataKeys.take metadata.length := hkeys ▸ List.mem_map_of_mem hentry
  have hne : key ≠ entry.1 := by
    rintro rfl
    exact (List.nodup_append.mp hnodup).2.2 _ hmem _ List.mem_cons_self rfl
  simpa using hne

/-! ### The attributes as a whole -/

omit [SocketText] in
theorem eq_map_lookup (hnodup : (metadata.map Prod.fst).Nodup) :
    metadata = (metadata.map Prod.fst).map fun key => (key, (metadata.lookup key).getD []) := by
  induction metadata with
  | nil => rfl
  | cons entry rest ih =>
    obtain ⟨hnew, hrest⟩ := List.nodup_cons.mp hnodup
    rw [List.map_cons, List.map_cons, List.lookup_cons_self, Option.getD_some]
    refine congrArg (entry :: ·) ((ih hrest).trans (List.map_congr_left fun key hkey => ?_))
    have hne : key ≠ entry.1 := fun h => hnew (h ▸ hkey)
    rw [List.lookup_cons, beq_false_of_ne hne]

variable {reading : Reading}

omit [SocketText] in
theorem Reading.metadata_eq (hkeys : reading.metadata.map Prod.fst = metadataKeys) :
    reading.metadata = [("schema".toList, reading.get "schema"), ("namespace".toList, reading.get "namespace"),
      ("signer".toList, reading.get "signer"), ("node-id".toList, reading.get "node-id"),
      ("recipient".toList, reading.get "recipient"), ("ttl-seconds".toList, reading.get "ttl-seconds"),
      ("sequence".toList, reading.get "sequence"),
      ("expires-unix-micros".toList, reading.get "expires-unix-micros"), ("state".toList, reading.get "state")] := by
  have hnodup : metadataKeys.Nodup := by decide
  have heq := eq_map_lookup (hkeys ▸ hnodup)
  rw [hkeys] at heq
  exact heq

/-- What the checks on the attributes as a whole make sure of. -/
structure Agrees (signed : SignedPacket) (reading : Reading) (record : NodeRecord) : Prop where
  metadata : reading.metadata = record.metadata
  label : validateNamespace record.label = .ok ()
  recipient : validateRecipient record.recipient = .ok ()
  positive : record.ttlSeconds ≠ 0
  ttl : reading.ttl = some record.ttlSeconds
  sequence : record.sequence = signed.timestamp
  expiry : recordExpiry record.sequence record.ttlSeconds = .ok record.expiresUnixMicros
  state : record.state = .live ↔ reading.locations ≠ []
  nodeId : record.nodeId = ⟨signed.publicKey⟩
  locations : record.locations = reading.locations.insertionSort NodeLocation.Le

omit [SocketText] in
theorem finishReading_eq_ok_iff [UrlLibrary] {signed : SignedPacket}
    (hkeys : reading.metadata.map Prod.fst = metadataKeys.take reading.metadata.length) :
    finishReading signed reading = .ok record ↔ Agrees signed reading record := by
  constructor
  · intro h
    simp only [finishReading, guard_eq_ok_iff, bind_eq_ok_iff, not_or, not_not, parseU32_eq_ok_iff, parseU64_eq_ok_iff,
      decodeState_eq_ok_iff, pure_eq_ok_iff] at h
    obtain ⟨⟨hlength, -⟩, hschema, _, hlabel, _, hrecipient, hsigner, hnode, ttlSeconds, httl, ⟨hpositive, hsame⟩,
      sequence, hsequence, htimestamp, expiresUnixMicros, hexpires, _, hexpiry, rfl, state, hstate, _, hlocations,
      rfl⟩ := h
    rw [hlength, List.take_length] at hkeys
    refine ⟨?_, hlabel, hrecipient, hpositive, hsame, htimestamp, hexpiry, checkState_eq_ok_iff.mp hlocations, rfl, rfl⟩
    rw [Reading.metadata_eq hkeys, hschema, hsigner, hnode, httl, hsequence, hexpires, hstate]
    rfl
  · intro h
    have hget : ∀ key : String, reading.get key = (record.metadata.lookup key.toList).getD [] := fun key => by
      rw [Reading.get, h.metadata]
    have hlabel : reading.get "namespace" = record.label := hget _
    have hrecipient : reading.get "recipient" = record.recipient := hget _
    have hsigner : reading.get "signer" = toZ32 record.nodeId.bytes := hget _
    have hnode : reading.get "node-id" = Hex.encode record.nodeId.bytes.1 := hget _
    have hcount : reading.metadata.length = metadataKeys.length := by rw [h.metadata]; rfl
    have hall : metadataKeys.any (fun key => (reading.metadata.lookup key).isNone) = false := by rw [h.metadata]; rfl
    simp only [finishReading, guard_eq_ok_iff, bind_eq_ok_iff, not_or, not_not, parseU32_eq_ok_iff, parseU64_eq_ok_iff,
      decodeState_eq_ok_iff, pure_eq_ok_iff, hlabel, hrecipient, hsigner, hnode, h.nodeId]
    refine ⟨⟨hcount, by rw [hall]; decide⟩, hget _, (), h.label, (), h.recipient, trivial, trivial, record.ttlSeconds,
      hget _, ⟨h.positive, h.ttl⟩, record.sequence, hget _, h.sequence, record.expiresUnixMicros, hget _, _, h.expiry, rfl,
      record.state, hget _, (), checkState_eq_ok_iff.mpr h.state, ?_⟩
    rw [← h.nodeId, ← h.locations]

omit [SocketText] in
theorem NodeRecord.flowless_iff :
    record.Flowless ↔
      ∀ ip port flowinfo scopeId, .direct (.v6 ip port flowinfo scopeId) ∈ record.locations → flowinfo = 0 := by
  constructor
  · intro h ip port flowinfo scopeId hmem
    have hself := h _ hmem
    simp only [NodeLocation.withoutFlow, SocketAddr.withoutFlow, NodeLocation.direct.injEq, SocketAddr.v6.injEq,
      true_and, and_true] at hself
    exact hself.symm
  · intro h location hlocation
    cases location with
    | relay url => rfl
    | direct address =>
      cases address with
      | v4 ip port => rfl
      | v6 ip port flowinfo scopeId =>
        rw [h ip port flowinfo scopeId hlocation]
        rfl

/-! ### Taking one attribute -/

omit [SocketText] in
theorem ownerName_ne (signer : List Char) : ownerName metadataRecordName signer ≠ ownerName irohRecordName signer := by
  intro h
  have hfirst := congrArg (List.take 2) h
  rw [ownerName, ownerName, List.take_append_of_le_length (by decide), List.take_append_of_le_length (by decide)] at hfirst
  exact absurd hfirst (by decide)

variable {next : Reading}

omit [SocketText] in
theorem takeTtl_eq_ok_iff {ttl : UInt32} :
    takeTtl reading ttl = .ok next ↔
      (∀ expected ∈ reading.ttl, expected = ttl) ∧ next = { reading with ttl := some ttl } := by
  obtain ⟨before, locations, metadata⟩ := reading
  cases before with
  | none => simp [takeTtl, eq_comm]
  | some expected =>
    simp only [takeTtl, guard_eq_ok_iff, not_not, Except.ok.injEq, Option.mem_some_iff, forall_eq']
    constructor
    · rintro ⟨rfl, rfl⟩
      exact ⟨rfl, rfl⟩
    · rintro ⟨rfl, rfl⟩
      exact ⟨rfl, rfl⟩

variable {value : List Char}

theorem takeLocation_eq_ok_iff [UrlLibrary] :
    takeLocation reading value = .ok next ↔
      ∃ location : NodeLocation, value = location.attributeText ∧ reading.metadata = [] ∧
        location.validate = .ok () ∧ location.withoutFlow = location ∧ location ∉ reading.locations ∧
        (∀ previous ∈ reading.locations.getLast?, ¬location.Le previous) ∧
        reading.locations.length ≠ maxNodeLocations ∧
        next = { reading with locations := reading.locations ++ [location] } := by
  simp only [takeLocation, guard_eq_ok_iff, bind_eq_ok_iff, not_not, Prod.exists, splitAttribute_eq_ok_iff,
    decodeLocation_eq_ok_iff, Except.ok.injEq, List.contains_iff_mem, Option.any_eq_true, decide_eq_true_eq, not_exists,
    not_and]
  constructor
  · rintro ⟨hmetadata, key, raw, ⟨rfl, -⟩, location, ⟨hentry, hvalid, hflow⟩, hnew, hlast, hroom, rfl⟩
    exact ⟨location, by rw [hentry, location.attributeText_eq], hmetadata, hvalid, hflow, hnew, hlast, hroom, rfl⟩
  · rintro ⟨location, rfl, hmetadata, hvalid, hflow, hnew, hlast, hroom, rfl⟩
    exact ⟨hmetadata, location.entry.1, location.entry.2, ⟨location.attributeText_eq, NodeLocation.entry_fair hvalid⟩,
      location, ⟨rfl, hvalid, hflow⟩, hnew, hlast, hroom, rfl⟩

omit [SocketText] in
theorem takeMetadata_eq_ok_iff [UrlLibrary] :
    takeMetadata reading value = .ok next ↔
      ∃ entry : List Char × List Char, value = attributeOf entry ∧ (entry.2 ≠ [] ∧ '=' ∉ entry.2) ∧
        metadataKeys[reading.metadata.length]? = some entry.1 ∧ reading.metadata.lookup entry.1 = none ∧
        next = { reading with metadata := reading.metadata ++ [entry] } := by
  simp only [takeMetadata, guard_eq_ok_iff, bind_eq_ok_iff, not_not, Prod.exists, splitAttribute_eq_ok_iff,
    Except.ok.injEq, Option.not_isSome_iff_eq_none]
  constructor
  · rintro ⟨key, raw, ⟨rfl, -, -, hraw⟩, hposition, hnew, rfl⟩
    exact ⟨key, raw, rfl, hraw, hposition, hnew, rfl⟩
  · rintro ⟨key, raw, rfl, hraw, hposition, hnew, rfl⟩
    have hkey := key_fits (List.mem_of_getElem? hposition)
    exact ⟨key, raw, ⟨rfl, hkey.ne_nil, hkey.unmarked, hraw⟩, hposition, hnew, rfl⟩

section Codec

variable [SimpleDns]

def view (answer : Answer) : DnsClass × UInt32 × Option (List Char × List UInt8) :=
  (answer.recordClass, answer.ttl, answer.txt? SimpleDns.nameText)

def shown (signer : List Char) (ttl : UInt32) (line : List Char × List Char) :
    DnsClass × UInt32 × Option (List Char × List UInt8) :=
  (.internet, ttl, some (ownerName line.1 signer, Text.toUtf8 line.2))

/-! ### Writing one answer -/

variable {relativeName origin value : List Char} {ttl : UInt32}

omit [SocketText] in
theorem of_addTxt {answer : Answer} (hplain : PlainName (ownerName relativeName origin))
    (h : addTxt relativeName origin ttl value = .ok answer) :
    answer.Single SimpleDns.newName ∧ view answer = shown origin ttl (relativeName, value) ∧
      (Text.toUtf8 value).length ≤ 255 := by
  obtain ⟨name, hname, hshow⟩ := SimpleDns.newName_plain _ hplain
  rw [addTxt, hname, mapError_ok, ok_bind] at h
  split_ifs at h with hfits
  obtain rfl := Except.ok.inj h
  refine ⟨⟨rfl, ⟨_, rfl⟩, _, hplain, hname⟩, ?_, hfits⟩
  simp [view, shown, ResourceRecord.txt?, hshow]

omit [SocketText] in
theorem exists_addTxt (ttl : UInt32) (hplain : PlainName (ownerName relativeName origin))
    (hfits : (Text.toUtf8 value).length ≤ 255) : ∃ answer, addTxt relativeName origin ttl value = .ok answer := by
  obtain ⟨name, hname, -⟩ := SimpleDns.newName_plain _ hplain
  rw [addTxt, hname, mapError_ok, ok_bind, dif_pos hfits]
  exact ⟨_, rfl⟩

def Writes (record : NodeRecord) (answers : List Answer) : Prop :=
  record.answers.mapM (fun line => addTxt line.1 (toZ32 record.nodeId.bytes) record.ttlSeconds line.2) = .ok answers

variable {record : NodeRecord}

theorem writes_iff {answers : List Answer} :
    Writes record answers ↔ ∃ placed described,
      record.locations.mapM (fun location => addTxt irohRecordName (toZ32 record.nodeId.bytes) record.ttlSeconds
        location.attributeText) = .ok placed ∧
      record.metadata.mapM (fun entry => addTxt metadataRecordName (toZ32 record.nodeId.bytes) record.ttlSeconds
        (attributeOf entry)) = .ok described ∧ answers = placed ++ described := by
  simp only [Writes, NodeRecord.answers, answerLines, List.mapM_append, bind_eq_ok_iff, pure_eq_ok_iff, mapM_eq_ok_iff,
    List.forall₂_map_left_iff]
  constructor
  · rintro ⟨placed, hplaced, described, hdescribed, rfl⟩
    exact ⟨placed, described, hplaced, hdescribed, rfl⟩
  · rintro ⟨placed, described, hplaced, hdescribed, rfl⟩
    exact ⟨placed, hplaced, described, hdescribed, rfl⟩

def Shows (record : NodeRecord) (answers : List Answer) : Prop :=
  answers.map view = record.answers.map (shown (toZ32 record.nodeId.bytes) record.ttlSeconds)

theorem Writes.spec {answers : List Answer} (h : Writes record answers) :
    Shows record answers ∧ (∀ answer ∈ answers, answer.Single SimpleDns.newName) ∧
      ∀ line ∈ record.answers, (Text.toUtf8 line.2).length ≤ 255 := by
  have hplain : ∀ line ∈ record.answers, PlainName (ownerName line.1 (toZ32 record.nodeId.bytes)) :=
    fun line hline => plainName_of_mem hline
  rw [Writes, mapM_eq_ok_iff] at h
  unfold Shows
  generalize record.answers = lines at h hplain
  induction h with
  | nil => exact ⟨rfl, fun _ hmem => absurd hmem List.not_mem_nil, fun _ hmem => absurd hmem List.not_mem_nil⟩
  | cons hadd _ ih =>
    obtain ⟨hsingle, hview, hshort⟩ := of_addTxt (hplain _ List.mem_cons_self) hadd
    obtain ⟨hshows, hrest, hfits⟩ := ih fun line hline => hplain line (List.mem_cons_of_mem _ hline)
    refine ⟨?_, List.forall_mem_cons.mpr ⟨hsingle, hrest⟩, List.forall_mem_cons.mpr ⟨hshort, hfits⟩⟩
    rw [List.map_cons, List.map_cons, hview, hshows]

/-- The writer writes a record unless an attribute of it does not fit a string. -/
theorem exists_writes_iff :
    (∃ answers, Writes record answers) ↔ ∀ line ∈ record.answers, (Text.toUtf8 line.2).length ≤ 255 := by
  constructor
  · rintro ⟨answers, hwrites⟩
    exact hwrites.spec.2.2
  · intro hfits
    simp only [Writes, mapM_eq_ok_iff]
    exact exists_forall₂ fun line hline => exists_addTxt _ (plainName_of_mem hline) (hfits line hline)

/-! ### Reading the answers -/

omit [SocketText] in
theorem exists_earlier_ttl {signer : List Char} {answers : List Answer} {lines : List (List Char × List Char)}
    (hlines : answers.map view = lines.map (shown signer ttl)) :
    ∃ before : Option UInt32, (before = none ↔ answers = []) ∧ (∀ expected ∈ before, expected = ttl) ∧
      answers.map view = lines.map (shown signer (before.getD 0)) := by
  cases answers with
  | nil =>
    refine ⟨none, iff_of_true rfl rfl, by simp, ?_⟩
    rw [List.map_eq_nil_iff.mp hlines.symm]
    rfl
  | cons first rest => exact ⟨some ttl, by simp, by simp, hlines⟩

variable [UrlLibrary]

/-- What one answer adds to a reading: a location that continues the order, before any metadata, or the attribute whose turn it is. -/
inductive Takes (reading : Reading) (ttl : UInt32) : List Char × List Char → Reading → Prop where
  | location (location : NodeLocation) (hmetadata : reading.metadata = []) (hvalid : location.validate = .ok ())
      (hflow : location.withoutFlow = location) (hnew : location ∉ reading.locations)
      (hlast : ∀ previous ∈ reading.locations.getLast?, ¬location.Le previous)
      (hroom : reading.locations.length ≠ maxNodeLocations) :
      Takes reading ttl (irohRecordName, location.attributeText)
        ⟨some ttl, reading.locations ++ [location], reading.metadata⟩
  | entry (entry : List Char × List Char) (hraw : entry.2 ≠ [] ∧ '=' ∉ entry.2)
      (hposition : metadataKeys[reading.metadata.length]? = some entry.1)
      (hnew : reading.metadata.lookup entry.1 = none) :
      Takes reading ttl (metadataRecordName, attributeOf entry)
        ⟨some ttl, reading.locations, reading.metadata ++ [entry]⟩

theorem takeAnswer_eq_ok_iff {signer : List Char} {reading next : Reading} {answer : Answer} :
    takeAnswer signer reading answer = .ok next ↔
      (∀ expected ∈ reading.ttl, expected = answer.ttl) ∧
        ∃ line, view answer = shown signer answer.ttl line ∧ Takes reading answer.ttl line next := by
  simp only [takeAnswer, guard_eq_ok_iff, bind_eq_ok_iff, not_not, takeTtl_eq_ok_iff]
  constructor
  · rintro ⟨hclass, _, ⟨httl, rfl⟩, h⟩
    refine ⟨httl, ?_⟩
    cases htxt : answer.txt? SimpleDns.nameText with
    | none => simp [htxt] at h
    | some parts =>
      obtain ⟨name, bytes⟩ := parts
      simp only [htxt] at h
      cases htext : Text.fromUtf8 bytes with
      | none => simp [htext] at h
      | some value =>
        simp only [htext] at h
        have hbytes := Text.toUtf8_of_fromUtf8 htext
        split_ifs at h with hiroh hmetadata
        · obtain ⟨location, rfl, hempty, hvalid, hflow, hnew, hlast, hroom, rfl⟩ := takeLocation_eq_ok_iff.mp h
          refine ⟨_, ?_, .location location hempty hvalid hflow hnew hlast hroom⟩
          rw [view, shown, hclass, htxt, hiroh, hbytes]
        · obtain ⟨entry, rfl, hraw, hposition, hnew, rfl⟩ := takeMetadata_eq_ok_iff.mp h
          refine ⟨_, ?_, .entry entry hraw hposition hnew⟩
          rw [view, shown, hclass, htxt, hmetadata, hbytes]
  · rintro ⟨httl, line, hview, htakes⟩
    simp only [view, shown, Prod.mk.injEq, true_and] at hview
    obtain ⟨hclass, htxt⟩ := hview
    refine ⟨hclass, _, ⟨httl, rfl⟩, ?_⟩
    simp only [htxt, Text.fromUtf8_toUtf8]
    cases htakes with
    | location location hempty hvalid hflow hnew hlast hroom =>
      rw [if_pos rfl]
      exact takeLocation_eq_ok_iff.mpr ⟨location, rfl, hempty, hvalid, hflow, hnew, hlast, hroom, rfl⟩
    | entry entry hraw hposition hnew =>
      rw [if_neg (ownerName_ne signer), if_pos rfl]
      exact takeMetadata_eq_ok_iff.mpr ⟨entry, rfl, hraw, hposition, hnew, rfl⟩

/-- What a run over answers has read. -/
structure Tells (signer : List Char) (answers : List Answer) (reading : Reading) : Prop where
  unset : reading.ttl = none ↔ answers = []
  shows : answers.map view = (answerLines reading.locations reading.metadata).map (shown signer (reading.ttl.getD 0))
  ascending : Ascending reading.locations
  few : reading.locations.length ≤ maxNodeLocations
  valid : ∀ location ∈ reading.locations, location.validate = .ok () ∧ location.withoutFlow = location
  keys : reading.metadata.map Prod.fst = metadataKeys.take reading.metadata.length
  values : ∀ entry ∈ reading.metadata, entry.2 ≠ [] ∧ '=' ∉ entry.2

variable {signer : List Char} {answers : List Answer} {answer : Answer} {reading next : Reading}

theorem tells_nil_iff : Tells signer [] reading ↔ reading = ⟨none, [], []⟩ := by
  constructor
  · intro h
    obtain ⟨ttl, locations, metadata⟩ := reading
    have hlines : answerLines locations metadata = [] := List.map_eq_nil_iff.mp h.shows.symm
    obtain ⟨hlocations, hmetadata⟩ := List.append_eq_nil_iff.mp hlines
    rw [Reading.mk.injEq]
    exact ⟨h.unset.mpr rfl, List.map_eq_nil_iff.mp hlocations, List.map_eq_nil_iff.mp hmetadata⟩
  · rintro rfl
    exact ⟨iff_of_true rfl rfl, rfl, .nil, Nat.zero_le _, fun _ h => absurd h List.not_mem_nil, rfl,
      fun _ h => absurd h List.not_mem_nil⟩

theorem Tells.take {line : List Char × List Char} (h : Tells signer answers reading)
    (httl : ∀ expected ∈ reading.ttl, expected = answer.ttl) (hview : view answer = shown signer answer.ttl line)
    (htakes : Takes reading answer.ttl line next) : Tells signer (answers ++ [answer]) next := by
  have hshows : answers.map view =
      (answerLines reading.locations reading.metadata).map (shown signer answer.ttl) := by
    cases hbefore : reading.ttl with
    | none =>
      obtain rfl := h.unset.mp hbefore
      rw [List.map_eq_nil_iff.mp h.shows.symm]
      rfl
    | some expected =>
      rw [h.shows, hbefore, Option.getD_some, httl expected hbefore]
  have hmore : (answers ++ [answer]).map view =
      (answerLines reading.locations reading.metadata ++ [line]).map (shown signer answer.ttl) := by
    rw [List.map_append, List.map_append, hshows, List.map_singleton, List.map_singleton, hview]
  cases htakes with
  | location location hmetadata hvalid hflow hnew hlast hroom =>
    rw [hmetadata] at hmore ⊢
    refine ⟨by simp, ?_, ascending_concat_iff.mpr ⟨h.ascending, hlast⟩, ?_, ?_, rfl,
      fun _ hmem => absurd hmem List.not_mem_nil⟩
    · rw [hmore, answerLines_location]
      rfl
    · have hfew := h.few
      simp only [List.length_append, List.length_singleton]
      omega
    · intro other hother
      rcases List.mem_append.mp hother with hother | hother
      · exact h.valid other hother
      · obtain rfl := List.mem_singleton.mp hother
        exact ⟨hvalid, hflow⟩
  | entry entry hraw hposition hnew =>
    refine ⟨by simp, ?_, h.ascending, h.few, h.valid, keys_concat_iff.mpr ⟨h.keys, hposition⟩, ?_⟩
    · rw [hmore, answerLines_entry]
      rfl
    · intro other hother
      rcases List.mem_append.mp hother with hother | hother
      · exact h.values other hother
      · obtain rfl := List.mem_singleton.mp hother
        exact hraw

theorem Tells.untake (h : Tells signer (answers ++ [answer]) next) :
    ∃ reading, Tells signer answers reading ∧ (∀ expected ∈ reading.ttl, expected = answer.ttl) ∧
      ∃ line, view answer = shown signer answer.ttl line ∧ Takes reading answer.ttl line next := by
  obtain ⟨ttl, locations, metadata⟩ := next
  cases ttl with
  | none => exact absurd (h.unset.mp rfl) (by simp)
  | some ttl =>
    have hsplit : ∀ lines line, answerLines locations metadata = lines ++ [line] →
        view answer = shown signer ttl line ∧ answers.map view = lines.map (shown signer ttl) := by
      intro lines line hlines
      have hshows := h.shows
      rw [hlines, List.map_append, List.map_append] at hshows
      obtain ⟨hfront, hlast⟩ := List.append_inj' hshows rfl
      exact ⟨(List.cons.inj hlast).1, hfront⟩
    rcases List.eq_nil_or_concat' metadata with rfl | ⟨metadata, entry, rfl⟩
    · rcases List.eq_nil_or_concat' locations with rfl | ⟨locations, location, rfl⟩
      · have hlength := congrArg List.length h.shows
        simp [answerLines] at hlength
      obtain ⟨hview, hfront⟩ := hsplit _ _ (answerLines_location locations location)
      obtain ⟨before, hunset, hsame, hshows⟩ := exists_earlier_ttl hfront
      obtain rfl : answer.ttl = ttl := congrArg (fun seen => seen.2.1) hview
      have hfew := h.few
      obtain ⟨hascending, hlast⟩ := ascending_concat_iff.mp h.ascending
      simp only [List.length_append, List.length_singleton] at hfew
      obtain ⟨hvalid, hflow⟩ := h.valid location (by simp)
      exact ⟨⟨before, locations, []⟩, ⟨hunset, hshows, hascending, Nat.le_of_succ_le hfew,
        fun other hother => h.valid other (List.mem_append_left _ hother), rfl,
        fun _ hmem => absurd hmem List.not_mem_nil⟩, hsame, _, hview,
        .location location rfl hvalid hflow (not_mem_of_ascending_concat h.ascending) hlast (Nat.ne_of_lt hfew)⟩
    · obtain ⟨hview, hfront⟩ := hsplit _ _ (answerLines_entry locations metadata entry)
      obtain ⟨before, hunset, hsame, hshows⟩ := exists_earlier_ttl hfront
      obtain rfl : answer.ttl = ttl := congrArg (fun seen => seen.2.1) hview
      obtain ⟨hkeys, hposition⟩ := keys_concat_iff.mp h.keys
      exact ⟨⟨before, locations, metadata⟩, ⟨hunset, hshows, h.ascending, h.few, h.valid, hkeys,
        fun other hother => h.values other (List.mem_append_left _ hother)⟩, hsame, _, hview,
        .entry entry (h.values entry (by simp)) hposition (lookup_none_of_next hkeys hposition)⟩

/-- The reader succeeds on exactly the answers that tell what it has read. -/
theorem foldlM_takeAnswer_eq_ok_iff :
    answers.foldlM (takeAnswer signer) ⟨none, [], []⟩ = .ok reading ↔ Tells signer answers reading := by
  induction answers using List.reverseRecOn generalizing reading with
  | nil =>
    rw [List.foldlM_nil, pure_eq_ok_iff, tells_nil_iff]
    exact eq_comm
  | append_singleton answers answer ih =>
    rw [List.foldlM_append, bind_eq_ok_iff]
    simp only [ih, List.foldlM_cons, List.foldlM_nil, bind_pure, takeAnswer_eq_ok_iff]
    constructor
    · rintro ⟨before, hbefore, httl, line, hview, htakes⟩
      exact hbefore.take httl hview htakes
    · exact Tells.untake

/-- The reader makes a record of exactly the answers that show it, if it is proper and has no flow label. -/
theorem exists_reading_iff {signed : SignedPacket} :
    (∃ reading, Tells (toZ32 signed.publicKey) answers reading ∧ finishReading signed reading = .ok record) ↔
      record.Proper ∧ record.Flowless ∧ record.nodeId = ⟨signed.publicKey⟩ ∧ record.sequence = signed.timestamp ∧
        Shows record answers := by
  constructor
  · rintro ⟨reading, htells, hfinish⟩
    have h := (finishReading_eq_ok_iff htells.keys).mp hfinish
    have hlocations : record.locations = reading.locations := by
      rw [h.locations, insertionSort_of_ascending htells.ascending]
    refine ⟨⟨h.label, h.recipient, h.positive, h.expiry, hlocations ▸ htells.ascending, hlocations ▸ htells.few, ?_,
      hlocations ▸ h.state⟩, ?_, h.nodeId, h.sequence, ?_⟩
    · exact fun location hlocation => (htells.valid location (hlocations ▸ hlocation)).1
    · exact fun location hlocation => (htells.valid location (hlocations ▸ hlocation)).2
    · rw [Shows, NodeRecord.answers, hlocations, ← h.metadata, h.nodeId, htells.shows, h.ttl, Option.getD_some]
  · rintro ⟨hproper, hflow, hnode, hsequence, hshows⟩
    have hkeys : record.metadata.map Prod.fst = metadataKeys.take record.metadata.length := rfl
    refine ⟨⟨some record.ttlSeconds, record.locations, record.metadata⟩, ?_, (finishReading_eq_ok_iff hkeys).mpr ?_⟩
    · refine ⟨?_, ?_, hproper.ascending, hproper.few, ?_, hkeys, ?_⟩
      · have hsome : answers ≠ [] := by
          rintro rfl
          have hnone : record.answers = [] := List.map_eq_nil_iff.mp hshows.symm
          exact absurd (List.append_eq_nil_iff.mp hnone).2 (List.cons_ne_nil _ _)
        exact iff_of_false (by simp) hsome
      · rw [Shows, hnode] at hshows
        exact hshows
      · exact fun location hlocation => ⟨hproper.valid location hlocation, hflow location hlocation⟩
      · intro entry hentry
        have hvalue := value_fits hproper.label hproper.recipient hentry
        exact ⟨hvalue.ne_nil, hvalue.unmarked⟩
    · exact ⟨rfl, hproper.label, hproper.recipient, hproper.ttl, rfl, hsequence, hproper.expiry, hproper.state, hnode,
        (insertionSort_of_ascending hproper.ascending).symm⟩

end Codec

end NixP2p.IrohRecord
