import NixP2p.Publication.History

/-!
# The order of a publisher's submissions

The packets a publisher puts carry non-decreasing sequences as long as each of them carries the store's high-water sequence at that time. Putting the committed packet once more does not: a packet prepared after it may have reached the authority and then have been given up.
-/

namespace NixP2p

section Order

variable [NodeRecordCodec] [Blake3]

end Order

open Wire

/-- Records of one node as a state, a sequence and one-byte locations. -/
def plainRecord (state : PublicationState) (sequence : UInt64) (locations : List UInt8) : NodeRecord UInt8 where
  nodeIdHex := "node"
  recordNamespace := "space"
  recipient := "all"
  ttlSeconds := 60
  sequence := sequence
  expiresUnixMicros := sequence + 60000000
  state := state
  locations := locations

def plainPacket (state : PublicationState) (sequence : UInt64) (locations : List UInt8) : List UInt8 :=
  (if state = .live then 1 else 0) :: (beBytes 8 sequence.toNat ++ locations)

def plainDecode : List UInt8 → Except NodeRecordError (NodeRecord UInt8)
  | [] => .error ⟨.malformedOrUntrusted, "empty"⟩
  | tag :: rest =>
    .ok (plainRecord (if tag = 1 then .live else .withdrawn) (UInt64.ofNat (ofBe (rest.take 8))) (rest.drop 8))

theorem plainDecode_plainPacket (state : PublicationState) (sequence : UInt64) (locations : List UInt8) :
    plainDecode (plainPacket state sequence locations) = .ok (plainRecord state sequence locations) := by
  have hsequence : UInt64.ofNat (ofBe (beBytes 8 sequence.toNat)) = sequence := by
    rw [ofBe_beBytes (lt_of_lt_of_eq sequence.toNat_lt (by decide)), UInt64.ofNat_toNat]
  simp only [plainPacket, plainDecode]
  rw [List.take_left' (length_beBytes 8 _), List.drop_left' (length_beBytes 8 _), hsequence]
  cases state <;> rfl

@[reducible] def plainCodec : NodeRecordCodec where
  Location := UInt8
  decEqLocation := inferInstance
  isRelay := fun _ => false
  canonicalLocations := .ok
  locationsJson := fun locations => locations
  encodeNodeRecord := fun record =>
    if record = plainRecord record.state record.sequence record.locations then
      .ok (plainPacket record.state record.sequence record.locations)
    else .error ⟨.malformedOrUntrusted, "another node"⟩
  decodeNodeRecord := plainDecode
  decode_encode := by
    intro record packet hencode
    split at hencode
    · rename_i hplain
      obtain rfl := Except.ok.inj hencode
      refine ⟨record.locations, ?_⟩
      rw [plainDecode_plainPacket, ← hplain]
    · cases hencode

def plainHash (bytes : List UInt8) : Hash := ⟨beBytes 32 (ofBe bytes), length_beBytes 32 _⟩

@[reducible] def plainBlake3 : Blake3 :=
  ⟨plainHash, fun _ bytes => plainHash bytes, fun left _ => left, fun left _ => left⟩

attribute [local instance] plainCodec plainBlake3

def plainIdentity : PublicationIdentity where
  nodeIdHex := "node"
  stateNamespace := "space"
  signedRecipient := "all"

def plainSettings (locations : List UInt8) : PublicationSettings := ⟨60, 10 ^ 9, locations, false⟩

def accepted (state : PublicationState) (sequence : UInt64) (locations : List UInt8) :
    List PublicationAnswer :=
  [.put (.ok ⟨200, []⟩), .get (.ok ⟨200, plainPacket state sequence locations⟩)]

def putsOf (events : List PublisherEvent) : List (Option (UInt64 × PublicationState) × Bool) :=
  (PublisherHost.run plainIdentity events).session.puts.map fun put =>
    ((decodeNodeRecord put.packet).toOption.map fun record => (record.sequence, record.state), put.byShutdown)

/-- The target moves on, the packet for it is lost on the way, and the target comes back. -/
def returningEvents : List PublisherEvent :=
  [.start (plainSettings [1]) [.anchor .done, .write .done],
    .refresh ([.clock (.ok 1000000), .write .done] ++ accepted .live 1000000 [1] ++ [.write .done]),
    .setDesired ([2] : List UInt8),
    .refresh [.write .done, .clock (.ok 2000000), .write .done, .put (.error "timed out")],
    .setDesired ([1] : List UInt8),
    .refresh ([.write .done, .write .done, .clock (.ok 3000000)] ++ accepted .live 1000000 [1])]

/-- A publisher that left a tombstone starts again, its packet escapes, and it shuts down. -/
def cleanupEvents : List PublisherEvent :=
  [.start (plainSettings [1]) [.anchor .done, .write .done],
    .refresh ([.clock (.ok 1000000), .write .done] ++ accepted .live 1000000 [1] ++ [.write .done]),
    .shutdown ([.write .done, .clock (.ok 2000000), .write .done] ++ accepted .withdrawn 2000000 [] ++
      [.write .done]),
    .crash,
    .start (plainSettings [1]) [],
    .setDesired ([1] : List UInt8),
    .refresh [.write .done, .clock (.ok 3000000), .write .done, .put (.ok ⟨200, []⟩), .get (.error "timed out")],
    .shutdown ([.write .done, .write .done, .clock (.ok 4000000)] ++ accepted .withdrawn 2000000 [])]

/-- The clock reads zero twice. -/
def zeroClockEvents : List PublisherEvent :=
  [.start (plainSettings [1]) [.anchor .done, .write .done],
    .refresh [.clock (.ok 0), .write .done, .put (.error "timed out")],
    .setDesired ([2] : List UInt8),
    .refresh [.write .done, .write .done, .clock (.ok 0), .write .done, .put (.error "timed out")]]

/-- The same start, and the target moves on for good. -/
def forwardEvents : List PublisherEvent :=
  [.start (plainSettings [1]) [.anchor .done, .write .done],
    .refresh ([.clock (.ok 1000000), .write .done] ++ accepted .live 1000000 [1] ++ [.write .done]),
    .setDesired ([2] : List UInt8),
    .refresh [.write .done, .clock (.ok 2000000), .write .done, .put (.error "timed out")],
    .shutdown ([.write .done, .write .done, .clock (.ok 3000000), .write .done] ++
      accepted .withdrawn 3000000 [] ++ [.write .done])]

theorem ticking_forwardEvents : ∀ event ∈ forwardEvents, event.Ticking := by
  simp [forwardEvents, PublisherEvent.Ticking, PublisherEvent.script, accepted]

theorem atHighWater_forwardEvents :
    ∀ put ∈ (PublisherHost.run plainIdentity forwardEvents).session.puts, put.AtHighWater := by
  have hall : ∀ put ∈ (PublisherHost.run plainIdentity forwardEvents).session.puts,
      ∀ record ∈ (plainDecode put.packet).toOption, record.sequence = put.highWater := by
    decide +kernel
  intro put hput record hrecord
  refine hall put hput record ?_
  rw [show plainDecode put.packet = .ok record from hrecord]
  rfl

end NixP2p
