import Mathlib.Algebra.Order.BigOperators.Group.List
import Mathlib.Algebra.Order.Group.Nat
import Mathlib.Algebra.Ring.Nat
import NixP2p.Base.Run

/-!
# The window of a streaming fetch

A producer task charges a verified leaf to the meter and then hands it into a channel of depth three; the consumer takes it out and then releases it. Between these two steps of the consumer the place in the channel is free again while the leaf is still charged, so the window is one leaf wider than the channel and the leaf in hand.
-/

namespace NixP2p

def streamChunkBytes : Nat := 64 * 1024

def maxInflightFetchBytesRam : Nat := 4 * streamChunkBytes

def fetchOutChannelDepth : Nat := 3

structure InflightMeter where
  current : UInt64 := 0
  hwm : UInt64 := 0
  deriving DecidableEq

namespace InflightMeter

def add (meter : InflightMeter) (n : UInt64) : InflightMeter := { meter with current := meter.current + n }

def raise (meter : InflightMeter) (now : UInt64) : InflightMeter := { meter with hwm := max meter.hwm now }

def release (meter : InflightMeter) (n : UInt64) : InflightMeter := { meter with current := meter.current - n }

theorem toNat_release {meter : InflightMeter} {n : UInt64} (h : n.toNat ≤ meter.current.toNat) :
    (meter.release n).current.toNat = meter.current.toNat - n.toNat :=
  UInt64.toNat_sub_of_le _ _ (UInt64.le_iff_toNat_le.mpr h)

end InflightMeter

inductive StreamFault where
  | invalidData
  | timedOut
  deriving DecidableEq

/-- The driver task between its steps; a leaf is known by its length. -/
inductive FetchProducer where
  | pulling
  | charging (leaf now : UInt64)
  | sending (leaf : UInt64)
  | reporting (fault : StreamFault)
  | ended
  deriving DecidableEq

/-- The consumer between its steps: `holding` is after the receive and before the release. -/
inductive FetchConsumer where
  | waiting
  | holding (leaf : UInt64)
  | finished (clean : Bool)
  | dropped
  deriving DecidableEq

def itemBytes : Except StreamFault UInt64 → Nat
  | .ok leaf => leaf.toNat
  | .error _ => 0

namespace FetchProducer

def charged : FetchProducer → Nat
  | charging leaf _ | sending leaf => leaf.toNat
  | _ => 0

def lost : FetchProducer → Nat
  | reporting _ | ended => streamChunkBytes
  | _ => 0

end FetchProducer

namespace FetchConsumer

def held : FetchConsumer → Nat
  | holding leaf => leaf.toNat
  | _ => 0

def lost : FetchConsumer → Nat
  | dropped => fetchOutChannelDepth * streamChunkBytes
  | _ => 0

def Reading : FetchConsumer → Prop
  | waiting | holding _ => True
  | _ => False

end FetchConsumer

/-- The stream with its driver; `reclaimed` counts the bytes that were freed without a release. -/
structure MeteredNarStream where
  meter : InflightMeter := {}
  out : List (Except StreamFault UInt64) := []
  producer : FetchProducer := .pulling
  consumer : FetchConsumer := .waiting
  reclaimed : Nat := 0

inductive FetchEvent where
  | leaf (size : UInt64)
  | verified (failed : Bool)
  | produce
  | deadline
  | consume
  | drop
  | abort
  deriving DecidableEq

namespace MeteredNarStream

def queued (stream : MeteredNarStream) : Nat := (stream.out.map itemBytes).sum

/-- The next leaf comes out of the verifier and is charged. -/
def nextLeaf (stream : MeteredNarStream) (size : UInt64) : MeteredNarStream :=
  match stream.producer with
  | .pulling =>
    { stream with meter := stream.meter.add size, producer := .charging size (stream.meter.current + size) }
  | _ => stream

def conclude (stream : MeteredNarStream) (failed : Bool) : MeteredNarStream :=
  match stream.producer with
  | .pulling => { stream with producer := if failed then .reporting .invalidData else .ended }
  | _ => stream

/-- The next step of the driver; a send waits for room and fails once the receiver is gone. -/
def produce (stream : MeteredNarStream) : MeteredNarStream :=
  match stream.producer with
  | .charging leaf now => { stream with meter := stream.meter.raise now, producer := .sending leaf }
  | .sending leaf =>
    if stream.consumer = .dropped then { stream with meter := stream.meter.release leaf, producer := .ended }
    else if stream.out.length < fetchOutChannelDepth then
      { stream with out := stream.out ++ [.ok leaf], producer := .pulling }
    else stream
  | .reporting fault =>
    if stream.consumer = .dropped then { stream with producer := .ended }
    else if stream.out.length < fetchOutChannelDepth then
      { stream with out := stream.out ++ [.error fault], producer := .ended }
    else stream
  | _ => stream

/-- The deadline drops the work at the point where it waits, with the leaf it may have charged. -/
def expire (stream : MeteredNarStream) : MeteredNarStream :=
  match stream.producer with
  | .charging _ _ | .reporting .timedOut | .ended => stream
  | waits =>
    { stream with producer := .reporting .timedOut, reclaimed := stream.reclaimed + waits.charged }

def consume (stream : MeteredNarStream) : MeteredNarStream :=
  match stream.consumer with
  | .waiting =>
    match stream.out with
    | .ok leaf :: rest => { stream with out := rest, consumer := .holding leaf }
    | .error _ :: rest => { stream with out := rest, consumer := .finished false }
    | [] => if stream.producer = .ended then { stream with consumer := .finished true } else stream
  | .holding leaf => { stream with meter := stream.meter.release leaf, consumer := .waiting }
  | _ => stream

/-- The stream is dropped between two calls: the channel goes, and the driver is told to stop. -/
def drop (stream : MeteredNarStream) : MeteredNarStream :=
  match stream.consumer with
  | .holding _ => stream
  | _ => { stream with out := [], consumer := .dropped, reclaimed := stream.reclaimed + stream.queued }

def abort (stream : MeteredNarStream) : MeteredNarStream :=
  match stream.consumer, stream.producer with
  | .dropped, .charging _ _ => stream
  | .dropped, waits => { stream with producer := .ended, reclaimed := stream.reclaimed + waits.charged }
  | _, _ => stream

def step (stream : MeteredNarStream) : FetchEvent → MeteredNarStream
  | .leaf size => stream.nextLeaf size
  | .verified failed => stream.conclude failed
  | .produce => stream.produce
  | .deadline => stream.expire
  | .consume => stream.consume
  | .drop => stream.drop
  | .abort => stream.abort

/-- What is charged is in the channel, with the driver, with the consumer or reclaimed, and never over the bound. -/
structure Accounted (bound : Nat) (stream : MeteredNarStream) : Prop where
  depth : stream.out.length ≤ fetchOutChannelDepth
  items : ∀ item ∈ stream.out, itemBytes item ≤ streamChunkBytes
  charged : stream.producer.charged ≤ streamChunkBytes
  held : stream.consumer.held ≤ streamChunkBytes
  current : stream.meter.current.toNat =
    stream.queued + stream.producer.charged + stream.consumer.held + stream.reclaimed
  lost : stream.reclaimed ≤ stream.consumer.lost + stream.producer.lost
  told : stream.consumer.Reading → stream.reclaimed = 0 ∨ stream.producer = .reporting .timedOut ∨
    ∃ fault, .error fault ∈ stream.out
  dropped : stream.consumer = .dropped → stream.out = []
  clean : stream.consumer = .finished true → stream.producer = .ended ∧ stream.meter.current = 0
  level : stream.meter.current.toNat ≤ bound
  hwm : stream.meter.hwm.toNat ≤ bound
  now : ∀ leaf now, stream.producer = .charging leaf now → now.toNat ≤ bound

variable {bound : Nat} {stream : MeteredNarStream}

section

variable (h : Accounted bound stream)

include h

theorem Accounted.queued_le : stream.queued + stream.consumer.lost ≤ fetchOutChannelDepth * streamChunkBytes := by
  have hitems := List.sum_le_card_nsmul (stream.out.map itemBytes) streamChunkBytes fun bytes hbytes => by
    obtain ⟨item, hitem, rfl⟩ := List.mem_map.mp hbytes
    exact h.items item hitem
  rw [List.length_map, nsmul_eq_mul] at hitems
  cases hconsumer : stream.consumer with
  | dropped =>
    rw [queued, h.dropped hconsumer]
    exact (Nat.zero_add _).le
  | _ => exact hitems.trans (Nat.mul_le_mul_right _ h.depth)

theorem Accounted.charged_le : stream.producer.charged + stream.producer.lost ≤ streamChunkBytes := by
  have hcharged := h.charged
  cases hproducer : stream.producer <;> rw [hproducer] at hcharged <;> first | exact hcharged | exact (Nat.zero_add _).le

theorem Accounted.current_le_of_pulling (hproducer : stream.producer = .pulling) :
    stream.meter.current.toNat ≤ fetchOutChannelDepth * streamChunkBytes + stream.consumer.held := by
  have hqueued := h.queued_le
  have hcurrent := h.current
  have hlost := h.lost
  rw [hproducer] at hcurrent hlost
  change _ = _ + 0 + _ + _ at hcurrent
  change _ ≤ _ + 0 at hlost
  omega

theorem Accounted.spare (hreading : stream.consumer.Reading) (hproducer : stream.producer.lost = 0) :
    stream.reclaimed = 0 := by
  have hlost := h.lost
  rw [hproducer] at hlost
  cases hconsumer : stream.consumer <;> rw [hconsumer] at hlost hreading <;>
    first | exact Nat.le_zero.mp hlost | exact hreading.elim

theorem Accounted.nextLeaf {size : UInt64} (hsize : size.toNat ≤ streamChunkBytes)
    (hroom : stream.producer = .pulling → stream.meter.current.toNat + size.toNat ≤ bound)
    (hbound : bound < 2 ^ 64) : Accounted bound (stream.nextLeaf size) := by
  unfold MeteredNarStream.nextLeaf
  split
  · rename_i hproducer
    have hspare := h.spare
    have hcurrent := h.current
    have hlost := h.lost
    have hroom := hroom hproducer
    have hsum : (stream.meter.current + size).toNat = stream.meter.current.toNat + size.toNat := by
      rw [UInt64.toNat_add, Nat.mod_eq_of_lt (hroom.trans_lt hbound)]
    rw [hproducer] at hcurrent hlost hspare
    change stream.meter.current.toNat = stream.queued + 0 + stream.consumer.held + stream.reclaimed at hcurrent
    refine { h with
      charged := hsize, current := ?_, lost := hlost, told := fun hreading => .inl (hspare hreading rfl)
      clean := fun hclean => absurd (hproducer.symm.trans (h.clean hclean).1) (by decide)
      level := hsum.trans_le hroom
      now := fun leaf now heq => (FetchProducer.charging.inj heq).2 ▸ hsum.trans_le hroom }
    change (stream.meter.current + size).toNat = stream.queued + size.toNat + stream.consumer.held + stream.reclaimed
    omega
  · exact h

theorem Accounted.stop {stopped : FetchProducer} (hnone : stopped.charged = 0)
    (hstopped : stopped.lost = streamChunkBytes) (hclean : stream.consumer = .finished true → stopped = .ended)
    (htold : stream.consumer.Reading → stream.reclaimed + stream.producer.charged = 0 ∨ stopped = .reporting .timedOut ∨ ∃ fault, .error fault ∈ stream.out) :
    Accounted bound { stream with producer := stopped, reclaimed := stream.reclaimed + stream.producer.charged } := by
  have hcurrent := h.current
  have hlost := h.lost
  have hcharged := h.charged_le
  refine { h with
    charged := hnone.trans_le (Nat.zero_le _), current := ?_, lost := ?_, told := htold
    clean := fun hfinished => ⟨hclean hfinished, (h.clean hfinished).2⟩
    now := fun leaf now heq => by
      obtain rfl : stopped = .charging leaf now := heq
      cases hstopped }
  · change stream.meter.current.toNat = stream.queued + stopped.charged + stream.consumer.held +
      (stream.reclaimed + stream.producer.charged)
    omega
  · change stream.reclaimed + stream.producer.charged ≤ stream.consumer.lost + stopped.lost
    omega

theorem Accounted.conclude (failed : Bool) : Accounted bound (stream.conclude failed) := by
  unfold MeteredNarStream.conclude
  split
  · rename_i hproducer
    have hspare := h.spare
    have hstop := @Accounted.stop bound stream h (if failed then .reporting .invalidData else .ended)
      (by cases failed <;> rfl) (by cases failed <;> rfl)
      (fun hclean => absurd (hproducer.symm.trans (h.clean hclean).1) (by decide))
    rw [hproducer] at hspare hstop
    exact hstop fun hreading => .inl (hspare hreading rfl)
  · exact h

theorem Accounted.expire : Accounted bound stream.expire := by
  have hstop (waits : FetchProducer) (hproducer : stream.producer = waits) (hended : waits ≠ .ended) :
      Accounted bound { stream with
        producer := .reporting .timedOut, reclaimed := stream.reclaimed + waits.charged } := by
    subst hproducer
    exact h.stop rfl rfl (fun hclean => absurd (h.clean hclean).1 hended) fun _ => .inr (.inl rfl)
  unfold MeteredNarStream.expire
  cases hproducer : stream.producer with
  | charging leaf now => exact h
  | ended => exact h
  | pulling => exact hstop _ hproducer (by decide)
  | sending leaf => exact hstop _ hproducer (by simp)
  | reporting fault =>
    cases fault with
    | timedOut => exact h
    | invalidData => exact hstop _ hproducer (by decide)

theorem Accounted.abort : Accounted bound stream.abort := by
  unfold MeteredNarStream.abort
  split
  · exact h
  · rename_i hdropped _
    exact h.stop rfl rfl (fun _ => rfl) fun hreading => by rw [hdropped] at hreading; exact hreading.elim
  · exact h

variable {item : Except StreamFault UInt64}

theorem Accounted.push (hdropped : stream.consumer ≠ .dropped) (hroom : stream.out.length < fetchOutChannelDepth)
    {next : FetchProducer} (hitem : itemBytes item = stream.producer.charged) (hnext : next.charged = 0)
    (hnow : ∀ leaf now, next ≠ .charging leaf now) (hended : stream.producer ≠ .ended)
    (hlost : next.lost = stream.producer.lost)
    (htold : stream.consumer.Reading → stream.reclaimed = 0 ∨ ∃ fault, .error fault ∈ stream.out ++ [item]) :
    Accounted bound { stream with out := stream.out ++ [item], producer := next } := by
  have hcurrent := h.current
  refine { h with
    depth := by rw [List.length_append]; exact hroom
    items := List.forall_mem_append.mpr ⟨h.items, List.forall_mem_singleton.mpr (hitem ▸ h.charged)⟩
    charged := hnext.trans_le (Nat.zero_le _), current := ?_, lost := by rw [hlost]; exact h.lost
    told := fun hreading => (htold hreading).imp_right .inr, dropped := fun hgone => absurd hgone hdropped
    clean := fun hclean => absurd (h.clean hclean).1 hended
    now := fun leaf now heq => absurd heq (hnow leaf now) }
  simp only [queued, List.map_append, List.map_cons, List.map_nil, List.sum_append, List.sum_singleton, hitem,
    hnext] at hcurrent ⊢
  omega

theorem Accounted.produce : Accounted bound stream.produce := by
  have hcharged := h.charged
  have hcurrent := h.current
  have hlost := h.lost
  have hspare := h.spare
  unfold MeteredNarStream.produce
  split
  · rename_i leaf now hproducer
    rw [hproducer] at hcharged hcurrent hlost hspare
    refine { h with
      charged := hcharged, current := hcurrent, lost := hlost, told := fun hreading => .inl (hspare hreading rfl)
      clean := fun hclean => absurd (hproducer.symm.trans (h.clean hclean).1) (by simp)
      hwm := ?_, now := by simp }
    change (if stream.meter.hwm ≤ now then now else stream.meter.hwm).toNat ≤ bound
    split_ifs
    · exact h.now leaf now hproducer
    · exact h.hwm
  · rename_i leaf hproducer
    have hended : stream.producer ≠ .ended := by rw [hproducer]; simp
    split_ifs with hdropped hroom
    · rw [hproducer] at hcurrent hlost
      change _ = _ + leaf.toNat + _ + _ at hcurrent
      have hrelease := @InflightMeter.toNat_release stream.meter leaf (by omega)
      refine { h with
        charged := Nat.zero_le _, current := ?_, lost := hlost.trans (Nat.add_le_add_left (Nat.zero_le _) _)
        told := fun hreading => by rw [hdropped] at hreading; exact hreading.elim
        clean := fun hclean => absurd (h.clean hclean).1 hended
        level := hrelease.trans_le ((Nat.sub_le _ _).trans h.level), now := by simp }
      change (stream.meter.release leaf).current.toNat =
        stream.queued + 0 + stream.consumer.held + stream.reclaimed
      omega
    · refine h.push hdropped hroom (by rw [hproducer]; rfl) rfl (by simp) hended (by rw [hproducer]; rfl) fun hreading => ?_
      exact .inl (hspare hreading (by rw [hproducer]; rfl))
    · exact h
  · rename_i fault hproducer
    have hended : stream.producer ≠ .ended := by rw [hproducer]; simp
    split_ifs with hdropped hroom
    · have hstop := @Accounted.stop bound stream h .ended rfl rfl (fun _ => rfl) fun hreading => by
        rw [hdropped] at hreading; exact hreading.elim
      rwa [hproducer] at hstop
    · exact h.push hdropped hroom (by rw [hproducer]; rfl) rfl (by simp) hended (by rw [hproducer]; rfl) fun _ =>
        .inr ⟨fault, List.mem_append_right _ List.mem_cons_self⟩
    · exact h
  · exact h

theorem Accounted.pop (hconsumer : stream.consumer = .waiting) {rest : List (Except StreamFault UInt64)}
    (hout : stream.out = item :: rest) {next : FetchConsumer} (hheld : next.held = itemBytes item)
    (hdropped : next ≠ .dropped) (hclean : next ≠ .finished true)
    (htold : next.Reading → stream.reclaimed = 0 ∨ stream.producer = .reporting .timedOut ∨ ∃ fault, .error fault ∈ rest) :
    Accounted bound { stream with out := rest, consumer := next } := by
  have hitems := h.items
  have hdepth := h.depth
  have hcurrent := h.current
  have hlost := h.lost
  rw [hout] at hitems hdepth
  rw [queued, hout, hconsumer] at hcurrent
  rw [hconsumer] at hlost
  refine { h with
    depth := Nat.le_of_succ_le hdepth, items := fun item hitem => hitems item (List.mem_cons_of_mem _ hitem)
    held := hheld.trans_le (hitems item List.mem_cons_self), current := ?_
    lost := hlost.trans (Nat.add_le_add_right (Nat.zero_le _) _), told := htold
    dropped := fun hgone => absurd hgone hdropped
    clean := fun hfinished => absurd hfinished hclean }
  have hwaiting : FetchConsumer.waiting.held = 0 := rfl
  simp only [queued, List.map_cons, List.sum_cons, hwaiting, hheld] at hcurrent ⊢
  omega

theorem Accounted.consume : Accounted bound stream.consume := by
  have hcurrent := h.current
  have hlost := h.lost
  have htold := h.told
  unfold MeteredNarStream.consume
  split
  · rename_i hconsumer
    rw [hconsumer] at hlost htold
    have htold := htold trivial
    split
    · rename_i leaf rest hout
      refine h.pop hconsumer hout rfl (by simp) (by simp) fun _ => ?_
      rw [hout] at htold
      simpa using htold
    · rename_i fault rest hout
      exact h.pop hconsumer hout rfl (by simp) (by simp) fun hreading => hreading.elim
    · rename_i hout
      split_ifs with hended
      · rw [hout, hended] at htold
        have hnone : stream.reclaimed = 0 := by simpa using htold
        rw [hconsumer] at hcurrent
        refine { h with
          held := Nat.zero_le _, current := hcurrent, lost := hlost, told := fun hreading => hreading.elim
          dropped := fun _ => hout, clean := fun _ => ⟨hended, UInt64.toNat_inj.mp ?_⟩ }
        rw [queued, hout, hended, hnone] at hcurrent
        exact hcurrent
      · exact h
  · rename_i leaf hconsumer
    rw [hconsumer] at hcurrent hlost htold
    change _ = _ + _ + leaf.toNat + _ at hcurrent
    have hrelease := @InflightMeter.toNat_release stream.meter leaf (by omega)
    refine { h with
      held := Nat.zero_le _, current := ?_, lost := hlost, told := htold
      dropped := fun hgone => by simp at hgone
      clean := fun hclean => by simp at hclean
      level := hrelease.trans_le ((Nat.sub_le _ _).trans h.level) }
    change (stream.meter.release leaf).current.toNat = stream.queued + stream.producer.charged + 0 + stream.reclaimed
    omega
  · exact h

theorem Accounted.drop : Accounted bound stream.drop := by
  have hcurrent := h.current
  have hqueued := h.queued_le
  have hlost := h.lost
  unfold MeteredNarStream.drop
  split
  · exact h
  rename_i hholding
  have hnone : stream.consumer.held = 0 := by
    cases hconsumer : stream.consumer with
    | holding leaf => exact absurd hconsumer (hholding leaf)
    | _ => rfl
  refine { h with
    depth := Nat.zero_le _, items := fun _ hitem => absurd hitem List.not_mem_nil, held := Nat.zero_le _
    current := ?_, lost := ?_, told := fun hreading => hreading.elim, dropped := fun _ => rfl
    clean := fun hclean => by simp at hclean }
  · change stream.meter.current.toNat = 0 + stream.producer.charged + 0 + (stream.reclaimed + stream.queued)
    omega
  · change stream.reclaimed + stream.queued ≤ fetchOutChannelDepth * streamChunkBytes + stream.producer.lost
    omega

theorem Accounted.step {event : FetchEvent}
    (hevent : ∀ size, event = .leaf size → size.toNat ≤ streamChunkBytes ∧ (stream.producer = .pulling → stream.meter.current.toNat + size.toNat ≤ bound))
    (hbound : bound < 2 ^ 64) : Accounted bound (stream.step event) := by
  cases event with
  | leaf size =>
    obtain ⟨hsize, hroom⟩ := hevent size rfl
    exact h.nextLeaf hsize hroom hbound
  | verified failed => exact h.conclude failed
  | produce => exact h.produce
  | deadline => exact h.expire
  | consume => exact h.consume
  | drop => exact h.drop
  | abort => exact h.abort

end

/-- A leaf is charged only while the consumer is not between a receive and its release. -/
def ChargesApart (stream : MeteredNarStream) : FetchEvent → Prop
  | .leaf _ => ∀ leaf, stream.consumer ≠ .holding leaf
  | _ => True

/-- Whatever bounds the leaf in the hand of the consumer at a charge widens the window by as much. -/
theorem accounted_run {P : MeteredNarStream → FetchEvent → Prop} {slack : Nat} (hslack : slack ≤ streamChunkBytes)
    (hheld : ∀ stream size, Accounted (maxInflightFetchBytesRam + slack) stream → P stream (.leaf size) →
      stream.consumer.held ≤ slack)
    {events : List FetchEvent} (hleaves : ∀ size, .leaf size ∈ events → size.toNat ≤ streamChunkBytes)
    (hrun : Run.Always step P {} events) : Accounted (maxInflightFetchBytesRam + slack) (events.foldl step {}) := by
  have hsizes : Run.Always step (fun _ event => ∀ size, event = .leaf size → size.toNat ≤ streamChunkBytes) {} events := by
    refine Run.always_of_forall (fun event hevent _ size heq => hleaves size ?_) _
    exact heq ▸ hevent
  have hfirst : Accounted (maxInflightFetchBytesRam + slack) {} :=
    ⟨by decide, by simp, by decide, by decide, by decide, by decide, by simp, by simp, by simp, Nat.zero_le _,
      Nat.zero_le _, by simp⟩
  refine Run.foldl_of_always (fun stream event h hevent => ?_) hfirst (Run.always_and.mpr ⟨hsizes, hrun⟩)
  obtain ⟨hsize, hevent⟩ := hevent
  refine h.step (fun size heq => ⟨hsize size heq, fun hproducer => ?_⟩) ?_
  · have hle := h.current_le_of_pulling hproducer
    have hsize := hsize size heq
    have hheld := hheld stream size h (heq ▸ hevent)
    unfold maxInflightFetchBytesRam fetchOutChannelDepth at *
    omega
  · unfold maxInflightFetchBytesRam streamChunkBytes at *
    omega

/-- The window of a stream is at most five leaves, and four as long as no leaf is charged between a receive and its release; a drained stream has released all that was charged. -/
theorem fetch_window_bounded (events : List FetchEvent)
    (hleaves : ∀ size, .leaf size ∈ events → size.toNat ≤ streamChunkBytes) :
    ((events.foldl step {}).meter.current.toNat ≤ 5 * streamChunkBytes ∧
        (events.foldl step {}).meter.hwm.toNat ≤ 5 * streamChunkBytes) ∧
      (Run.Always step ChargesApart {} events →
        (events.foldl step {}).meter.current.toNat ≤ maxInflightFetchBytesRam ∧
          (events.foldl step {}).meter.hwm.toNat ≤ maxInflightFetchBytesRam) ∧
      ((events.foldl step {}).consumer = .finished true → (events.foldl step {}).meter.current = 0) := by
  have hwide := accounted_run le_rfl (fun _ _ h _ => h.held) hleaves (Run.always_of_forall (fun _ _ _ => trivial) _)
  refine ⟨⟨hwide.level, hwide.hwm⟩, fun hapart => ?_, fun hclean => (hwide.clean hclean).2⟩
  have hempty : ∀ stream size, Accounted (maxInflightFetchBytesRam + 0) stream → stream.ChargesApart (.leaf size) →
      stream.consumer.held ≤ 0 := by
    intro stream size _ happart
    cases hconsumer : stream.consumer with
    | holding leaf => exact absurd hconsumer (happart leaf)
    | _ => exact le_rfl
  have hnarrow := accounted_run (Nat.zero_le _) hempty hleaves hapart
  exact ⟨hnarrow.level, hnarrow.hwm⟩

/-- Four leaves fill the channel and the hand of the driver, and a fifth is charged while the first is in the hand of the consumer. -/
def wideningSchedule : List FetchEvent :=
  [.leaf 65536, .produce, .produce, .leaf 65536, .produce, .produce, .leaf 65536, .produce, .produce, .leaf 65536,
    .produce, .consume, .produce, .leaf 65536, .produce]

theorem fetch_window_widened :
    (wideningSchedule.foldl step {}).meter = ⟨327680, 327680⟩ ∧ maxInflightFetchBytesRam = 262144 := by decide

theorem fetch_window_bounded_widened : (wideningSchedule.foldl step {}).meter.hwm.toNat ≤ 5 * streamChunkBytes :=
  (fetch_window_bounded wideningSchedule (by simp [wideningSchedule, streamChunkBytes])).1.2

end MeteredNarStream

end NixP2p
