import NixP2p.Base.Run
import NixP2p.Transfer.DecoderSafety

/-!
# The bounded decoder and the boundaries of its chunks

The output of a streaming decoder depends on the input it has read and not on how that input was cut. Under this law the outcome of pushing chunks and finishing is a property of the bytes alone, with one exception: after the end of a frame zstd takes any further step for the start of another one, so a push of an empty chunk makes a whole frame a truncated one.
-/

namespace NixP2p

/-- The output of a decoder is a function of the input it has read. The law speaks of the steps up to the end of the first frame. -/
structure Zstd.Streaming [Zstd] (start : Zstd.Decoder) where
  /-- All that can be written after the input was read. -/
  content : List UInt8 → List UInt8
  /-- The input is a whole frame. -/
  frameEnd : List UInt8 → Bool
  /-- No frame begins like the input. -/
  corrupt : List UInt8 → Bool
  /-- A state in which the first list has been read and the second one written. -/
  At : Zstd.Decoder → List UInt8 → List UInt8 → Prop
  at_start : At start [] []
  frameEnd_nil : frameEnd [] = false
  content_append : ∀ read more, content read <+: content (read ++ more)
  corrupt_append : ∀ {read} more, corrupt read = true → corrupt (read ++ more) = true
  step_error : ∀ {decoder read written input why}, At decoder read written →
    ¬(frameEnd read = true ∧ written = content read) →
    Zstd.runOnBuffers decoder input decodeBlock = .error why → corrupt (read ++ input) = true
  step_ok : ∀ {decoder read written input status next}, At decoder read written →
    ¬(frameEnd read = true ∧ written = content read) →
    Zstd.runOnBuffers decoder input decodeBlock = .ok (status, next) →
    let seen := read ++ input.take status.bytesRead
    let shown := written ++ status.written
    At next seen shown ∧ corrupt seen = false ∧ shown <+: content seen ∧
    (status.remaining = 0 ↔ frameEnd seen = true ∧ shown = content seen) ∧
    (status.written.length ≠ decodeBlock →
      shown = content seen ∧ (status.bytesRead = input.length ∨ frameEnd seen = true)) ∧
    -- a step does not read beyond the end of the frame
    ∀ size ≤ input.length, frameEnd (read ++ input.take size) = true → status.bytesRead ≤ size

theorem saturatingAdd_min (left right : Nat) :
    saturatingAdd (min left (2 ^ 64 - 1)) right = min (left + right) (2 ^ 64 - 1) := by
  rw [saturatingAdd]
  omega

section Chunks

variable [Zstd] {start : Zstd.Decoder}

/-- The input is one sound frame within the bounds of a decoder with the given cap. -/
structure Zstd.Streaming.Accepted (stream : Zstd.Streaming start) (cap : Nat) (input : List UInt8) : Prop where
  ended : stream.frameEnd input = true
  first : ∀ early, early <+: input → stream.frameEnd early = true → early = input
  sound : stream.corrupt input = false
  fits : (stream.content input).length ≤ cap
  nonempty : stream.content input ≠ []
  bounded : min input.length (2 ^ 64 - 1) ≤ zstdCompressBound cap

/-- The input was read up to here, and the output is some of what it gives. -/
structure Zstd.Streaming.Reading (stream : Zstd.Streaming start) (decoder : Zstd.Decoder)
    (read written : List UInt8) : Prop where
  here : stream.At decoder read written
  emitted : written <+: stream.content read
  first : ∀ early, early <+: read → stream.frameEnd early = true → early = read
  sound : stream.frameEnd read = true → stream.corrupt read = false

namespace Zstd.Streaming

variable {stream : Zstd.Streaming start} {decoder next : Zstd.Decoder} {read written input : List UInt8}
  {status : ZstdStatus input.length decodeBlock}

theorem Reading.initial : stream.Reading start [] [] where
  here := stream.at_start
  emitted := List.nil_prefix
  first := fun _ hearly _ => List.prefix_nil.mp hearly
  sound := fun hend => absurd (stream.frameEnd_nil.symm.trans hend) Bool.false_ne_true

theorem Reading.step (hreading : stream.Reading decoder read written)
    (hopen : ¬(stream.frameEnd read = true ∧ written = stream.content read))
    (hrun : Zstd.runOnBuffers decoder input decodeBlock = .ok (status, next)) :
    stream.Reading next (read ++ input.take status.bytesRead) (written ++ status.written) := by
  obtain ⟨hat, hsound, hemitted, _, _, hwithin⟩ := stream.step_ok hreading.here hopen hrun
  refine ⟨hat, hemitted, fun early hearly hend => ?_, fun _ => hsound⟩
  -- an end inside what was read before stops the step at once, one inside the input stops it there
  rcases Nat.le_total early.length read.length with hshort | hlong
  · obtain rfl := hreading.first early (List.prefix_of_prefix_length_le hearly (List.prefix_append _ _) hshort) hend
    have hnone : status.bytesRead = 0 := by
      have := hwithin 0 (Nat.zero_le _) (by rwa [List.take_zero, List.append_nil])
      omega
    rw [hnone, List.take_zero, List.append_nil]
  obtain ⟨rest, rfl⟩ := List.prefix_of_prefix_length_le (List.prefix_append _ _) hearly hlong
  have hrest : rest <+: input.take status.bytesRead := (List.prefix_append_right_inj read).mp hearly
  have hlength : rest.length ≤ status.bytesRead := hrest.length_le.trans (List.length_take_le _ _)
  have htake : rest = input.take rest.length :=
    List.prefix_iff_eq_take.mp (hrest.trans (List.take_prefix _ _))
  have hread : status.bytesRead = rest.length := by
    have hsize : rest.length ≤ input.length := hlength.trans status.read_le
    have := hwithin rest.length hsize (by rwa [← htake])
    omega
  rw [hread, ← htake]

theorem Reading.content_le (hreading : stream.Reading decoder read written) (more : List UInt8) :
    written.length ≤ (stream.content (read ++ more)).length :=
  (hreading.emitted.trans (stream.content_append read more)).length_le

theorem not_accepted_of_early {cap : Nat} (hend : stream.frameEnd read = true) {more : List UInt8} (hmore : more ≠ []) :
    ¬ stream.Accepted cap (read ++ more) := by
  intro haccepted
  have heq := haccepted.first read (List.prefix_append _ _) hend
  exact hmore (List.append_right_eq_self.mp heq.symm)

end Zstd.Streaming

namespace BoundedZstdDecoder

variable {stream : Zstd.Streaming start} {read : List UInt8}

/-- What a loop over `input` has come to: all is read and the end of a frame is known, or no frame begins like this. -/
inductive FedTo (stream : Zstd.Streaming start) (read input : List UInt8) (before : BoundedZstdDecoder) :
    Except DecodeError Unit × BoundedZstdDecoder → Prop where
  | read {after : BoundedZstdDecoder} {zstd : Zstd.Decoder} (hdecoder : after.decoder = some zstd)
      (hreading : stream.Reading zstd (read ++ input) after.buf)
      (hcomplete : after.frameComplete = true ↔ stream.frameEnd (read ++ input) = true)
      (hdrained : stream.frameEnd (read ++ input) = true → after.buf = stream.content (read ++ input))
      (hstarted : after.started = true) (hinputCap : after.inputCap = before.inputCap)
      (hconsumed : after.consumed = before.consumed) :
      FedTo stream read input before (.ok (), after)
  | refused {after : BoundedZstdDecoder} {error : DecodeError}
      (hrefused : ∀ more, ¬ stream.Accepted before.outputCap (read ++ input ++ more)) :
      FedTo stream read input before (.error error, after)

/-- A state of the loop: what was read and written so far, and whether the frame is known to be complete. -/
structure Feeding (stream : Zstd.Streaming start) (read input : List UInt8) (decoder : Zstd.Decoder)
    (state : BoundedZstdDecoder) : Prop where
  reading : stream.Reading decoder read state.buf
  complete_iff : state.frameComplete = true ↔ stream.frameEnd read = true ∧ state.buf = stream.content read
  pending : state.frameComplete = true → input ≠ []

variable {decoder : Zstd.Decoder} {self : BoundedZstdDecoder} {input : List UInt8}

theorem Feeding.incomplete (hfeeding : Feeding stream read input decoder self)
    (hopen : self.frameComplete = true → input = []) :
    ¬(stream.frameEnd read = true ∧ self.buf = stream.content read) := by
  intro hend
  have hcomplete := hfeeding.complete_iff.mpr hend
  exact hfeeding.pending hcomplete (hopen hcomplete)

variable {after : BoundedZstdDecoder}

theorem feed_done {result : Except DecodeError Unit} (hfeeding : Feeding stream read input decoder self)
    (hround : RoundFrom decoder input self (.done result after)) : FedTo stream read input self (result, after) := by
  cases hround with
  | trailing hcomplete hinput =>
    refine .refused fun more => ?_
    rw [List.append_assoc]
    exact Zstd.Streaming.not_accepted_of_early (hfeeding.complete_iff.mp hcomplete).1
      (List.append_ne_nil_of_left_ne_nil hinput _)
  | failed hopen hrun =>
    have hcorrupt := stream.step_error hfeeding.reading.here (hfeeding.incomplete hopen) hrun
    refine .refused fun more haccepted => ?_
    have hstill := stream.corrupt_append more hcorrupt
    exact Bool.false_ne_true (haccepted.sound.symm.trans hstill)
  | @tooLarge status next fault hopen hrun happend =>
    have hstep := hfeeding.reading.step (hfeeding.incomplete hopen) hrun
    refine .refused fun more haccepted => ?_
    have hcontent := hstep.content_le (input.drop status.bytesRead ++ more)
    rw [List.append_assoc, ← List.append_assoc (input.take _), List.take_append_drop, ← List.append_assoc] at hcontent
    have hfits := haccepted.fits
    omega
  | @finished status next hopen hrun happend hread hdrained =>
    have hincomplete := hfeeding.incomplete hopen
    have hstep := hfeeding.reading.step hincomplete hrun
    obtain ⟨_, _, _, hended, hflushed, _⟩ := stream.step_ok hfeeding.reading.here hincomplete hrun
    have hall : input.take status.bytesRead = input := by
      rw [← List.append_nil (input.take _), ← hread, List.take_append_drop]
    rw [hall] at hstep hended hflushed
    have hcontent : self.buf ++ status.written = stream.content (read ++ input) := by
      rcases hdrained with hroom | hend
      · exact (hflushed hroom).1
      · exact (hended.mp hend).2
    refine .read rfl hstep ?_ (fun _ => hcontent) rfl rfl rfl
    rw [beq_iff_eq, hended, and_iff_left hcontent]
  | @stuck status next why hopen hrun hpending hread hwritten =>
    have hincomplete := hfeeding.incomplete hopen
    obtain ⟨_, _, _, _, hflushed, _⟩ := stream.step_ok hfeeding.reading.here hincomplete hrun
    have hroom : status.written.length ≠ decodeBlock := by
      rw [hwritten]
      decide
    obtain ⟨hcontent, hstop⟩ := hflushed hroom
    rw [hread, hwritten, List.take_zero, List.append_nil, List.append_nil] at hcontent
    rw [hread, List.take_zero, List.append_nil] at hstop
    -- a step that was not full reads on, unless the frame had ended before it
    rcases hstop with hempty | hend
    · rw [hread, List.drop_zero] at hpending
      have hinput : input = [] := List.length_eq_zero_iff.mp hempty.symm
      exact absurd hinput (hpending.resolve_right fun hfull => hroom hfull.1)
    · exact absurd ⟨hend, hcontent⟩ hincomplete

theorem feed_again {next : Zstd.Decoder} {rest : List UInt8} (hfeeding : Feeding stream read input decoder self)
    (hround : RoundFrom decoder input self (.again next rest after)) :
    ∃ seen, seen ++ rest = read ++ input ∧ Feeding stream seen rest next after ∧
      after.outputCap = self.outputCap ∧ after.inputCap = self.inputCap ∧ after.consumed = self.consumed := by
  cases hround with
  | @again status _ hopen hrun happend hpending hmoves =>
    have hincomplete := hfeeding.incomplete hopen
    obtain ⟨_, _, _, hended, _, _⟩ := stream.step_ok hfeeding.reading.here hincomplete hrun
    refine ⟨read ++ input.take status.bytesRead, ?_, ⟨hfeeding.reading.step hincomplete hrun, ?_, fun hend => ?_⟩,
      rfl, rfl, rfl⟩
    · rw [List.append_assoc, List.take_append_drop]
    · rw [beq_iff_eq]
      exact hended
    · exact hpending.resolve_right fun hfull => hfull.2 (beq_iff_eq.mp hend)

theorem feed_fedTo (decoder : Zstd.Decoder) (input : List UInt8) (self : BoundedZstdDecoder) :
    ∀ read, Feeding stream read input decoder self → FedTo stream read input self (feed decoder input self) := by
  refine feed_induction (motive := fun decoder input self outcome =>
    ∀ read, Feeding stream read input decoder self → FedTo stream read input self outcome) ?_ ?_ decoder input self
  · intro decoder input self result after hround read hfeeding
    exact feed_done hfeeding hround
  · intro decoder input self next rest after outcome hround ih read hfeeding
    obtain ⟨seen, hseen, hnext, houtputCap, hinputCap, hconsumed⟩ := feed_again hfeeding hround
    cases ih seen hnext with
    | read hdecoder hreading hcomplete hdrained hstarted hinput hcount =>
      rw [hseen] at hreading hcomplete hdrained
      exact .read hdecoder hreading hcomplete hdrained hstarted (hinput.trans hinputCap) (hcount.trans hconsumed)
    | refused hrefused =>
      rw [hseen, houtputCap] at hrefused
      exact .refused hrefused

/-- A decoder whose pushes have all succeeded, on the bytes of `read` in all. -/
structure Pushed (stream : Zstd.Streaming start) (cap : Nat) (read : List UInt8) (state : BoundedZstdDecoder) : Prop where
  capped : Capped cap state
  inputCap_eq : state.inputCap = zstdCompressBound cap
  consumed_eq : state.consumed = min read.length (2 ^ 64 - 1)
  consumed_le : state.consumed ≤ state.inputCap
  reading : ∃ zstd, state.decoder = some zstd ∧ stream.Reading zstd read state.buf
  complete_iff : state.frameComplete = true ↔ stream.frameEnd read = true
  drained : stream.frameEnd read = true → state.buf = stream.content read ∧ state.started = true

theorem fresh_pushed (stream : Zstd.Streaming start) (cap : Nat) : Pushed stream cap [] (fresh cap start) where
  capped := ⟨rfl, Nat.zero_le _⟩
  inputCap_eq := rfl
  consumed_eq := rfl
  consumed_le := Nat.zero_le _
  reading := ⟨start, rfl, .initial⟩
  complete_iff := by
    rw [stream.frameEnd_nil]
    exact Iff.rfl
  drained := fun hend => absurd (stream.frameEnd_nil.symm.trans hend) Bool.false_ne_true

variable {cap : Nat}

/-- Pushing a chunk after the end of the frame reads it, or leaves a failed decoder and no accepted input begins like this. -/
theorem push_pushed (hpushed : Pushed stream cap read self) {chunk : List UInt8}
    (hidle : self.frameComplete = true → chunk ≠ []) :
    Pushed stream cap (read ++ chunk) (self.push chunk).2 ∨
      (self.push chunk).2.decoder = none ∧ ∀ more, ¬ stream.Accepted cap (read ++ chunk ++ more) := by
  obtain ⟨zstd, hdecoder, hreading⟩ := hpushed.reading
  have hconsumed : saturatingAdd self.consumed chunk.length = min (read ++ chunk).length (2 ^ 64 - 1) := by
    rw [hpushed.consumed_eq, saturatingAdd_min, List.length_append]
  by_cases hlarge : self.inputCap < saturatingAdd self.consumed chunk.length
  · refine .inr ⟨by rw [push, if_pos hlarge], fun more haccepted => ?_⟩
    have hbounded := haccepted.bounded
    rw [hconsumed, hpushed.inputCap_eq] at hlarge
    have hmore := (List.prefix_append (read ++ chunk) more).length_le
    omega
  have hfeeding : Feeding stream read chunk zstd
      { self with consumed := saturatingAdd self.consumed chunk.length, decoder := none } := by
    refine ⟨hreading, hpushed.complete_iff.trans ⟨fun hend => ?_, fun hend => hend.1⟩, hidle⟩
    exact ⟨hend, (hpushed.drained hend).1⟩
  have hpush : self.push chunk = feed zstd chunk
      { self with consumed := saturatingAdd self.consumed chunk.length, decoder := none } := by
    rw [push, if_neg hlarge, hdecoder]
  have hcapped := push_capped hpushed.capped chunk
  have hfed := feed_fedTo zstd chunk _ read hfeeding
  rw [← hpush] at hfed
  generalize hresult : self.push chunk = outcome at hfed hcapped
  cases hfed with
  | @read after zstd hdecoder hreading hcomplete hdrained hstarted hinputCap hcount =>
    refine .inl ⟨hcapped, hinputCap.trans hpushed.inputCap_eq, hcount.trans hconsumed, ?_,
      ⟨zstd, hdecoder, hreading⟩, hcomplete, fun hend => ⟨hdrained hend, hstarted⟩⟩
    rw [hcount, hinputCap]
    exact Nat.le_of_not_lt hlarge
  | @refused after error hrefused =>
    refine .inr ⟨?_, fun more => ?_⟩
    · have hfailed : (self.push chunk).2.decoder = none := push_error (by rw [hresult])
      rwa [hresult] at hfailed
    · rw [← hpushed.capped.outputCap_eq]
      exact hrefused more

theorem finish_pushed (hpushed : Pushed stream cap read self) (raw : List UInt8) :
    self.finish = .ok raw ↔ stream.Accepted cap read ∧ raw = stream.content read := by
  obtain ⟨zstd, hdecoder, hreading⟩ := hpushed.reading
  rw [finish_eq_ok_iff, hpushed.complete_iff]
  refine ⟨?_, ?_⟩
  · rintro ⟨_, _, hend, hbuf, rfl⟩
    have hcontent := (hpushed.drained hend).1
    have hbounded : min read.length (2 ^ 64 - 1) ≤ zstdCompressBound cap := by
      rw [← hpushed.consumed_eq, ← hpushed.inputCap_eq]
      exact hpushed.consumed_le
    exact ⟨⟨hend, hreading.first, hreading.sound hend, hcontent ▸ hpushed.capped.buf_le, hcontent ▸ hbuf, hbounded⟩,
      hcontent⟩
  · rintro ⟨haccepted, rfl⟩
    obtain ⟨hcontent, hstarted⟩ := hpushed.drained haccepted.ended
    exact ⟨by rw [hdecoder]; exact Option.some_ne_none _, hstarted, haccepted.ended, hcontent ▸ haccepted.nonempty,
      hcontent.symm⟩

/-- No empty chunk is pushed once the frame is complete, as long as the decoder has not failed. -/
def NoIdlePush (self : BoundedZstdDecoder) (chunk : List UInt8) : Prop :=
  self.decoder ≠ none → self.frameComplete = true → chunk ≠ []

/-- The outcome of the pushes and the finish is a property of the bytes pushed. -/
theorem finish_pushAll_iff (hpushed : Pushed stream cap read self) {chunks : List (List UInt8)}
    (hidle : Run.Always (fun self chunk => (push self chunk).2) NoIdlePush self chunks) (raw : List UInt8) :
    (self.pushAll chunks).finish = .ok raw ↔
      stream.Accepted cap (read ++ chunks.flatten) ∧ raw = stream.content (read ++ chunks.flatten) := by
  induction chunks generalizing self read with
  | nil =>
    rw [List.flatten_nil, List.append_nil]
    exact finish_pushed hpushed raw
  | cons chunk chunks ih =>
    rw [List.flatten_cons, ← List.append_assoc]
    obtain ⟨zstd, hdecoder, _⟩ := hpushed.reading
    rcases push_pushed hpushed (hidle.1 (by rw [hdecoder]; exact Option.some_ne_none _)) with hnext | ⟨hfailed, hrefused⟩
    · exact ih hnext hidle.2
    have hfinish : ((self.push chunk).2.pushAll chunks).finish = .error (.zstd "zstd decode already failed") :=
      finish_failed (pushAll_failed hfailed chunks).1
    change ((self.push chunk).2.pushAll chunks).finish = .ok raw ↔ _
    rw [hfinish]
    exact ⟨fun h => absurd h (by simp), fun h => absurd h.1 (hrefused _)⟩

/-- Two ways of cutting the same bytes into chunks give the same content, or an error in both, as long as neither pushes an empty chunk after the end of the frame. -/
theorem chunking_independent (stream : Zstd.Streaming start) (cap : Nat) {left right : List (List UInt8)}
    (hsame : left.flatten = right.flatten)
    (hleft : Run.Always (fun self chunk => (push self chunk).2) NoIdlePush (fresh cap start) left)
    (hright : Run.Always (fun self chunk => (push self chunk).2) NoIdlePush (fresh cap start) right) :
    ((fresh cap start).pushAll left).finish.toOption = ((fresh cap start).pushAll right).finish.toOption := by
  refine Fallible.toOption_eq_of_ok_iff fun raw => ?_
  rw [finish_pushAll_iff (fresh_pushed stream cap) hleft, hsame, ← finish_pushAll_iff (fresh_pushed stream cap) hright]

end BoundedZstdDecoder

end Chunks

/-- A decoder for frames of one byte, which takes a step after the end of a frame for the start of another. -/
@[reducible] def oneByteFrames : Zstd where
  Decoder := Unit
  newDecoder := fun _ => .ok ()
  runOnBuffers := fun _ input room =>
    match input with
    | [] => .ok (⟨0, [], 1, Nat.le_refl 0, Nat.zero_le room⟩, ())
    | byte :: rest => .ok (⟨1, [byte].take room, 0, Nat.succ_le_succ (Nat.zero_le rest.length), List.length_take_le _ _⟩, ())
  compress := fun _ raw => .ok raw

section OneByte

attribute [local instance] oneByteFrames

theorem oneByteFrames_open {read written : List UInt8} (hread : read.length ≤ 1)
    (hopen : ¬((read.length == 1) = true ∧ written = read.take 1)) (hwritten : written = read) : read = [] := by
  obtain rfl | hone : read = [] ∨ read.length = 1 := by
    rw [← List.length_eq_zero_iff]
    omega
  · rfl
  · exact absurd ⟨beq_iff_eq.mpr hone, hwritten.trans (List.take_of_length_le hread).symm⟩ hopen

def oneByteStreaming : Zstd.Streaming () :=
  { content := fun read => read.take 1
    frameEnd := fun read => read.length == 1
    corrupt := fun _ => false
    At := fun _ read written => read.length ≤ 1 ∧ written = read
    at_start := ⟨Nat.zero_le 1, rfl⟩
    frameEnd_nil := rfl
    content_append := fun read more => by
      cases read with
      | nil => exact List.nil_prefix
      | cons byte rest => exact List.prefix_rfl
    corrupt_append := fun _ hcorrupt => hcorrupt
    step_error := fun {_ _ _ input _} _ _ hrun => by
      cases input with
      | nil => exact absurd hrun (by simp [Zstd.runOnBuffers])
      | cons byte rest => exact absurd hrun (by simp [Zstd.runOnBuffers])
    step_ok := fun {_ read written input _ _} hat hopen hrun => by
      obtain rfl := oneByteFrames_open hat.1 hopen hat.2
      obtain rfl := hat.2
      cases input with
      | nil =>
        obtain ⟨rfl, -⟩ := Prod.mk.inj (Except.ok.inj hrun)
        simp
      | cons byte rest =>
        obtain ⟨rfl, -⟩ := Prod.mk.inj (Except.ok.inj hrun)
        simp [decodeBlock]
        omega }

open BoundedZstdDecoder

def afterFrame : BoundedZstdDecoder :=
  { fresh 4 () with buf := [7], consumed := 1, started := true, frameComplete := true }

theorem push_one_frame : (fresh 4 ()).push [7] = (.ok (), afterFrame) :=
  Option.some.inj ((pushWithin_eq_push (by decide : work [7] (fresh 4 ()) < 6)).symm.trans rfl)

theorem push_after_frame : afterFrame.push [] = (.ok (), { afterFrame with frameComplete := false }) :=
  Option.some.inj ((pushWithin_eq_push (by decide : work [] afterFrame < 6)).symm.trans rfl)

/-- A whole frame is accepted, and refused as truncated when an empty chunk follows it. -/
theorem idle_push_truncates :
    Nonempty (Zstd.Streaming ()) ∧ [[7], []].flatten = [[(7 : UInt8)]].flatten ∧
    ((fresh 4 ()).pushAll [[7]]).finish = .ok [7] ∧
    ((fresh 4 ()).pushAll [[7], []]).finish = .error (.truncated 1) := by
  refine ⟨⟨oneByteStreaming⟩, rfl, ?_, ?_⟩
  · simp only [pushAll, List.foldl_cons, List.foldl_nil, push_one_frame]
    rfl
  · simp only [pushAll, List.foldl_cons, List.foldl_nil, push_one_frame, push_after_frame]
    rfl

theorem chunking_independent_empty_first :
    ((fresh 4 ()).pushAll [[], [7]]).finish.toOption = ((fresh 4 ()).pushAll [[7]]).finish.toOption := by
  refine chunking_independent oneByteStreaming 4 rfl ⟨fun _ h => ?_, fun _ _ => List.cons_ne_nil _ _, trivial⟩
    ⟨fun _ _ => List.cons_ne_nil _ _, trivial⟩
  exact absurd h Bool.false_ne_true

end OneByte

end NixP2p
