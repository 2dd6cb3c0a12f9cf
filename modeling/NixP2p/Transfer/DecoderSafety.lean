import NixP2p.Transfer.BoundedZstd

/-!
# The bounded decoder against any step function

Nothing is assumed of zstd here beyond the bounds of its buffers. One round of the loop of a push either ends the push or goes on with less to read or less room under the cap, and an error leaves the decoder without zstd's state, so that every later call fails.
-/

namespace NixP2p

namespace BoundedZstdDecoder

variable [Zstd]

inductive Round where
  | done (result : Except DecodeError Unit) (after : BoundedZstdDecoder)
  | again (decoder : Zstd.Decoder) (rest : List UInt8) (next : BoundedZstdDecoder)

def round (decoder : Zstd.Decoder) (input : List UInt8) (self : BoundedZstdDecoder) : Round :=
  if self.frameComplete && !input.isEmpty then .done (.error (.trailingInput input.length)) self
  else match Zstd.runOnBuffers decoder input decodeBlock with
    | .error why => .done (.error (.zstd why)) self
    | .ok (status, decoder) =>
      match appendCapped self.buf self.outputCap status.written with
      | .error fault => .done (.error fault) { self with started := true }
      | .ok buf =>
        let rest := input.drop status.bytesRead
        let complete := status.remaining == 0
        let next := { self with started := true, buf, frameComplete := complete }
        if rest.isEmpty && (status.written.length != decodeBlock || complete) then
          .done (.ok ()) { next with decoder := some decoder }
        else if status.bytesRead = 0 ∧ status.written = [] then
          .done (.error (.zstd "zstd decoder made no progress on pending input")) next
        else .again decoder rest next

/-- What the outcome of a round is, given the state it started from. -/
inductive RoundFrom (decoder : Zstd.Decoder) (input : List UInt8) (self : BoundedZstdDecoder) : Round → Prop where
  | trailing (hcomplete : self.frameComplete = true) (hinput : input ≠ []) :
      RoundFrom decoder input self (.done (.error (.trailingInput input.length)) self)
  | failed {why : String} (hopen : self.frameComplete = true → input = [])
      (hrun : Zstd.runOnBuffers decoder input decodeBlock = .error why) :
      RoundFrom decoder input self (.done (.error (.zstd why)) self)
  | tooLarge {status : ZstdStatus input.length decodeBlock} {next : Zstd.Decoder} {fault : DecodeError}
      (hopen : self.frameComplete = true → input = [])
      (hrun : Zstd.runOnBuffers decoder input decodeBlock = .ok (status, next))
      (happend : self.outputCap < (self.buf ++ status.written).length) :
      RoundFrom decoder input self (.done (.error fault) { self with started := true })
  | finished {status : ZstdStatus input.length decodeBlock} {next : Zstd.Decoder}
      (hopen : self.frameComplete = true → input = [])
      (hrun : Zstd.runOnBuffers decoder input decodeBlock = .ok (status, next))
      (happend : status.written = [] ∨ (self.buf ++ status.written).length ≤ self.outputCap)
      (hread : input.drop status.bytesRead = [])
      (hdrained : status.written.length ≠ decodeBlock ∨ status.remaining = 0) :
      RoundFrom decoder input self (.done (.ok ()) { self with
        started := true, buf := self.buf ++ status.written, frameComplete := status.remaining == 0
        decoder := some next })
  | stuck {status : ZstdStatus input.length decodeBlock} {next : Zstd.Decoder} {why : String}
      (hopen : self.frameComplete = true → input = [])
      (hrun : Zstd.runOnBuffers decoder input decodeBlock = .ok (status, next))
      (hpending : input.drop status.bytesRead ≠ [] ∨ status.written.length = decodeBlock ∧ status.remaining ≠ 0)
      (hread : status.bytesRead = 0) (hwritten : status.written = []) :
      RoundFrom decoder input self (.done (.error (.zstd why))
        { self with started := true, frameComplete := status.remaining == 0 })
  | again {status : ZstdStatus input.length decodeBlock} {next : Zstd.Decoder}
      (hopen : self.frameComplete = true → input = [])
      (hrun : Zstd.runOnBuffers decoder input decodeBlock = .ok (status, next))
      (happend : status.written = [] ∨ (self.buf ++ status.written).length ≤ self.outputCap)
      (hpending : input.drop status.bytesRead ≠ [] ∨ status.written.length = decodeBlock ∧ status.remaining ≠ 0)
      (hmoves : ¬(status.bytesRead = 0 ∧ status.written = [])) :
      RoundFrom decoder input self (.again next (input.drop status.bytesRead) { self with
        started := true, buf := self.buf ++ status.written, frameComplete := status.remaining == 0 })

theorem round_from (decoder : Zstd.Decoder) (input : List UInt8) (self : BoundedZstdDecoder) :
    RoundFrom decoder input self (round decoder input self) := by
  by_cases htrailing : (self.frameComplete && !input.isEmpty) = true
  · rw [round, if_pos htrailing]
    obtain ⟨hcomplete, hinput⟩ := Bool.and_eq_true_iff.mp htrailing
    exact .trailing hcomplete (by simpa using hinput)
  rw [round, if_neg htrailing]
  have hopen : self.frameComplete = true → input = [] := by simpa using htrailing
  cases hrun : Zstd.runOnBuffers decoder input decodeBlock with
  | error why => exact .failed hopen hrun
  | ok answer =>
    obtain ⟨status, next⟩ := answer
    dsimp only
    cases happend : appendCapped self.buf self.outputCap status.written with
    | error fault =>
      refine .tooLarge hopen hrun (Nat.lt_of_not_le fun hfits => ?_)
      rw [List.length_append] at hfits
      rw [appendCapped_eq_ok_iff.mpr ⟨rfl, .inr hfits⟩] at happend
      exact absurd happend (by simp)
    | ok buf =>
      obtain ⟨rfl, hcap⟩ := appendCapped_eq_ok_iff.mp happend
      rw [← List.length_append] at hcap
      dsimp only
      split
      · rename_i hlast
        obtain ⟨hread, hdrained⟩ := Bool.and_eq_true_iff.mp hlast
        exact .finished hopen hrun hcap (List.isEmpty_iff.mp hread) (by simpa using hdrained)
      rename_i hnotLast
      have hpending : input.drop status.bytesRead ≠ [] ∨
          status.written.length = decodeBlock ∧ status.remaining ≠ 0 := by
        by_cases hread : input.drop status.bytesRead = []
        · exact .inr (by simpa [hread] using hnotLast)
        · exact .inl hread
      split
      · rename_i hstuck
        have hbuf : self.buf ++ status.written = self.buf := by rw [hstuck.2, List.append_nil]
        rw [hbuf]
        exact .stuck hopen hrun hpending hstuck.1 hstuck.2
      · rename_i hmoves
        exact .again hopen hrun hcap hpending hmoves

theorem feed_eq_round (decoder : Zstd.Decoder) (input : List UInt8) (self : BoundedZstdDecoder) :
    feed decoder input self = match round decoder input self with
      | .done result after => (result, after)
      | .again next rest after => feed next rest after := by
  rw [feed, round]
  split
  · rfl
  cases Zstd.runOnBuffers decoder input decodeBlock with
  | error why => rfl
  | ok answer =>
    dsimp only
    split
    · rename_i fault hfault
      rw [hfault]
    rename_i buf hbuf
    rw [hbuf]
    dsimp only
    split
    · rfl
    · split <;> rfl

def work (input : List UInt8) (self : BoundedZstdDecoder) : Nat :=
  input.length + (self.outputCap - self.buf.length)

variable {self : BoundedZstdDecoder} {decoder : Zstd.Decoder} {input : List UInt8}

theorem work_again_lt {next : Zstd.Decoder} {rest : List UInt8} {after : BoundedZstdDecoder}
    (hround : RoundFrom decoder input self (.again next rest after)) : work rest after < work input self := by
  cases hround with
  | @again status _ hopen hrun happend hpending hmoves =>
    rw [List.length_append] at happend
    exact feed_decreases status.read_le (appendCapped_eq_ok_iff.mpr ⟨rfl, happend⟩) hmoves

/-- A loop is settled by what holds where a round ends it and by what a further round carries over. -/
theorem feed_induction {motive : Zstd.Decoder → List UInt8 → BoundedZstdDecoder →
      Except DecodeError Unit × BoundedZstdDecoder → Prop}
    (done : ∀ decoder input self result after,
      RoundFrom decoder input self (.done result after) → motive decoder input self (result, after))
    (again : ∀ decoder input self next rest after outcome,
      RoundFrom decoder input self (.again next rest after) → motive next rest after outcome →
        motive decoder input self outcome)
    (decoder : Zstd.Decoder) (input : List UInt8) (self : BoundedZstdDecoder) :
    motive decoder input self (feed decoder input self) := by
  induction hwork : work input self using Nat.strong_induction_on generalizing decoder input self with
  | _ bound ih =>
    have hround := round_from decoder input self
    rw [feed_eq_round]
    cases hresult : round decoder input self with
    | done result after =>
      rw [hresult] at hround
      exact done decoder input self result after hround
    | again next rest after =>
      rw [hresult] at hround
      have hless : work rest after < bound := hwork ▸ work_again_lt hround
      exact again decoder input self next rest after _ hround (ih _ hless next rest after rfl)

/-- The loop when at most the given number of rounds may be run. -/
def feedWithin : Nat → Zstd.Decoder → List UInt8 → BoundedZstdDecoder →
    Option (Except DecodeError Unit × BoundedZstdDecoder)
  | 0, _, _, _ => none
  | rounds + 1, decoder, input, self =>
    match round decoder input self with
    | .done result after => some (result, after)
    | .again next rest after => feedWithin rounds next rest after

theorem feedWithin_eq_feed (rounds : Nat) (decoder : Zstd.Decoder) (input : List UInt8) (self : BoundedZstdDecoder)
    (henough : work input self < rounds) : feedWithin rounds decoder input self = some (feed decoder input self) := by
  induction rounds generalizing decoder input self with
  | zero => exact absurd henough (Nat.not_lt_zero _)
  | succ rounds ih =>
    have hround := round_from decoder input self
    rw [feedWithin, feed_eq_round]
    cases hresult : round decoder input self with
    | done result after => rfl
    | again next rest after =>
      rw [hresult] at hround
      have hless := work_again_lt hround
      exact ih next rest after (by omega)

def pushWithin (rounds : Nat) (self : BoundedZstdDecoder) (compressed : List UInt8) :
    Option (Except DecodeError Unit × BoundedZstdDecoder) :=
  let self := { self with consumed := saturatingAdd self.consumed compressed.length }
  if self.inputCap < self.consumed then
    some (.error (.inputTooLarge self.inputCap self.consumed), { self with decoder := none })
  else match self.decoder with
    | none => some (.error (.zstd "decoder already failed/finished"), self)
    | some decoder => feedWithin rounds decoder compressed { self with decoder := none }

variable {compressed : List UInt8}

theorem pushWithin_eq_push {rounds : Nat} (henough : work compressed self < rounds) :
    pushWithin rounds self compressed = some (self.push compressed) := by
  rw [pushWithin, push]
  dsimp only
  split
  · rfl
  cases self.decoder with
  | none => rfl
  | some decoder => exact feedWithin_eq_feed rounds decoder compressed _ henough

/-- The output is within the cap the decoder was made with. -/
structure Capped (cap : Nat) (state : BoundedZstdDecoder) : Prop where
  outputCap_eq : state.outputCap = cap
  buf_le : state.buf.length ≤ cap

variable {cap : Nat}

theorem length_append_le_cap {written : List UInt8} (hcapped : Capped cap self)
    (happend : written = [] ∨ (self.buf ++ written).length ≤ self.outputCap) :
    (self.buf ++ written).length ≤ cap := by
  rcases happend with rfl | hfits
  · rw [List.append_nil]
    exact hcapped.buf_le
  · exact hcapped.outputCap_eq ▸ hfits

theorem feed_capped (decoder : Zstd.Decoder) (input : List UInt8) (self : BoundedZstdDecoder) :
    Capped cap self → Capped cap (feed decoder input self).2 := by
  refine feed_induction (motive := fun _ _ self outcome => Capped cap self → Capped cap outcome.2) ?_ ?_
    decoder input self
  · intro decoder input self result after hround hcapped
    cases hround with
    | trailing hcomplete hinput => exact hcapped
    | failed hopen hrun => exact hcapped
    | tooLarge hopen hrun happend => exact ⟨hcapped.outputCap_eq, hcapped.buf_le⟩
    | finished hopen hrun happend hread hdrained =>
      exact ⟨hcapped.outputCap_eq, length_append_le_cap hcapped happend⟩
    | stuck hopen hrun hpending hread hwritten => exact ⟨hcapped.outputCap_eq, hcapped.buf_le⟩
  · intro decoder input self next rest after outcome hround ih hcapped
    cases hround with
    | again hopen hrun happend hpending hmoves =>
      exact ih ⟨hcapped.outputCap_eq, length_append_le_cap hcapped happend⟩

theorem push_capped (hcapped : Capped cap self) (compressed : List UInt8) :
    Capped cap (self.push compressed).2 := by
  rw [push]
  dsimp only
  split
  · exact ⟨hcapped.outputCap_eq, hcapped.buf_le⟩
  cases self.decoder with
  | none => exact ⟨hcapped.outputCap_eq, hcapped.buf_le⟩
  | some decoder => exact feed_capped decoder compressed _ ⟨hcapped.outputCap_eq, hcapped.buf_le⟩

variable {error : DecodeError}

theorem feed_error (herror : (feed decoder input self).1 = .error error) :
    (feed decoder input self).2.decoder = self.decoder := by
  refine feed_induction (motive := fun _ _ self outcome =>
    outcome.1 = .error error → outcome.2.decoder = self.decoder) ?_ ?_ decoder input self herror
  · intro decoder input self result after hround herror
    cases hround with
    | finished hopen hrun happend hread hdrained => exact absurd herror (by simp)
    | _ => rfl
  · intro decoder input self next rest after outcome hround ih herror
    cases hround with
    | again hopen hrun happend hpending hmoves => exact ih herror

theorem push_error (herror : (self.push compressed).1 = .error error) : (self.push compressed).2.decoder = none := by
  rw [push] at herror ⊢
  dsimp only at herror ⊢
  split at herror
  · rename_i hlarge
    rw [if_pos hlarge]
  rename_i hfits
  rw [if_neg hfits]
  cases hdecoder : self.decoder with
  | none => rfl
  | some decoder =>
    rw [hdecoder] at herror
    exact feed_error herror

def pushAll (self : BoundedZstdDecoder) (chunks : List (List UInt8)) : BoundedZstdDecoder :=
  chunks.foldl (fun self chunk => (self.push chunk).2) self

theorem pushAll_capped (hcapped : Capped cap self) (chunks : List (List UInt8)) :
    Capped cap (self.pushAll chunks) := by
  induction chunks generalizing self with
  | nil => exact hcapped
  | cons chunk chunks ih => exact ih (push_capped hcapped chunk)

theorem push_failed (hfailed : self.decoder = none) (chunk : List UInt8) :
    (∃ error, (self.push chunk).1 = .error error) ∧ (self.push chunk).2.decoder = none ∧
      (self.push chunk).2.buf = self.buf := by
  rw [push]
  dsimp only
  split
  · exact ⟨⟨_, rfl⟩, rfl, rfl⟩
  · rw [hfailed]
    exact ⟨⟨_, rfl⟩, rfl, rfl⟩

theorem pushAll_failed (hfailed : self.decoder = none) (chunks : List (List UInt8)) :
    (self.pushAll chunks).decoder = none ∧ (self.pushAll chunks).buf = self.buf := by
  induction chunks generalizing self with
  | nil => exact ⟨hfailed, rfl⟩
  | cons chunk chunks ih =>
    obtain ⟨_, hnext, hbuf⟩ := push_failed hfailed chunk
    obtain ⟨hlast, hkept⟩ := ih hnext
    exact ⟨hlast, hkept.trans hbuf⟩

theorem finish_failed (hfailed : self.decoder = none) :
    self.finish = .error (.zstd "zstd decode already failed") := by
  rw [finish, hfailed]
  rfl

theorem finish_eq_ok_iff {raw : List UInt8} :
    self.finish = .ok raw ↔ self.decoder ≠ none ∧ self.started = true ∧ self.frameComplete = true ∧
      self.buf ≠ [] ∧ raw = self.buf := by
  rw [finish]
  cases self.decoder <;> cases self.started <;> cases self.frameComplete <;> cases self.buf <;> simp [eq_comm]

/-- Whatever zstd's steps do: the output is within the cap, a push returns after no more steps than it has bytes and the cap has room (and one), and once a push has failed every later one fails and the output no longer grows. -/
theorem bounded_decoder_safe (cap : Nat) (decoder : Zstd.Decoder) (chunks : List (List UInt8)) :
    let self := (fresh cap decoder).pushAll chunks
    self.buf.length ≤ cap ∧
    (∀ chunk, pushWithin (chunk.length + (cap - self.buf.length) + 1) self chunk = some (self.push chunk)) ∧
    (∀ raw, self.finish = .ok raw → raw.length ≤ cap) ∧
    ∀ chunk error, (self.push chunk).1 = .error error → ∀ later,
      let failed := (self.push chunk).2.pushAll later
      failed.buf = (self.push chunk).2.buf ∧
      (∀ next, ∃ error, (failed.push next).1 = .error error) ∧
      ∃ error, failed.finish = .error error := by
  intro self
  have hfresh : Capped cap (fresh cap decoder) := ⟨rfl, Nat.zero_le _⟩
  have hcapped : Capped cap self := pushAll_capped hfresh chunks
  refine ⟨hcapped.buf_le, fun chunk => ?_, fun raw hraw => ?_, fun chunk error herror later => ?_⟩
  · refine pushWithin_eq_push ?_
    rw [work, hcapped.outputCap_eq]
    exact Nat.lt_succ_self _
  · obtain ⟨_, _, _, _, rfl⟩ := finish_eq_ok_iff.mp hraw
    exact hcapped.buf_le
  · obtain ⟨hfailed, hbuf⟩ := pushAll_failed (push_error herror) later
    exact ⟨hbuf, fun next => (push_failed hfailed next).1, _, finish_failed hfailed⟩

end BoundedZstdDecoder

end NixP2p
