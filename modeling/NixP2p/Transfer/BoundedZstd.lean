import NixP2p.Base.Fallible
import NixP2p.Base.Source

/-!
# The bounded zstd decoder

The decoder drives zstd's streaming decoder step by step, so that it can cap the output and the input, stop at the end of the frame and refuse what follows it. Of zstd only the buffer bounds of a step are taken for granted. The loop of a push ends because a step that neither reads nor writes is an error.
-/

namespace NixP2p

open Wire

/-- What one call of the streaming decoder reports, within the buffers it was given. -/
structure ZstdStatus (available room : Nat) where
  bytesRead : Nat
  written : List UInt8
  remaining : Nat
  read_le : bytesRead ≤ available
  written_le : written.length ≤ room

/-- The zstd library: its streaming decoder, and its encoder driven over one unit of pledged size. -/
class Zstd where
  Decoder : Type
  newDecoder : (windowLogMax : Nat) → Except String Decoder
  runOnBuffers : Decoder → (input : List UInt8) → (room : Nat) →
    Except String (ZstdStatus input.length room × Decoder)
  compress : (level : Int) → List UInt8 → Except IoError (List UInt8)

inductive DecodeError where
  | outputTooLarge (cap produced : Nat)
  | inputTooLarge (cap consumed : Nat)
  | zstd (why : String)
  | truncated (consumed : Nat)
  | trailingInput (trailing : Nat)
  | emptyNar
  deriving DecidableEq

instance : ToString DecodeError where
  toString
    | .outputTooLarge cap produced =>
      s!"zstd decode output exceeded the signed NarSize cap {cap} (produced {produced}); decompression bomb or lying peer, aborted mid-stream"
    | .inputTooLarge cap consumed =>
      s!"zstd compressed input {consumed} exceeded the uncompressed-size cap {cap}; a compressed body larger than the raw nar is a lie, aborted"
    | .zstd why => s!"zstd frame decode failed: {why}"
    | .truncated consumed =>
      s!"zstd stream ended mid-frame after {consumed} compressed bytes: truncated, rejected at the codec (not a complete frame)"
    | .trailingInput trailing =>
      s!"zstd stream carried {trailing} trailing byte(s) after a complete frame: malformed framing (a well-formed transfer is exactly one frame), rejected"
    | .emptyNar =>
      "zstd stream decoded to zero bytes (empty output or a skippable frame): a real NAR is never empty, rejected at the codec"

def decodeBlock : Nat := 128 * 1024

def saturatingAdd (a b : Nat) : Nat := min (a + b) (2 ^ 64 - 1)

def zstdCompressBound (srcLen : Nat) : Nat :=
  saturatingAdd (saturatingAdd (saturatingAdd srcLen (srcLen / 128)) 512) 64

structure BoundedZstdDecoder [Zstd] where
  decoder : Option Zstd.Decoder
  buf : List UInt8
  outputCap : Nat
  inputCap : Nat
  consumed : Nat
  started : Bool
  frameComplete : Bool

namespace BoundedZstdDecoder

def appendCapped (buf : List UInt8) (cap : Nat) (data : List UInt8) :
    Except DecodeError (List UInt8) :=
  if data.isEmpty then .ok buf
  else if cap < buf.length + data.length then
    .error (.outputTooLarge cap (buf.length + data.length))
  else .ok (buf ++ data)

variable {buf next : List UInt8}

theorem appendCapped_eq_ok_iff {data : List UInt8} {cap : Nat} :
    appendCapped buf cap data = .ok next ↔
      next = buf ++ data ∧ (data = [] ∨ buf.length + data.length ≤ cap) := by
  cases data with
  | nil => simp [appendCapped, eq_comm]
  | cons byte rest =>
    by_cases hcap : cap < buf.length + (byte :: rest).length
    · simp only [appendCapped, List.isEmpty_cons, Bool.false_eq_true, if_false, if_pos hcap,
        reduceCtorEq, false_or, false_iff, not_and]
      omega
    simp only [appendCapped, List.isEmpty_cons, Bool.false_eq_true, if_false, if_neg hcap,
      Except.ok.injEq, reduceCtorEq, false_or, eq_comm (a := next)]
    simp only [Nat.not_lt.mp hcap, and_true]

/-- A step that reads or writes leaves less to read or less room under the cap. -/
theorem feed_decreases {input written : List UInt8} {cap bytesRead : Nat} (hread : bytesRead ≤ input.length)
    (happend : appendCapped buf cap written = .ok next) (hstuck : ¬(bytesRead = 0 ∧ written = [])) :
    (input.drop bytesRead).length + (cap - next.length) < input.length + (cap - buf.length) := by
  obtain ⟨rfl, hcap⟩ := appendCapped_eq_ok_iff.mp happend
  rw [List.length_drop, List.length_append]
  by_cases hzero : bytesRead = 0
  · have hwritten : written ≠ [] := fun hnil => hstuck ⟨hzero, hnil⟩
    have hlength := List.length_pos_iff.mpr hwritten
    have hroom := hcap.resolve_left hwritten
    omega
  · omega

section Decode

variable [Zstd]

def fresh (outputCap : Nat) (decoder : Zstd.Decoder) : BoundedZstdDecoder where
  decoder := some decoder
  buf := []
  outputCap
  inputCap := zstdCompressBound outputCap
  consumed := 0
  started := false
  frameComplete := false

def withWindowLogMax (outputCap windowLogMax : Nat) : Except DecodeError BoundedZstdDecoder :=
  match Zstd.newDecoder windowLogMax with
  | .error why => .error (.zstd why)
  | .ok decoder => .ok (fresh outputCap decoder)

/-- The loop of a push: steps until the input is read and the scratch block was not filled, or the frame is complete. -/
def feed (decoder : Zstd.Decoder) (input : List UInt8) (self : BoundedZstdDecoder) :
    Except DecodeError Unit × BoundedZstdDecoder :=
  if self.frameComplete && !input.isEmpty then (.error (.trailingInput input.length), self)
  else match Zstd.runOnBuffers decoder input decodeBlock with
    | .error why => (.error (.zstd why), self)
    | .ok (status, decoder) =>
      match happend : appendCapped self.buf self.outputCap status.written with
      | .error fault => (.error fault, { self with started := true })
      | .ok buf =>
        let rest := input.drop status.bytesRead
        let complete := status.remaining == 0
        let next := { self with started := true, buf, frameComplete := complete }
        -- a complete frame is not stepped again: zstd would take that for the start of another
        if rest.isEmpty && (status.written.length != decodeBlock || complete) then
          (.ok (), { next with decoder := some decoder })
        else if hstuck : status.bytesRead = 0 ∧ status.written = [] then
          (.error (.zstd "zstd decoder made no progress on pending input"), next)
        else
          have := feed_decreases status.read_le happend hstuck
          feed decoder rest next
termination_by input.length + (self.outputCap - self.buf.length)
decreasing_by exact this

def push (self : BoundedZstdDecoder) (compressed : List UInt8) :
    Except DecodeError Unit × BoundedZstdDecoder :=
  let self := { self with consumed := saturatingAdd self.consumed compressed.length }
  if self.inputCap < self.consumed then
    (.error (.inputTooLarge self.inputCap self.consumed), { self with decoder := none })
  else match self.decoder with
    | none => (.error (.zstd "decoder already failed/finished"), self)
    | some decoder => feed decoder compressed { self with decoder := none }

def finish (self : BoundedZstdDecoder) : Except DecodeError (List UInt8) :=
  if self.decoder.isNone then .error (.zstd "zstd decode already failed")
  else if !self.started || !self.frameComplete then .error (.truncated self.consumed)
  else if self.buf.isEmpty then .error .emptyNar
  else .ok self.buf

theorem feed_step {decoder next : Zstd.Decoder} {input buf : List UInt8} {self : BoundedZstdDecoder}
    {status : ZstdStatus input.length decodeBlock}
    (hopen : (self.frameComplete && !input.isEmpty) = false)
    (hrun : Zstd.runOnBuffers decoder input decodeBlock = .ok (status, next))
    (happend : appendCapped self.buf self.outputCap status.written = .ok buf) :
    feed decoder input self =
      let after := { self with started := true, buf, frameComplete := status.remaining == 0 }
      if (input.drop status.bytesRead).isEmpty &&
          (status.written.length != decodeBlock || status.remaining == 0) then
        (.ok (), { after with decoder := some next })
      else if status.bytesRead = 0 ∧ status.written = [] then
        (.error (.zstd "zstd decoder made no progress on pending input"), after)
      else feed next (input.drop status.bytesRead) after := by
  rw [feed, hopen, if_neg Bool.false_ne_true]
  simp only [hrun]
  split
  · rename_i fault hfault
    rw [happend] at hfault
    exact absurd hfault (by simp)
  rename_i buf' hbuf
  rw [happend] at hbuf
  obtain rfl := Except.ok.inj hbuf
  rfl

end Decode

end BoundedZstdDecoder

section Frames

variable [Zstd]

/-- The steps of zstd turn `frame` into `raw`: each makes progress, and only the last reaches the end of the frame. -/
inductive Zstd.Decodes : Zstd.Decoder → List UInt8 → List UInt8 → Prop where
  | last {decoder next : Zstd.Decoder} {frame : List UInt8}
      {status : ZstdStatus frame.length decodeBlock}
      (hrun : Zstd.runOnBuffers decoder frame decodeBlock = .ok (status, next))
      (hread : status.bytesRead = frame.length) (hend : status.remaining = 0) :
      Zstd.Decodes decoder frame status.written
  | more {decoder next : Zstd.Decoder} {frame raw : List UInt8}
      {status : ZstdStatus frame.length decodeBlock}
      (hrun : Zstd.runOnBuffers decoder frame decodeBlock = .ok (status, next))
      (hmiddle : status.remaining ≠ 0)
      (hpending : status.bytesRead < frame.length ∨ status.written.length = decodeBlock)
      (hprogress : status.bytesRead ≠ 0 ∨ status.written ≠ [])
      (hrest : Zstd.Decodes next (frame.drop status.bytesRead) raw) :
      Zstd.Decodes decoder frame (status.written ++ raw)

namespace BoundedZstdDecoder

variable {decoder : Zstd.Decoder} {frame raw : List UInt8}

theorem feed_of_decodes (hdecodes : Zstd.Decodes decoder frame raw) (self : BoundedZstdDecoder)
    (hopen : self.frameComplete = false) (hcap : self.buf.length + raw.length ≤ self.outputCap) :
    ∃ next, feed decoder frame self =
      (.ok (), { self with
        decoder := some next, started := true, buf := self.buf ++ raw, frameComplete := true }) := by
  induction hdecodes generalizing self with
  | @last decoder next frame status hrun hread hend =>
    have happend := appendCapped_eq_ok_iff.mpr
      ⟨rfl, .inr hcap⟩
    refine ⟨next, ?_⟩
    rw [feed_step (by simp [hopen]) hrun happend]
    simp [hread, hend]
  | @more decoder next frame raw status hrun hmiddle hpending hprogress hrest ih =>
    rw [List.length_append] at hcap
    have happend : appendCapped self.buf self.outputCap status.written =
        .ok (self.buf ++ status.written) :=
      appendCapped_eq_ok_iff.mpr ⟨rfl, .inr (by omega)⟩
    have hnotLast : ((frame.drop status.bytesRead).isEmpty &&
        (status.written.length != decodeBlock || status.remaining == 0)) = false := by
      rcases hpending with hinput | hfull
      · have hrest : frame.drop status.bytesRead ≠ [] := by
          rw [Ne, List.drop_eq_nil_iff]
          omega
        simp [hrest]
      · simp [hfull, hmiddle]
    have hmoves : ¬(status.bytesRead = 0 ∧ status.written = []) := by
      rintro ⟨hread, hwritten⟩
      exact hprogress.elim (absurd hread) (absurd hwritten)
    obtain ⟨final, hfinal⟩ := ih
      { self with
        started := true, buf := self.buf ++ status.written, frameComplete := status.remaining == 0 }
      (by simpa using hmiddle) (by simp only [List.length_append]; omega)
    refine ⟨final, ?_⟩
    rw [feed_step (by simp [hopen]) hrun happend]
    simp only [hnotLast, Bool.false_eq_true, if_false, if_neg hmoves]
    rw [hfinal, List.append_assoc]

/-- A frame within the input bound is accepted in one push, and finishing returns its content; an empty content is reported as such. -/
theorem finish_push_frame {cap : Nat} (hdecodes : Zstd.Decodes decoder frame raw)
    (hframe : frame.length ≤ zstdCompressBound cap) (hcap : raw.length ≤ cap) :
    ∃ after, (fresh cap decoder).push frame = (.ok (), after) ∧
      after.finish = if raw.isEmpty then .error .emptyNar else .ok raw := by
  have hinput : ¬zstdCompressBound cap < saturatingAdd 0 frame.length := by
    rw [saturatingAdd]
    omega
  obtain ⟨next, hnext⟩ := feed_of_decodes hdecodes
    { fresh cap decoder with consumed := saturatingAdd 0 frame.length, decoder := none } rfl
    (by simpa [fresh] using hcap)
  have hpush : (fresh cap decoder).push frame = feed decoder frame
      { fresh cap decoder with consumed := saturatingAdd 0 frame.length, decoder := none } :=
    if_neg hinput
  exact ⟨_, hpush.trans hnext, by simp [finish, fresh]⟩

end BoundedZstdDecoder

end Frames

end NixP2p
