import NixP2p.Base.Bytes

/-!
# Byte sources and their failures

A source delivers some bytes and then ends, cleanly or with an error of its own. Reading a fixed number of bytes fails when the source ends first; reading one byte tells a clean end from a byte.
-/

namespace Wire

inductive ErrorKind where
  | invalidData
  | invalidInput
  | unexpectedEof
  | other
  /-- A kind that only the host reports, by its number. -/
  | host (code : Nat)
  deriving DecidableEq

structure IoError where
  kind : ErrorKind
  message : String
  deriving DecidableEq

instance : ToString IoError where
  toString error := error.message

def IoError.invalidData (message : String) : IoError := ⟨.invalidData, message⟩

def IoError.within (context : String) (error : IoError) : IoError :=
  ⟨error.kind, s!"{context}: {error}"⟩

def IoError.shortRead : IoError := ⟨.unexpectedEof, "failed to fill whole buffer"⟩

structure Source where
  bytes : List UInt8
  /-- The error met after the last byte; none at a clean end. -/
  ending : Option IoError

namespace Source

def readExact (n : Nat) (source : Source) : Except IoError (Bytes n × Source) :=
  if h : n ≤ source.bytes.length then
    .ok (⟨source.bytes.take n, by simp [h]⟩, { source with bytes := source.bytes.drop n })
  else .error (source.ending.getD .shortRead)

def readByte (source : Source) : Except IoError (Option UInt8 × Source) :=
  match source.bytes, source.ending with
  | byte :: rest, _ => .ok (some byte, { source with bytes := rest })
  | [], none => .ok (none, source)
  | [], some error => .error error

theorem readExact_append {n : Nat} (bytes : Bytes n) (rest : List UInt8) (ending : Option IoError) :
    readExact n ⟨bytes.1 ++ rest, ending⟩ = .ok (bytes, ⟨rest, ending⟩) := by
  obtain ⟨bytes, rfl⟩ := bytes
  simp [readExact]

end Source

end Wire
