import Mathlib.Data.List.Sort
import NixP2p.Base.HashTable
import NixP2p.Records.Ids
import NixP2p.Serving.NarHashKey

/-!
# Proving a NAR public

A NAR may be announced to strangers only if a public cache has signed for it. The proof is a narinfo: the text that Nix signs is built again from its fields, each of which may stand in it only once, and one of its signatures has to verify under a configured key. The key comes from the configuration and never from the narinfo.
-/

namespace NixP2p.Allowlist

open Wire HashTable Text

def base64Digit (char : Char) : Option Nat :=
  if 'A' ≤ char ∧ char ≤ 'Z' then some (char.toNat - 'A'.toNat)
  else if 'a' ≤ char ∧ char ≤ 'z' then some (char.toNat - 'a'.toNat + 26)
  else if '0' ≤ char ∧ char ≤ '9' then some (char.toNat - '0'.toNat + 52)
  else if char = '+' then some 62
  else if char = '/' then some 63
  else none

/-- The standard alphabet with its padding; the bits that the padding leaves over have to be zero. -/
def base64Decode : List Char → Option (List UInt8)
  | [] => some []
  | [a, b, '=', '='] => do
    let bits := (← base64Digit a) * 64 + (← base64Digit b)
    if bits % 16 ≠ 0 then none else some [UInt8.ofNat (bits / 16)]
  | [a, b, c, '='] => do
    let bits := ((← base64Digit a) * 64 + (← base64Digit b)) * 64 + (← base64Digit c)
    if bits % 4 ≠ 0 then none else some [UInt8.ofNat (bits / 1024), UInt8.ofNat (bits / 4)]
  | a :: b :: c :: d :: rest => do
    let bits := (((← base64Digit a) * 64 + (← base64Digit b)) * 64 + (← base64Digit c)) * 64 + (← base64Digit d)
    let bytes ← base64Decode rest
    return UInt8.ofNat (bits / 65536) :: UInt8.ofNat (bits / 256) :: UInt8.ofNat bits :: bytes
  | _ => none

def bytesOfLength (n : Nat) (bytes : List UInt8) : Option (Bytes n) :=
  if h : bytes.length = n then some ⟨bytes, h⟩ else none

section Keys

variable [Ed25519]

structure TrustedNarKeys where
  keys : Table (List Char) Ed25519.VerifyingKey

/-- What is wrong with the key of a line that has the form of one. -/
inductive BadKey where
  | base64
  | length (found : Nat)
  | notAPoint
  deriving DecidableEq

inductive TrustedKeyError where
  | malformed (line : List Char)
  | badKey (name : List Char) (why : BadKey)
  deriving DecidableEq

namespace TrustedNarKeys

def empty : TrustedNarKeys := ⟨∅⟩

def get (trusted : TrustedNarKeys) (name : List Char) : Option Ed25519.VerifyingKey := trusted.keys.lookup name

def insertLine (trusted : TrustedNarKeys) (line : List Char) : Except TrustedKeyError TrustedNarKeys :=
  match splitOnce ':' line with
  | none => .error (.malformed line)
  | some (name, b64) =>
    if name = [] then .error (.malformed line)
    else
      match base64Decode (trim b64) with
      | none => .error (.badKey name .base64)
      | some raw =>
        match bytesOfLength 32 raw with
        | none => .error (.badKey name (.length raw.length))
        | some bytes =>
          match Ed25519.fromBytes bytes with
          | none => .error (.badKey name .notAPoint)
          | some key => .ok ⟨trusted.keys.insert name key⟩

def fromLines (lines : List (List Char)) : Except TrustedKeyError TrustedNarKeys := lines.foldlM insertLine empty

end TrustedNarKeys

end Keys

structure VerifiedPublicNar where
  narHash : NarHashKey
  narSize : UInt64
  storeHash : List Char
  deriving DecidableEq

/-- What is wrong with a signature line; a signature that names no trusted key is not looked at further. -/
inductive MalformedSig where
  | unnamed (value : List Char)
  | base64 (name : List Char)
  | length (name : List Char) (found : Nat)
  deriving DecidableEq

inductive PublicProofReject where
  | missingField (name : String)
  | duplicateField (name : String)
  | missingFinalNewline
  | zeroNarSize
  | malformedNarHash (value : List Char)
  | malformedNarSize (value : List Char)
  | malformedSig (why : MalformedSig)
  | untrustedKey (name : List Char)
  | badSignature
  deriving DecidableEq

/-- The last component of a store path up to its first dash. -/
def storeHashOf (storePath : List Char) : List Char :=
  let basename := storePath.rtakeWhile (· != '/')
  match splitOnce '-' basename with
  | some (hash, _) => hash
  | none => basename

/-- The one value of a field. A second line of the same field is an error. -/
def fieldIn (key : String) : List (List Char) → Option (List Char) → Except Unit (Option (List Char))
  | [], found => .ok found
  | line :: rest, found =>
    match line.dropPrefix? key.toList with
    | none => fieldIn key rest found
    | some value => if found.isSome then .error () else fieldIn key rest (some (trim value))

def field (text : List Char) (key : String) : Except Unit (Option (List Char)) := fieldIn key (lines text) none

def requiredField (text : List Char) (name : String) : Except PublicProofReject (List Char) :=
  match field text (name ++ ":") with
  | .error _ => .error (.duplicateField name)
  | .ok none => .error (.missingField name)
  | .ok (some value) => .ok value

def storeDirOf (storePath : List Char) : List Char := (storePath.rdropWhile (· != '/')).dropLast

def textLe : List Char → List Char → Bool
  | [], _ => true
  | _ :: _, [] => false
  | a :: as, b :: bs => if a.toNat < b.toNat then true else if b.toNat < a.toNat then false else textLe as bs

def signedReferences (storePath references : List Char) : List (List Char) :=
  (((references.splitOnP isWhitespace).filter (· ≠ [])).map fun reference =>
    storeDirOf storePath ++ '/' :: reference).insertionSort fun a b => textLe a b = true

def fingerprint (storePath narHash : List Char) (narSize : UInt64) (references : List Char) : List Char :=
  '1' :: ';' :: storePath ++ ';' :: narHash ++ ';' :: showU64 narSize ++
    ';' :: [','].intercalate (signedReferences storePath references)

section Proof

variable [Ed25519] (trusted : TrustedNarKeys)

/-- The loop over the signatures; it remembers whether a trusted key was named, and the last name that was not one. -/
def verifySigs (message : List UInt8) :
    List (List Char) → (sawTrusted : Bool) → (lastUntrusted : List Char) → Except PublicProofReject Unit
  | [], sawTrusted, lastUntrusted => .error (if sawTrusted then .badSignature else .untrustedKey lastUntrusted)
  | line :: rest, sawTrusted, lastUntrusted =>
    match line.dropPrefix? "Sig:".toList with
    | none => verifySigs message rest sawTrusted lastUntrusted
    | some value =>
      match splitOnce ':' (trim value) with
      | none => .error (.malformedSig (.unnamed (trim value)))
      | some (name, b64) =>
        match trusted.get name with
        | none => verifySigs message rest sawTrusted name
        | some key =>
          match base64Decode b64 with
          | none => .error (.malformedSig (.base64 name))
          | some raw =>
            match bytesOfLength 64 raw with
            | none => .error (.malformedSig (.length name raw.length))
            | some signature =>
              if Ed25519.verifyStrict key message signature then .ok ()
              else verifySigs message rest true lastUntrusted

def provePublic (narinfo : List UInt8) : Except PublicProofReject VerifiedPublicNar := do
  let text ← (fromUtf8 narinfo).elim (.error (.missingField "StorePath")) .ok
  if narinfo.getLast? ≠ some 0x0a then .error .missingFinalNewline
  else
    let storePath ← requiredField text "StorePath"
    if storePath = [] then .error (.missingField "StorePath")
    else
      let url ← requiredField text "URL"
      if url = [] then .error (.missingField "URL")
      else
        let narHashText ← requiredField text "NarHash"
        let narSizeText ← requiredField text "NarSize"
        let references ← requiredField text "References"
        let narHash ← (NarHashKey.fromStr narHashText).mapError fun _ => .malformedNarHash narHashText
        let narSize ← (parseU64 narSizeText).elim (.error (.malformedNarSize narSizeText)) .ok
        if narSize = 0 then .error .zeroNarSize
        else
          let message := toUtf8 (fingerprint storePath narHash.display narSize references)
          verifySigs trusted message (lines text) false []
          return ⟨narHash, narSize, storeHashOf storePath⟩

end Proof

end NixP2p.Allowlist
