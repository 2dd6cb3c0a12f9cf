import NixP2p.Allowlist.PublicProof
import NixP2p.Base.Fallible

/-!
# What is accepted as proven public

The scan stops at the first signature line that it cannot read, so a signature that verifies counts only where no such line stands before it. A field that is required has to stand in the narinfo once.
-/

namespace NixP2p.Allowlist

open Text Fallible

def fieldValues (name : String) (lines : List (List Char)) : List (List Char) :=
  lines.filterMap fun line => (line.dropPrefix? (name ++ ":").toList).map trim

variable {name : String} {value : List Char}

theorem fieldIn_eq_ok_iff {lines : List (List Char)} {found : Option (List Char)} :
    fieldIn (name ++ ":") lines found = .ok (some value) ↔ found.toList ++ fieldValues name lines = [value] := by
  induction lines generalizing found with
  | nil => cases found <;> simp [fieldIn, fieldValues]
  | cons line lines ih =>
    rw [fieldIn, fieldValues, List.filterMap_cons]
    cases line.dropPrefix? (name ++ ":").toList with
    | none => exact ih
    | some first =>
      cases found with
      | none => exact ih
      | some found => simp

theorem field_eq_ok_iff {text : List Char} :
    field text (name ++ ":") = .ok (some value) ↔ fieldValues name (lines text) = [value] :=
  fieldIn_eq_ok_iff

theorem requiredField_eq_ok_iff {text : List Char} :
    requiredField text name = .ok value ↔ fieldValues name (lines text) = [value] := by
  rw [← field_eq_ok_iff, requiredField]
  split <;> simp [*]

/-- The fields of a narinfo, each of them once, say this of a NAR, and this is what has to be signed for it. -/
def States (text : List Char) (message : List UInt8) (verified : VerifiedPublicNar) : Prop :=
  ∃ storePath url narHash narSize references, fieldValues "StorePath" (lines text) = [storePath] ∧ storePath ≠ [] ∧
    fieldValues "URL" (lines text) = [url] ∧ url ≠ [] ∧ fieldValues "NarHash" (lines text) = [narHash] ∧
    fieldValues "NarSize" (lines text) = [narSize] ∧ fieldValues "References" (lines text) = [references] ∧
    NarHashKey.fromStr narHash = .ok verified.narHash ∧ parseU64 narSize = some verified.narSize ∧
    verified.narSize ≠ 0 ∧ verified.storeHash = storeHashOf storePath ∧
    message = toUtf8 (fingerprint storePath verified.narHash.display verified.narSize references)

inductive SigVerdict where
  | passed
  | faulty
  | good
  deriving DecidableEq

section Proof

variable [Ed25519] (trusted : TrustedNarKeys) (message : List UInt8)

/-- What the scan makes of one line: it stops at a signature that verifies and at a faulty line, one without a name or with a trusted name and no signature. -/
def sigVerdict (line : List Char) : SigVerdict :=
  match line.dropPrefix? "Sig:".toList with
  | none => .passed
  | some value =>
    match splitOnce ':' (trim value) with
    | none => .faulty
    | some (name, b64) =>
      match trusted.get name with
      | none => .passed
      | some key =>
        match (base64Decode b64).bind (bytesOfLength 64) with
        | none => .faulty
        | some signature => if Ed25519.verifyStrict key message signature then .good else .passed

variable {trusted message} {rest : List (List Char)} {sawTrusted : Bool} {lastUntrusted : List Char}

theorem verifySigs_cons (line : List Char) : ∃ why saw last,
    verifySigs trusted message (line :: rest) sawTrusted lastUntrusted =
      match sigVerdict trusted message line with
      | .good => .ok ()
      | .faulty => .error why
      | .passed => verifySigs trusted message rest saw last := by
  rw [sigVerdict, verifySigs]
  cases line.dropPrefix? "Sig:".toList with
  | none => exact ⟨.badSignature, _, _, rfl⟩
  | some value =>
    dsimp only
    cases splitOnce ':' (trim value) with
    | none => exact ⟨_, true, [], rfl⟩
    | some named =>
      dsimp only
      cases trusted.get named.1 with
      | none => exact ⟨.badSignature, _, _, rfl⟩
      | some key =>
        dsimp only
        cases base64Decode named.2 with
        | none => exact ⟨_, true, [], rfl⟩
        | some raw =>
          dsimp only [Option.bind_some]
          cases bytesOfLength 64 raw with
          | none => exact ⟨_, true, [], rfl⟩
          | some signature =>
            refine ⟨.badSignature, true, lastUntrusted, ?_⟩
            cases hverified : Ed25519.verifyStrict key message signature <;> simp [hverified]

theorem exists_key_of_good {line : List Char} (h : sigVerdict trusted message line = .good) :
    ∃ name key signature, trusted.get name = some key ∧ Ed25519.verifyStrict key message signature = true := by
  unfold sigVerdict at h
  split at h
  · cases h
  split at h
  · cases h
  split at h
  · cases h
  rename_i key hkey
  split at h
  · cases h
  · split_ifs at h with hverified
    exact ⟨_, key, _, hkey, hverified⟩

theorem verifySigs_eq_ok_iff {scanned : List (List Char)} :
    verifySigs trusted message scanned sawTrusted lastUntrusted = .ok () ↔
      ∃ before line after, scanned = before ++ line :: after ∧ sigVerdict trusted message line = .good ∧
        ∀ earlier ∈ before, sigVerdict trusted message earlier ≠ .faulty := by
  induction scanned generalizing sawTrusted lastUntrusted with
  | nil => exact iff_of_false (by simp [verifySigs]) (by simp)
  | cons first rest ih =>
    obtain ⟨why, saw, last, hstep⟩ :=
      @verifySigs_cons _ trusted message rest sawTrusted lastUntrusted first
    rw [hstep]
    constructor
    · intro h
      cases hverdict : sigVerdict trusted message first with
      | good => exact ⟨[], first, rest, rfl, hverdict, fun _ hmem => absurd hmem List.not_mem_nil⟩
      | faulty =>
        rw [hverdict] at h
        cases h
      | passed =>
        rw [hverdict] at h
        obtain ⟨before, line, after, rfl, hline, hbefore⟩ := ih.mp h
        refine ⟨first :: before, line, after, rfl, hline, List.forall_mem_cons.mpr ⟨?_, hbefore⟩⟩
        rw [hverdict]
        decide
    · rintro ⟨before, line, after, heq, hline, hbefore⟩
      cases before with
      | nil => rw [(List.cons.inj heq).1, hline]
      | cons earlier before =>
        obtain ⟨rfl, hrest⟩ := List.cons.inj heq
        obtain ⟨hfirst, hbefore⟩ := List.forall_mem_cons.mp hbefore
        cases hverdict : sigVerdict trusted message first with
        | good => rfl
        | faulty => exact absurd hverdict hfirst
        | passed => exact ih.mpr ⟨before, line, after, hrest, hline, hbefore⟩

theorem provePublic_eq_ok_iff {narinfo : List UInt8} {verified : VerifiedPublicNar} :
    provePublic trusted narinfo = .ok verified ↔ ∃ text message, fromUtf8 narinfo = some text ∧
      narinfo.getLast? = some 0x0a ∧ States text message verified ∧
      ∃ before line after, lines text = before ++ line :: after ∧ sigVerdict trusted message line = .good ∧
        ∀ earlier ∈ before, sigVerdict trusted message earlier ≠ .faulty := by
  simp only [provePublic, bind_eq_ok_iff, guard_eq_ok_iff, mapError_eq_ok_iff, pure_eq_ok_iff, elim_eq_ok_iff,
    requiredField_eq_ok_iff, not_not]
  constructor
  · rintro ⟨text, htext, hlast, storePath, hpath, hpathNe, url, hurl, hurlNe, narHashText, hhash, narSizeText, hsize,
      references, hreferences, narHash, hnarHash, narSize, hnarSize, hzero, _, hsigs, rfl⟩
    exact ⟨text, _, htext, hlast, ⟨storePath, url, narHashText, narSizeText, references, hpath, hpathNe, hurl, hurlNe,
      hhash, hsize, hreferences, hnarHash, hnarSize, hzero, rfl, rfl⟩, verifySigs_eq_ok_iff.mp hsigs⟩
  · rintro ⟨text, _, htext, hlast, ⟨storePath, url, narHashText, narSizeText, references, hpath, hpathNe, hurl, hurlNe,
      hhash, hsize, hreferences, hnarHash, hnarSize, hzero, hstoreHash, rfl⟩, hsigs⟩
    refine ⟨text, htext, hlast, storePath, hpath, hpathNe, url, hurl, hurlNe, narHashText, hhash, narSizeText, hsize,
      references, hreferences, _, hnarHash, _, hnarSize, hzero, (), verifySigs_eq_ok_iff.mpr hsigs, ?_⟩
    rw [← hstoreHash]

end Proof

end NixP2p.Allowlist
