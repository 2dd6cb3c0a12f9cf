import NixP2p.Allowlist.Acceptance
import NixP2p.Allowlist.RecordFile

/-!
# A proven NAR was signed for

If the signatures of the trusted keys cannot be forged, and what they signed are the fingerprints of path infos without a semicolon in any field, then a narinfo that is accepted names the path, the hash and the size of one that was signed. The fields of the narinfo are the adversary's and may hold semicolons.
-/

namespace NixP2p.Allowlist

open Wire HashTable Text Fallible

/-- A path as an authority knows it; no field has a semicolon. -/
structure PathInfo where
  storePath : List Char
  narHash : List Char
  narSize : UInt64
  references : List (List Char)
  storePath_plain : ';' ∉ storePath
  narHash_plain : ';' ∉ narHash
  references_plain : ∀ reference ∈ references, ';' ∉ reference

def PathInfo.fingerprint (info : PathInfo) : List Char :=
  '1' :: ';' :: info.storePath ++ ';' :: info.narHash ++ ';' :: showU64 info.narSize ++
    ';' :: [','].intercalate info.references

/-- What the trusted keys have signed: whatever verifies under one of them, and only fingerprints. -/
structure Authority [Ed25519] (trusted : TrustedNarKeys) where
  signed : Ed25519.VerifyingKey → List UInt8 → Prop
  unforgeable : ∀ name key message signature, trusted.get name = some key →
    Ed25519.verifyStrict key message signature = true → signed key message
  honest : ∀ name key message, trusted.get name = some key → signed key message →
    ∃ info : PathInfo, message = toUtf8 info.fingerprint

theorem semicolon_not_mem_showU64 (x : UInt64) : ';' ∉ showU64 x :=
  fun h => absurd (isDigit_of_mem_toDigits h) (by decide)

theorem fields_inj {a b c d a' b' c' d' : List Char} (hb : ';' ∉ b) (hc : ';' ∉ c) (ha' : ';' ∉ a') (hb' : ';' ∉ b')
    (hc' : ';' ∉ c') (hd' : ';' ∉ d')
    (h : a ++ ';' :: (b ++ ';' :: (c ++ ';' :: d)) = a' ++ ';' :: (b' ++ ';' :: (c' ++ ';' :: d'))) :
    a = a' ∧ b = b' ∧ c = c' := by
  have hcount := congrArg (List.count ';') h
  simp only [List.count_append, List.count_cons_self, List.count_eq_zero_of_not_mem hb,
    List.count_eq_zero_of_not_mem hc, List.count_eq_zero_of_not_mem ha', List.count_eq_zero_of_not_mem hb',
    List.count_eq_zero_of_not_mem hc', List.count_eq_zero_of_not_mem hd'] at hcount
  have ha : ';' ∉ a := List.count_eq_zero.mp (by omega)
  have hfirst := congrArg (splitOnce ';') h
  rw [splitOnce_append ha, splitOnce_append ha'] at hfirst
  obtain ⟨hpath, hrest⟩ := Prod.mk.inj (Option.some.inj hfirst)
  have hsecond := congrArg (splitOnce ';') hrest
  rw [splitOnce_append hb, splitOnce_append hb'] at hsecond
  obtain ⟨hhash, hrest⟩ := Prod.mk.inj (Option.some.inj hsecond)
  have hthird := congrArg (splitOnce ';') hrest
  rw [splitOnce_append hc, splitOnce_append hc'] at hthird
  exact ⟨hpath, hhash, (Prod.mk.inj (Option.some.inj hthird)).1⟩

theorem fingerprint_inj {storePath references : List Char} {narHash : NarHashKey} {narSize : UInt64} {info : PathInfo}
    (h : fingerprint storePath narHash.display narSize references = info.fingerprint) :
    storePath = info.storePath ∧ narHash.display = info.narHash ∧ narSize = info.narSize := by
  have hhash : ';' ∉ narHash.display := fun hmem => absurd (NarHashKey.mem_display hmem) (by decide)
  have hreferences : ';' ∉ [','].intercalate info.references := by
    intro hmem
    obtain hcomma | ⟨reference, hreference, hmem⟩ := mem_intercalate hmem
    · exact absurd hcomma (by decide)
    · exact info.references_plain reference hreference hmem
  simp only [fingerprint, PathInfo.fingerprint, List.append_assoc, List.cons_append, List.cons.injEq,
    true_and] at h
  obtain ⟨hpath, hhash, hsize⟩ := fields_inj hhash (semicolon_not_mem_showU64 _) info.storePath_plain
    info.narHash_plain (semicolon_not_mem_showU64 _) hreferences h
  refine ⟨hpath, hhash, ?_⟩
  have hparsed := congrArg parseU64 hsize
  rw [parseU64_showU64, parseU64_showU64] at hparsed
  exact Option.some.inj hparsed

section Proof

variable [Ed25519] {trusted : TrustedNarKeys} {narinfo : List UInt8} {verified : VerifiedPublicNar}

theorem of_provePublic (h : provePublic trusted narinfo = .ok verified) :
    ∃ text storePath references, fromUtf8 narinfo = some text ∧ field text "StorePath:" = .ok (some storePath) ∧
      verified.storeHash = storeHashOf storePath ∧
      ∃ name key signature, trusted.get name = some key ∧ Ed25519.verifyStrict key
        (toUtf8 (fingerprint storePath verified.narHash.display verified.narSize references)) signature = true := by
  obtain ⟨text, _, htext, -, ⟨storePath, _, _, _, references, hpath, -, -, -, -, -, -, -, -, -, hstoreHash, rfl⟩,
    _, _, _, -, hgood, -⟩ := provePublic_eq_ok_iff.mp h
  exact ⟨text, storePath, references, htext, field_eq_ok_iff.mpr hpath, hstoreHash, exists_key_of_good hgood⟩

def Authority.SignedFor (authority : Authority trusted) (info : PathInfo) : Prop :=
  ∃ name key, trusted.get name = some key ∧ authority.signed key (toUtf8 info.fingerprint)

theorem signedFor_of_provePublic (authority : Authority trusted) (h : provePublic trusted narinfo = .ok verified) :
    ∃ info, authority.SignedFor info ∧ info.narHash = verified.narHash.display ∧ info.narSize = verified.narSize ∧
      storeHashOf info.storePath = verified.storeHash ∧
      ∃ text, fromUtf8 narinfo = some text ∧ field text "StorePath:" = .ok (some info.storePath) := by
  obtain ⟨text, storePath, references, htext, hstorePath, hstoreHash, name, key, signature, hkey, hverified⟩ :=
    of_provePublic h
  have hsigned := authority.unforgeable name key _ signature hkey hverified
  obtain ⟨info, hinfo⟩ := authority.honest name key _ hkey hsigned
  obtain ⟨hpath, hhash, hsize⟩ := fingerprint_inj (toUtf8_injective hinfo)
  refine ⟨info, ⟨name, key, hkey, hinfo ▸ hsigned⟩, hhash.symm, hsize.symm, ?_, text, htext, hpath ▸ hstorePath⟩
  rw [hstoreHash, hpath]

variable [Blake3Mac]

/-- An accepted narinfo carries the path, hash and size of one that a trusted key signed for; and a learn appends only the record of such a path with the requested store hash. -/
theorem public_proof_sound (authority : Authority trusted) (narinfo : List UInt8) :
    (∀ verified, provePublic trusted narinfo = .ok verified →
      ∃ info, authority.SignedFor info ∧ info.narHash = verified.narHash.display ∧
        info.narSize = verified.narSize ∧ storeHashOf info.storePath = verified.storeHash ∧
        ∃ text, fromUtf8 narinfo = some text ∧ field text "StorePath:" = .ok (some info.storePath)) ∧
    ∀ macKey entries file requested ended,
      (learn trusted macKey entries file requested narinfo ended).entries = entries ∧
        (learn trusted macKey entries file requested narinfo ended).file = file ∨
      ∃ (info : PathInfo) (narHash : NarHashKey), authority.SignedFor info ∧ info.narHash = narHash.display ∧
        storeHashOf info.storePath = requested ∧
        (learn trusted macKey entries file requested narinfo ended).file =
          (append macKey file ⟨narHash, info.narSize⟩ ended).file ∧
        ((learn trusted macKey entries file requested narinfo ended).entries = entries ∨
          (learn trusted macKey entries file requested narinfo ended).entries =
            entries.insert narHash info.narSize) := by
  refine ⟨fun verified => signedFor_of_provePublic authority, fun macKey entries file requested ended => ?_⟩
  unfold learn
  cases hlearn : learnable trusted entries requested narinfo with
  | error outcome => exact .inl ⟨rfl, rfl⟩
  | ok record =>
    unfold learnable at hlearn
    cases hproof : provePublic trusted narinfo with
    | error why =>
      rw [hproof] at hlearn
      cases hlearn
    | ok verified =>
      simp only [hproof, guard_eq_ok_iff] at hlearn
      obtain ⟨hrequested, -, hrecord⟩ := hlearn
      obtain ⟨info, hsigned, hhash, hsize, hstoreHash, -⟩ := signedFor_of_provePublic authority hproof
      refine .inr ⟨info, verified.narHash, hsigned, hhash, hstoreHash.trans (not_not.mp hrequested), ?_⟩
      rw [hsize, ← Except.ok.inj hrecord]
      dsimp only
      split
      · exact ⟨rfl, .inl rfl⟩
      · exact ⟨rfl, .inr rfl⟩

end Proof

def fixtureInfo : PathInfo where
  storePath := "/nix/store/l30jg5xg904s62jvw5znmr682xpr993c-app".toList
  narHash := "sha256:06rgb4vfjsg365xwwdjz12qhjnvg3w0agfvyqfp977hp3yk2bczb".toList
  narSize := 408
  references := ["/nix/store/a-lib".toList, "/nix/store/b-lib".toList]
  storePath_plain := by decide
  narHash_plain := by decide
  references_plain := by decide

@[reducible] def fixtureScheme : Ed25519 where
  VerifyingKey := Unit
  fromBytes _ := some ()
  isWeak _ := false
  verifyStrict _ message _ := message == toUtf8 fixtureInfo.fingerprint

def fixtureKeys : @TrustedNarKeys fixtureScheme :=
  letI := fixtureScheme
  ⟨(∅ : Table (List Char) Unit).insert "cache-1".toList ()⟩

def fixtureAuthority : @Authority fixtureScheme fixtureKeys :=
  letI := fixtureScheme
  { signed := fun _ message => message = toUtf8 fixtureInfo.fingerprint
    unforgeable := fun _ _ _ _ _ hverified => beq_iff_eq.mp hverified
    honest := fun _ _ _ _ hsigned => ⟨fixtureInfo, hsigned⟩ }

/-- The references are out of order, the size has a leading zero, and another signature comes first. -/
def fixtureNarinfo : List UInt8 :=
  toUtf8 (unlines ["StorePath: /nix/store/l30jg5xg904s62jvw5znmr682xpr993c-app".toList, "URL: nar/x.nar.xz".toList,
    "NarHash: sha256:06rgb4vfjsg365xwwdjz12qhjnvg3w0agfvyqfp977hp3yk2bczb".toList, "NarSize: 0408".toList,
    "References: b-lib a-lib".toList, "Sig: other-1:AAAA".toList,
    "Sig: cache-1:".toList ++ List.replicate 86 'A' ++ ['=', '=']])

def fixtureHash : NarHashKey :=
  ⟨beArray 32 0xebb325a61f179e93aec37ebba7001f6f5b09b1085f36ce7b31e369e936592f1b⟩

theorem public_proof_sound_fixture :
    @provePublic fixtureScheme fixtureKeys fixtureNarinfo =
      .ok ⟨fixtureHash, 408, "l30jg5xg904s62jvw5znmr682xpr993c".toList⟩ ∧
    ∃ info, @Authority.SignedFor fixtureScheme fixtureKeys fixtureAuthority info ∧ info.narSize = 408 := by
  have hproof : @provePublic fixtureScheme fixtureKeys fixtureNarinfo =
      .ok ⟨fixtureHash, 408, "l30jg5xg904s62jvw5znmr682xpr993c".toList⟩ := by
    decide +kernel
  obtain ⟨info, hsigned, -, hsize, -⟩ :=
    (@public_proof_sound fixtureScheme fixtureKeys ⟨fun macKey _ => macKey⟩ fixtureAuthority fixtureNarinfo).1 _ hproof
  exact ⟨hproof, info, hsigned, hsize⟩

end NixP2p.Allowlist
