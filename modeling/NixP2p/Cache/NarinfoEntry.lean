import NixP2p.Base.Utf8
import NixP2p.Serving.Narinfo

/-!
# Entries of the narinfo cache

An entry file holds a short text header, a blank line and the body as upstream sent it. The reader takes a file only if the body has the length the header promises and, for a narinfo, all the fields a narinfo must have. The file is named after its store hash, which has to be one that Nix could have made.
-/

namespace NixP2p

open Text

def nixBase32 : List Char := "0123456789abcdfghijklmnpqrsvwxyz".toList

def storeHashLen : Nat := 32

def safeKey (storeHash : List Char) : Option (List Char) :=
  if storeHash.length ≠ storeHashLen then none
  else if storeHash.all fun char => nixBase32.contains char then some storeHash else none

structure NarinfoFields where
  storePath : Bool := false
  url : Bool := false
  narHash : Bool := false
  narSize : Bool := false
  references : Bool := false
  sig : Bool := false

def NarinfoFields.readLine (fields : NarinfoFields) (line : List Char) : NarinfoFields :=
  if let some value := line.dropPrefix? "StorePath:".toList then
    { fields with storePath := fields.storePath || trim value != [] }
  else if let some value := line.dropPrefix? "URL:".toList then
    { fields with url := fields.url || trim value != [] }
  else if let some value := line.dropPrefix? "NarHash:".toList then
    { fields with narHash := fields.narHash ||
      "sha256:".toList.isPrefixOf (trim value) && decide ("sha256:".toList.length < (trim value).length) }
  else if let some value := line.dropPrefix? "NarSize:".toList then
    { fields with narSize := fields.narSize || (parseU64 (trim value)).isSome }
  else if (line.dropPrefix? "References:".toList).isSome then { fields with references := true }
  else if let some value := line.dropPrefix? "Sig:".toList then
    { fields with sig := fields.sig || trim value != [] }
  else fields

def isWellFormedNarinfo (body : List UInt8) : Bool :=
  match fromUtf8 body with
  | none => false
  | some text =>
    let fields := (lines text).foldl NarinfoFields.readLine {}
    fields.storePath && fields.url && fields.narHash && fields.narSize && fields.references && fields.sig

inductive EntryKind where
  | positive
  | negative
  deriving DecidableEq

structure CacheEntry where
  kind : EntryKind
  fetchedAt : UInt64
  body : List UInt8
  deriving DecidableEq

def entryMagic : List Char := "NIXP2P-NARINFO-CACHE\t1".toList

def EntryKind.status : EntryKind → UInt64
  | .positive => 200
  | .negative => 404

def EntryKind.ofStatus (status : UInt64) : Option EntryKind :=
  if status = 200 then some .positive else if status = 404 then some .negative else none

namespace CacheEntry

def headerField (name : String) (value : List Char) : List Char := name.toList ++ '\t' :: value

def headerLines (entry : CacheEntry) : List (List Char) :=
  [entryMagic, headerField "fetched_at" (showU64 entry.fetchedAt), headerField "status" (showU64 entry.kind.status),
    headerField "body_len" (Nat.toDigits 10 entry.body.length)]

def encode (entry : CacheEntry) : List UInt8 :=
  toUtf8 (joinLines entry.headerLines) ++ 0x0a :: 0x0a :: entry.body

structure Header where
  fetchedAt : Option UInt64 := none
  status : Option UInt64 := none
  bodyLen : Option UInt64 := none

def parseU16 (text : List Char) : Option UInt64 := (parseU64 text).filter fun value => value.toNat < 2 ^ 16

def Header.readLine (header : Header) (line : List Char) : Option Header :=
  (splitOnce '\t' line).map fun field =>
    if field.1 = "fetched_at".toList then { header with fetchedAt := parseU64 field.2 }
    else if field.1 = "status".toList then { header with status := parseU16 field.2 }
    else if field.1 = "body_len".toList then { header with bodyLen := parseU64 field.2 }
    else header

def readHeader (text : List Char) : Option Header :=
  match lines text with
  | [] => none
  | first :: rest => if first = entryMagic then rest.foldlM Header.readLine {} else none

def decode (raw : List UInt8) : Option CacheEntry := do
  let sep ← findSubslice [0x0a, 0x0a] raw
  let text ← fromUtf8 (raw.take sep)
  let body := raw.drop (sep + 2)
  let header ← readHeader text
  let fetchedAt ← header.fetchedAt
  let status ← header.status
  let bodyLen ← header.bodyLen
  if body.length ≠ bodyLen.toNat then none
  else
    let kind ← EntryKind.ofStatus status
    if kind = .positive ∧ isWellFormedNarinfo body = false then none else some ⟨kind, fetchedAt, body⟩

/-- What an entry of the cache may be: a narinfo that is well formed, or an absence without a body. -/
structure Storable (entry : CacheEntry) : Prop where
  body : entry.kind = .positive → isWellFormedNarinfo entry.body = true
  length : entry.body.length < 2 ^ 64

/-- A line that the frame can hold: ASCII, not empty, and no line feed or carriage return in it. -/
def FrameLine (line : List Char) : Prop :=
  line ≠ [] ∧ '\n' ∉ line ∧ '\r' ∉ line ∧ ∀ char ∈ line, char.toNat < 0x80

theorem frameLine_headerField {name : String} (n : Nat)
    (hname : '\n' ∉ name.toList ∧ '\r' ∉ name.toList ∧ ∀ char ∈ name.toList, char.toNat < 0x80) :
    FrameLine (headerField name (Nat.toDigits 10 n)) := by
  have hdigit : ∀ char ∈ Nat.toDigits 10 n, 48 ≤ char.toNat ∧ char.toNat ≤ 57 := by
    intro char hchar
    have h := isDigit_of_mem_toDigits hchar
    simp only [Char.isDigit, Bool.and_eq_true, decide_eq_true_eq, ge_iff_le, UInt32.le_iff_toNat_le] at h
    exact h
  have hmem : ∀ char ∈ headerField name (Nat.toDigits 10 n),
      char ∈ name.toList ∨ char = '\t' ∨ 48 ≤ char.toNat ∧ char.toNat ≤ 57 := by
    intro char hchar
    rw [headerField, List.mem_append, List.mem_cons] at hchar
    obtain h | h | h := hchar
    · exact .inl h
    · exact .inr (.inl h)
    · exact .inr (.inr (hdigit char h))
  refine ⟨List.append_ne_nil_of_right_ne_nil _ (List.cons_ne_nil _ _), fun h => ?_, fun h => ?_, fun char h => ?_⟩
  · obtain h | h | h := hmem _ h
    · exact hname.1 h
    · cases h
    · exact absurd h.1 (by decide)
  · obtain h | h | h := hmem _ h
    · exact hname.2.1 h
    · cases h
    · exact absurd h.1 (by decide)
  · obtain h | rfl | h := hmem _ h
    · exact hname.2.2 char h
    · decide
    · omega

theorem frameLine_headerLines (entry : CacheEntry) : ∀ line ∈ entry.headerLines, FrameLine line := by
  intro line hline
  simp only [headerLines, List.mem_cons, List.not_mem_nil, or_false] at hline
  obtain rfl | rfl | rfl | rfl := hline
  · exact ⟨by decide, by decide, by decide, ascii_of_all (by decide)⟩
  all_goals exact frameLine_headerField _ ⟨by decide, by decide, ascii_of_all (by decide)⟩

theorem findSubslice_header (entry : CacheEntry) (body : List UInt8) :
    findSubslice [0x0a, 0x0a] (toUtf8 (joinLines entry.headerLines) ++ 0x0a :: 0x0a :: body) =
      some (toUtf8 (joinLines entry.headerLines)).length := by
  have hsome : entry.headerLines.map toUtf8 ≠ [] := List.cons_ne_nil _ _
  rw [toUtf8_joinLines]
  refine findSubslice_intercalate hsome (fun bytes hbytes => ?_) body
  obtain ⟨line, hline, rfl⟩ := List.mem_map.mp hbytes
  obtain ⟨hne, hfeed, -, hascii⟩ := frameLine_headerLines entry line hline
  refine ⟨?_, fun hmem => ?_⟩
  · obtain ⟨char, chars, rfl⟩ := List.exists_cons_of_ne_nil hne
    rw [toUtf8_cons, utf8EncodeChar_of_lt (hascii char List.mem_cons_self)]
    exact List.cons_ne_nil _ _
  · obtain ⟨char, hchar, hbyte⟩ := (mem_toUtf8 hascii).mp hmem
    have hlt := hascii char hchar
    have hnat : char.toNat = 10 := by
      have h := congrArg UInt8.toNat hbyte
      rw [UInt8.toNat_ofNat_of_lt' (hlt.trans (by decide))] at h
      exact h.symm
    have heq : char = '\n' := Char.toNat_inj.mp hnat
    exact hfeed (heq ▸ hchar)

theorem parseU16_status (kind : EntryKind) : parseU16 (showU64 kind.status) = some kind.status := by
  rw [parseU16, parseU64_showU64]
  cases kind with
  | positive => rfl
  | negative => rfl

theorem readLine_headerField (header : Header) {name : String} (hname : '\t' ∉ name.toList) (value : List Char) :
    header.readLine (headerField name value) = some
      (if name.toList = "fetched_at".toList then { header with fetchedAt := parseU64 value }
      else if name.toList = "status".toList then { header with status := parseU16 value }
      else if name.toList = "body_len".toList then { header with bodyLen := parseU64 value }
      else header) := by
  rw [Header.readLine, headerField, splitOnce_append hname]
  rfl

theorem readHeader_headerLines (entry : CacheEntry) :
    readHeader (joinLines entry.headerLines) = some
      ⟨some entry.fetchedAt, some entry.kind.status, parseU64 (Nat.toDigits 10 entry.body.length)⟩ := by
  have hlines : lines (joinLines entry.headerLines) = entry.headerLines :=
    lines_joinLines fun line hline =>
      ⟨(frameLine_headerLines entry line hline).1, (frameLine_headerLines entry line hline).2.1,
        (frameLine_headerLines entry line hline).2.2.1⟩
  have hstatus : "status".toList ≠ "fetched_at".toList := by decide
  have hlen : "body_len".toList ≠ "fetched_at".toList ∧ "body_len".toList ≠ "status".toList := by decide
  rw [readHeader, hlines, headerLines]
  dsimp only
  rw [if_pos rfl, List.foldlM_cons, readLine_headerField _ (by decide), if_pos rfl, Option.bind_eq_bind,
    Option.bind_some, List.foldlM_cons, readLine_headerField _ (by decide), if_neg hstatus, if_pos rfl,
    Option.bind_eq_bind, Option.bind_some, List.foldlM_cons, readLine_headerField _ (by decide), if_neg hlen.1,
    if_neg hlen.2, if_pos rfl, Option.bind_eq_bind, Option.bind_some, List.foldlM_nil, parseU64_showU64,
    parseU16_status]
  rfl

theorem decode_header (entry : CacheEntry) (body : List UInt8) :
    decode (toUtf8 (joinLines entry.headerLines) ++ 0x0a :: 0x0a :: body) =
      if entry.body.length < 2 ^ 64 then
        if body.length ≠ entry.body.length then none
        else if entry.kind = .positive ∧ isWellFormedNarinfo body = false then none
        else some ⟨entry.kind, entry.fetchedAt, body⟩
      else none := by
  have hdrop : (toUtf8 (joinLines entry.headerLines) ++ 0x0a :: 0x0a :: body).drop
      ((toUtf8 (joinLines entry.headerLines)).length + 2) = body := by
    rw [List.drop_append]
    simp
  have hkind : EntryKind.ofStatus entry.kind.status = some entry.kind := by
    cases entry.kind with
    | positive => rfl
    | negative => rfl
  unfold decode
  rw [findSubslice_header, Option.bind_eq_bind, Option.bind_some, List.take_left, hdrop, fromUtf8_toUtf8,
    Option.bind_eq_bind, Option.bind_some, readHeader_headerLines, Option.bind_eq_bind, Option.bind_some,
    parseU64_toDigits]
  by_cases hlength : entry.body.length < 2 ^ 64
  · have hnat : (UInt64.ofNat entry.body.length).toNat = entry.body.length := UInt64.toNat_ofNat_of_lt' hlength
    rw [if_pos hlength, if_pos hlength]
    simp only [Option.bind_eq_bind, Option.bind_some, hnat, hkind]
  · rw [if_neg hlength, if_neg hlength]
    rfl

theorem decode_encode {entry : CacheEntry} (h : entry.Storable) : decode entry.encode = some entry := by
  rw [encode, decode_header, if_pos h.length, if_neg (not_not.mpr rfl), if_neg]
  rintro ⟨hkind, hmalformed⟩
  exact nomatch (h.body hkind).symm.trans hmalformed

theorem decode_take (entry : CacheEntry) {n : Nat} (hn : n < entry.encode.length) :
    decode (entry.encode.take n) = none := by
  have hlength : entry.encode.length =
      (toUtf8 (joinLines entry.headerLines)).length + 2 + entry.body.length := by
    rw [encode, List.length_append, List.length_cons, List.length_cons]
    omega
  by_cases hheader : n < (toUtf8 (joinLines entry.headerLines)).length + 2
  · -- no blank line is left: the first one of the whole file does not fit
    have hnone : findSubslice [0x0a, 0x0a] (entry.encode.take n) = none := by
      rw [Option.eq_none_iff_forall_ne_some]
      intro index hfound
      have hroom := findSubslice_room hfound
      have hwhole := findSubslice_append hfound (entry.encode.drop n)
      rw [List.take_append_drop, encode, findSubslice_header] at hwhole
      rw [List.length_take, ← Option.some.inj hwhole, List.length_cons, List.length_cons, List.length_nil] at hroom
      omega
    rw [decode, hnone]
    rfl
  · -- the header is whole, and the body is shorter than it says
    have htake : entry.encode.take n = toUtf8 (joinLines entry.headerLines) ++ 0x0a :: 0x0a ::
        entry.body.take (n - ((toUtf8 (joinLines entry.headerLines)).length + 2)) := by
      rw [encode, List.take_append, List.take_of_length_le (by omega)]
      obtain ⟨k, rfl⟩ := Nat.exists_eq_add_of_le (Nat.le_of_not_lt hheader)
      rw [show (toUtf8 (joinLines entry.headerLines)).length + 2 + k -
        (toUtf8 (joinLines entry.headerLines)).length = k + 1 + 1 by omega, List.take_succ_cons, List.take_succ_cons,
        Nat.add_sub_cancel_left]
    rw [htake, decode_header]
    split
    · rw [if_pos]
      rw [List.length_take]
      omega
    · rfl

end CacheEntry

end NixP2p
