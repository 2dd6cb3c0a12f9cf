import NixP2p.Base.Fallible
import NixP2p.Base.Lines
import NixP2p.Serving.Narinfo

/-!
# The frame of the raw rewrite

The rewrite reads a narinfo once line by line for the signed values and once piece by piece for the output, and both passes see the same fields: a line with a colon, named by what stands before the first one. It changes the lines of the four transport fields and no others, and since a new line is a field of the same name, a second rewrite has nothing left to change.
-/

namespace NixP2p

open Text Fallible

/-! ### Fields -/

variable {line key : List UInt8}

theorem fieldKey_eq_some_iff : fieldKey line = some key ↔ 0x3a ∉ key ∧ ∃ value, line = key ++ 0x3a :: value := by
  induction line generalizing key with
  | nil => simp [fieldKey]
  | cons byte line ih =>
    by_cases hcolon : byte = 0x3a
    · subst hcolon
      have hkey : fieldKey (0x3a :: line) = some [] := by simp [fieldKey, List.findIdx?_cons]
      rw [hkey, Option.some.injEq]
      constructor
      · rintro rfl
        exact ⟨List.not_mem_nil, line, rfl⟩
      · rintro ⟨hfree, value, heq⟩
        cases key with
        | nil => rfl
        | cons first key =>
          rw [List.cons_append, List.cons.injEq] at heq
          exact absurd (heq.1 ▸ List.mem_cons_self) hfree
    · have hkey : fieldKey (byte :: line) = (fieldKey line).map (byte :: ·) := by
        simp [fieldKey, List.findIdx?_cons, hcolon, Function.comp_def]
      rw [hkey, Option.map_eq_some_iff]
      constructor
      · rintro ⟨rest, hrest, rfl⟩
        obtain ⟨hfree, value, rfl⟩ := ih.mp hrest
        exact ⟨List.not_mem_cons_of_ne_of_not_mem (Ne.symm hcolon) hfree, value, rfl⟩
      · rintro ⟨hfree, value, heq⟩
        cases key with
        | nil => exact absurd (List.cons.inj heq).1 hcolon
        | cons first key =>
          obtain ⟨rfl, rfl⟩ := List.cons.inj heq
          exact ⟨key, ih.mpr ⟨fun hmem => hfree (List.mem_cons_of_mem _ hmem), value, rfl⟩, rfl⟩

/-- A line with a colon, as the name and the value of a field. -/
def fieldEntry (line : List UInt8) : Option (List UInt8 × List UInt8) :=
  (fieldKey line).map fun key => (key, line.drop (key.length + 1))

variable {value : List UInt8}

theorem fieldEntry_eq_some_iff :
    fieldEntry line = some (key, value) ↔ 0x3a ∉ key ∧ line = key ++ 0x3a :: value := by
  simp only [fieldEntry, Option.map_eq_some_iff, fieldKey_eq_some_iff, Prod.mk.injEq]
  constructor
  · rintro ⟨_, ⟨hkey, value, rfl⟩, rfl, rfl⟩
    exact ⟨hkey, by simp⟩
  · rintro ⟨hkey, rfl⟩
    exact ⟨key, ⟨hkey, value, rfl⟩, rfl, by simp⟩

theorem fieldEntry_append {rest : List UInt8} (hrest : 0x3a ∉ rest) :
    fieldEntry (line ++ rest) = (fieldEntry line).map fun entry => (entry.1, entry.2 ++ rest) := by
  cases hentry : fieldEntry line with
  | some entry =>
    obtain ⟨hkey, rfl⟩ := fieldEntry_eq_some_iff.mp hentry
    exact fieldEntry_eq_some_iff.mpr ⟨hkey, by rw [List.append_assoc, List.cons_append]⟩
  | none =>
    refine Option.eq_none_iff_forall_ne_some.mpr fun ⟨key, value⟩ hfound => ?_
    obtain ⟨hkey, heq⟩ := fieldEntry_eq_some_iff.mp hfound
    obtain ⟨tail, -, htail⟩ | ⟨tail, hline, htail⟩ := List.append_eq_append_iff.mp heq
    · exact hrest (htail ▸ List.mem_append_right tail List.mem_cons_self)
    cases tail with
    | nil => exact hrest ((List.nil_append rest).symm.trans htail.symm ▸ List.mem_cons_self)
    | cons byte tail =>
      obtain ⟨rfl, -⟩ := List.cons.inj htail
      exact Option.some_ne_none _ ((fieldEntry_eq_some_iff.mpr ⟨hkey, hline⟩).symm.trans hentry)

theorem fieldValue_eq_some_iff {key : String} :
    fieldValue line key = some value ↔ line = ascii key ++ 0x3a :: value := by
  have hcolon : ascii ":" = [0x3a] := by decide
  rw [fieldValue, List.dropPrefix?_eq_some_iff, hcolon]
  constructor
  · rintro ⟨start, rfl, hstart⟩
    rw [beq_iff_eq.mp hstart, List.append_assoc]
    rfl
  · rintro rfl
    exact ⟨ascii key ++ [0x3a], by rw [List.append_assoc]; rfl, BEq.rfl⟩

theorem fieldValue_eq (line : List UInt8) {name : String} (hname : 0x3a ∉ ascii name) :
    fieldValue line name = (fieldEntry line).bind fun entry => if entry.1 = ascii name then some entry.2 else none := by
  refine Option.ext fun value => ?_
  rw [fieldValue_eq_some_iff, Option.bind_eq_some_iff]
  constructor
  · intro hline
    exact ⟨(ascii name, value), fieldEntry_eq_some_iff.mpr ⟨hname, hline⟩, if_pos rfl⟩
  · rintro ⟨⟨key, found⟩, hentry, hfound⟩
    obtain ⟨rfl, rfl⟩ : key = ascii name ∧ found = value := by simpa using hfound
    exact (fieldEntry_eq_some_iff.mp hentry).2

def RawFields.take (fields : RawFields) (key value : List UInt8) : RawFields :=
  if key = ascii "NarHash" then { fields with narHash := some value }
  else if key = ascii "NarSize" then { fields with narSize := some value }
  else if key = ascii "Compression" then { fields with compression := some value }
  else if key = ascii "URL" then { fields with haveUrl := true }
  else if key = ascii "FileHash" then { fields with haveFileHash := true }
  else if key = ascii "FileSize" then { fields with haveFileSize := true }
  else fields

namespace RawFields

theorem readLine_eq (fields : RawFields) (line : List UInt8) :
    fields.readLine line = (fieldEntry line).elim fields fun entry => fields.take entry.1 entry.2 := by
  have hnames : ∀ name ∈ ["NarHash", "NarSize", "Compression", "URL", "FileHash", "FileSize"], 0x3a ∉ ascii name := by
    decide
  have hvalue := fun name hname => fieldValue_eq line (hnames name hname)
  simp only [List.forall_mem_cons] at hvalue
  obtain ⟨hhash, hsize, hcompression, hurl, hfileHash, hfileSize, -⟩ := hvalue
  simp only [readLine, hhash, hsize, hcompression, hurl, hfileHash, hfileSize]
  cases fieldEntry line with
  | none => rfl
  | some entry =>
    simp only [Option.bind_some, Option.elim_some, take, Option.isSome_ite]
    split_ifs <;> simp

end RawFields

def rawFields (body : List UInt8) : RawFields := (body.splitOnP (· == 0x0a)).foldl RawFields.readLine {}

variable {body : List UInt8} {rewritten : RawRewrite}

theorem toRaw_eq_ok_iff :
    toRaw body = .ok rewritten ↔
      ∃ hashValue sizeValue compression, (rawFields body).narHash = some hashValue ∧
        (rawFields body).narSize = some sizeValue ∧ (rawFields body).haveUrl = true ∧
        (rawFields body).compression = some compression ∧
        ((rawFields body).haveFileHash = true ∨ asciiTrim compression = ascii "none") ∧
        ((rawFields body).haveFileSize = true ∨ asciiTrim compression = ascii "none") ∧
        fromUtf8 (asciiTrim hashValue) = some rewritten.narHash ∧
        (fromUtf8 (asciiTrim sizeValue)).bind parseU64 = some rewritten.narSize ∧
        narHashDigest rewritten.narHash ≠ [] ∧
        rewritten.urlToken = narHashDigest rewritten.narHash ++ ".nar".toList ∧
        rewritten.body = (splitInclusive (· == 0x0a) body).flatMap
          (rewriteSegment rewritten.urlToken rewritten.narHash rewritten.narSize) := by
  obtain ⟨newBody, urlToken, narHash, narSize⟩ := rewritten
  simp only [toRaw, rawFields, bind_eq_ok_iff, elim_eq_ok_iff, guard_eq_ok_iff, pure_eq_ok_iff, Bool.not_eq_false,
    not_and_or, not_not, RawRewrite.mk.injEq, Option.bind_eq_bind]
  constructor
  · rintro ⟨hashValue, hhash, sizeValue, hsize, hurl, compression, hcompression, hfileHash, hfileSize, narHash', hnarHash,
      narSize', hnarSize, hdigest, rfl, rfl, rfl, rfl⟩
    exact ⟨hashValue, sizeValue, compression, hhash, hsize, hurl, hcompression, hfileHash, hfileSize, hnarHash, hnarSize,
      hdigest, rfl, rfl⟩
  · rintro ⟨hashValue, sizeValue, compression, hhash, hsize, hurl, hcompression, hfileHash, hfileSize, hnarHash, hnarSize,
      hdigest, rfl, rfl⟩
    exact ⟨hashValue, hhash, sizeValue, hsize, hurl, compression, hcompression, hfileHash, hfileSize, narHash, hnarHash,
      narSize, hnarSize, hdigest, rfl, rfl, rfl, rfl⟩

/-! ### The transport fields -/

inductive TransportField where
  | url
  | compression
  | fileHash
  | fileSize

namespace TransportField

def name : TransportField → String
  | url => "URL"
  | compression => "Compression"
  | fileHash => "FileHash"
  | fileSize => "FileSize"

def rawLine (narHash : List Char) (narSize : UInt64) : TransportField → List UInt8
  | url => ascii "URL: nar/" ++ toUtf8 (narHashDigest narHash ++ ".nar".toList)
  | compression => ascii "Compression: none"
  | fileHash => ascii "FileHash: " ++ toUtf8 narHash
  | fileSize => ascii "FileSize: " ++ toUtf8 (showU64 narSize)

theorem colon_not_mem_name (field : TransportField) : 0x3a ∉ ascii field.name := by
  cases field <;> decide

def rawValue (narHash : List Char) (narSize : UInt64) : TransportField → List UInt8
  | url => ascii "nar/" ++ toUtf8 (narHashDigest narHash ++ ".nar".toList)
  | compression => ascii "none"
  | fileHash => toUtf8 narHash
  | fileSize => toUtf8 (showU64 narSize)

theorem rawLine_eq (narHash : List Char) (narSize : UInt64) (field : TransportField) :
    field.rawLine narHash narSize = ascii field.name ++ 0x3a :: 0x20 :: field.rawValue narHash narSize := by
  cases field with
  | url =>
    have hstart : ascii "URL: nar/" = ascii "URL" ++ 0x3a :: 0x20 :: ascii "nar/" := by decide
    rw [rawLine, rawValue, hstart, List.append_assoc]
    rfl
  | compression =>
    have hline : ascii "Compression: none" = ascii "Compression" ++ 0x3a :: 0x20 :: ascii "none" := by decide
    exact hline
  | fileHash =>
    have hstart : ascii "FileHash: " = ascii "FileHash" ++ [0x3a, 0x20] := by decide
    rw [rawLine, rawValue, hstart, List.append_assoc]
    rfl
  | fileSize =>
    have hstart : ascii "FileSize: " = ascii "FileSize" ++ [0x3a, 0x20] := by decide
    rw [rawLine, rawValue, hstart, List.append_assoc]
    rfl

theorem fieldKey_rawLine (narHash : List Char) (narSize : UInt64) (field : TransportField) :
    fieldKey (field.rawLine narHash narSize) = some (ascii field.name) :=
  fieldKey_eq_some_iff.mpr ⟨field.colon_not_mem_name, _, rawLine_eq narHash narSize field⟩

end TransportField

variable {narHash : List Char} {narSize : UInt64}

theorem replacementLine_name (field : TransportField) :
    replacementLine (narHashDigest narHash ++ ".nar".toList) narHash narSize (ascii field.name) =
      some (field.rawLine narHash narSize) := by
  cases field with
  | url => rfl
  | compression => rfl
  | fileHash => rfl
  | fileSize => rfl

theorem replacementLine_of_ne {urlToken : List Char} (h : ∀ field : TransportField, key ≠ ascii field.name) :
    replacementLine urlToken narHash narSize key = none := by
  have hurl : key ≠ ascii "URL" := h .url
  have hcompression : key ≠ ascii "Compression" := h .compression
  have hfileHash : key ≠ ascii "FileHash" := h .fileHash
  have hfileSize : key ≠ ascii "FileSize" := h .fileSize
  simp only [replacementLine, if_neg hurl, if_neg hcompression, if_neg hfileHash, if_neg hfileSize, ite_self]

def rawSegment (narHash : List Char) (narSize : UInt64) (segment : List UInt8) : List UInt8 :=
  rewriteSegment (narHashDigest narHash ++ ".nar".toList) narHash narSize segment

variable {segment : List UInt8}

theorem rawSegment_of_name {field : TransportField}
    (h : fieldKey (splitTerminator segment).1 = some (ascii field.name)) :
    rawSegment narHash narSize segment = field.rawLine narHash narSize ++ (splitTerminator segment).2 := by
  simp only [rawSegment, rewriteSegment, h, Option.bind_some, replacementLine_name]

theorem rawSegment_of_other
    (h : ∀ field : TransportField, fieldKey (splitTerminator segment).1 ≠ some (ascii field.name)) :
    rawSegment narHash narSize segment = segment := by
  have hnone : (fieldKey (splitTerminator segment).1).bind
      (replacementLine (narHashDigest narHash ++ ".nar".toList) narHash narSize) = none := by
    cases hkey : fieldKey (splitTerminator segment).1 with
    | none => rfl
    | some key => exact replacementLine_of_ne fun field heq => h field (hkey.trans (congrArg some heq))
  simp only [rawSegment, rewriteSegment, hnone]

/-! ### Terminators -/

theorem dropSuffix?_eq_some_iff {suffix : List UInt8} :
    segment.dropSuffix? suffix = some line ↔ segment = line ++ suffix := by
  rw [List.dropSuffix?_eq_some_iff]
  constructor
  · rintro ⟨tail, rfl, htail⟩
    rw [beq_iff_eq.mp htail]
  · rintro rfl
    exact ⟨suffix, rfl, BEq.rfl⟩

/-- A piece is a line and its terminator, which is the longest that the piece ends with. -/
theorem splitTerminator_cases (segment : List UInt8) :
    (∃ line, segment = line ++ [0x0d, 0x0a] ∧ splitTerminator segment = (line, [0x0d, 0x0a])) ∨
      (∃ line, segment = line ++ [0x0a] ∧ splitTerminator segment = (line, [0x0a])) ∨
      (segment.getLast? ≠ some 0x0a ∧ splitTerminator segment = (segment, [])) := by
  cases hcrlf : segment.dropSuffix? [0x0d, 0x0a] with
  | some line => exact .inl ⟨line, dropSuffix?_eq_some_iff.mp hcrlf, by simp only [splitTerminator, hcrlf]⟩
  | none =>
    cases hlf : segment.dropSuffix? [0x0a] with
    | some line => exact .inr (.inl ⟨line, dropSuffix?_eq_some_iff.mp hlf, by simp only [splitTerminator, hcrlf, hlf]⟩)
    | none =>
      refine .inr (.inr ⟨fun hlast => ?_, by simp only [splitTerminator, hcrlf, hlf]⟩)
      obtain ⟨line, hline⟩ := List.getLast?_eq_some_iff.mp hlast
      rw [dropSuffix?_eq_some_iff.mpr hline] at hlf
      exact Option.some_ne_none _ hlf

/-- The lines of the first pass keep a carriage return that the second pass counts as terminator. -/
theorem unterminated_eq (segment : List UInt8) :
    unterminated 0x0a segment = (splitTerminator segment).1 ++ (splitTerminator segment).2.dropLast := by
  obtain ⟨line, hsegment, hsplit⟩ | ⟨line, hsegment, hsplit⟩ | ⟨hlast, hsplit⟩ := splitTerminator_cases segment
  · have hlines : segment = (line ++ [0x0d]) ++ [0x0a] := by rw [hsegment, List.append_assoc]; rfl
    rw [hsplit, hlines, unterminated_append]
    rfl
  · rw [hsplit, hsegment, unterminated_append]
    exact (List.append_nil line).symm
  · rw [hsplit, unterminated, if_neg hlast]
    exact (List.append_nil segment).symm

theorem splitTerminator_of_free {piece : List UInt8} (hfree : 0x0a ∉ piece) : splitTerminator piece = (piece, []) := by
  obtain ⟨line, rfl, -⟩ | ⟨line, rfl, -⟩ | ⟨-, hsplit⟩ := splitTerminator_cases piece
  · exact absurd (by simp) hfree
  · exact absurd (by simp) hfree
  · exact hsplit

/-- Bytes that a terminator after them does not change the reading of. -/
structure OneLine (bytes : List UInt8) : Prop where
  feed : 0x0a ∉ bytes
  carriage : bytes.getLast? ≠ some 0x0d

theorem OneLine.splitTerminator_append (h : OneLine line) (segment : List UInt8) :
    splitTerminator (line ++ (splitTerminator segment).2) = (line, (splitTerminator segment).2) := by
  obtain ⟨_, -, hsplit⟩ | ⟨_, -, hsplit⟩ | ⟨-, hsplit⟩ := splitTerminator_cases segment
  · rw [hsplit]
    have hcrlf : (line ++ [0x0d, 0x0a]).dropSuffix? [0x0d, 0x0a] = some line := dropSuffix?_eq_some_iff.mpr rfl
    simp only [splitTerminator, hcrlf]
  · rw [hsplit]
    have hcrlf : (line ++ [0x0a]).dropSuffix? [0x0d, 0x0a] = none := by
      refine Option.eq_none_iff_forall_ne_some.mpr fun front hfront => h.carriage ?_
      rw [dropSuffix?_eq_some_iff] at hfront
      have hinit : line = front ++ [0x0d] := List.append_cancel_right (hfront.trans (by simp))
      simp [hinit]
    have hlf : (line ++ [0x0a]).dropSuffix? [0x0a] = some line := dropSuffix?_eq_some_iff.mpr rfl
    simp only [splitTerminator, hcrlf, hlf]
  · rw [hsplit, List.append_nil, splitTerminator_of_free h.feed]

theorem oneLine_asciiTrim (hvalue : 0x0a ∉ value) : OneLine (asciiTrim value) := by
  constructor
  · intro hmem
    exact hvalue ((List.dropWhile_sublist _).mem ((List.rdropWhile_prefix _ _).mem hmem))
  · intro hlast
    have hne : asciiTrim value ≠ [] := by
      intro hnil
      rw [hnil] at hlast
      exact Option.some_ne_none _ hlast.symm
    have hblank := List.rdropWhile_last_not isAsciiWhitespace (value.dropWhile isAsciiWhitespace) hne
    rw [List.getLast?_eq_some_getLast hne, Option.some.injEq] at hlast
    change ¬isAsciiWhitespace ((asciiTrim value).getLast hne) = true at hblank
    rw [hlast] at hblank
    exact hblank (by decide)

theorem oneLine_showU64 (x : UInt64) : OneLine (toUtf8 (showU64 x)) := by
  have hdigit : ∀ byte ∈ toUtf8 (showU64 x), 48 ≤ byte.toNat := by
    intro byte hbyte
    have hrange : ∀ char ∈ showU64 x, 48 ≤ char.toNat ∧ char.toNat ≤ 57 := fun char hchar =>
      toNat_of_isDigit (isDigit_of_mem_toDigits hchar)
    obtain ⟨char, hchar, rfl⟩ := (mem_toUtf8 fun char hchar => by have := hrange char hchar; omega).mp hbyte
    have hchar := hrange char hchar
    rw [toNat_ofNat_byte (by omega)]
    exact hchar.1
  exact ⟨fun hmem => absurd (hdigit _ hmem) (by decide),
    fun hlast => absurd (hdigit _ (List.mem_of_getLast? hlast)) (by decide)⟩

/-! ### The new lines -/

theorem narHashDigest_suffix (narHash : List Char) : narHashDigest narHash <:+ narHash := by
  unfold narHashDigest
  split_ifs
  · exact (List.tail_suffix _).trans (List.dropWhile_suffix _)
  · exact List.suffix_refl narHash

theorem TransportField.oneLine_rawValue (hhash : OneLine (toUtf8 narHash)) (field : TransportField) :
    OneLine (field.rawValue narHash narSize) := by
  cases field with
  | url =>
    have hlast : (ascii "nar/" ++ toUtf8 (narHashDigest narHash ++ ".nar".toList)).getLast? = some 0x72 := by
      rw [toUtf8_append, ← List.append_assoc, List.getLast?_append]
      rfl
    refine ⟨fun hmem => ?_, fun hreturn => absurd (hlast.symm.trans hreturn) (by decide)⟩
    obtain ⟨start, hstart⟩ := narHashDigest_suffix narHash
    rw [rawValue, toUtf8_append, List.mem_append, List.mem_append] at hmem
    rcases hmem with hmem | hmem | hmem
    · exact absurd hmem (by decide)
    · apply hhash.feed
      rw [← hstart, toUtf8_append]
      exact List.mem_append_right _ hmem
    · exact absurd hmem (by decide)
  | compression =>
    have hnone : OneLine (ascii "none") := ⟨by decide, by decide⟩
    exact hnone
  | fileHash => exact hhash
  | fileSize => exact oneLine_showU64 narSize

theorem TransportField.oneLine_rawLine (hhash : OneLine (toUtf8 narHash)) (field : TransportField) :
    OneLine (field.rawLine narHash narSize) := by
  have hvalue : OneLine (field.rawValue narHash narSize) := field.oneLine_rawValue hhash
  rw [rawLine_eq]
  constructor
  · intro hmem
    rcases List.mem_append.mp hmem with hname | hrest
    · cases field <;> exact absurd hname (by decide)
    rw [List.mem_cons, List.mem_cons] at hrest
    rcases hrest with hcolon | hblank | hmem
    · exact absurd hcolon (by decide)
    · exact absurd hblank (by decide)
    · exact hvalue.feed hmem
  · intro hlast
    rw [List.getLast?_append, List.getLast?_cons_cons, List.getLast?_cons] at hlast
    cases hvalueLast : (field.rawValue narHash narSize).getLast? with
    | none =>
      rw [hvalueLast] at hlast
      have hblank : (0x20 : UInt8) = 0x0d := Option.some.inj hlast
      exact absurd hblank (by decide)
    | some byte =>
      rw [hvalueLast] at hlast
      exact hvalue.carriage (hvalueLast.trans hlast)

/-- A piece of a transport field gets the new line and keeps its terminator; every other piece stays. -/
theorem rawSegment_cases (narHash : List Char) (narSize : UInt64) (segment : List UInt8) :
    (∃ field : TransportField, fieldKey (splitTerminator segment).1 = some (ascii field.name) ∧
      rawSegment narHash narSize segment = field.rawLine narHash narSize ++ (splitTerminator segment).2) ∨
    ((∀ field : TransportField, fieldKey (splitTerminator segment).1 ≠ some (ascii field.name)) ∧
      rawSegment narHash narSize segment = segment) := by
  by_cases h : ∃ field : TransportField, fieldKey (splitTerminator segment).1 = some (ascii field.name)
  · obtain ⟨field, hfield⟩ := h
    exact .inl ⟨field, hfield, rawSegment_of_name hfield⟩
  · rw [not_exists] at h
    exact .inr ⟨h, rawSegment_of_other h⟩

theorem rawSegment_rawSegment (hhash : OneLine (toUtf8 narHash)) (segment : List UInt8) :
    rawSegment narHash narSize (rawSegment narHash narSize segment) = rawSegment narHash narSize segment := by
  obtain ⟨field, -, hnew⟩ | ⟨-, hsame⟩ := rawSegment_cases narHash narSize segment
  · have hraw : OneLine (field.rawLine narHash narSize) := field.oneLine_rawLine hhash
    have hsplit := hraw.splitTerminator_append segment
    have hkey : fieldKey (splitTerminator (rawSegment narHash narSize segment)).1 = some (ascii field.name) := by
      rw [hnew, hsplit]
      exact field.fieldKey_rawLine narHash narSize
    rw [rawSegment_of_name hkey, hnew, hsplit]
  · rw [hsame, hsame]

theorem pieces_map_rawSegment (hhash : OneLine (toUtf8 narHash)) {pieces : List (List UInt8)}
    (hpieces : Pieces 0x0a pieces) : Pieces 0x0a (pieces.map (rawSegment narHash narSize)) := by
  refine hpieces.map (fun line hfree => ?_) fun piece hne hfree => ?_
  · obtain ⟨field, -, hnew⟩ | ⟨-, hsame⟩ := rawSegment_cases narHash narSize (line ++ [0x0a])
    · have hraw : OneLine (field.rawLine narHash narSize) := field.oneLine_rawLine hhash
      obtain ⟨_, -, hsplit⟩ | ⟨_, -, hsplit⟩ | ⟨hlast, -⟩ := splitTerminator_cases (line ++ [0x0a])
      · refine ⟨field.rawLine narHash narSize ++ [0x0d], ?_, ?_⟩
        · intro hmem
          rcases List.mem_append.mp hmem with hmem | hmem
          · exact hraw.feed hmem
          · exact absurd hmem (by decide)
        · rw [hnew, hsplit, List.append_assoc]
          rfl
      · exact ⟨field.rawLine narHash narSize, hraw.feed, by rw [hnew, hsplit]⟩
      · exact absurd List.getLast?_concat hlast
    · exact ⟨line, hfree, hsame⟩
  · obtain ⟨field, -, hnew⟩ | ⟨-, hsame⟩ := rawSegment_cases narHash narSize piece
    · rw [hnew, splitTerminator_of_free hfree, List.append_nil]
      refine ⟨?_, (field.oneLine_rawLine hhash).feed⟩
      rw [TransportField.rawLine_eq]
      exact List.append_ne_nil_of_right_ne_nil _ (List.cons_ne_nil _ _)
    · rw [hsame]
      exact ⟨hne, hfree⟩

/-! ### The first pass over the new lines -/

/-- A piece of a transport field stays one, with the new value and perhaps a carriage return; any other piece stays. -/
theorem fieldEntry_rawSegment (hhash : OneLine (toUtf8 narHash)) (segment : List UInt8) :
    (∃ (field : TransportField) (value tail : List UInt8), (tail = [] ∨ tail = [0x0d]) ∧
      fieldEntry (unterminated 0x0a segment) = some (ascii field.name, value) ∧
      fieldEntry (unterminated 0x0a (rawSegment narHash narSize segment)) =
        some (ascii field.name, 0x20 :: field.rawValue narHash narSize ++ tail)) ∨
    (rawSegment narHash narSize segment = segment ∧
      ∀ (field : TransportField) value, fieldEntry (unterminated 0x0a segment) ≠ some (ascii field.name, value)) := by
  have htail : (splitTerminator segment).2.dropLast = [] ∨ (splitTerminator segment).2.dropLast = [0x0d] := by
    obtain ⟨_, -, hsplit⟩ | ⟨_, -, hsplit⟩ | ⟨-, hsplit⟩ := splitTerminator_cases segment <;> rw [hsplit]
    · exact .inr rfl
    · exact .inl rfl
    · exact .inl rfl
  have hfree : 0x3a ∉ (splitTerminator segment).2.dropLast := by rcases htail with h | h <;> rw [h] <;> decide
  have hentry := @fieldEntry_append (splitTerminator segment).1 _ hfree
  rw [← unterminated_eq] at hentry
  obtain ⟨field, hfield, hnew⟩ | ⟨hother, hsame⟩ := rawSegment_cases narHash narSize segment
  · have hraw : OneLine (field.rawLine narHash narSize) := field.oneLine_rawLine hhash
    obtain ⟨hkey, value, hvalue⟩ := fieldKey_eq_some_iff.mp hfield
    rw [fieldEntry_eq_some_iff.mpr ⟨hkey, hvalue⟩] at hentry
    refine .inl ⟨field, _, _, htail, hentry, ?_⟩
    rw [unterminated_eq, hnew, hraw.splitTerminator_append, fieldEntry_append hfree,
      fieldEntry_eq_some_iff.mpr ⟨hkey, TransportField.rawLine_eq narHash narSize field⟩]
    rfl
  refine .inr ⟨hsame, fun field value hfound => ?_⟩
  rw [hfound] at hentry
  obtain ⟨entry, hline, heq⟩ := Option.map_eq_some_iff.mp hentry.symm
  obtain ⟨hkey, hvalue⟩ := fieldEntry_eq_some_iff.mp hline
  have hname : entry.1 = ascii field.name := congrArg Prod.fst heq
  exact hother field (fieldKey_eq_some_iff.mpr ⟨hname ▸ hkey, entry.2, hname ▸ hvalue⟩)

namespace RawFields

/-- The first pass finds the same signed values and transport fields, and no compression but none. -/
structure Agree (before after : RawFields) : Prop where
  narHash : after.narHash = before.narHash
  narSize : after.narSize = before.narSize
  haveUrl : after.haveUrl = before.haveUrl
  haveFileHash : after.haveFileHash = before.haveFileHash
  haveFileSize : after.haveFileSize = before.haveFileSize
  compression : after.compression.isSome = before.compression.isSome
  uncompressed : ∀ value ∈ after.compression, asciiTrim value = ascii "none"

variable {before after : RawFields}

theorem Agree.take_field (h : Agree before after) (field : TransportField) (value : List UInt8) {value' : List UInt8}
    (hvalue : field = .compression → asciiTrim value' = ascii "none") :
    Agree (before.take (ascii field.name) value) (after.take (ascii field.name) value') := by
  cases field with
  | url => exact { h with haveUrl := rfl }
  | compression =>
    exact { h with compression := rfl, uncompressed := fun found hfound => Option.some.inj hfound ▸ hvalue rfl }
  | fileHash => exact { h with haveFileHash := rfl }
  | fileSize => exact { h with haveFileSize := rfl }

theorem Agree.take_other (h : Agree before after) {key : List UInt8} (hkey : key ≠ ascii "Compression")
    (value : List UInt8) : Agree (before.take key value) (after.take key value) := by
  unfold take
  split_ifs
  · exact { h with narHash := rfl }
  · exact { h with narSize := rfl }
  · exact { h with haveUrl := rfl }
  · exact { h with haveFileHash := rfl }
  · exact { h with haveFileSize := rfl }
  · exact h

theorem Agree.readLine_segment (h : Agree before after) (hhash : OneLine (toUtf8 narHash)) (segment : List UInt8) :
    Agree (before.readLine (unterminated 0x0a segment))
      (after.readLine (unterminated 0x0a (rawSegment narHash narSize segment))) := by
  rw [readLine_eq, readLine_eq]
  obtain ⟨field, value, tail, htail, hold, hnew⟩ | ⟨hsame, hother⟩ := fieldEntry_rawSegment hhash segment
  · rw [hold, hnew]
    refine h.take_field field value ?_
    rintro rfl
    have hblank : asciiTrim (0x20 :: ascii "none" ++ []) = ascii "none" := by decide
    have hcarriage : asciiTrim (0x20 :: ascii "none" ++ [0x0d]) = ascii "none" := by decide
    rcases htail with rfl | rfl
    · exact hblank
    · exact hcarriage
  rw [hsame]
  cases hentry : fieldEntry (unterminated 0x0a segment) with
  | none => exact h
  | some entry =>
    refine h.take_other (fun heq => hother .compression entry.2 (hentry.trans ?_)) entry.2
    exact congrArg (fun key => some (key, entry.2)) heq

theorem Agree.foldl_segments (hhash : OneLine (toUtf8 narHash)) (pieces : List (List UInt8)) (h : Agree before after) :
    Agree (pieces.foldl (fun fields piece => fields.readLine (unterminated 0x0a piece)) before)
      ((pieces.map (rawSegment narHash narSize)).foldl
        (fun fields piece => fields.readLine (unterminated 0x0a piece)) after) := by
  induction pieces generalizing before after with
  | nil => exact h
  | cons piece pieces ih => exact ih (h.readLine_segment hhash piece)

theorem readLine_nil (fields : RawFields) : fields.readLine [] = fields :=
  readLine_eq fields []

/-! ### The signed values -/

theorem readLine_values (fields : RawFields) (line : List UInt8) :
    (fields.readLine line).narHash = (fieldValue line "NarHash").or fields.narHash ∧
      (fields.readLine line).narSize = (fieldValue line "NarSize").or fields.narSize := by
  rw [readLine_eq, fieldValue_eq line (by decide), fieldValue_eq line (by decide)]
  cases fieldEntry line with
  | none => exact ⟨rfl, rfl⟩
  | some entry =>
    have hne : ascii "NarHash" ≠ ascii "NarSize" := by decide
    simp only [Option.elim_some, Option.bind_some, take]
    split_ifs with hhash hsize
    · exact absurd (hhash.symm.trans hsize) hne
    all_goals exact ⟨rfl, rfl⟩

end RawFields

/-- The values that the rewrite takes from the narinfo. -/
structure SignedValues (body : List UInt8) (narHash : List Char) (narSize : UInt64) : Prop where
  narHash : ∃ value, ((body.splitOnP (· == 0x0a)).filterMap (fieldValue · "NarHash")).getLast? = some value ∧
    fromUtf8 (asciiTrim value) = some narHash
  narSize : ∃ value, ((body.splitOnP (· == 0x0a)).filterMap (fieldValue · "NarSize")).getLast? = some value ∧
    (fromUtf8 (asciiTrim value)).bind parseU64 = some narSize

theorem signedValues_of_toRaw (h : toRaw body = .ok rewritten) :
    SignedValues body rewritten.narHash rewritten.narSize := by
  obtain ⟨hashValue, sizeValue, _, hhash, hsize, -, -, -, -, hnarHash, hnarSize, -⟩ := toRaw_eq_ok_iff.mp h
  have hlast := @foldl_lastValue _ _ _ _ RawFields.narHash _ fun fields line => (fields.readLine_values line).1
  have hlast' := @foldl_lastValue _ _ _ _ RawFields.narSize _ fun fields line => (fields.readLine_values line).2
  rw [rawFields, hlast, Option.or_none] at hhash
  rw [rawFields, hlast', Option.or_none] at hsize
  exact ⟨⟨hashValue, hhash, hnarHash⟩, sizeValue, hsize, hnarSize⟩

theorem SignedValues.oneLine (h : SignedValues body narHash narSize) : OneLine (toUtf8 narHash) := by
  obtain ⟨value, hvalue, hdecode⟩ := h.narHash
  obtain ⟨line, hline, hfield⟩ := List.mem_filterMap.mp (List.mem_of_getLast? hvalue)
  rw [toUtf8_of_fromUtf8 hdecode]
  refine oneLine_asciiTrim fun hmem => ?_
  have hfree : (0x0a : UInt8) ∉ line := free_of_mem_splitOnP hline
  rw [fieldValue_eq_some_iff.mp hfield] at hfree
  exact hfree (List.mem_append_right _ (List.mem_cons_of_mem _ hmem))

/-! ### The frame -/

/-- A line of a transport field becomes the one that describes the raw NAR, with its terminator, and any other line stays. -/
def SegmentFrame (narHash : List Char) (narSize : UInt64) (before after : List UInt8) : Prop :=
  (∀ field : TransportField, fieldKey (splitTerminator before).1 = some (ascii field.name) →
    after = field.rawLine narHash narSize ++ (splitTerminator before).2) ∧
  ((∀ field : TransportField, fieldKey (splitTerminator before).1 ≠ some (ascii field.name)) → after = before)

theorem segmentFrame_rawSegment (segment : List UInt8) :
    SegmentFrame narHash narSize segment (rawSegment narHash narSize segment) :=
  ⟨fun _ => rawSegment_of_name, rawSegment_of_other⟩

theorem rewriteSegment_eq (h : toRaw body = .ok rewritten) :
    rewriteSegment rewritten.urlToken rewritten.narHash rewritten.narSize =
      rawSegment rewritten.narHash rewritten.narSize := by
  obtain ⟨_, _, _, -, -, -, -, -, -, -, -, -, htoken, -⟩ := toRaw_eq_ok_iff.mp h
  rw [htoken]
  rfl

theorem pieces_toRaw (h : toRaw body = .ok rewritten) :
    splitInclusive (· == 0x0a) rewritten.body =
      (splitInclusive (· == 0x0a) body).map (rawSegment rewritten.narHash rewritten.narSize) := by
  obtain ⟨_, _, _, -, -, -, -, -, -, -, -, -, -, hbody⟩ := toRaw_eq_ok_iff.mp h
  rw [hbody, rewriteSegment_eq h, List.flatMap_def]
  exact (pieces_map_rawSegment (signedValues_of_toRaw h).oneLine (pieces_splitInclusive body)).splitInclusive_flatten

/-- The rewrite changes the lines of the transport fields and no others, and a second rewrite changes nothing. -/
theorem raw_rewrite_frame (body : List UInt8) (rewritten : RawRewrite) (h : toRaw body = .ok rewritten) :
    SignedValues body rewritten.narHash rewritten.narSize ∧
      List.Forall₂ (SegmentFrame rewritten.narHash rewritten.narSize) (splitInclusive (· == 0x0a) body)
        (splitInclusive (· == 0x0a) rewritten.body) ∧
      toRaw rewritten.body = .ok rewritten := by
  have hsigned := signedValues_of_toRaw h
  have hpieces := pieces_toRaw h
  refine ⟨hsigned, ?_, ?_⟩
  · rw [hpieces, List.forall₂_map_right_iff]
    exact List.forall₂_same.mpr fun segment _ => segmentFrame_rawSegment segment
  · obtain ⟨hashValue, sizeValue, compression, hhash, hsize, hurl, hcompression, -, -, hnarHash, hnarSize, hdigest, htoken,
      hbody⟩ := toRaw_eq_ok_iff.mp h
    have hagree : RawFields.Agree (rawFields body) (rawFields rewritten.body) := by
      rw [rawFields, rawFields, foldl_splitOnP RawFields.readLine_nil, foldl_splitOnP RawFields.readLine_nil, hpieces]
      exact RawFields.Agree.foldl_segments hsigned.oneLine _ ⟨rfl, rfl, rfl, rfl, rfl, rfl, fun _ hmem => by cases hmem⟩
    have hsome := hagree.compression
    rw [hcompression] at hsome
    obtain ⟨compression', hcompression'⟩ := Option.isSome_iff_exists.mp hsome
    have hnone := hagree.uncompressed compression' hcompression'
    refine toRaw_eq_ok_iff.mpr ⟨hashValue, sizeValue, compression', hagree.narHash.trans hhash,
      hagree.narSize.trans hsize, hagree.haveUrl.trans hurl, hcompression', .inr hnone, .inr hnone, hnarHash, hnarSize,
      hdigest, htoken, ?_⟩
    rw [rewriteSegment_eq h] at hbody ⊢
    rw [hpieces, hbody, List.flatMap_map]
    simp only [rawSegment_rawSegment hsigned.oneLine]

/-- A compressed narinfo with mixed terminators and none at its end. -/
def mixedNarinfo : List UInt8 :=
  ascii "URL: a.xz\r\nCompression: xz\nNarHash: sha256:0\nFileHash: f\nFileSize: 1\nNarSize: 7"

def mixedRewritten : RawRewrite where
  body := ascii "URL: nar/0.nar\r\nCompression: none\nNarHash: sha256:0\nFileHash: sha256:0\nFileSize: 7\nNarSize: 7"
  urlToken := "0.nar".toList
  narHash := "sha256:0".toList
  narSize := 7

deriving instance DecidableEq for RawRewrite

theorem toRaw_mixedNarinfo : toRaw mixedNarinfo = .ok mixedRewritten := by decide +kernel

theorem raw_rewrite_frame_mixed : toRaw mixedRewritten.body = .ok mixedRewritten :=
  (raw_rewrite_frame mixedNarinfo mixedRewritten toRaw_mixedNarinfo).2.2

end NixP2p
