import NixP2p.Allowlist.Soundness
import NixP2p.Serving.NixBase32
import NixP2p.Serving.RewriteFrame

/-!
# The readers of a narinfo

The correlation decodes a narinfo with replacement and takes the one line of a field, the rewrite goes over the bytes and takes the last, the public proof refuses what is not UTF-8. A line is a field of the same name to all of them, but they cut its value differently: a hash with a vertical tab at its end is one hash to the rewrite and another to the others.
-/

namespace NixP2p

open Text Fallible Allowlist

/-! ### A line as text and as bytes -/

variable {piece : List UInt8}

theorem chomp_fromUtf8Lossy (h : (∃ line, piece = line ++ [0x0a]) ∨ 0x0a ∉ piece) :
    ∃ tail, (tail = [] ∨ tail = ['\r']) ∧
      fromUtf8Lossy (unterminated 0x0a piece) = chomp (fromUtf8Lossy piece) ++ tail := by
  obtain ⟨line, rfl⟩ | hfree := h
  · have hfeed : fromUtf8Lossy (line ++ [0x0a]) = fromUtf8Lossy line ++ ['\n'] := fromUtf8Lossy_newline line []
    rw [unterminated_append, hfeed, chomp, if_pos List.getLast?_concat, List.dropLast_concat]
    split
    · rename_i hreturn
      obtain ⟨front, hfront⟩ := List.getLast?_eq_some_iff.mp hreturn
      exact ⟨['\r'], .inr rfl, by rw [hfront, List.dropLast_concat]⟩
    · exact ⟨[], .inl rfl, (List.append_nil _).symm⟩
  have hnone : ¬(fromUtf8Lossy piece).getLast? = some '\n' := fun hlast =>
    hfree (mem_of_mem_fromUtf8Lossy (by decide) (List.mem_of_getLast? hlast))
  exact ⟨[], .inl rfl, by rw [unterminated_of_free hfree, chomp, if_neg hnone, List.append_nil]⟩

def textValue (name : String) (piece : List UInt8) : Option (List Char) :=
  (fieldValue (unterminated 0x0a piece) name).map fun value => trim (fromUtf8Lossy value)

/-- An ASCII name without a colon, in its two forms. -/
structure FieldName (name : String) : Prop where
  colon : 0x3a ∉ ascii name
  bytes : toUtf8 (name ++ ":").toList = ascii name ++ ascii ":"
  chars : (name ++ ":").toList.all (fun char => decide (char.toNat < 0x80)) = true
  last : (name ++ ":").toList.getLast? = some ':'

theorem fieldName_storePath : FieldName "StorePath" := ⟨by decide, by decide, by decide, by decide⟩

theorem fieldName_url : FieldName "URL" := ⟨by decide, by decide, by decide, by decide⟩

theorem fieldName_narHash : FieldName "NarHash" := ⟨by decide, by decide, by decide, by decide⟩

theorem fieldName_narSize : FieldName "NarSize" := ⟨by decide, by decide, by decide, by decide⟩

theorem fieldName_compression : FieldName "Compression" := ⟨by decide, by decide, by decide, by decide⟩

variable {text : List Char} {name : String}

theorem FieldName.textValue_eq (hname : FieldName name)
    (hpiece : (∃ line, piece = line ++ [0x0a]) ∨ 0x0a ∉ piece) :
    ((chomp (fromUtf8Lossy piece)).dropPrefix? (name ++ ":").toList).map trim = textValue name piece := by
  obtain ⟨tail, htail, hline⟩ := chomp_fromUtf8Lossy hpiece
  have hascii := ascii_of_all hname.chars
  have hblank : ∀ char ∈ tail, isWhitespace char = true := by
    rcases htail with rfl | rfl
    · exact fun _ hmem => absurd hmem List.not_mem_nil
    · exact List.forall_mem_singleton.mpr (by decide)
  have hvalue : ∀ value, fieldValue (unterminated 0x0a piece) name = some value ↔
      unterminated 0x0a piece = toUtf8 (name ++ ":").toList ++ value := by
    intro value
    have hcolon : ascii ":" = [0x3a] := by decide
    rw [hname.bytes, fieldValue_eq_some_iff, hcolon, List.append_assoc]
    rfl
  cases hdrop : (chomp (fromUtf8Lossy piece)).dropPrefix? (name ++ ":").toList with
  | some value =>
    rw [dropPrefix?_eq_some.mp hdrop, List.append_assoc, fromUtf8Lossy_eq_append_iff hascii] at hline
    obtain ⟨rest, hrest, htext⟩ := hline
    rw [textValue, (hvalue rest).mpr hrest, Option.map_some, Option.map_some, htext, trim_append_right hblank]
  | none =>
    have hnone : fieldValue (unterminated 0x0a piece) name = none := by
      refine Option.eq_none_iff_forall_ne_some.mpr fun rest hrest => ?_
      have htext := (fromUtf8Lossy_eq_append_iff hascii).mpr ⟨rest, (hvalue rest).mp hrest, rfl⟩
      rw [hline] at htext
      refine absurd hdrop (Option.ne_none_iff_exists'.mpr ?_)
      rcases htail with rfl | rfl
      · exact ⟨_, dropPrefix?_eq_some.mpr ((List.append_nil _).symm.trans htext)⟩
      -- The carriage return is not the colon, so it belongs to the value.
      obtain hnil | ⟨front, last, hfront⟩ := List.eq_nil_or_concat' (fromUtf8Lossy rest)
      · have hlast := congrArg List.getLast? htext
        rw [hnil, List.append_nil, List.getLast?_concat, hname.last] at hlast
        exact absurd hlast (by decide)
      · rw [hfront, ← List.append_assoc] at htext
        exact ⟨front, dropPrefix?_eq_some.mpr (List.append_inj_left' htext rfl)⟩
    rw [textValue, hnone]
    rfl

/-! ### Correlation -/

namespace CorrelationFields

def note (fields : CorrelationFields) (key : List UInt8) (value : List Char) : Option CorrelationFields :=
  if key = ascii "StorePath" then
    if fields.storePath.isSome then some { fields with storePathDup := true }
    else some { fields with storePath := some value }
  else if key = ascii "URL" then if fields.url.isSome then none else some { fields with url := some value }
  else if key = ascii "NarHash" then if fields.narHash.isSome then none else some { fields with narHash := some value }
  else if key = ascii "NarSize" then if fields.narSize.isSome then none else some { fields with narSize := some value }
  else if key = ascii "Compression" then
    if fields.compression.isSome then some { fields with compressionDup := true }
    else some { fields with compression := some value }
  else some fields

variable {piece : List UInt8}

theorem readLine_elim (fields : CorrelationFields) (line : List Char) :
    fields.readLine line =
      ((line.dropPrefix? "StorePath:".toList).map trim).elim
        (((line.dropPrefix? "URL:".toList).map trim).elim
          (((line.dropPrefix? "NarHash:".toList).map trim).elim
            (((line.dropPrefix? "NarSize:".toList).map trim).elim
              (((line.dropPrefix? "Compression:".toList).map trim).elim (some fields) (fields.note (ascii "Compression")))
              (fields.note (ascii "NarSize")))
            (fields.note (ascii "NarHash")))
          (fields.note (ascii "URL")))
        (fields.note (ascii "StorePath")) := by
  unfold readLine
  cases line.dropPrefix? "StorePath:".toList with
  | some value => rfl
  | none =>
    cases line.dropPrefix? "URL:".toList with
    | some value => rfl
    | none =>
      cases line.dropPrefix? "NarHash:".toList with
      | some value => rfl
      | none =>
        cases line.dropPrefix? "NarSize:".toList with
        | some value => rfl
        | none => cases line.dropPrefix? "Compression:".toList <;> rfl

theorem readLine_eq (fields : CorrelationFields) (hpiece : (∃ line, piece = line ++ [0x0a]) ∨ 0x0a ∉ piece) :
    fields.readLine (chomp (fromUtf8Lossy piece)) = (fieldEntry (unterminated 0x0a piece)).elim (some fields) fun entry =>
      fields.note entry.1 (trim (fromUtf8Lossy entry.2)) := by
  have hvalue : ∀ {start name}, FieldName name → (name ++ ":").toList = start →
      ((chomp (fromUtf8Lossy piece)).dropPrefix? start).map trim = (fieldEntry (unterminated 0x0a piece)).bind fun entry =>
        if entry.1 = ascii name then some (trim (fromUtf8Lossy entry.2)) else none := by
    rintro _ name hname rfl
    rw [hname.textValue_eq hpiece, textValue, fieldValue_eq _ hname.colon]
    cases fieldEntry (unterminated 0x0a piece) with
    | none => rfl
    | some entry => simp only [Option.bind_some, apply_ite (Option.map _), Option.map_some, Option.map_none]
  rw [readLine_elim, hvalue fieldName_storePath (by decide), hvalue fieldName_url (by decide),
    hvalue fieldName_narHash (by decide), hvalue fieldName_narSize (by decide), hvalue fieldName_compression (by decide)]
  cases fieldEntry (unterminated 0x0a piece) with
  | none => rfl
  | some entry =>
    obtain ⟨key, value⟩ := entry
    simp only [Option.bind_some, Option.elim_some]
    split_ifs <;> simp_all [note]

theorem note_spec {fields next : CorrelationFields} {key : List UInt8} {value : List Char}
    (h : fields.note key value = some next) :
    next.narHash = (if key = ascii "NarHash" then some value else fields.narHash) ∧
      next.narSize = (if key = ascii "NarSize" then some value else fields.narSize) ∧
      next.url = if key = ascii "URL" then some value else fields.url := by
  unfold note at h
  split_ifs at h with h1 h2 h3 h4 h5 h6 h7 h8 h9
  all_goals
    obtain rfl := Option.some.inj h
    subst_vars
    simp +decide [*]

end CorrelationFields

def lastValue (name : String) (body : List UInt8) : Option (List Char) :=
  ((splitInclusive (· == 0x0a) body).filterMap (textValue name)).getLast?

variable {pieces : List (List UInt8)}

theorem piece_cases (h : Pieces 0x0a pieces) :
    ∀ piece ∈ pieces, (∃ line, piece = line ++ [0x0a]) ∨ 0x0a ∉ piece := by
  induction h with
  | nil => exact fun _ hmem => absurd hmem List.not_mem_nil
  | last _ hfree => exact List.forall_mem_singleton.mpr (.inr hfree)
  | cons _ _ ih => exact List.forall_mem_cons.mpr ⟨.inl ⟨_, rfl⟩, ih⟩

/-- A field of the correlation that every line of one name overwrites holds what the last of them says. -/
theorem slot_foldlM (slot : CorrelationFields → Option (List Char)) (hname : FieldName name)
    (hslot : ∀ {fields next key value}, fields.note key value = some next → slot next = if key = ascii name then some value else slot fields)
    (hpieces : ∀ piece ∈ pieces, (∃ line, piece = line ++ [0x0a]) ∨ 0x0a ∉ piece)
    {fields final : CorrelationFields}
    (h : pieces.foldlM (fun fields piece => fields.readLine (chomp (fromUtf8Lossy piece))) fields = some final) :
    slot final = (pieces.filterMap (textValue name)).getLast?.or (slot fields) := by
  induction pieces generalizing fields with
  | nil => rw [Option.some.inj h]; rfl
  | cons piece pieces ih =>
    obtain ⟨hpiece, hpieces⟩ := List.forall_mem_cons.mp hpieces
    rw [List.foldlM_cons, Option.bind_eq_bind, Option.bind_eq_some_iff] at h
    obtain ⟨next, hnext, hrest⟩ := h
    have hstep : slot next = (textValue name piece).or (slot fields) := by
      rw [fields.readLine_eq hpiece] at hnext
      rw [textValue, fieldValue_eq _ hname.colon]
      cases hentry : fieldEntry (unterminated 0x0a piece) with
      | none =>
        rw [hentry] at hnext
        rw [← Option.some.inj hnext]
        rfl
      | some entry =>
        rw [hentry] at hnext
        rw [hslot hnext, Option.bind_some]
        split_ifs <;> rfl
    rw [ih hpieces hrest, hstep, List.filterMap_cons]
    cases textValue name piece with
    | none => rfl
    | some value =>
      rw [List.getLast?_cons]
      cases (pieces.filterMap (textValue name)).getLast? <;> rfl

variable {body : List UInt8} {correlation : Correlation}

theorem parseCorrelation_eq_some_iff :
    parseCorrelation body = some correlation ↔ ∃ fields url size,
      (splitInclusive (· == 0x0a) body).foldlM (fun fields piece => fields.readLine (chomp (fromUtf8Lossy piece)))
        ({} : CorrelationFields) = some fields ∧
      fields.url = some url ∧ fields.narHash = some correlation.narHash ∧ fields.narSize = some size ∧
      parseU64 size = some correlation.narSize ∧ correlation.token = (url.dropPrefix? "nar/".toList).getD url ∧
      correlation.compression = fields.declared ∧
      correlation.storePath = if fields.storePathDup then none else fields.storePath := by
  obtain ⟨token, narHash, narSize, compression, storePath⟩ := correlation
  simp only [parseCorrelation, lines_fromUtf8Lossy, List.foldlM_map, Option.bind_eq_bind, Option.bind_eq_some_iff,
    Option.pure_def, Option.some.injEq, Correlation.mk.injEq]
  constructor
  · rintro ⟨fields, hfold, url, hurl, hash, hhash, number, ⟨size, hsize, hparse⟩, rfl, rfl, rfl, rfl, rfl⟩
    exact ⟨fields, url, size, hfold, hurl, hhash, hsize, hparse, rfl, rfl, rfl⟩
  · rintro ⟨fields, url, size, hfold, hurl, hhash, hsize, hparse, rfl, rfl, rfl⟩
    exact ⟨fields, hfold, url, hurl, narHash, hhash, narSize, ⟨size, hsize, hparse⟩, rfl, rfl, rfl, rfl, rfl⟩

/-! ### The rewrite reads the same line -/

theorem isWhitespace_of_ascii {byte : UInt8} (h : isAsciiWhitespace byte = true) :
    isWhitespace (Char.ofNat byte.toNat) = true ∧ (Char.ofNat byte.toNat).toNat < 0x80 ∧
      UInt8.ofNat (Char.ofNat byte.toNat).toNat = byte := by
  simp only [isAsciiWhitespace, Bool.or_eq_true, beq_iff_eq] at h
  rcases h with (((rfl | rfl) | rfl) | rfl) | rfl <;> decide

variable {value : List UInt8}

theorem trim_fromUtf8Lossy (h : fromUtf8 (asciiTrim value) = some text) :
    trim (fromUtf8Lossy value) = trim text := by
  have hblank : ∀ bytes : List UInt8, (∀ byte ∈ bytes, isAsciiWhitespace byte = true) →
      ∃ blank, bytes = toUtf8 blank ∧ ∀ char ∈ blank, isWhitespace char = true := by
    intro bytes hbytes
    have hchars : ∀ char ∈ bytes.map (fun byte => Char.ofNat byte.toNat), isWhitespace char = true ∧ char.toNat < 0x80 := by
      intro char hchar
      obtain ⟨byte, hbyte, rfl⟩ := List.mem_map.mp hchar
      have hspace := isWhitespace_of_ascii (hbytes byte hbyte)
      exact ⟨hspace.1, hspace.2.1⟩
    have hsame : bytes.map (fun byte => UInt8.ofNat (Char.ofNat byte.toNat).toNat) = bytes.map id :=
      List.map_congr_left fun byte hbyte => (isWhitespace_of_ascii (hbytes byte hbyte)).2.2
    refine ⟨bytes.map fun byte => Char.ofNat byte.toNat, ?_, fun char hchar => (hchars char hchar).1⟩
    rw [toUtf8_of_ascii fun char hchar => (hchars char hchar).2, List.map_map]
    exact ((List.map_id bytes).symm.trans hsame.symm)
  obtain ⟨left, hleft, hleftBlank⟩ := hblank (value.takeWhile isAsciiWhitespace) fun byte => List.mem_takeWhile_imp
  obtain ⟨right, hright, hrightBlank⟩ := hblank
    ((value.dropWhile isAsciiWhitespace).rtakeWhile isAsciiWhitespace) fun byte => List.mem_rtakeWhile_imp
  have hvalue : value = toUtf8 (left ++ (text ++ right)) := by
    rw [toUtf8_append, toUtf8_append, ← hleft, ← hright, toUtf8_of_fromUtf8 h, asciiTrim,
      List.rdropWhile_append_rtakeWhile, List.takeWhile_append_dropWhile]
  rw [hvalue, fromUtf8Lossy_of_fromUtf8 (fromUtf8_toUtf8 _), trim_append_left hleftBlank, trim_append_right hrightBlank]

theorem lastValue_of_signed (hname : fieldValue [] name = none)
    (h : ((body.splitOnP (· == 0x0a)).filterMap (fieldValue · name)).getLast? = some value) :
    lastValue name body = some (trim (fromUtf8Lossy value)) := by
  rw [filterMap_splitOnP hname] at h
  have hmap : (splitInclusive (· == 0x0a) body).filterMap (textValue name) =
      ((splitInclusive (· == 0x0a) body).filterMap fun piece => fieldValue (unterminated 0x0a piece) name).map
        fun value => trim (fromUtf8Lossy value) := by
    rw [List.map_filterMap]
    rfl
  rw [lastValue, hmap, List.getLast?_map, h]
  rfl

theorem correlation_values (h : parseCorrelation body = some correlation) :
    lastValue "NarHash" body = some correlation.narHash ∧
      (lastValue "NarSize" body).bind parseU64 = some correlation.narSize := by
  obtain ⟨fields, url, size, hfold, -, hhash, hsize, hparse, -⟩ := parseCorrelation_eq_some_iff.mp h
  have hpieces := piece_cases (pieces_splitInclusive body)
  have hlast := slot_foldlM CorrelationFields.narHash fieldName_narHash (fun hnote => (CorrelationFields.note_spec hnote).1)
    hpieces hfold
  have hlast' := slot_foldlM CorrelationFields.narSize fieldName_narSize (fun hnote => (CorrelationFields.note_spec hnote).2.1)
    hpieces hfold
  rw [Option.or_none] at hlast hlast'
  rw [lastValue, lastValue, ← hlast, ← hlast', hhash, hsize]
  exact ⟨rfl, hparse⟩

theorem trim_of_parseU64 {value : UInt64} (h : parseU64 text = some value) : trim text = text := by
  unfold parseU64 at h
  split_ifs at h with hdigits
  have hall : ∀ char ∈ dropPlus text, isWhitespace char = false := fun char hchar =>
    isWhitespace_of_isDigit (List.all_eq_true.mp (Bool.not_eq_false _ ▸ (not_or.mp hdigits).2) char hchar)
  refine trim_of_plain ?_
  unfold dropPlus at hall
  split at hall
  · exact List.forall_mem_cons.mpr ⟨by decide, hall⟩
  · exact hall

variable {rewritten : RawRewrite}

theorem rewrite_values (h : toRaw body = .ok rewritten) :
    lastValue "NarHash" body = some (trim rewritten.narHash) ∧
      (lastValue "NarSize" body).bind parseU64 = some rewritten.narSize := by
  obtain ⟨⟨hash, hhash, hdecode⟩, size, hsize, hparse⟩ := signedValues_of_toRaw h
  obtain ⟨text, htext, hvalue⟩ := Option.bind_eq_some_iff.mp hparse
  rw [lastValue_of_signed (by decide) hhash, lastValue_of_signed (by decide) hsize, trim_fromUtf8Lossy hdecode,
    trim_fromUtf8Lossy htext, trim_of_parseU64 hvalue]
  exact ⟨rfl, hvalue⟩

/-! ### The public proof reads the same line -/

theorem lastValue_of_fieldValues {value : List Char} (htext : fromUtf8 body = some text) (hname : FieldName name)
    (h : fieldValues name (lines text) = [value]) : lastValue name body = some value := by
  have hvalues : (splitInclusive (· == 0x0a) body).filterMap (textValue name) = fieldValues name (lines text) := by
    rw [← fromUtf8Lossy_of_fromUtf8 htext, lines_fromUtf8Lossy, fieldValues, List.filterMap_map]
    refine List.filterMap_congr fun piece hpiece => ?_
    exact (hname.textValue_eq (piece_cases (pieces_splitInclusive body) piece hpiece)).symm
  rw [lastValue, hvalues, h]
  rfl

theorem display_of_fromStr {key : NarHashKey} (h : NarHashKey.fromStr text = .ok key) : key.display = text := by
  unfold NarHashKey.fromStr at h
  split at h
  · cases h
  rename_i digits hdigits
  split at h
  · cases h
  rename_i bytes hdecode
  obtain rfl := Except.ok.inj h
  have hencode := encodeBase32_of_decodeFixed hdecode
  have hascii : toUtf8 ((encodeBase32 bytes).map fun digit => Char.ofNat digit.toNat) = _ :=
    toUtf8_base32 fun _ => mem_encodeBase32
  rw [NarHashKey.display_eq, dropPrefix?_eq_some.mp hdigits]
  refine congrArg (narHashPrefix ++ ·) (toUtf8_injective ?_)
  exact hascii.trans hencode

/-! ### The correlation of the rewritten narinfo -/

namespace CorrelationFields

/-- The loop has read the same lines, and the new URL where there was one. -/
structure Agree (token : List Char) (before after : CorrelationFields) : Prop where
  url : after.url = before.url.map fun _ => "nar/".toList ++ token
  narHash : after.narHash = before.narHash
  narSize : after.narSize = before.narSize
  storePath : after.storePath = before.storePath
  storePathDup : after.storePathDup = before.storePathDup

variable {token : List Char} {before after next : CorrelationFields}

theorem Agree.note (h : Agree token before after) {key : List UInt8} {value value' : List Char}
    (hurl : key = ascii "URL" → value' = "nar/".toList ++ token)
    (hother : key = ascii "StorePath" ∨ key = ascii "NarHash" ∨ key = ascii "NarSize" → value' = value)
    (hnote : before.note key value = some next) :
    ∃ next', after.note key value' = some next' ∧ Agree token next next' := by
  obtain ⟨url, narHash, narSize, compression, compressionDup, storePath, storePathDup⟩ := before
  obtain ⟨_, _, _, compression', compressionDup', _, _⟩ := after
  obtain ⟨hnew, hhash, hsize, hpath, hdup⟩ := h
  simp only at hnew hhash hsize hpath hdup
  subst hnew hhash hsize hpath hdup
  unfold CorrelationFields.note at hnote ⊢
  simp only [Option.isSome_map] at hnote ⊢
  by_cases hkey : key = ascii "StorePath"
  · rw [if_pos hkey] at hnote ⊢
    rw [hother (.inl hkey)]
    split_ifs at hnote ⊢
    all_goals
      obtain rfl := Option.some.inj hnote
      exact ⟨_, rfl, rfl, rfl, rfl, rfl, rfl⟩
  rw [if_neg hkey] at hnote ⊢
  by_cases hkey : key = ascii "URL"
  · rw [if_pos hkey] at hnote ⊢
    rw [hurl hkey]
    split_ifs at hnote ⊢
    obtain rfl := Option.some.inj hnote
    exact ⟨_, rfl, rfl, rfl, rfl, rfl, rfl⟩
  rw [if_neg hkey] at hnote ⊢
  -- How the rewritten narinfo is compressed is the one thing that differs.
  split_ifs at hnote ⊢ with hnarHash _ hnarSize
  all_goals obtain rfl := Option.some.inj hnote
  · rw [hother (.inr (.inl hnarHash))]
    exact ⟨_, rfl, rfl, rfl, rfl, rfl, rfl⟩
  · rw [hother (.inr (.inr hnarSize))]
    exact ⟨_, rfl, rfl, rfl, rfl, rfl, rfl⟩
  all_goals exact ⟨_, rfl, rfl, rfl, rfl, rfl, rfl⟩

theorem trim_rawUrl (hash : List Char) {tail : List UInt8} (htail : tail = [] ∨ tail = [0x0d]) :
    trim (fromUtf8Lossy (0x20 :: (ascii "nar/" ++ toUtf8 (narHashDigest hash ++ ".nar".toList)) ++ tail)) =
      "nar/".toList ++ (narHashDigest hash ++ ".nar".toList) := by
  obtain ⟨blank, hblank, hspace⟩ : ∃ blank, tail = toUtf8 blank ∧ ∀ char ∈ blank, isWhitespace char = true := by
    rcases htail with rfl | rfl
    · exact ⟨[], rfl, fun _ hmem => absurd hmem List.not_mem_nil⟩
    · exact ⟨['\r'], by decide, List.forall_mem_singleton.mpr (by decide)⟩
  have hstart : 0x20 :: ascii "nar/" = toUtf8 ([' '] ++ "nar/".toList) := by decide
  have hbytes : 0x20 :: (ascii "nar/" ++ toUtf8 (narHashDigest hash ++ ".nar".toList)) ++ tail =
      toUtf8 ([' '] ++ ("nar/".toList ++ (narHashDigest hash ++ ".nar".toList) ++ blank)) := by
    rw [← List.cons_append, hstart, hblank]
    simp only [toUtf8_append, List.append_assoc]
  rw [hbytes, fromUtf8Lossy_of_fromUtf8 (fromUtf8_toUtf8 _), trim_append_left (List.forall_mem_singleton.mpr (by decide)),
    trim_append_right hspace]
  refine trim_of_ends (fun char hchar => ?_) fun char hchar => ?_
  · have hfirst : 'n' = char := Option.some.inj hchar
    rw [← hfirst]
    decide
  · rw [← List.append_assoc, List.getLast?_append] at hchar
    have hlast : 'r' = char := Option.some.inj hchar
    rw [← hlast]
    decide

variable {hash : List Char} {size : UInt64}

theorem Agree.readLine (h : Agree (narHashDigest hash ++ ".nar".toList) before after)
    (hhash : OneLine (toUtf8 hash)) {piece : List UInt8}
    (hpiece : (∃ line, piece = line ++ [0x0a]) ∨ 0x0a ∉ piece)
    (hpiece' : (∃ line, rawSegment hash size piece = line ++ [0x0a]) ∨ 0x0a ∉ rawSegment hash size piece)
    (hnext : before.readLine (chomp (fromUtf8Lossy piece)) = some next) :
    ∃ next', after.readLine (chomp (fromUtf8Lossy (rawSegment hash size piece))) = some next' ∧
      Agree (narHashDigest hash ++ ".nar".toList) next next' := by
  rw [before.readLine_eq hpiece] at hnext
  rw [after.readLine_eq hpiece']
  obtain ⟨field, value, tail, htail, hold, hnew⟩ | ⟨hsame, hother⟩ := fieldEntry_rawSegment hhash piece
  · rw [hold] at hnext
    rw [hnew]
    refine h.note (fun hurl => ?_) (fun hsigned => ?_) hnext
    · dsimp only at hurl
      cases field with
      | url => exact trim_rawUrl hash htail
      | _ => exact absurd hurl (by decide)
    · dsimp only at hsigned
      cases field <;> exact absurd hsigned (by decide)
  rw [hsame]
  cases hentry : fieldEntry (unterminated 0x0a piece) with
  | none =>
    rw [hentry] at hnext
    exact ⟨after, rfl, Option.some.inj hnext ▸ h⟩
  | some entry =>
    rw [hentry] at hnext
    refine h.note (fun heq => absurd (hentry.trans ?_) (hother .url entry.2)) (fun _ => rfl) hnext
    exact congrArg (fun key => some (key, entry.2)) heq

theorem Agree.foldlM (hhash : OneLine (toUtf8 hash)) {pieces : List (List UInt8)}
    (hpieces : ∀ piece ∈ pieces, (∃ line, piece = line ++ [0x0a]) ∨ 0x0a ∉ piece)
    (hpieces' : ∀ piece ∈ pieces.map (rawSegment hash size), (∃ line, piece = line ++ [0x0a]) ∨ 0x0a ∉ piece)
    (h : Agree (narHashDigest hash ++ ".nar".toList) before after) {final : CorrelationFields}
    (hfinal : pieces.foldlM (fun fields piece => fields.readLine (chomp (fromUtf8Lossy piece))) before = some final) :
    ∃ final', (pieces.map (rawSegment hash size)).foldlM
        (fun fields piece => fields.readLine (chomp (fromUtf8Lossy piece))) after = some final' ∧
      Agree (narHashDigest hash ++ ".nar".toList) final final' := by
  induction pieces generalizing before after with
  | nil => exact ⟨after, rfl, Option.some.inj hfinal ▸ h⟩
  | cons piece pieces ih =>
    obtain ⟨hpiece, hpieces⟩ := List.forall_mem_cons.mp hpieces
    obtain ⟨hpiece', hpieces'⟩ := List.forall_mem_cons.mp hpieces'
    rw [List.foldlM_cons, Option.bind_eq_bind, Option.bind_eq_some_iff] at hfinal
    obtain ⟨next, hnext, hrest⟩ := hfinal
    obtain ⟨next', hnext', hagree⟩ := h.readLine hhash hpiece hpiece' hnext
    obtain ⟨final', hfinal', hagree'⟩ := ih hpieces hpieces' hagree hrest
    refine ⟨final', ?_, hagree'⟩
    rw [List.map_cons, List.foldlM_cons, hnext']
    exact hfinal'

end CorrelationFields

theorem correlation_of_rewritten (hcorrelation : parseCorrelation body = some correlation)
    (hrewritten : toRaw body = .ok rewritten) :
    ∃ next, parseCorrelation rewritten.body = some next ∧ next.token = rewritten.urlToken ∧
      next.narHash = correlation.narHash ∧ next.narSize = correlation.narSize ∧
      next.storePath = correlation.storePath := by
  have hone := (signedValues_of_toRaw hrewritten).oneLine
  obtain ⟨_, _, _, -, -, -, -, -, -, -, -, -, htoken, -⟩ := toRaw_eq_ok_iff.mp hrewritten
  obtain ⟨fields, url, size, hfold, hurl, hhash, hsize, hparse, -, -, hpath⟩ := parseCorrelation_eq_some_iff.mp hcorrelation
  have hpieces := pieces_toRaw hrewritten
  have hpieces' : Pieces 0x0a ((splitInclusive (· == 0x0a) body).map (rawSegment rewritten.narHash rewritten.narSize)) :=
    pieces_map_rawSegment hone (pieces_splitInclusive body)
  have hempty : CorrelationFields.Agree (narHashDigest rewritten.narHash ++ ".nar".toList) {} {} := ⟨rfl, rfl, rfl, rfl, rfl⟩
  obtain ⟨fields', hfold', hagree⟩ := hempty.foldlM hone (piece_cases (pieces_splitInclusive body)) (piece_cases hpieces')
    hfold
  rw [← hpieces] at hfold'
  have hnewUrl : fields'.url = some ("nar/".toList ++ rewritten.urlToken) := by rw [hagree.url, hurl, htoken]; rfl
  refine ⟨⟨rewritten.urlToken, correlation.narHash, correlation.narSize, fields'.declared, correlation.storePath⟩,
    parseCorrelation_eq_some_iff.mpr ⟨fields', _, size, hfold', hnewUrl, hagree.narHash.trans hhash,
      hagree.narSize.trans hsize, hparse, ?_, rfl, ?_⟩, rfl, rfl, rfl, rfl⟩
  · rw [dropPrefix?_eq_some.mpr rfl]
    rfl
  · rw [hagree.storePath, hagree.storePathDup]
    exact hpath

/-! ### The readers together -/

theorem parseCorrelation_mixedNarinfo :
    parseCorrelation mixedNarinfo = some ⟨"a.xz".toList, "sha256:0".toList, 7, .compressed, none⟩ := by decide +kernel

end NixP2p
