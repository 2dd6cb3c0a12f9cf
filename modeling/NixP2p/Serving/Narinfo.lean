import NixP2p.Base.Text

/-!
# Reading and rewriting a narinfo

The two narinfo readers of the serving path. `parseCorrelation` learns from a narinfo which signed hash, size and declared compression go with its URL token; `toRaw` replaces the four unsigned transport lines so that the narinfo describes the raw NAR, and copies every other line byte for byte.
-/

namespace NixP2p

open Text

abbrev NarHash := List Char

abbrev NarPathToken := List Char

inductive NarCompression where
  | raw
  | compressed
  | unknown
  deriving DecidableEq

structure Correlation where
  token : NarPathToken
  narHash : NarHash
  narSize : UInt64
  compression : NarCompression
  storePath : Option (List Char)
  deriving DecidableEq

/-- What the line loop has seen: first occurrences, and which unsigned field came twice. -/
structure CorrelationFields where
  url : Option (List Char) := none
  narHash : Option (List Char) := none
  narSize : Option (List Char) := none
  compression : Option (List Char) := none
  compressionDup : Bool := false
  storePath : Option (List Char) := none
  storePathDup : Bool := false

/-- One line of the loop; a second `URL`, `NarHash` or `NarSize` gives the narinfo up. -/
def CorrelationFields.readLine (fields : CorrelationFields) (line : List Char) :
    Option CorrelationFields :=
  if let some value := line.dropPrefix? "StorePath:".toList then
    if fields.storePath.isSome then some { fields with storePathDup := true }
    else some { fields with storePath := some (trim value) }
  else if let some value := line.dropPrefix? "URL:".toList then
    if fields.url.isSome then none else some { fields with url := some (trim value) }
  else if let some value := line.dropPrefix? "NarHash:".toList then
    if fields.narHash.isSome then none else some { fields with narHash := some (trim value) }
  else if let some value := line.dropPrefix? "NarSize:".toList then
    if fields.narSize.isSome then none else some { fields with narSize := some (trim value) }
  else if let some value := line.dropPrefix? "Compression:".toList then
    if fields.compression.isSome then some { fields with compressionDup := true }
    else some { fields with compression := some (trim value) }
  else some fields

def CorrelationFields.declared (fields : CorrelationFields) : NarCompression :=
  if fields.compressionDup then .unknown
  else match fields.compression with
    | none => .unknown
    | some value => if value = "none".toList then .raw else .compressed

def parseCorrelation (body : List UInt8) : Option Correlation := do
  let fields ← (lines (fromUtf8Lossy body)).foldlM CorrelationFields.readLine {}
  let url ← fields.url
  let narHash ← fields.narHash
  let narSize ← fields.narSize >>= parseU64
  return {
    token := (url.dropPrefix? "nar/".toList).getD url
    narHash
    narSize
    compression := fields.declared
    storePath := if fields.storePathDup then none else fields.storePath }

inductive RewriteError where
  | missingField (name : String)
  | malformedNarSize (value : List Char)
  | malformedNarHash (value : List Char)
  deriving DecidableEq

structure RawRewrite where
  body : List UInt8
  urlToken : List Char
  narHash : List Char
  narSize : UInt64

def ascii (text : String) : List UInt8 := text.toUTF8.data.toList

def fieldValue (line : List UInt8) (key : String) : Option (List UInt8) :=
  line.dropPrefix? (ascii key ++ ascii ":")

def fieldKey (line : List UInt8) : Option (List UInt8) :=
  (line.findIdx? (· == 0x3a)).map fun i => line.take i

def isAsciiWhitespace (byte : UInt8) : Bool :=
  byte == 0x20 || byte == 0x09 || byte == 0x0a || byte == 0x0c || byte == 0x0d

def asciiTrim (bytes : List UInt8) : List UInt8 :=
  (bytes.dropWhile isAsciiWhitespace).rdropWhile isAsciiWhitespace

def splitTerminator (segment : List UInt8) : List UInt8 × List UInt8 :=
  if let some line := segment.dropSuffix? [0x0d, 0x0a] then (line, [0x0d, 0x0a])
  else if let some line := segment.dropSuffix? [0x0a] then (line, [0x0a])
  else (segment, [])

/-- What the first pass has seen; here the last occurrence of a field counts. -/
structure RawFields where
  narHash : Option (List UInt8) := none
  narSize : Option (List UInt8) := none
  compression : Option (List UInt8) := none
  haveUrl : Bool := false
  haveFileHash : Bool := false
  haveFileSize : Bool := false

def RawFields.readLine (fields : RawFields) (line : List UInt8) : RawFields :=
  if let some value := fieldValue line "NarHash" then { fields with narHash := some value }
  else if let some value := fieldValue line "NarSize" then { fields with narSize := some value }
  else if let some value := fieldValue line "Compression" then { fields with compression := some value }
  else if (fieldValue line "URL").isSome then { fields with haveUrl := true }
  else if (fieldValue line "FileHash").isSome then { fields with haveFileHash := true }
  else if (fieldValue line "FileSize").isSome then { fields with haveFileSize := true }
  else fields

/-- The four unsigned transport fields, the only ones that may change. -/
def rewriteAllowlist : List String := ["Compression", "URL", "FileHash", "FileSize"]

def replacementLine (urlToken narHash : List Char) (narSize : UInt64) (key : List UInt8) :
    Option (List UInt8) :=
  if rewriteAllowlist.any (fun field => ascii field == key) then
    if key = ascii "URL" then some (ascii "URL: nar/" ++ toUtf8 urlToken)
    else if key = ascii "Compression" then some (ascii "Compression: none")
    else if key = ascii "FileHash" then some (ascii "FileHash: " ++ toUtf8 narHash)
    else if key = ascii "FileSize" then some (ascii "FileSize: " ++ toUtf8 (showU64 narSize))
    else none
  else none

def rewriteSegment (urlToken narHash : List Char) (narSize : UInt64) (segment : List UInt8) :
    List UInt8 :=
  match (fieldKey (splitTerminator segment).1).bind (replacementLine urlToken narHash narSize) with
  | some line => line ++ (splitTerminator segment).2
  | none => segment

def narHashDigest (narHash : List Char) : List Char :=
  if ':' ∈ narHash then (narHash.dropWhile (· != ':')).tail else narHash

def toRaw (body : List UInt8) : Except RewriteError RawRewrite := do
  let fields := (body.splitOnP (· == 0x0a)).foldl RawFields.readLine {}
  let narHashRaw ← fields.narHash.elim (.error (.missingField "NarHash")) .ok
  let narSizeRaw ← fields.narSize.elim (.error (.missingField "NarSize")) .ok
  if fields.haveUrl = false then .error (.missingField "URL")
  else
    let compression ← fields.compression.elim (.error (.missingField "Compression")) .ok
    if fields.haveFileHash = false ∧ asciiTrim compression ≠ ascii "none" then
      .error (.missingField "FileHash")
    else if fields.haveFileSize = false ∧ asciiTrim compression ≠ ascii "none" then
      .error (.missingField "FileSize")
    else
      let narHash ← (fromUtf8 (asciiTrim narHashRaw)).elim
        (.error (.malformedNarHash "<non-utf8>".toList)) .ok
      let narSize ← (fromUtf8 (asciiTrim narSizeRaw) >>= parseU64).elim
        (.error (.malformedNarSize (fromUtf8Lossy narSizeRaw))) .ok
      let digest := narHashDigest narHash
      if digest = [] then .error (.malformedNarHash narHash)
      else
        let urlToken := digest ++ ".nar".toList
        let segments := splitInclusive (· == 0x0a) body
        return {
          body := segments.flatMap (rewriteSegment urlToken narHash narSize)
          urlToken
          narHash
          narSize }

end NixP2p
