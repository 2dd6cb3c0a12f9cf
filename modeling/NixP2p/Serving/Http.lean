import NixP2p.Serving.Narinfo
import NixP2p.Transfer.Fetch

/-!
# Upstream responses and the gate in front of forwarding

The response every source of the daemon answers with, and the header checks after which the serving layer forwards it. A body is either the bytes an upstream sends or the leaves of an open peer transfer; the model keeps the two apart because the second is always a raw NAR.
-/

namespace NixP2p

abbrev HeaderMap := List (String × List UInt8)

def HeaderMap.getAll (headers : HeaderMap) (name : String) : List (List UInt8) :=
  (headers.filter (·.1 = name)).map (·.2)

/-- The bytes an upstream sends, and whether the body then ends or breaks off. -/
structure UpstreamBody where
  bytes : List UInt8
  clean : Bool
  deriving DecidableEq

inductive NarBody where
  | upstream (body : UpstreamBody)
  | peer (stream : NarStream)
  deriving DecidableEq

structure UpstreamResponse (β : Type) where
  status : Nat
  headers : HeaderMap
  body : β
  deriving DecidableEq

def maxNarinfoBytes : Nat := 2 * 1024 * 1024

inductive SourceError where
  | unreachable (why : String)
  | tooLarge (limit declared : UInt64)
  | upstream (why : String)
  deriving DecidableEq

inductive NarKey where
  | signedNarHash (hash : NarHash) (upstreamHint : NarPathToken) (compression : NarCompression)
  | upstreamPath (token : NarPathToken)
  deriving DecidableEq

abbrev NarSource := NarKey → Option UInt64 → Except SourceError (UpstreamResponse NarBody)

def asciiLowerTrim (bytes : List UInt8) : List UInt8 :=
  (asciiTrim bytes).map fun byte => if 0x41 ≤ byte ∧ byte ≤ 0x5a then byte + 0x20 else byte

def headerTokens (values : List (List UInt8)) : List (List UInt8) :=
  (values.flatMap fun value => (value.splitOnP (· == 0x2c)).map asciiLowerTrim).filter (· ≠ [])

def hasUnsupportedTransferCoding (headers : HeaderMap) : Bool :=
  match headerTokens (headers.getAll "transfer-encoding") with
  | [] => false
  | [one] => one != ascii "chunked" && one != ascii "identity"
  | _ => true

def hasAmbiguousFraming (headers : HeaderMap) : Bool :=
  !(headers.getAll "transfer-encoding").isEmpty && !(headers.getAll "content-length").isEmpty

def isHttpTokenChar (byte : UInt8) : Bool :=
  (0x30 ≤ byte && byte ≤ 0x39) || (0x41 ≤ byte && byte ≤ 0x5a) || (0x61 ≤ byte && byte ≤ 0x7a) ||
    (ascii "!#$%&'*+-.^_`|~").contains byte

def connectionHeaderIsMalformed (headers : HeaderMap) : Bool :=
  (headers.getAll "connection").any fun value =>
    value.any fun byte => !(byte == 0x2c || isAsciiWhitespace byte || isHttpTokenChar byte)

def mustFailClosed (headers : HeaderMap) : Bool :=
  hasUnsupportedTransferCoding headers || connectionHeaderIsMalformed headers ||
    hasAmbiguousFraming headers

def hopByHop : List String :=
  ["connection", "keep-alive", "proxy-authenticate", "proxy-authorization", "te", "trailer",
    "transfer-encoding", "upgrade"]

def forwardHeaders (headers : HeaderMap) : HeaderMap :=
  headers.filter fun (name, _) =>
    !(hopByHop.contains name || (headerTokens (headers.getAll "connection")).contains (ascii name))

structure Response where
  status : Nat
  headers : HeaderMap
  body : NarBody
  deriving DecidableEq

def decimal (n : Nat) : List UInt8 := ascii (toString n)

def textStatus (status : Nat) (message : String) : Response :=
  let body := ascii (message ++ "\n")
  { status
    headers := [("content-type", ascii "text/plain"), ("content-length", decimal body.length)]
    body := .upstream ⟨body, true⟩ }

def badGateway : Nat := 502

def gatewayError : Response := textStatus badGateway "upstream unavailable"

/-- A GET forwarded verbatim; the body of a NAR is only wrapped to count its bytes. -/
def forward (result : Except SourceError (UpstreamResponse NarBody)) : Response :=
  match result with
  | .error _ => gatewayError
  | .ok response =>
    if mustFailClosed response.headers then gatewayError
    else
      { status := if 100 ≤ response.status ∧ response.status < 1000 then response.status else badGateway
        headers := forwardHeaders response.headers
        body := response.body }

end NixP2p
