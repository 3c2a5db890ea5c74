import Rgw.Http
import Mathlib.Data.List.Sort

/-! # Signature Version 4

The `Authorization` header, the canonical request, the string to sign and the signing key. -/
namespace SigV4

open ByteStrings TextCodecs RgwTypes Http

def algorithm : Str := bytes "AWS4-HMAC-SHA256"
def chunkAlgorithm : Str := bytes "AWS4-HMAC-SHA256-PAYLOAD"
def emptySha256 : Str := bytes "e3b0c44298fc1c149afbf4c8996fb92427ae41e4649b934ca495991b7852b855"
def unsignedPayload : Str := bytes "UNSIGNED-PAYLOAD"
def streamingSigned : Str := bytes "STREAMING-AWS4-HMAC-SHA256-PAYLOAD"
def streamingSignedTrailer : Str := bytes "STREAMING-AWS4-HMAC-SHA256-PAYLOAD-TRAILER"
def streamingUnsignedTrailer : Str := bytes "STREAMING-UNSIGNED-PAYLOAD-TRAILER"

/-- Texts joined by a separator. -/
def join (sep : UInt8) (parts : List Str) : Str := List.intercalate [sep] parts

section Authorization

structure CredentialScope where
  date : Str
  region : Str
  service : Str
  deriving DecidableEq

def CredentialScope.toString (s : CredentialScope) : Str :=
  join 47 [s.date, s.region, s.service, bytes "aws4_request"]

structure AuthorizationV4 where
  accessKeyId : Str
  scope : CredentialScope
  signedHeaders : List Str
  signature : Str
  deriving DecidableEq

def malformed (why : String) : RgwError := .authorizationHeaderMalformed (bytes why)

/-- The three fields, each given at most once. -/
structure Fields where
  credential : Option Str
  signedHeaders : Option Str
  signature : Option Str

def Fields.set (f : Fields) (name value : Str) : RgwResult Fields :=
  if name = bytes "Credential" then
    if f.credential.isSome then .error (malformed "duplicate authorization field")
    else .ok { f with credential := some value }
  else if name = bytes "SignedHeaders" then
    if f.signedHeaders.isSome then .error (malformed "duplicate authorization field")
    else .ok { f with signedHeaders := some value }
  else if name = bytes "Signature" then
    if f.signature.isSome then .error (malformed "duplicate authorization field")
    else .ok { f with signature := some value }
  else .error (malformed "unknown authorization field")

def parseField (f : Fields) (field : Str) : RgwResult Fields :=
  match splitOnce 61 field with
  | some (name, value) => f.set (trim name) (trim value)
  | none => .error (malformed "field without '='")

def require (o : Option Str) (why : String) : RgwResult Str :=
  match o with
  | some v => .ok v
  | none => .error (malformed why)

/-- What precedes the last four components, and these. -/
def splitCredential (credential : Str) : RgwResult (Str × Str × Str × Str × Str) :=
  match (credential.splitOn 47).reverse with
  | terminator :: service :: region :: date :: id :: rest =>
    .ok (join 47 (id :: rest).reverse, date, region, service, terminator)
  | _ => .error (malformed "short Credential")

def afterAlgorithm (value : Str) : RgwResult Str :=
  match value.dropPrefix? algorithm with
  | some (32 :: rest) => .ok (32 :: rest)
  | some (9 :: rest) => .ok (9 :: rest)
  | _ => .error (malformed "unsupported authorization algorithm")

def parseAuthorization (value : Str) : RgwResult AuthorizationV4 := do
  let rest ← afterAlgorithm value
  let fields ← (((rest.splitOn 44).map trim).filter (· ≠ [])).foldlM parseField ⟨none, none, none⟩
  let credential ← require fields.credential "missing Credential"
  let signedHeaders ← require fields.signedHeaders "missing SignedHeaders"
  let signature ← require fields.signature "missing Signature"
  let (accessKeyId, date, region, service, terminator) ← splitCredential credential
  if accessKeyId = [] then throw (malformed "empty access key id")
  if terminator ≠ bytes "aws4_request" then
    throw (malformed "credential scope must end in aws4_request")
  if date.length ≠ 8 ∨ !date.all isDigit then throw (malformed "credential date must be yyyymmdd")
  if service ≠ bytes "s3" then throw (malformed "credential service must be s3")
  let signedHeaders := signedHeaders.splitOn 59
  if signedHeaders.any fun h => h == [] || h.any isUpper then
    throw (malformed "SignedHeaders must be non-empty lowercase names")
  if ¬signedHeaders.IsChain (· < ·) then throw (malformed "SignedHeaders must be sorted")
  if bytes "host" ∉ signedHeaders then throw (malformed "SignedHeaders must include host")
  if signature.length ≠ 64 ∨ !signature.all isHexDigit then
    throw (malformed "Signature must be 64 hex characters")
  return ⟨accessKeyId, ⟨date, region, service⟩, signedHeaders, toAsciiLower signature⟩

end Authorization

section Canonical

def isUnreserved (b : UInt8) : Bool := isAlnum b || b == 45 || b == 95 || b == 46 || b == 126

def uriEncode (encodeSlash : Bool) (s : Str) : Str :=
  percentEncode (fun b => isUnreserved b || (b == 47 && !encodeSlash)) s

def uriRecode (encodeSlash : Bool) (s : Str) : Str := uriEncode encodeSlash (percentDecode s)

def canonicalUri (path : Str) : Str := if path = [] then [47] else uriRecode false path

/-- Bytewise by name, then by value. -/
def pairLe (a b : Str × Str) : Prop := a.1 < b.1 ∨ a.1 = b.1 ∧ a.2 ≤ b.2

instance : DecidableRel pairLe := fun a b =>
  inferInstanceAs (Decidable (a.1 < b.1 ∨ a.1 = b.1 ∧ a.2 ≤ b.2))

/-- The parts of a query, each cut at its first equals sign. -/
def queryParts (query : Str) : List (Str × Str) :=
  ((query.splitOn 38).filter (· ≠ [])).map fun p => (splitOnce 61 p).getD (p, [])

def canonicalPair (p : Str × Str) : Str × Str := (uriRecode true p.1, uriRecode true p.2)

def pairText (p : Str × Str) : Str := p.1 ++ 61 :: p.2

def canonicalQuery (query : Str) : Str :=
  join 38 ((((queryParts (plusToEscape query)).map canonicalPair).insertionSort pairLe).map pairText)

def collapseWhitespace (s : Str) : Str := join 32 (splitAsciiWhitespace s)

/-- The values a signed header stands for; `host` falls back on the authority. -/
def headerValues (headers : HeaderMap) (authority : Option Str) (name : Str) : List Str :=
  let values := (headers.getAll name).map fun v => collapseWhitespace (utf8Lossy v)
  if values = [] ∧ name = bytes "host" then (authority.map collapseWhitespace).toList else values

/-- The canonical value of a signed header, when the request has it. -/
def canonicalValue (headers : HeaderMap) (authority : Option Str) (name : Str) : Option Str :=
  let values := headerValues headers authority name
  if values = [] then none else some (join 44 values)

def headerLine (headers : HeaderMap) (authority : Option Str) (name : Str) : Str :=
  match canonicalValue headers authority name with
  | some value => name ++ 58 :: value ++ [10]
  | none => []

def canonicalHeaders (headers : HeaderMap) (authority : Option Str) (signedHeaders : List Str) : Str :=
  signedHeaders.flatMap (headerLine headers authority)

def canonicalRequest (method path query : Str) (headers : HeaderMap) (authority : Option Str)
    (signedHeaders : List Str) (payloadHash : Str) : Str :=
  join 10 [method, canonicalUri path, canonicalQuery query,
    canonicalHeaders headers authority signedHeaders, join 59 signedHeaders, payloadHash]

end Canonical

section Signing

variable (P : Platform)

def sha256Hex (data : Str) : Str := hexEncode (P.sha256 data).val

def stringToSign (amzDate : Str) (scope : CredentialScope) (canonicalRequest : Str) : Str :=
  join 10 [algorithm, amzDate, scope.toString, sha256Hex P canonicalRequest]

def chunkStringToSign (amzDate : Str) (scope : CredentialScope) (prevSignature chunk : Str) : Str :=
  join 10 [chunkAlgorithm, amzDate, scope.toString, prevSignature, emptySha256, sha256Hex P chunk]

def signingKey (secret : Str) (scope : CredentialScope) : Digest :=
  let kDate := P.hmacSha256 (bytes "AWS4" ++ secret) scope.date
  let kRegion := P.hmacSha256 kDate.val scope.region
  let kService := P.hmacSha256 kRegion.val scope.service
  P.hmacSha256 kService.val (bytes "aws4_request")

def signatureBytes (signingKey : Digest) (stringToSign : Str) : Digest :=
  P.hmacSha256 signingKey.val stringToSign

/-- Whether no byte differs, read off the disjunction of the differences. -/
def signatureMatches (computed : Digest) (providedHex : Str) : Bool :=
  match hexDecode providedHex with
  | some provided => provided.length == 32 &&
    (computed.val.zip provided).foldl (fun acc p => acc ||| (p.1 ^^^ p.2)) 0 == 0
  | none => false

end Signing

theorem zip_difference {a b : Str} (acc : UInt8) (h : a.length = b.length) :
    (a.zip b).foldl (fun acc p => acc ||| (p.1 ^^^ p.2)) acc = 0 ↔ acc = 0 ∧ a = b := by
  induction a generalizing b acc with
  | nil =>
    cases b with
    | nil => simp
    | cons _ _ => simp at h
  | cons x a ih =>
    cases b with
    | nil => simp at h
    | cons y b =>
      rw [List.zip_cons_cons, List.foldl_cons, ih _ (by simpa using h), UInt8.or_eq_zero_iff,
        UInt8.xor_eq_zero_iff, List.cons.injEq, and_assoc]

theorem signatureMatches_iff {computed : Digest} {provided : Str} :
    signatureMatches computed provided = true ↔ hexDecode provided = some computed.val := by
  rw [signatureMatches]
  cases hexDecode provided with
  | none => simp
  | some p =>
    by_cases hl : p.length = 32
    · have hz := zip_difference (a := computed.val) (b := p) 0 (by rw [computed.2, hl])
      simp only [hl, beq_self_eq_true, Bool.true_and, beq_iff_eq, Option.some.injEq, hz, true_and]
      exact eq_comm
    · have hne : p ≠ computed.val := by
        rintro rfl
        exact hl computed.2
      simp [hl, hne]

end SigV4
