import Rgw.AwsChunked

/-! # Request authentication

`verify` is the middleware in front of every handler: it checks the signature and the
payload, decodes chunked bodies and attaches the identity. -/
namespace RgwAuth

open ByteStrings TextCodecs RgwTypes RgwSal Http SigV4 AwsChunked

structure AuthedUser where
  info : UserInfo
  accessKeyId : Str
  deriving DecidableEq

inductive Identity where
  | anonymous
  | user (u : AuthedUser)
  deriving DecidableEq

namespace Identity

def userInfo : Identity → Option UserInfo
  | anonymous => none
  | user u => some u.info

def checkCap (identity : Identity) (cap : Str) (perm : CapPerm) : Bool :=
  identity.userInfo.any fun u => u.admin || u.caps.checkCap cap perm

end Identity

structure AuthConfig where
  maxSkew : Time
  maxBodyBytes : ℕ

def AuthConfig.default : AuthConfig := ⟨15 * 60 * 10 ^ 9, 256 * 1024 * 1024⟩

structure Request where
  method : Method
  uri : Uri
  /-- The URI the client sent, where a nested router strips a prefix. -/
  originalUri : Option Uri
  headers : HeaderMap
  body : ObjectBody
  identity : Option Identity
  deriving DecidableEq

def Request.sentUri (req : Request) : Uri := req.originalUri.getD req.uri

def hasQueryParam (query name : Str) : Bool :=
  (query.splitOn 38).any fun p =>
    utf8Lossy (percentDecode ((splitOnce 61 p).elim p Prod.fst)) == name

/-- The scheme of an authorization: what precedes its first blank. -/
def scheme (authorization : Str) : Str := authorization.takeWhile fun b => b ≠ 32 ∧ b ≠ 9

section Checks

variable (P : Platform)

def requestTime (config : AuthConfig) (now : Time) (headers : HeaderMap) (scope : CredentialScope) :
    RgwResult Str := do
  let t ← match headerStr headers (bytes "x-amz-date") with
    | some v => match P.parseAmzDate v with
      | some t => pure t
      | none => throw .accessDenied
    | none => match (headerStr headers (bytes "date")).bind P.parseHttpDate with
      | some t => pure t
      | none => throw .accessDenied
  let amzDate := P.formatAmzDate t
  if ¬scope.date <+: amzDate then
    throw (.authorizationHeaderMalformed (bytes "credential date does not match the request date"))
  if config.maxSkew < (now - t).natAbs then throw .requestTimeTooSkewed
  return amzDate

def readBody (limit : ℕ) (headers : HeaderMap) (body : ObjectBody) : RgwResult Str :=
  let declared := (headerStr headers (bytes "content-length")).bind (parseUnsigned 10 (2 ^ 64))
  if declared.any fun len => limit < len then .error .entityTooLarge
  else match toBytes limit body [] with
    | .ok raw => .ok raw
    | .error .tooLong => .error .entityTooLarge
    | .error (.failed e) => .error (.invalidRequest (bytes "reading the request body: " ++ e))

def contentEncoding : HeaderName := ⟨bytes "content-encoding", by decide⟩

def stripAwsChunkedEncoding (headers : HeaderMap) : HeaderMap :=
  match headerStr headers contentEncoding.val with
  | none => headers
  | some value =>
    let rest := ((value.splitOn 44).map trim).filter fun t =>
      t ≠ [] ∧ !eqIgnoreAsciiCase t (bytes "aws-chunked")
    if rest = [] then headers.remove contentEncoding.val
    else match headerValue (List.intercalate (bytes ", ") rest) with
      | .ok v => headers.insert contentEncoding v
      | .error _ => headers

def decodedContentLength : Str := bytes "x-amz-decoded-content-length"

/-- How a chunked payload kind is decoded: with a signer or not, with trailers or not. -/
def streamingMode (payloadHash : Str) : Option (Bool × Bool) :=
  if payloadHash = streamingSigned then some (true, false)
  else if payloadHash = streamingSignedTrailer then some (true, true)
  else if payloadHash = streamingUnsignedTrailer then some (false, true)
  else none

/-- The payload the handlers see, with the framing headers fixed up. -/
def verifyPayload (headers : HeaderMap) (raw payloadHash : Str) (auth : AuthorizationV4)
    (amzDate : Str) (signingKey : Digest) : RgwResult (HeaderMap × Str) :=
  if payloadHash = unsignedPayload then .ok (headers, raw)
  else match streamingMode payloadHash with
    | some (signed, withTrailers) => do
      let signer : ChunkSigner := ⟨signingKey, amzDate, auth.scope, auth.signature⟩
      let decoded ← decodeAwsChunked P raw (if signed then some signer else none) withTrailers
      verifyTrailerChecksum P decoded
      let headers ← match headerStr headers decodedContentLength with
        | none => pure headers
        | some declared =>
          if parseUnsigned 10 (2 ^ 64) declared ≠ some decoded.payload.length then
            throw (.invalidRequest
              (bytes "x-amz-decoded-content-length does not match the payload"))
          else pure (headers.remove decodedContentLength)
      return (stripAwsChunkedEncoding headers, decoded.payload)
    | none =>
      if payloadHash.length = 64 ∧ payloadHash.all isHexDigit then
        if eqIgnoreAsciiCase (sha256Hex P raw) payloadHash then .ok (headers, raw)
        else .error .xAmzContentSha256Mismatch
      else if bytes "STREAMING-" <+: payloadHash then .error .notImplemented
      else .error (.invalidRequest (bytes "invalid x-amz-content-sha256"))

variable {P} in
/-- A decoded payload is no longer than the body it came in. -/
theorem verifyPayload_length {headers headers' : HeaderMap} {raw payloadHash amzDate payload : Str}
    {auth : AuthorizationV4} {key : Digest}
    (h : verifyPayload P headers raw payloadHash auth amzDate key = .ok (headers', payload)) :
    payload.length ≤ raw.length := by
  rw [verifyPayload] at h
  split at h
  · cases h
    exact le_rfl
  · split at h
    · next signed withTrailers _ =>
      obtain ⟨decoded, hd, h⟩ := bind_eq_ok.mp h
      obtain ⟨_, -, h⟩ := bind_eq_ok.mp h
      have hpayload : payload = decoded.payload := by
        dsimp only at h
        split at h
        · cases h
          rfl
        · simp only [throw_error, error_bind, guard_eq_ok] at h
          cases h.2
          rfl
      rw [decodeAwsChunked] at hd
      obtain ⟨⟨out, rest⟩, hc, hd⟩ := bind_eq_ok.mp hd
      obtain ⟨⟨trailers, rest'⟩, -, hd⟩ := bind_eq_ok.mp hd
      simp only [throw_error, error_bind, guard_eq_ok, pure_ok, Except.ok.injEq] at hd
      rw [hpayload, ← hd.2]
      simpa using decodeChunks_length hc
    · split at h
      · split at h
        · cases h
          exact le_rfl
        · cases h
      · split at h <;> cases h

theorem decimal_isHeaderValue (n : ℕ) : isHeaderValue (decimal n) = true := by
  have hd := decimal_isDigit n
  rw [isHeaderValue, List.all_eq_true] at *
  intro b hb
  have h := hd b hb
  revert h
  exact forall_byte (P := fun b => isDigit b = true → (b == 9 || 32 ≤ b && b ≠ 127) = true)
    (by decide +kernel) b

def contentLengthOf (payload : Str) : HeaderValue :=
  ⟨decimal payload.length, decimal_isHeaderValue _⟩

/-- The parsed credentials of a request that is not anonymous. -/
def parseCredentials (authorization : Str) : RgwResult AuthorizationV4 :=
  match toStr authorization with
  | none => .error (malformed "not ASCII")
  | some authorization =>
    if scheme authorization = algorithm then parseAuthorization authorization
    else if scheme authorization = bytes "AWS" ∨ scheme authorization = bytes "AWS4-ECDSA-P256-SHA256"
    then .error .notImplemented
    else .error (malformed "unsupported authorization scheme")

/-- The secret of an active key. -/
def activeSecret (info : UserInfo) (accessKeyId : Str) : RgwResult Str :=
  match info.accessKeys[accessKeyId]? with
  | some key => if key.active then .ok key.key else .error .invalidAccessKeyId
  | none => .error .invalidAccessKeyId

def requestText (req : Request) (auth : AuthorizationV4) (payloadHash : Str) : Str :=
  canonicalRequest req.method.name req.sentUri.path (req.sentUri.query.getD []) req.headers
    req.uri.authority auth.signedHeaders payloadHash

def payloadHashOf (headers : HeaderMap) : RgwResult Str :=
  match headerStr headers (bytes "x-amz-content-sha256") with
  | some payloadHash => .ok payloadHash
  | none => .error (.invalidRequest (bytes "missing x-amz-content-sha256"))

def checkSignature (key : Digest) (text signature : Str) : RgwResult Unit :=
  if signatureMatches (signatureBytes P key text) signature then .ok ()
  else .error .signatureDoesNotMatch

/-- The part of `verify` after the user record is in hand. -/
def verifyUser (config : AuthConfig) (req : Request) (auth : AuthorizationV4) (amzDate : Str)
    (info : UserInfo) : RgwResult Request := do
  if info.suspended then throw .userSuspended
  let secret ← activeSecret info auth.accessKeyId
  let payloadHash ← payloadHashOf req.headers
  let key := signingKey P secret auth.scope
  let text := stringToSign P amzDate auth.scope (requestText req auth payloadHash)
  checkSignature P key text auth.signature
  let raw ← readBody config.maxBodyBytes req.headers req.body
  let (headers, payload) ← verifyPayload P req.headers raw payloadHash auth amzDate key
  return { req with
    headers := (headers.remove (bytes "transfer-encoding")).insert contentLength
      (contentLengthOf payload)
    body := bodyFromBytes payload
    identity := some (.user ⟨info, auth.accessKeyId⟩) }

def verify (config : AuthConfig) (now : Time) (req : Request) : Op Request := do
  if hasQueryParam (req.sentUri.query.getD []) (bytes "X-Amz-Algorithm") then throw .notImplemented
  match req.headers.get (bytes "authorization") with
  | none => return { req with identity := some .anonymous }
  | some authorization => do
    let auth ← parseCredentials authorization
    let amzDate ← requestTime P config now req.headers auth.scope
    match ← attempt (.loadUserByAccessKey auth.accessKeyId) with
    | .ok info => verifyUser P config req auth amzDate info
    | .error .noSuchUser => throw .invalidAccessKeyId
    | .error e => throw e

end Checks

end RgwAuth
