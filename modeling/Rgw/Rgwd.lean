import Rgw.RestAdmin
import Rgw.RestS3Handlers

/-! # The gateway

The pipeline of a request: it gets an id, then its identity, then goes to the admin API or to
S3. Every reply carries the id, also one that authentication sends. -/
namespace Rgwd

open ByteStrings TextCodecs Interaction RgwTypes RgwSal Http RgwAuth RestAdmin RestS3Wire
  RestS3Handlers

section RequestIds

abbrev Uuid := { u : Str // u.length = 16 }

/-- The bytes of a 32-bit number, the highest first. -/
def be32 (n : ℕ) : Str :=
  [.ofNat (n / 2 ^ 24), .ofNat (n / 2 ^ 16), .ofNat (n / 2 ^ 8), .ofNat n]

/-- A clock reading in seconds, as many as fit in 32 bits. -/
def timestamp (now : Time) : ℕ := (now / 10 ^ 9 % 2 ^ 32).toNat

def newRequestId (uuid : Uuid) (now : Time) : Str :=
  bytes "tx" ++ (hexEncode uuid.val).take 16 ++ 45 :: hexEncode (be32 (timestamp now)) ++
    bytes "-rgw-rs"

end RequestIds

section Messages

/-- A message as it comes in. -/
structure Incoming where
  method : Method
  uri : Uri
  headers : HeaderMap
  body : ObjectBody

/-- The router notes the URI that was sent before anything else reads it. -/
def Incoming.request (msg : Incoming) : Request :=
  ⟨msg.method, msg.uri, some msg.uri, msg.headers, msg.body, none⟩

inductive Payload where
  | s3 (body : ResponseBody)
  | json (v : Value)

structure AppResponse where
  status : ℕ
  headers : HeaderMap
  body : Payload

namespace AppResponse

def ofS3 (resp : Response) : AppResponse := ⟨resp.status, resp.headers, .s3 resp.body⟩

def ofAdmin (resp : AdminResponse) : AppResponse :=
  ⟨resp.status, resp.headers, resp.body.elim (.s3 .empty) .json⟩

end AppResponse

def amzRequestId : HeaderName := ⟨bytes "x-amz-request-id", by decide⟩
def serverHeader : HeaderName := ⟨bytes "server", by decide⟩
def serverName : HeaderValue := ⟨bytes "rgw-rs", by decide⟩

/-- Stamp the id and the server's name on a reply. -/
def stamp (id : Str) (resp : AppResponse) : AppResponse :=
  let headers := match headerValue id with
    | .ok v => resp.headers.insert amzRequestId v
    | .error _ => resp.headers
  { resp with headers := headers.insert serverHeader serverName }

/-- The reply to a HEAD goes without its body. -/
def strip (method : Method) (resp : AppResponse) : AppResponse :=
  if method.name = RestS3Handlers.methodHead then { resp with body := .s3 .empty } else resp

end Messages

section Pipeline

/-- The prefix of the admin API: one segment of a path, taken literally. -/
abbrev AdminEntry := { e : Str // e ≠ [] ∧ ∀ b ∈ e, b ∉ [47, 123, 125, 42, 58] }

def defaultAdminEntry : AdminEntry := ⟨bytes "admin", by decide +kernel⟩

/-- Where the admin API answers. The router compares a path as it was sent, before any route of
S3, and leaves every other path under the prefix to S3. -/
def adminRoute (entry path : Str) : Option Endpoint :=
  if path = 47 :: entry ++ bytes "/user" then some .user
  else if path = 47 :: entry ++ bytes "/bucket" then some .bucket
  else if path = 47 :: entry ++ bytes "/info" then some .info
  else none

/-- A gateway, with the extractor of query strings. -/
structure App where
  platform : Platform
  entry : AdminEntry
  query : Option Str → QueryArgs

/-- What a request draws on its way, each clock reading apart. -/
structure AppEnv where
  uuid : Uuid
  minted : Time
  checked : Time
  now : Time
  bucketId : Str
  draws : RgwAdminOps.Draws
  fuel : ℕ

def AppEnv.requestId (env : AppEnv) : Str := newRequestId env.uuid env.minted
def AppEnv.s3 (env : AppEnv) : ReqEnv := ⟨env.requestId, env.now, env.bucketId, env.fuel⟩
def AppEnv.admin (env : AppEnv) : AdminEnv := ⟨env.requestId, env.draws, env.fuel⟩

variable (A : App) (env : AppEnv)

/-- The middleware: a request that does not verify is answered with an S3 error. -/
def authenticate (req : Request) (next : Request → Prog DriverCall Reply AppResponse) :
    Prog DriverCall Reply AppResponse :=
  (verify A.platform .default env.checked req).run >>= fun r => match r with
    | .ok out => next out
    | .error e => .done (.ofS3 (s3ErrorResponse e req.sentUri.path env.requestId))

/-- The refusal of a handler that misses the identity. -/
def missingExtension : AppResponse := ⟨500, .empty, .s3 .empty⟩

def adminRequest (identity : Identity) (endpoint : Endpoint) (req : Request) : AdminRequest :=
  ⟨env.admin, identity, req.method, endpoint, A.query req.uri.query⟩

def router (req : Request) : Prog DriverCall Reply AppResponse :=
  match req.identity with
  | none => .done missingExtension
  | some identity =>
    match adminRoute A.entry req.uri.path with
    | some endpoint =>
      serve A.platform (adminRequest A env identity endpoint req) >>= fun resp => .done (.ofAdmin resp)
    | none => handle A.platform env.s3 identity req >>= fun resp => .done (.ofS3 resp)

def buildApp (msg : Incoming) : Prog DriverCall Reply AppResponse :=
  authenticate A env msg.request (router A env) >>= fun resp =>
    .done (strip msg.method (stamp env.requestId resp))

end Pipeline

end Rgwd
