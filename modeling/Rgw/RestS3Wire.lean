import Rgw.Http

/-! # S3 on the wire

Routes, query arguments, ranges, the documents of requests and replies, and errors. -/
namespace RestS3Wire

open ByteStrings TextCodecs Interaction RgwTypes RgwSal Http

section Routes

/-- The path segments a route leaves to its handler, still encoded. -/
inductive Route where
  | service
  | bucket (segment : Str)
  | object (segment rest : Str)
  | unknown
  deriving DecidableEq

/-- `/`, `/{bucket}`, `/{bucket}/` or `/{bucket}/{*key}`, where the bucket may be empty: `//` and
`//a` are of the last two. -/
def route : Str → Route
  | 47 :: path =>
    if path = [] then .service
    else match splitOnce 47 path with
      | none => .bucket path
      | some (segment, rest) => if rest = [] then .bucket segment else .object segment rest
  | _ => .unknown

/-- A percent-decoded path parameter. -/
def pathParam (s : Str) : Option Str :=
  let decoded := percentDecode s
  if isUtf8 decoded then some decoded else none

/-- The bucket and the key a path names. -/
def target (path : Str) : Option (Str × Option Str) :=
  match route path with
  | .bucket segment => (pathParam segment).map fun name => (name, none)
  | .object segment rest => do
    let name ← pathParam segment
    let key ← pathParam rest
    return (name, some key)
  | _ => none

end Routes

section Arguments

def bucketUnsupported : List Str :=
  [bytes "acl", bytes "policy", bytes "lifecycle", bytes "cors", bytes "tagging", bytes "uploads",
    bytes "versions", bytes "website", bytes "logging", bytes "notification", bytes "encryption",
    bytes "object-lock", bytes "replication", bytes "requestPayment", bytes "publicAccessBlock",
    bytes "ownershipControls", bytes "intelligent-tiering", bytes "inventory", bytes "metrics",
    bytes "analytics", bytes "accelerate", bytes "policyStatus"]

def objectUnsupported : List Str :=
  [bytes "acl", bytes "tagging", bytes "uploads", bytes "uploadId", bytes "partNumber",
    bytes "legal-hold", bytes "retention", bytes "torrent", bytes "attributes", bytes "select",
    bytes "restore"]

def decode (s : Str) : Str := utf8Lossy (percentDecode (plusToSpace s))

/-- Query parameters in request order. -/
structure Args where
  pairs : List (Str × Str)
  deriving DecidableEq

namespace Args

def parse : Option Str → Args
  | none => ⟨[]⟩
  | some query => ⟨((query.splitOn 38).filter (· ≠ [])).map fun p =>
      let kv := (splitOnce 61 p).getD (p, [])
      (decode kv.1, decode kv.2)⟩

def get (a : Args) (name : Str) : Option Str := (a.pairs.find? fun p => p.1 = name).map Prod.snd
def exists_ (a : Args) (name : Str) : Bool := a.pairs.any fun p => p.1 = name
def anyOf (a : Args) (names : List Str) : Option Str := names.find? a.exists_

end Args

end Arguments

section Ranges

def rangeNumber (s : Str) : Option ℕ :=
  if s = [] ∨ !s.all isDigit then none else parseUnsigned 10 (2 ^ 64) s

def parseRange (header : Str) : Option ByteRange := do
  let spec ← (trim header).dropPrefix? (bytes "bytes=")
  let spec := trim spec
  if 44 ∈ spec then none
  let (start, last) ← splitOnce 45 spec
  let start := trim start
  let last := trim last
  if start = [] then
    let len ← rangeNumber last
    return .suffix len
  let start ← rangeNumber start
  if last = [] then return .absolute start none
  let last ← rangeNumber last
  if start ≤ last then some (.absolute start (some last)) else none

/-- The range of an object of `size` bytes, for a reply without data. -/
def resolveRange (range : ByteRange) (size : ℕ) : Option (ℕ × ℕ) :=
  if size = 0 then none
  else
    let last := size - 1
    match range with
    | .absolute start end_ =>
      if start ≤ last then some (start, end_.elim last fun e => min e last) else none
    | .suffix 0 => none
    | .suffix n => some (size - n, last)

end Ranges

section Documents

def xmlns : Str := bytes "http://s3.amazonaws.com/doc/2006-03-01/"

structure OwnerXml where
  id : Str
  displayName : Str
  deriving DecidableEq

structure BucketXml where
  name : Str
  creationDate : Str
  deriving DecidableEq

structure ListAllMyBucketsResult where
  xmlns : Str
  owner : OwnerXml
  buckets : List BucketXml
  deriving DecidableEq

structure ContentsXml where
  key : Str
  lastModified : Str
  etag : Str
  size : ℕ
  storageClass : Str
  owner : Option OwnerXml
  deriving DecidableEq

structure ListBucketResultV1 where
  xmlns : Str
  name : Str
  listPrefix : Str
  marker : Str
  maxKeys : ℕ
  delimiter : Option Str
  encodingType : Option Str
  isTruncated : Bool
  nextMarker : Option Str
  contents : List ContentsXml
  commonPrefixes : List Str
  deriving DecidableEq

structure ListBucketResultV2 where
  xmlns : Str
  name : Str
  listPrefix : Str
  startAfter : Option Str
  continuationToken : Option Str
  nextContinuationToken : Option Str
  keyCount : ℕ
  maxKeys : ℕ
  delimiter : Option Str
  encodingType : Option Str
  isTruncated : Bool
  contents : List ContentsXml
  commonPrefixes : List Str
  deriving DecidableEq

structure DeleteErrorXml where
  key : Str
  code : Str
  message : Str
  deriving DecidableEq

structure DeleteResult where
  xmlns : Str
  deleted : List Str
  errors : List DeleteErrorXml
  deriving DecidableEq

structure S3ErrorBody where
  code : Str
  message : Str
  resource : Str
  requestId : Str
  hostId : Str
  deriving DecidableEq

inductive Document where
  | listAllMyBuckets (doc : ListAllMyBucketsResult)
  | listBucketV1 (doc : ListBucketResultV1)
  | listBucketV2 (doc : ListBucketResultV2)
  | locationConstraint (xmlns location : Str)
  | versioningConfiguration (xmlns : Str)
  | deleteResult (doc : DeleteResult)
  | error (doc : S3ErrorBody)
  deriving DecidableEq

inductive ResponseBody where
  | empty
  | text (s : Str)
  | document (doc : Document)
  | object (body : ObjectBody)
  deriving DecidableEq

structure Response where
  status : ℕ
  headers : HeaderMap
  body : ResponseBody
  deriving DecidableEq

def contentType : HeaderName := ⟨bytes "content-type", contentType_name⟩
def applicationXml : HeaderValue := ⟨bytes "application/xml", by decide⟩

def xmlResponse (doc : Document) : Response :=
  ⟨200, .append .empty contentType applicationXml, .document doc⟩

end Documents

section Failures

/-- A failure with the headers its reply still carries. -/
structure OpError where
  err : RgwError
  headers : HeaderMap

def OpError.ofError (err : RgwError) : OpError := ⟨err, .empty⟩

abbrev S3Op := OpT OpError

/-- An operation that fails without headers. -/
def plain {α : Type} (x : Op α) : S3Op α := ExceptT.adapt OpError.ofError x

theorem run_plain {α σ : Type} (exec : Exec DriverCall Reply σ) (x : Op α) (s : σ) :
    (plain x).run.run exec s =
      (x.run.run exec s).map fun r => (r.1.mapError OpError.ofError, r.2) := by
  change (x.run >>= fun r => .done (r.mapError OpError.ofError)).run exec s = _
  rw [run_bind, Option.map_eq_bind]
  rfl

def fail {α : Type} (e : RgwError) : S3Op α := throw (.ofError e)

structure ReqCtx where
  resource : Str
  requestId : Str
  head : Bool

def hostId : Str := bytes "rgw-rs-default-default"

def s3ErrorResponse (err : RgwError) (resource requestId : Str) : Response :=
  ⟨err.httpStatus, .append .empty contentType applicationXml,
    .document (.error ⟨err.code, err.display, resource, requestId, hostId⟩)⟩

def errorResponse (ctx : ReqCtx) (e : OpError) : Response :=
  let resp := if ctx.head then ⟨e.err.httpStatus, .empty, .empty⟩
    else s3ErrorResponse e.err ctx.resource ctx.requestId
  { resp with headers := resp.headers.extend e.headers }

end Failures

section DeleteRequests

structure DeleteObject where
  key : Str
  versionId : Option Str
  deriving DecidableEq

structure DeleteRequest where
  objects : List DeleteObject
  quiet : Bool
  deriving DecidableEq

def maxMultiDelete : ℕ := 1000

/-- Where the walk over the events stands; `path` has the innermost element first. -/
structure DeleteWalk where
  req : DeleteRequest
  path : List Str
  content : Str
  key : Option Str
  versionId : Option Str
  sawRoot : Bool

def DeleteWalk.start : DeleteWalk := ⟨⟨[], false⟩, [], [], none, none, false⟩

def openElement (w : DeleteWalk) (name : Str) : RgwResult DeleteWalk :=
  if w.path = [] ∧ (name ≠ bytes "Delete" ∨ w.sawRoot) then .error .malformedXml
  else
    let object := w.path.length = 1 ∧ name = bytes "Object"
    .ok { w with
      sawRoot := true
      key := if object then none else w.key
      versionId := if object then none else w.versionId
      path := name :: w.path
      content := [] }

def closeElement (w : DeleteWalk) : RgwResult DeleteWalk :=
  let taken := w.content
  let w := { w with content := [] }
  let popped := { w with path := w.path.tail }
  if w.path = [bytes "Key", bytes "Object", bytes "Delete"] then .ok { popped with key := some taken }
  else if w.path = [bytes "VersionId", bytes "Object", bytes "Delete"] then
    .ok { popped with versionId := some taken }
  else if w.path = [bytes "Object", bytes "Delete"] then
    match w.key with
    | none => .error .malformedXml
    | some key => .ok { popped with
        key := none
        versionId := none
        req := { w.req with objects := w.req.objects ++ [⟨key, w.versionId⟩] } }
  else if w.path = [bytes "Quiet", bytes "Delete"] then
    .ok { popped with req := { w.req with quiet := eqIgnoreAsciiCase (trim taken) (bytes "true") } }
  else .ok popped

def predefinedEntity (name : Str) : RgwResult Str :=
  if name = bytes "amp" then .ok (bytes "&")
  else if name = bytes "lt" then .ok (bytes "<")
  else if name = bytes "gt" then .ok (bytes ">")
  else if name = bytes "quot" then .ok [34]
  else if name = bytes "apos" then .ok (bytes "'")
  else .error .malformedXml

def addContent (w : DeleteWalk) (text : Str) : DeleteWalk := { w with content := w.content ++ text }

def walkEvents : List XmlEvent → DeleteWalk → RgwResult DeleteWalk
  | [], w => .ok w
  | .eof :: _, w => .ok w
  | .bad :: _, _ => .error .malformedXml
  | .start name :: events, w => do
    let w ← openElement w name
    walkEvents events w
  | .empty name :: events, w => do
    let w ← openElement w name
    let w ← closeElement w
    walkEvents events w
  | .close :: events, w => do
    let w ← closeElement w
    walkEvents events w
  | .text t :: events, w | .cdata t :: events, w => walkEvents events (addContent w t)
  | .charRef none :: _, _ => .error .malformedXml
  | .charRef (some ch) :: events, w => walkEvents events (addContent w ch)
  | .entityRef name :: events, w => do
    let t ← predefinedEntity name
    walkEvents events (addContent w t)
  | .other :: events, w => walkEvents events w

def parseDeleteEvents (events : List XmlEvent) : RgwResult DeleteRequest := do
  let w ← walkEvents events .start
  if !w.sawRoot ∨ w.req.objects = [] ∨ maxMultiDelete < w.req.objects.length then
    throw .malformedXml
  return w.req

def parseDeleteRequest (P : Platform) (body : Str) : RgwResult DeleteRequest :=
  if isUtf8 body then parseDeleteEvents (P.xmlEvents body) else .error .malformedXml

end DeleteRequests

end RestS3Wire
