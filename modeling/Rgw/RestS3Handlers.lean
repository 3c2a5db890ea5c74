import Rgw.Auth
import Rgw.RestS3Wire

/-! # The S3 operations

Permission checks, the operations and the dispatch of a request to one of them. Fresh ids
and clock readings are inputs of the request. -/
namespace RestS3Handlers

open ByteStrings TextCodecs Interaction RgwTypes RgwSal Http RgwAuth RestS3Wire

/-- What a request draws from the clock and the id generator, and its limit on listing rounds. -/
structure ReqEnv where
  requestId : Str
  now : Time
  bucketId : Str
  fuel : ℕ

section Permissions

def requireUser (identity : Identity) : RgwResult UserInfo :=
  match identity.userInfo with
  | some u => .ok u
  | none => .error .accessDenied

def verifyBucketAccess (identity : Identity) (bucket : BucketInfo) : RgwResult Unit :=
  match identity.userInfo with
  | some u => if u.system || u.admin || u.userId = bucket.owner then .ok () else .error .accessDenied
  | none => .error .accessDenied

def loadBucketFor (identity : Identity) (name : Str) : Op BucketInfo := do
  if 47 ∈ name then throw .noSuchBucket
  let bucket ← invoke (.loadBucket [] name)
  verifyBucketAccess identity bucket
  return bucket

end Permissions

section Service

def listOwnedBucketsLoop (owner : UserId) (limit : Option ℕ) :
    ℕ → Str → List BucketInfo → Op (List BucketInfo)
  | 0, _, _ => outOfFuel
  | fuel + 1, marker, out => do
    let page ← invoke (.listBuckets (some owner) marker 0)
    let out := out ++ page.buckets
    if limit.any fun l => l ≤ out.length then return out
    match page.buckets.getLast? with
    | some last =>
      if page.isTruncated then
        listOwnedBucketsLoop owner limit fuel
          (if page.nextMarker = [] then last.bucket.name else page.nextMarker) out
      else return out
    | none => return out

def listOwnedBuckets (fuel : ℕ) (owner : UserId) (limit : Option ℕ) : Op (List BucketInfo) :=
  listOwnedBucketsLoop owner limit fuel [] []

def listBuckets (P : Platform) (env : ReqEnv) (identity : Identity) : S3Op Response := plain do
  let user ← requireUser identity
  let buckets ← listOwnedBuckets env.fuel user.userId none
  return xmlResponse (.listAllMyBuckets ⟨xmlns, ⟨user.userId.toString, user.displayName⟩,
    buckets.map fun b => ⟨b.bucket.name, P.iso8601Millis b.creationTime⟩⟩)

end Service

section Buckets

def defaultPlacement : Str := bytes "default-placement"
def defaultZonegroup : Str := bytes "default"

/-- Whether a byte of a bucket name may stand between its neighbours. -/
def nameByteOk (before : Option UInt8) (c : UInt8) (after : Option UInt8) : Bool :=
  isLower c || isDigit c || c == 45 ||
    (c == 46 && before != some 45 && after != some 46 && after != some 45)

def nameBytesOk : Option UInt8 → Str → Bool
  | _, [] => true
  | before, c :: rest => nameByteOk before c rest.head? && nameBytesOk (some c) rest

def looksLikeIpv4 (name : Str) : Bool :=
  let parts := name.splitOn 46
  parts.length == 4 && parts.all fun p => p ≠ [] && p.all isDigit

def validateBucketName (name : Str) : RgwResult Unit :=
  let alnum := fun c : UInt8 => isLower c || isDigit c
  if ¬(3 ≤ name.length ∧ name.length ≤ 63) then .error .invalidBucketName
  else if !name.head?.any alnum || !name.getLast?.any alnum then .error .invalidBucketName
  else if !nameBytesOk none name then .error .invalidBucketName
  else if looksLikeIpv4 name then .error .invalidBucketName
  else .ok ()

def location : HeaderName := ⟨bytes "location", by decide⟩

/-- The bucket a request creates. -/
def newBucket (env : ReqEnv) (owner : UserId) (name : Str) : BucketInfo :=
  ⟨.new [] name env.bucketId, owner, env.now, defaultPlacement, defaultZonegroup, 0⟩

def checkQuota (env : ReqEnv) (user : UserInfo) : Op Unit := do
  if user.maxBuckets < 0 then throw .accessDenied
  if user.maxBuckets > 0 then
    let max := user.maxBuckets.toNat
    let owned ← listOwnedBuckets env.fuel user.userId (some max)
    if max ≤ owned.length then throw .tooManyBuckets

def createBucket (env : ReqEnv) (identity : Identity) (name : Str) : S3Op Response := plain do
  let user ← requireUser identity
  validateBucketName name
  checkQuota env user
  match ← attempt (.createBucket (newBucket env user.userId name)) with
  | .ok () => pure ()
  | .error .bucketAlreadyExists => do
    let ownedByYou := match ← attempt (.loadBucket [] name) with
      | .ok existing => decide (existing.owner = user.userId)
      | .error _ => false
    if ownedByYou then throw .bucketAlreadyOwnedByYou else throw .bucketAlreadyExists
  | .error e => throw e
  let v ← headerValue (47 :: name)
  return ⟨200, .append .empty location v, .empty⟩

def noContent : Response := ⟨204, .empty, .empty⟩

def deleteBucket (identity : Identity) (name : Str) : S3Op Response := plain do
  let bucket ← loadBucketFor identity name
  invoke (.removeBucket bucket.bucket.tenant bucket.bucket.name)
  return noContent

def objectCount : HeaderName := ⟨bytes "x-rgw-object-count", by decide⟩
def bytesUsed : HeaderName := ⟨bytes "x-rgw-bytes-used", by decide⟩

def statBucket (identity : Identity) (name : Str) : S3Op Response := plain do
  let bucket ← loadBucketFor identity name
  let stats ← invoke (.bucketStats bucket.bucket)
  let count ← headerValue (decimal stats.numObjects)
  let used ← headerValue (decimal stats.size)
  return ⟨200, .append (.append .empty objectCount count) bytesUsed used, .empty⟩

def getLocation (identity : Identity) (name : Str) : S3Op Response := plain do
  let bucket ← loadBucketFor identity name
  let location := if bucket.zonegroup = [] then defaultZonegroup else bucket.zonegroup
  return xmlResponse (.locationConstraint xmlns location)

def getVersioning (identity : Identity) (name : Str) : S3Op Response := plain do
  let _ ← loadBucketFor identity name
  return xmlResponse (.versioningConfiguration xmlns)

end Buckets

section Listing

def maxKeysCeiling : ℕ := 1000

def rgwAttrStorageClass : Str := bytes "user.rgw.storage_class"

def storageClass (info : ObjectInfo) : Str :=
  if info.storageClass ≠ [] then info.storageClass
  else ((info.attrs[rgwAttrStorageClass]?.filter isUtf8).filter (· ≠ [])).getD (bytes "STANDARD")

/-- What a listing leaves as it stands under `encoding-type=url`. -/
def urlKeep (encodeSlash : Bool) (b : UInt8) : Bool :=
  32 < b && b < 127 &&
    b ∉ [34, 35, 37, 38, 43, 44, 58, 59, 60, 62, 61, 63, 64, 91, 93, 92, 94, 96, 123, 125] &&
    !(b == 47 && encodeSlash)

def urlEncode (s : Str) (encodeSlash : Bool) : Str := percentEncode (urlKeep encodeSlash) s

structure Common where
  listPrefix : Str
  delimiter : Str
  maxKeys : ℕ
  encode : Bool
  deriving DecidableEq

def invalidMaxKeys (v : Str) : RgwError := .invalidArgument (bytes "invalid max-keys: " ++ v)

def parseMaxKeys : Option Str → RgwResult ℕ
  | none => .ok maxKeysCeiling
  | some v =>
    match parseSigned 64 (trim v) with
    | none => .error (invalidMaxKeys v)
    | some n => if n < 0 then .error (invalidMaxKeys v) else .ok (min n.toNat maxKeysCeiling)

namespace Common

def parse (args : Args) : RgwResult Common := do
  let maxKeys ← parseMaxKeys (args.get (bytes "max-keys"))
  return {
    listPrefix := (args.get (bytes "prefix")).getD []
    delimiter := (args.get (bytes "delimiter")).getD []
    maxKeys := maxKeys
    encode := (args.get (bytes "encoding-type")).any fun e => eqIgnoreAsciiCase e (bytes "url") }

variable (c : Common)

def out (s : Str) (encodeSlash : Bool) : Str := if c.encode then urlEncode s encodeSlash else s
def delimiterOut : Option Str := if c.delimiter = [] then none else some (c.out c.delimiter false)
def encodingType : Option Str := if c.encode then some (bytes "url") else none

def list (bucket : BucketKey) (marker : Str) : Op ListResult :=
  if c.maxKeys = 0 then pure .default
  else invoke (.listObjects bucket ⟨c.listPrefix, c.delimiter, marker, c.maxKeys⟩)

def contents (P : Platform) (objects : List ObjectInfo) (withOwner : Bool) : List ContentsXml :=
  objects.map fun o => {
    key := c.out o.key.name true
    lastModified := P.iso8601Millis o.mtime
    etag := 34 :: o.etag ++ [34]
    size := o.size
    storageClass := RestS3Handlers.storageClass o
    owner := if withOwner then some ⟨o.owner.id.toString, o.owner.displayName⟩ else none }

def commonPrefixes (prefixes : List Str) : List Str := prefixes.map fun p => c.out p false

end Common

/-- The resume point of a page, or its last entry when the driver gives none. -/
def nextMarker (res : ListResult) : Option Str :=
  if !res.isTruncated then none
  else if res.nextMarker ≠ [] then some res.nextMarker
  else match (res.objects.getLast?.map fun o => o.key.name), res.commonPrefixes.getLast? with
    | some key, some cp => some (max key cp)
    | some key, none => some key
    | none, cp => cp

def listDocV1 (P : Platform) (common : Common) (bucket : BucketInfo) (marker : Str)
    (res : ListResult) : ListBucketResultV1 where
  xmlns := xmlns
  name := bucket.bucket.name
  listPrefix := common.out common.listPrefix false
  marker := common.out marker true
  maxKeys := common.maxKeys
  delimiter := common.delimiterOut
  encodingType := common.encodingType
  isTruncated := res.isTruncated
  nextMarker := (nextMarker res).map fun m => common.out m true
  contents := common.contents P res.objects true
  commonPrefixes := common.commonPrefixes res.commonPrefixes

def listObjectsV1 (P : Platform) (identity : Identity) (name : Str) (args : Args) : S3Op Response :=
  plain do
    let common ← Common.parse args
    let marker := (args.get (bytes "marker")).getD []
    let bucket ← loadBucketFor identity name
    let res ← common.list bucket.bucket marker
    return xmlResponse (.listBucketV1 (listDocV1 P common bucket marker res))

def listDocV2 (P : Platform) (common : Common) (bucket : BucketInfo)
    (token startAfter : Option Str) (fetchOwner : Bool) (res : ListResult) : ListBucketResultV2 where
  xmlns := xmlns
  name := bucket.bucket.name
  listPrefix := common.out common.listPrefix false
  startAfter := startAfter.map fun s => common.out s true
  continuationToken := token
  nextContinuationToken := nextMarker res
  keyCount := res.objects.length + res.commonPrefixes.length
  maxKeys := common.maxKeys
  delimiter := common.delimiterOut
  encodingType := common.encodingType
  isTruncated := res.isTruncated
  contents := common.contents P res.objects fetchOwner
  commonPrefixes := common.commonPrefixes res.commonPrefixes

def listObjectsV2 (P : Platform) (identity : Identity) (name : Str) (args : Args) : S3Op Response :=
  plain do
    let common ← Common.parse args
    let token := args.get (bytes "continuation-token")
    let startAfter := args.get (bytes "start-after")
    let fetchOwner := (args.get (bytes "fetch-owner")).any fun v =>
      eqIgnoreAsciiCase v (bytes "true")
    let marker := (token.or startAfter).getD []
    let bucket ← loadBucketFor identity name
    let res ← common.list bucket.bucket marker
    return xmlResponse (.listBucketV2 (listDocV2 P common bucket token startAfter fetchOwner res))

end Listing

section Objects

def defaultContentType : Str := bytes "binary/octet-stream"
def maxBufferedPut : ℕ := 2 ^ 30
def maxPutSize : ℕ := 5 * 2 ^ 30
def maxMultiDeleteBody : ℕ := 4 * 2 ^ 20
def maxObjectName : ℕ := 1024
def amzMeta : Str := bytes "x-amz-meta-"
def amzStorageClass : HeaderName := ⟨bytes "x-amz-storage-class", by decide⟩

/-- The standard headers kept with an object, and the attributes they are kept in. -/
def genericAttrs : List (HeaderName × Str) :=
  [(⟨bytes "cache-control", by decide⟩, bytes "cache_control"),
    (⟨bytes "content-disposition", by decide⟩, bytes "content_disposition"),
    (contentEncoding, bytes "content_encoding"),
    (⟨bytes "content-language", by decide⟩, bytes "content_language"),
    (⟨bytes "expires", by decide⟩, bytes "expires")]

def trimAscii (s : Str) : Str := ((s.dropWhile isAsciiSpace).reverse.dropWhile isAsciiSpace).reverse

def contentMd5 (P : Platform) (headers : HeaderMap) : RgwResult (Option Str) :=
  match headers.get (bytes "content-md5") with
  | none => .ok none
  | some v => match P.base64Decode (trimAscii v) with
    | some raw => if raw.length = 16 then .ok (some raw) else .error .invalidDigest
    | none => .error .invalidDigest

def bufferBody (body : ObjectBody) (limit : ℕ) : RgwResult Str :=
  match toBytes limit body [] with
  | .ok data => .ok data
  | .error .tooLong => .error .entityTooLarge
  | .error (.failed e) => .error (.internalError e)

def verifyMd5 (P : Platform) (expected payload : Str) : RgwResult Unit :=
  if P.md5 payload = expected then .ok () else .error .badDigest

/-- Fold one header line into the attributes. -/
def addMetadata (attrs : Attrs) (e : HeaderName × HeaderValue) : Attrs :=
  match e.1.val.dropPrefix? amzMeta with
  | none => attrs
  | some suffix =>
    let key := rgwAttrMetaPrefix ++ suffix
    match attrs[key]? with
    | some v => attrs.insert key (v ++ 44 :: e.2.val)
    | none => attrs.insert key e.2.val

def addGeneric (headers : HeaderMap) (attrs : Attrs) (g : HeaderName × Str) : Attrs :=
  match headers.get g.1.val with
  | some v => attrs.insert (rgwAttrPrefix ++ g.2) v
  | none => attrs

def putAttrs (headers : HeaderMap) : Attrs :=
  let attrs : Attrs := Std.ExtTreeMap.insert ∅ rgwAttrContentType
    ((headers.get contentType.val).getD defaultContentType)
  let attrs := headers.entries.foldl addMetadata attrs
  let attrs := genericAttrs.foldl (addGeneric headers) attrs
  match headers.get amzStorageClass.val with
  | some sc => attrs.insert rgwAttrStorageClass sc
  | none => attrs

def etag : HeaderName := ⟨bytes "etag", by decide⟩

def putObject (P : Platform) (env : ReqEnv) (identity : Identity) (bucketName key : Str)
    (headers : HeaderMap) (body : ObjectBody) : S3Op Response := plain do
  if headers.containsKey (bytes "x-amz-copy-source") then throw .notImplemented
  let bucket ← loadBucketFor identity bucketName
  let user ← requireUser identity
  if maxObjectName < key.length then throw (.invalidArgument (bytes "object name too long"))
  let declaredLen := (headerStr headers contentLength.val).bind (parseUnsigned 10 (2 ^ 64))
  if declaredLen.any fun n => maxPutSize < n then throw .entityTooLarge
  let attrs := putAttrs headers
  let payload ← match ← contentMd5 P headers with
    | some expected => do
      let data ← bufferBody body maxBufferedPut
      verifyMd5 P expected data
      pure (bodyFromBytes data)
    | none => pure body
  let info ← invoke (.putObject bucket.bucket (.new key) ⟨user.userId, user.displayName⟩ attrs
    payload env.now)
  let v ← headerValue (34 :: info.etag ++ [34])
  return ⟨200, .append .empty etag v, .empty⟩

def contentRange : HeaderName := ⟨bytes "content-range", by decide⟩
def lastModified : HeaderName := ⟨bytes "last-modified", by decide⟩
def acceptRanges : HeaderName := ⟨bytes "accept-ranges", by decide⟩

def invalidRange (size : ℕ) : OpError :=
  match headerValue (bytes "bytes */" ++ decimal size) with
  | .ok v => ⟨.invalidRange, .insert .empty contentRange v⟩
  | .error _ => .ofError .invalidRange

/-- A header name in lower case, when it is one. -/
def parseHeaderName (s : Str) : Option HeaderName :=
  if h : isHeaderName (toAsciiLower s) = true then some ⟨toAsciiLower s, h⟩ else none

def addAttr (info : ObjectInfo) (h : HeaderMap) (g : HeaderName × Str) : HeaderMap :=
  match info.attrs[rgwAttrPrefix ++ g.2]? with
  | none => h
  | some v => match headerValue v with
    | .ok v => h.insert g.1 v
    | .error _ => h

def addUserMetadata (h : HeaderMap) (e : Str × Str) : HeaderMap :=
  match parseHeaderName (amzMeta ++ e.1), headerValue e.2 with
  | some name, .ok value => h.append name value
  | _, _ => h

def objectResponse (P : Platform) (info : ObjectInfo) (range : Option (ℕ × ℕ))
    (body : ResponseBody) : RgwResult Response := do
  let h := HeaderMap.empty
  let (h, len) ← match range with
    | some (start, last) => do
      let v ← headerValue (bytes "bytes " ++ decimal start ++ 45 :: decimal last ++
        47 :: decimal info.size)
      pure (h.insert contentRange v, last - start + 1)
    | none => pure (h, info.size)
  let h := h.insert contentLength (← headerValue (decimal len))
  let h := h.insert etag (← headerValue (34 :: info.etag ++ [34]))
  let h := h.insert lastModified (← headerValue (P.httpDate info.mtime))
  let h := h.insert contentType (← headerValue (info.contentType.getD defaultContentType))
  let h := h.insert acceptRanges (← headerValue (bytes "bytes"))
  let h := genericAttrs.foldl (addAttr info) h
  let h := info.userMetadata.foldl addUserMetadata h
  let h ← if info.storageClass ≠ [] ∨ rgwAttrStorageClass ∈ info.attrs then do
      let v ← headerValue (storageClass info)
      pure (h.insert amzStorageClass v)
    else pure h
  return ⟨if range.isSome then 206 else 200, h, body⟩

def requestedRange (headers : HeaderMap) : Option ByteRange :=
  (headerStr headers (bytes "range")).bind parseRange

def getObject (P : Platform) (identity : Identity) (bucketName key : Str) (headers : HeaderMap)
    (getData : Bool) : S3Op Response := do
  let bucket ← plain (loadBucketFor identity bucketName)
  let key := ObjectKey.new key
  let range := requestedRange headers
  if !getData then
    let info ← plain (invoke (.headObject bucket.bucket key))
    let resolved ← match range with
      | some r => match resolveRange r info.size with
        | some resolved => pure (some resolved)
        | none => throw (invalidRange info.size)
      | none => pure none
    plain (objectResponse P info resolved .empty)
  else
    match ← attempt (.getObject bucket.bucket key range) with
    | .ok read => plain (objectResponse P read.info read.range (.object read.body))
    | .error .invalidRange => do
      let info ← plain (invoke (.headObject bucket.bucket key))
      throw (invalidRange info.size)
    | .error e => fail e

def deleteObject (identity : Identity) (bucketName key : Str) : S3Op Response := plain do
  let bucket ← loadBucketFor identity bucketName
  match ← attempt (.deleteObject bucket.bucket (.new key)) with
  | .ok () | .error .noSuchKey => return noContent
  | .error e => throw e

def deleteEach (bucket : BucketKey) (quiet : Bool) :
    List RestS3Wire.DeleteObject → DeleteResult → Op DeleteResult
  | [], result => pure result
  | obj :: objects, result => do
    match ← attempt (.deleteObject bucket (.new obj.key)) with
    | .ok () | .error .noSuchKey =>
      deleteEach bucket quiet objects
        (if quiet then result else { result with deleted := result.deleted ++ [obj.key] })
    | .error e =>
      deleteEach bucket quiet objects
        { result with errors := result.errors ++ [⟨obj.key, e.code, e.display⟩] }

def deleteMulti (P : Platform) (identity : Identity) (bucketName : Str) (headers : HeaderMap)
    (body : ObjectBody) : S3Op Response := plain do
  let bucket ← loadBucketFor identity bucketName
  let expected ← contentMd5 P headers
  let data ← bufferBody body maxMultiDeleteBody
  match expected with
  | some expected => verifyMd5 P expected data
  | none => pure ()
  let req ← parseDeleteRequest P data
  let result ← deleteEach bucket.bucket req.quiet req.objects ⟨xmlns, [], []⟩
  return xmlResponse (.deleteResult result)

end Objects

section Dispatch

def rejectUnsupported (args : Args) (table : List Str) : Op Unit :=
  if (args.anyOf table).isSome then throw .notImplemented else pure ()

variable (P : Platform) (env : ReqEnv)

def bucketGet (identity : Identity) (args : Args) (name : Str) : S3Op Response := do
  if args.exists_ (bytes "location") then getLocation identity name
  else if args.exists_ (bytes "versioning") then getVersioning identity name
  else do
    plain (rejectUnsupported args bucketUnsupported)
    if args.get (bytes "list-type") = some (bytes "2") then listObjectsV2 P identity name args
    else listObjectsV1 P identity name args

def bucketPut (identity : Identity) (args : Args) (name : Str) : S3Op Response := do
  plain (rejectUnsupported args bucketUnsupported)
  if args.exists_ (bytes "versioning") then fail .notImplemented
  else createBucket env identity name

def bucketDelete (identity : Identity) (args : Args) (name : Str) : S3Op Response := do
  plain (rejectUnsupported args bucketUnsupported)
  deleteBucket identity name

def bucketPost (identity : Identity) (args : Args) (name : Str) (headers : HeaderMap)
    (body : ObjectBody) : S3Op Response :=
  if args.exists_ (bytes "delete") then deleteMulti P identity name headers body
  else fail .notImplemented

def objectPut (identity : Identity) (args : Args) (name key : Str) (headers : HeaderMap)
    (body : ObjectBody) : S3Op Response := do
  plain (rejectUnsupported args objectUnsupported)
  putObject P env identity name key headers body

def objectGet (identity : Identity) (args : Args) (name key : Str) (headers : HeaderMap)
    (getData : Bool) : S3Op Response := do
  plain (rejectUnsupported args objectUnsupported)
  getObject P identity name key headers getData

def objectDelete (identity : Identity) (args : Args) (name key : Str) : S3Op Response := do
  plain (rejectUnsupported args objectUnsupported)
  deleteObject identity name key

def methodGet : Str := bytes "GET"
def methodHead : Str := bytes "HEAD"

def bucketMethod (identity : Identity) (req : Request) : Option (Str → S3Op Response) :=
  let args := Args.parse req.uri.query
  if req.method.name = methodGet then some (bucketGet P identity args)
  else if req.method.name = methodHead then some (statBucket identity)
  else if req.method.name = bytes "PUT" then some (bucketPut env identity args)
  else if req.method.name = bytes "DELETE" then some (bucketDelete identity args)
  else if req.method.name = bytes "POST" then
    some fun name => bucketPost P identity args name req.headers req.body
  else none

def objectMethod (identity : Identity) (req : Request) : Option (Str → Str → S3Op Response) :=
  let args := Args.parse req.uri.query
  if req.method.name = methodGet then
    some fun name key => objectGet P identity args name key req.headers true
  else if req.method.name = methodHead then
    some fun name key => objectGet P identity args name key req.headers false
  else if req.method.name = bytes "PUT" then
    some fun name key => objectPut P env identity args name key req.headers req.body
  else if req.method.name = bytes "DELETE" then some (objectDelete identity args)
  else none

/-- Run an operation and render its failure. -/
def finish (req : Request) (op : S3Op Response) : Prog DriverCall Reply Response :=
  op.run >>= fun r => match r with
    | .ok resp => .done resp
    | .error e => .done
      (errorResponse ⟨req.uri.path, env.requestId, req.method.name = methodHead⟩ e)

def notFound : Response := ⟨404, .empty, .empty⟩
def allow : HeaderName := ⟨bytes "allow", by decide⟩

/-- The answer to a method a path does not have. -/
def methodNotAllowed (methods : HeaderValue) : Response :=
  ⟨405, .append .empty allow methods, .empty⟩

def serviceMethods : HeaderValue := ⟨bytes "GET,HEAD", by decide⟩
def bucketMethods : HeaderValue := ⟨bytes "GET,HEAD,PUT,DELETE,POST", by decide⟩
def objectMethods : HeaderValue := ⟨bytes "PUT,GET,HEAD,DELETE,POST", by decide⟩

def plainText : HeaderValue := ⟨bytes "text/plain; charset=utf-8", by decide⟩

/-- The answer to a path parameter that is not UTF-8 once decoded; to a HEAD without its text. -/
def badPath (method : Method) (param : String) : Response :=
  ⟨400, .append .empty contentType plainText,
    if method.name = methodHead then .empty
    else .text (bytes "Invalid URL: Invalid UTF-8 in `" ++ bytes param ++ bytes "`")⟩

/-- Answer a request that authentication let through. -/
def handle (identity : Identity) (req : Request) : Prog DriverCall Reply Response :=
  match route req.uri.path with
  | .service =>
    if req.method.name = methodGet then finish env req (listBuckets P env identity)
    else if req.method.name = methodHead then do
      let resp ← finish env req (listBuckets P env identity)
      return { resp with body := .empty }
    else .done (methodNotAllowed serviceMethods)
  | .bucket segment =>
    match bucketMethod P env identity req, pathParam segment with
    | none, _ => .done (methodNotAllowed bucketMethods)
    | some _, none => .done (badPath req.method "bucket")
    | some op, some name => finish env req (op name)
  | .object segment rest =>
    if req.method.name = bytes "POST" then finish env req (fail .notImplemented)
    else match objectMethod P env identity req, pathParam segment, pathParam rest with
      | none, _, _ => .done (methodNotAllowed objectMethods)
      | some _, none, _ => .done (badPath req.method "bucket")
      | some _, some _, none => .done (badPath req.method "key")
      | some op, some name, some key => finish env req (op name key)
  | .unknown => .done notFound

end Dispatch

end RestS3Handlers
