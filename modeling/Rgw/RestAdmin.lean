import Rgw.AdminOps
import Rgw.Auth

/-! # The admin REST API

The documents of its replies, its parameters and its handlers. A query arrives as what the
extractor made of it, and the draws of an operation are inputs of the request. -/
namespace RestAdmin

open ByteStrings SortedMaps Interaction RgwTypes RgwSal Http RgwAuth RgwAdminOps

section Documents

inductive Value where
  | bool (b : Bool)
  | number (n : ℤ)
  | string (s : Str)
  | array (items : List Value)
  | object (fields : List (Str × Value))

namespace Dump

def disabledQuota : Value := .object [
  (bytes "enabled", .bool false),
  (bytes "check_on_raw", .bool false),
  (bytes "max_size", .number (-1)),
  (bytes "max_size_kb", .number 0),
  (bytes "max_objects", .number (-1))]

def keys (P : Platform) (info : UserInfo) : Value :=
  let uid := info.userId.toString
  .array (info.accessKeys.toList.map fun e =>
    let k := e.2
    .object [
      (bytes "user", .string (if k.subuser = [] then uid else uid ++ 58 :: k.subuser)),
      (bytes "access_key", .string k.id),
      (bytes "secret_key", .string k.key),
      (bytes "active", .bool k.active),
      (bytes "create_date", .string (P.iso8601Micros k.createDate))])

def caps (info : UserInfo) : Value :=
  .array (info.caps.serialize.map fun e =>
    .object [(bytes "type", .string e.capType), (bytes "perm", .string e.perm)])

def userInfo (P : Platform) (info : UserInfo) : Value := .object [
  (bytes "user_id", .string info.userId.toString),
  (bytes "display_name", .string info.displayName),
  (bytes "email", .string info.userEmail),
  (bytes "suspended", .number (if info.suspended then 1 else 0)),
  (bytes "max_buckets", .number info.maxBuckets),
  (bytes "subusers", .array []),
  (bytes "keys", keys P info),
  (bytes "swift_keys", .array []),
  (bytes "caps", caps info),
  (bytes "op_mask", .string (bytes "read, write, delete")),
  (bytes "system", .bool info.system),
  (bytes "admin", .bool info.admin),
  (bytes "default_placement", .string []),
  (bytes "default_storage_class", .string []),
  (bytes "placement_tags", .array []),
  (bytes "bucket_quota", disabledQuota),
  (bytes "user_quota", disabledQuota),
  (bytes "temp_url_keys", .array []),
  (bytes "type", .string (bytes "rgw")),
  (bytes "mfa_ids", .array []),
  (bytes "account_id", .string []),
  (bytes "path", .string (bytes "/")),
  (bytes "create_date", .string (P.iso8601Micros info.createDate)),
  (bytes "tags", .array []),
  (bytes "group_ids", .array [])]

/-- The usage of a bucket, in kilobytes rounded up where it is in kilobytes. -/
def usage : Option BucketStats → Value
  | none => .object []
  | some s =>
    let kb : ℤ := ((s.size + 1023) / 1024 : ℕ)
    .object [(bytes "rgw.main", .object [
      (bytes "size", .number s.size),
      (bytes "size_actual", .number s.size),
      (bytes "size_utilized", .number s.size),
      (bytes "size_kb", .number kb),
      (bytes "size_kb_actual", .number kb),
      (bytes "size_kb_utilized", .number kb),
      (bytes "num_objects", .number s.numObjects)])]

def bucketInfo (P : Platform) (info : BucketInfo) (stats : Option BucketStats) : Value :=
  let created := P.iso8601Micros info.creationTime
  .object [
    (bytes "bucket", .string info.bucket.name),
    (bytes "num_shards", .number info.numShards),
    (bytes "tenant", .string info.bucket.tenant),
    (bytes "zonegroup", .string info.zonegroup),
    (bytes "placement_rule", .string info.placementRule),
    (bytes "explicit_placement", .object [
      (bytes "data_pool", .string []),
      (bytes "data_extra_pool", .string []),
      (bytes "index_pool", .string [])]),
    (bytes "id", .string info.bucket.bucketId),
    (bytes "marker", .string info.bucket.marker),
    (bytes "index_type", .string (bytes "Normal")),
    (bytes "versioned", .bool false),
    (bytes "versioning", .bool false),
    (bytes "object_lock_enabled", .bool false),
    (bytes "owner", .string info.owner.toString),
    (bytes "ver", .string (bytes "0#1")),
    (bytes "master_ver", .string (bytes "0#0")),
    (bytes "mtime", .string created),
    (bytes "creation_time", .string created),
    (bytes "max_marker", .string (bytes "0#")),
    (bytes "usage", usage stats),
    (bytes "bucket_quota", disabledQuota)]

def userList (ids : List UserId) (truncated : Bool) (marker : Str) : Value :=
  .object ([
    (bytes "keys", .array (ids.map fun id => .string id.toString)),
    (bytes "truncated", .bool truncated),
    (bytes "count", .number ids.length)] ++
    if truncated then [(bytes "marker", .string marker)] else [])

end Dump

structure AdminResponse where
  status : ℕ
  headers : HeaderMap
  body : Option Value

def contentType : HeaderName := ⟨bytes "content-type", contentType_name⟩
def applicationJson : HeaderValue := ⟨bytes "application/json", by decide⟩
def jsonHeaders : HeaderMap := .append .empty contentType applicationJson

def hostId : Str := bytes "rgw-rs-default-default"

def adminErrorResponse (err : RgwError) (requestId : Str) : AdminResponse :=
  ⟨err.httpStatus, jsonHeaders, some (.object [
    (bytes "Code", .string err.code),
    (bytes "RequestId", .string requestId),
    (bytes "HostId", .string hostId)])⟩

/-- What a successful operation sends. -/
inductive AdminReply where
  | json (v : Value)
  | empty

end Documents

section Parameters

/-- A query string as the extractor read it, or the text of its refusal. -/
abbrev QueryArgs := Except Str (Map Str)

def parseBool (name value : Str) : RgwResult Bool :=
  if value = bytes "true" ∨ value = bytes "yes" ∨ value = bytes "1" then .ok true
  else if value = bytes "false" ∨ value = bytes "no" ∨ value = bytes "0" then .ok false
  else .error (.invalidArgument (name ++ bytes ": not a boolean: " ++ value))

structure Args where
  map : Map Str

namespace Args

def new : QueryArgs → RgwResult Args
  | .ok map => .ok ⟨map⟩
  | .error text => .error (.invalidArgument text)

variable (args : Args) (name : Str)

def has : Bool := name ∈ args.map
def string : Option Str := args.map[name]?
def strOrEmpty : Str := args.map[name]?.getD []

def required : RgwResult Str :=
  match args.map[name]? with
  | some v =>
    if v ≠ [] then .ok v else .error (.invalidArgument (name ++ bytes " is required"))
  | none => .error (.invalidArgument (name ++ bytes " is required"))

def uid : RgwResult UserId := .parse <$> args.required (bytes "uid")

def bool : RgwResult (Option Bool) :=
  match args.map[name]? with
  | some v => some <$> parseBool name v
  | none => .ok none

/-- A number as `parse` reads one. -/
def int {α : Type} (parse : Str → Option α) : RgwResult (Option α) :=
  match args.map[name]? with
  | some v =>
    match parse v with
    | some n => .ok (some n)
    | none => .error (.invalidArgument (name ++ bytes ": not a number: " ++ v))
  | none => .ok none

end Args

end Parameters

section Handlers

def requireCap (identity : Identity) (cap : Str) (perm : CapPerm) : RgwResult Unit :=
  if identity.checkCap cap perm then .ok () else .error .accessDenied

def unsupported (args : Args) (names : List Str) : RgwResult Unit :=
  if names.any args.has then .error .notImplemented else .ok ()

def usersCap : Str := bytes "users"
def bucketsCap : Str := bytes "buckets"
def infoCap : Str := bytes "info"

/-- What a request draws, and its limit on listing rounds. -/
structure AdminEnv where
  requestId : Str
  draws : Draws
  fuel : ℕ

variable (P : Platform) (env : AdminEnv) (identity : Identity) (query : QueryArgs)

def userGet : Op AdminReply := do
  let args ← Args.new query
  unsupported args [bytes "quota"]
  requireCap identity usersCap .read
  if args.has (bytes "list") then
    let max ← args.int (bytes "max-entries") (parseUnsigned 10 (2 ^ 64))
    let list ← userList (args.strOrEmpty (bytes "marker")) (max.getD 0)
    return .json (Dump.userList list.ids list.truncated list.nextMarker)
  let uid ← args.uid
  let info ← userInfo uid
  return .json (Dump.userInfo P info)

def userPut : Op AdminReply := do
  let args ← Args.new query
  unsupported args [bytes "subuser", bytes "quota"]
  requireCap identity usersCap .write
  if args.has (bytes "key") then
    let uid ← args.uid
    let generate ← args.bool (bytes "generate-key")
    let info ← keyCreate env.draws uid (args.string (bytes "access-key"))
      (args.string (bytes "secret-key")) (generate.getD true)
    return .json (Dump.keys P info)
  if args.has (bytes "caps") then
    let uid ← args.uid
    let caps ← args.required (bytes "user-caps")
    let info ← capsAdd uid caps
    return .json (Dump.caps info)
  let uid ← args.uid
  let displayName ← args.required (bytes "display-name")
  let generateKey ← args.bool (bytes "generate-key")
  let maxBuckets ← args.int (bytes "max-buckets") (parseSigned 32)
  let suspended ← args.bool (bytes "suspended")
  let system ← args.bool (bytes "system")
  let info ← userCreate env.draws {
    uid := uid
    displayName := displayName
    email := args.string (bytes "email")
    accessKey := args.string (bytes "access-key")
    secretKey := args.string (bytes "secret-key")
    generateKey := generateKey
    caps := args.string (bytes "user-caps")
    maxBuckets := maxBuckets
    suspended := suspended
    system := system
    admin := none }
  return .json (Dump.userInfo P info)

def userPost : Op AdminReply := do
  let args ← Args.new query
  unsupported args [bytes "subuser", bytes "quota"]
  requireCap identity usersCap .write
  let uid ← args.uid
  let maxBuckets ← args.int (bytes "max-buckets") (parseSigned 32)
  let suspended ← args.bool (bytes "suspended")
  let system ← args.bool (bytes "system")
  let generateKey ← args.bool (bytes "generate-key")
  let info ← userModify env.draws {
    uid := uid
    displayName := args.string (bytes "display-name")
    email := args.string (bytes "email")
    maxBuckets := maxBuckets
    suspended := suspended
    system := system
    admin := none
    accessKey := args.string (bytes "access-key")
    secretKey := args.string (bytes "secret-key")
    generateKey := generateKey.getD false }
  return .json (Dump.userInfo P info)

def userDelete : Op AdminReply := do
  let args ← Args.new query
  unsupported args [bytes "subuser", bytes "quota"]
  requireCap identity usersCap .write
  let uid ← args.uid
  if args.has (bytes "key") then
    let accessKey ← args.required (bytes "access-key")
    let _ ← keyRemove uid accessKey
    return .empty
  if args.has (bytes "caps") then
    let caps ← args.required (bytes "user-caps")
    let info ← capsRemove uid caps
    return .json (Dump.caps info)
  let purge ← args.bool (bytes "purge-data")
  userRemove env.fuel uid (purge.getD false)
  return .empty

/-- The entries of a bucket listing, with statistics or by name. -/
def bucketEntries (stats : Bool) : List BucketInfo → Op (List Value)
  | [] => pure []
  | b :: buckets => do
    let entry ← if stats then do
        let st ← invoke (.bucketStats b.bucket)
        pure (Dump.bucketInfo P b (some st))
      else pure (.string b.bucket.name)
    return entry :: (← bucketEntries stats buckets)

def bucketGet : Op AdminReply := do
  let args ← Args.new query
  unsupported args [bytes "index", bytes "policy"]
  requireCap identity bucketsCap .read
  let stats ← args.bool (bytes "stats")
  let stats := stats.getD false
  match nonempty (args.string (bytes "bucket")) with
  | some bucket =>
    let (tenant, name) := parseBucket bucket
    let (info, st) ← bucketInfo tenant name
    return .json (Dump.bucketInfo P info (if stats then some st else none))
  | none =>
    let owner := (nonempty (args.string (bytes "uid"))).map UserId.parse
    let buckets ← bucketList env.fuel owner
    let out ← bucketEntries P stats buckets
    return .json (.array out)

def bucketPut : Op AdminReply := throw .notImplemented

def bucketDelete : Op AdminReply := do
  let args ← Args.new query
  unsupported args [bytes "object"]
  requireCap identity bucketsCap .write
  let bucket ← args.required (bytes "bucket")
  let (tenant, name) := parseBucket bucket
  let purge ← args.bool (bytes "purge-objects")
  bucketRemove env.fuel tenant name (purge.getD false)
  return .empty

/-- The name of the driver under the API. -/
def driverName : Str := bytes "sqlite"

def infoGet : Op AdminReply := do
  requireCap identity infoCap .read
  return .json (.object [(bytes "info", .object [
    (bytes "storage_backends", .array [.object [
      (bytes "name", .string driverName),
      (bytes "cluster_id", .string (bytes "rgw-rs"))]])])])

def methodNotAllowed : Op AdminReply := throw .methodNotAllowed

end Handlers

section Routes

/-- A path under the admin entry. -/
inductive Endpoint where
  | user
  | bucket
  | info
  deriving DecidableEq

structure AdminRequest where
  env : AdminEnv
  identity : Identity
  method : Method
  endpoint : Endpoint
  query : QueryArgs

def methodGet : Str := bytes "GET"
def methodHead : Str := bytes "HEAD"

/-- The handler of a request; a HEAD goes where a GET goes. -/
def handler (P : Platform) (req : AdminRequest) : Op AdminReply :=
  let m := req.method.name
  match req.endpoint with
  | .user =>
    if m = methodGet ∨ m = methodHead then userGet P req.identity req.query
    else if m = bytes "PUT" then userPut P req.env req.identity req.query
    else if m = bytes "POST" then userPost P req.env req.identity req.query
    else if m = bytes "DELETE" then userDelete req.env req.identity req.query
    else methodNotAllowed
  | .bucket =>
    if m = methodGet ∨ m = methodHead then bucketGet P req.env req.identity req.query
    else if m = bytes "PUT" then bucketPut
    else if m = bytes "DELETE" then bucketDelete req.env req.identity req.query
    else methodNotAllowed
  | .info => if m = methodGet ∨ m = methodHead then infoGet req.identity else methodNotAllowed

def finish (requestId : Str) : RgwResult AdminReply → AdminResponse
  | .ok (.json v) => ⟨200, jsonHeaders, some v⟩
  | .ok .empty => ⟨200, jsonHeaders, none⟩
  | .error e => adminErrorResponse e requestId

/-- The reply to a HEAD goes without its body. -/
def serve (P : Platform) (req : AdminRequest) : Prog DriverCall Reply AdminResponse := do
  let result ← (handler P req).run
  let resp := finish req.env.requestId result
  return if req.method.name = methodHead then { resp with body := none } else resp

end Routes

end RestAdmin
