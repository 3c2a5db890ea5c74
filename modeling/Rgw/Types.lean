import Rgw.SortedMaps
import Rgw.TextCodecs

/-! # Users, buckets, objects and errors

A column or document that holds a serialised value is the value it is the text of; a user
id inside one stays in its string form, which is where parsing and printing can drift. -/
namespace RgwTypes

open ByteStrings TextCodecs SortedMaps

/-- Nanoseconds since the epoch. -/
abbrev Time := ℤ

section Errors

inductive RgwError where
  | accessDenied
  | invalidAccessKeyId
  | signatureDoesNotMatch
  | requestTimeTooSkewed
  | authorizationHeaderMalformed (what : Str)
  | xAmzContentSha256Mismatch
  | badDigest
  | invalidDigest
  | userSuspended
  | entityTooLarge
  | missingContentLength
  | noSuchUser
  | userAlreadyExists
  | keyExists
  | noSuchBucket
  | bucketAlreadyExists
  | bucketAlreadyOwnedByYou
  | bucketNotEmpty
  | invalidBucketName
  | tooManyBuckets
  | noSuchKey
  | invalidRange
  | invalidArgument (what : Str)
  | invalidRequest (what : Str)
  | malformedXml
  | methodNotAllowed
  | notImplemented
  | internalError (what : Str)
  deriving DecidableEq

abbrev RgwResult := Except RgwError

section Results

variable {ε α β : Type}

@[simp] theorem pure_ok (a : α) : (pure a : Except ε α) = .ok a := rfl
@[simp] theorem throw_error (e : ε) : (throw e : Except ε α) = .error e := rfl
@[simp] theorem ok_bind (a : α) (f : α → Except ε β) : (Except.ok a >>= f) = f a := rfl
@[simp] theorem error_bind (e : ε) (f : α → Except ε β) :
    ((Except.error e : Except ε α) >>= f) = .error e := rfl
@[simp] theorem map_ok (a : α) (f : α → β) : f <$> (Except.ok a : Except ε α) = .ok (f a) := rfl
@[simp] theorem map_error (e : ε) (f : α → β) :
    f <$> (Except.error e : Except ε α) = .error e := rfl

theorem bind_eq_ok {x : Except ε α} {f : α → Except ε β} {b : β} :
    (x >>= f) = .ok b ↔ ∃ a, x = .ok a ∧ f a = .ok b := by
  cases x with
  | error e => simp
  | ok a => simp

theorem guard_eq_ok {c : Prop} [Decidable c] {e : ε} {x : Except ε α} {a : α} :
    (if c then .error e else x) = .ok a ↔ ¬c ∧ x = .ok a := by
  by_cases h : c <;> simp [h]

end Results

namespace RgwError

def code : RgwError → Str
  | accessDenied => bytes "AccessDenied"
  | invalidAccessKeyId => bytes "InvalidAccessKeyId"
  | signatureDoesNotMatch => bytes "SignatureDoesNotMatch"
  | requestTimeTooSkewed => bytes "RequestTimeTooSkewed"
  | authorizationHeaderMalformed _ => bytes "AuthorizationHeaderMalformed"
  | xAmzContentSha256Mismatch => bytes "XAmzContentSHA256Mismatch"
  | badDigest => bytes "BadDigest"
  | invalidDigest => bytes "InvalidDigest"
  | userSuspended => bytes "UserSuspended"
  | entityTooLarge => bytes "EntityTooLarge"
  | missingContentLength => bytes "MissingContentLength"
  | noSuchUser => bytes "NoSuchUser"
  | userAlreadyExists => bytes "UserAlreadyExists"
  | keyExists => bytes "KeyExists"
  | noSuchBucket => bytes "NoSuchBucket"
  | bucketAlreadyExists => bytes "BucketAlreadyExists"
  | bucketAlreadyOwnedByYou => bytes "BucketAlreadyOwnedByYou"
  | bucketNotEmpty => bytes "BucketNotEmpty"
  | invalidBucketName => bytes "InvalidBucketName"
  | tooManyBuckets => bytes "TooManyBuckets"
  | noSuchKey => bytes "NoSuchKey"
  | invalidRange => bytes "InvalidRange"
  | invalidArgument _ => bytes "InvalidArgument"
  | invalidRequest _ => bytes "InvalidRequest"
  | malformedXml => bytes "MalformedXML"
  | methodNotAllowed => bytes "MethodNotAllowed"
  | notImplemented => bytes "NotImplemented"
  | internalError _ => bytes "InternalError"

def httpStatus : RgwError → ℕ
  | accessDenied | invalidAccessKeyId | signatureDoesNotMatch | requestTimeTooSkewed
  | userSuspended => 403
  | authorizationHeaderMalformed _ | xAmzContentSha256Mismatch | badDigest | invalidDigest
  | entityTooLarge | invalidBucketName | tooManyBuckets | invalidArgument _ | invalidRequest _
  | malformedXml => 400
  | noSuchUser | noSuchBucket | noSuchKey => 404
  | methodNotAllowed => 405
  | missingContentLength => 411
  | userAlreadyExists | keyExists | bucketAlreadyExists | bucketAlreadyOwnedByYou
  | bucketNotEmpty => 409
  | invalidRange => 416
  | internalError _ => 500
  | notImplemented => 501

/-- The text an error prints as. -/
def display : RgwError → Str
  | accessDenied => bytes "access denied"
  | invalidAccessKeyId => bytes "invalid access key id"
  | signatureDoesNotMatch => bytes "signature does not match"
  | requestTimeTooSkewed => bytes "request time too skewed"
  | authorizationHeaderMalformed w => bytes "authorization header malformed: " ++ w
  | xAmzContentSha256Mismatch => bytes "x-amz-content-sha256 does not match the payload"
  | badDigest => bytes "content-md5 does not match the payload"
  | invalidDigest => bytes "content-md5 is not valid base64"
  | userSuspended => bytes "user suspended"
  | entityTooLarge => bytes "entity too large"
  | missingContentLength => bytes "missing content length"
  | noSuchUser => bytes "no such user"
  | userAlreadyExists => bytes "user already exists"
  | keyExists => bytes "access key already exists"
  | noSuchBucket => bytes "no such bucket"
  | bucketAlreadyExists => bytes "bucket already exists"
  | bucketAlreadyOwnedByYou => bytes "bucket already owned by you"
  | bucketNotEmpty => bytes "bucket not empty"
  | invalidBucketName => bytes "invalid bucket name"
  | tooManyBuckets => bytes "too many buckets"
  | noSuchKey => bytes "no such key"
  | invalidRange => bytes "invalid range"
  | invalidArgument w => bytes "invalid argument: " ++ w
  | invalidRequest w => bytes "invalid request: " ++ w
  | malformedXml => bytes "malformed xml"
  | methodNotAllowed => bytes "method not allowed"
  | notImplemented => bytes "not implemented"
  | internalError w => bytes "internal error: " ++ w

end RgwError

end Errors

section UserIds

/-- A user id qualified by tenant: `tenant$id`, or a bare `id` in the empty tenant. -/
structure UserId where
  tenant : Str
  id : Str
  deriving DecidableEq, Inhabited

namespace UserId

def new (id : Str) : UserId := ⟨[], id⟩
def withTenant (tenant id : Str) : UserId := ⟨tenant, id⟩

def parse (s : Str) : UserId :=
  match splitOnce 36 s with
  | some (tenant, id) => withTenant tenant id
  | none => new s

def isEmpty (u : UserId) : Bool := u.id == []

def toString (u : UserId) : Str := if u.tenant = [] then u.id else u.tenant ++ 36 :: u.id

end UserId

end UserIds

section Caps

/-- A permission bit set of one byte. -/
structure CapPerm where
  bits : UInt8
  deriving DecidableEq

namespace CapPerm

def none : CapPerm := ⟨0⟩
def read : CapPerm := ⟨1⟩
def write : CapPerm := ⟨2⟩
def all : CapPerm := ⟨3⟩

def contains (p other : CapPerm) : Bool := p.bits &&& other.bits == other.bits
def union (p other : CapPerm) : CapPerm := ⟨p.bits ||| other.bits⟩
def difference (p other : CapPerm) : CapPerm := ⟨p.bits &&& ~~~other.bits⟩
def isNone (p : CapPerm) : Bool := p.bits == 0

def parsePart (part : Str) : RgwResult CapPerm :=
  if part = bytes "*" then .ok all
  else if part = bytes "read" then .ok read
  else if part = bytes "write" then .ok write
  else .error (.invalidArgument (bytes "invalid cap perm: " ++ part))

def parse (s : Str) : RgwResult CapPerm :=
  ((s.splitOn 44).map trim).foldlM (fun perm part => return perm.union (← parsePart part)) none

def toString (p : CapPerm) : Str :=
  if p = all then bytes "*"
  else if p = read then bytes "read"
  else if p = write then bytes "write"
  else bytes "<invalid>"

end CapPerm

def validCapTypes : List Str :=
  [bytes "user", bytes "users", bytes "bucket", bytes "buckets", bytes "metadata", bytes "info",
    bytes "usage", bytes "zone", bytes "bilog", bytes "mdlog", bytes "datalog", bytes "roles",
    bytes "user-policy", bytes "amz-cache", bytes "oidc-provider", bytes "ratelimit",
    bytes "user-info-without-keys", bytes "accounts"]

/-- Capability type to permission bits. -/
structure UserCaps where
  entries : Map CapPerm
  deriving DecidableEq

namespace UserCaps

def new : UserCaps := ⟨∅⟩

def add (caps : UserCaps) (cap : Str) (perm : CapPerm) : RgwResult UserCaps :=
  if cap ∈ validCapTypes then
    .ok ⟨caps.entries.insert cap ((caps.entries[cap]?.getD .none).union perm)⟩
  else .error (.invalidArgument (bytes "invalid cap type: " ++ cap))

def remove (caps : UserCaps) (cap : Str) (perm : CapPerm) : UserCaps :=
  match caps.entries[cap]? with
  | some entry =>
    let entry := entry.difference perm
    if entry.isNone then ⟨caps.entries.erase cap⟩ else ⟨caps.entries.insert cap entry⟩
  | none => caps

def addItem (caps : UserCaps) (item : Str) : RgwResult UserCaps :=
  match splitOnce 61 item with
  | some (cap, perm) => do
    let perm ← CapPerm.parse perm
    caps.add (trim cap) perm
  | none => .error (.invalidArgument (bytes "invalid cap: " ++ item))

def addFromString (caps : UserCaps) (s : Str) : RgwResult UserCaps :=
  (((s.splitOn 59).map trim).filter (· ≠ [])).foldlM addItem caps

def checkCap (caps : UserCaps) (cap : Str) (perm : CapPerm) : Bool :=
  caps.entries[cap]?.any fun held => held.contains perm

def iter (caps : UserCaps) : List (Str × CapPerm) := caps.entries.toList

end UserCaps

/-- One entry of the stored list of capabilities. -/
structure CapEntry where
  capType : Str
  perm : Str
  deriving DecidableEq

def UserCaps.serialize (caps : UserCaps) : List CapEntry :=
  caps.iter.map fun e => ⟨e.1, e.2.toString⟩

def UserCaps.deserialize (entries : List CapEntry) : RgwResult UserCaps :=
  entries.foldlM (fun caps e => do
    let perm ← CapPerm.parse e.perm
    caps.add e.capType perm) .new

end Caps

section Users

structure AccessKey where
  id : Str
  key : Str
  subuser : Str
  active : Bool
  createDate : Time
  deriving DecidableEq

structure UserInfo where
  userId : UserId
  displayName : Str
  userEmail : Str
  accessKeys : Map AccessKey
  caps : UserCaps
  suspended : Bool
  maxBuckets : ℤ
  system : Bool
  admin : Bool
  createDate : Time
  deriving DecidableEq

def rgwDefaultMaxBuckets : ℤ := 1000

namespace UserInfo

def new (userId : UserId) (displayName : Str) (now : Time) : UserInfo where
  userId := userId
  displayName := displayName
  userEmail := []
  accessKeys := ∅
  caps := .new
  suspended := false
  maxBuckets := rgwDefaultMaxBuckets
  system := false
  admin := false
  createDate := now

def addAccessKey (info : UserInfo) (key : AccessKey) : UserInfo :=
  { info with accessKeys := info.accessKeys.insert key.id key }

end UserInfo

/-- The document a user record is stored as. -/
structure UserDoc where
  userId : Str
  displayName : Str
  userEmail : Str
  accessKeys : Map AccessKey
  caps : List CapEntry
  suspended : Bool
  maxBuckets : ℤ
  system : Bool
  admin : Bool
  createDate : Time
  deriving DecidableEq

def UserInfo.serialize (info : UserInfo) : UserDoc where
  userId := info.userId.toString
  displayName := info.displayName
  userEmail := info.userEmail
  accessKeys := info.accessKeys
  caps := info.caps.serialize
  suspended := info.suspended
  maxBuckets := info.maxBuckets
  system := info.system
  admin := info.admin
  createDate := info.createDate

def UserInfo.deserialize (doc : UserDoc) : RgwResult UserInfo := do
  let caps ← UserCaps.deserialize doc.caps
  return {
    userId := UserId.parse doc.userId
    displayName := doc.displayName
    userEmail := doc.userEmail
    accessKeys := doc.accessKeys
    caps := caps
    suspended := doc.suspended
    maxBuckets := doc.maxBuckets
    system := doc.system
    admin := doc.admin
    createDate := doc.createDate }

end Users

section Buckets

structure BucketKey where
  tenant : Str
  name : Str
  bucketId : Str
  marker : Str
  deriving DecidableEq

def BucketKey.new (tenant name bucketId : Str) : BucketKey := ⟨tenant, name, bucketId, bucketId⟩

structure BucketInfo where
  bucket : BucketKey
  owner : UserId
  creationTime : Time
  placementRule : Str
  zonegroup : Str
  numShards : ℕ
  deriving DecidableEq

structure BucketStats where
  numObjects : ℕ
  size : ℕ
  deriving DecidableEq

structure BucketDoc where
  bucket : BucketKey
  owner : Str
  creationTime : Time
  placementRule : Str
  zonegroup : Str
  numShards : ℕ
  deriving DecidableEq

def BucketInfo.serialize (info : BucketInfo) : BucketDoc :=
  ⟨info.bucket, info.owner.toString, info.creationTime, info.placementRule, info.zonegroup,
    info.numShards⟩

def BucketInfo.deserialize (doc : BucketDoc) : BucketInfo :=
  ⟨doc.bucket, .parse doc.owner, doc.creationTime, doc.placementRule, doc.zonegroup,
    doc.numShards⟩

end Buckets

section Objects

def rgwAttrPrefix : Str := bytes "user.rgw."
def rgwAttrContentType : Str := bytes "user.rgw.content_type"
def rgwAttrMetaPrefix : Str := bytes "user.rgw.x-amz-meta-"

abbrev Attrs := Map Str

structure ObjectKey where
  name : Str
  /-- The version; empty throughout. -/
  inst : Str
  deriving DecidableEq

def ObjectKey.new (name : Str) : ObjectKey := ⟨name, []⟩

structure Owner where
  id : UserId
  displayName : Str
  deriving DecidableEq

structure ObjectInfo where
  key : ObjectKey
  size : ℕ
  etag : Str
  mtime : Time
  owner : Owner
  storageClass : Str
  attrs : Attrs
  deriving DecidableEq

namespace ObjectInfo

def contentType (info : ObjectInfo) : Option Str :=
  info.attrs[rgwAttrContentType]?.filter isUtf8

def userMetadata (info : ObjectInfo) : List (Str × Str) :=
  info.attrs.toList.filterMap fun e =>
    (e.1.dropPrefix? rgwAttrMetaPrefix).map fun suffix => (suffix, e.2)

end ObjectInfo

end Objects

end RgwTypes
