import Rgw.Sal

/-! # The admin operations

Each is a program over the driver. Generated keys and clock readings are inputs, and a
paging loop runs under a limit on its rounds. -/
namespace RgwAdminOps

open ByteStrings TextCodecs RgwTypes RgwSal

section Buckets

def parseBucket (s : Str) : Str × Str := (splitOnce 47 s).getD ([], s)

def requireName (name : Str) : Op Unit :=
  if name = [] then throw (.invalidArgument (bytes "bucket is required")) else pure ()

def listAllBucketsLoop (owner : Option UserId) : ℕ → Str → List BucketInfo → Op (List BucketInfo)
  | 0, _, _ => outOfFuel
  | fuel + 1, marker, out => do
    let page ← invoke (.listBuckets owner marker 0)
    let out := out ++ page.buckets
    if !page.isTruncated then return out
    if page.nextMarker = [] ∨ page.nextMarker = marker then
      throw (.internalError (bytes "bucket listing did not advance"))
    listAllBucketsLoop owner fuel page.nextMarker out

def listAllBuckets (fuel : ℕ) (owner : Option UserId) : Op (List BucketInfo) :=
  listAllBucketsLoop owner fuel [] []

/-- Delete the objects of one page; one already gone is no failure. -/
def purgePage (bucket : BucketKey) : List ObjectInfo → Op Unit
  | [] => pure ()
  | obj :: objects => do
    match ← attempt (.deleteObject bucket obj.key) with
    | .ok () | .error .noSuchKey => purgePage bucket objects
    | .error e => throw e

def purgeObjects (bucket : BucketKey) : ℕ → Str → Op Unit
  | 0, _ => outOfFuel
  | fuel + 1, marker => do
    let page ← invoke (.listObjects bucket ⟨[], [], marker, 0⟩)
    purgePage bucket page.objects
    if !page.isTruncated then return ()
    if page.nextMarker = [] ∨ page.nextMarker = marker then
      throw (.internalError (bytes "object listing did not advance"))
    purgeObjects bucket fuel page.nextMarker

def bucketInfo (tenant name : Str) : Op (BucketInfo × BucketStats) := do
  requireName name
  let info ← invoke (.loadBucket tenant name)
  let stats ← invoke (.bucketStats info.bucket)
  return (info, stats)

def bucketList (fuel : ℕ) (owner : Option UserId) : Op (List BucketInfo) := listAllBuckets fuel owner

def bucketRemove (fuel : ℕ) (tenant name : Str) (purge : Bool) : Op Unit := do
  requireName name
  if purge then
    let info ← invoke (.loadBucket tenant name)
    purgeObjects info.bucket fuel []
  invoke (.removeBucket tenant name)

end Buckets

section Users

/-- What an operation draws from the clock and the key generator. -/
structure Draws where
  now : Time
  keyNow : Time
  /-- The access keys generated one after another. -/
  accessKey : ℕ → Str
  secretKey : Str

structure UserCreateParams where
  uid : UserId
  displayName : Str
  email : Option Str
  accessKey : Option Str
  secretKey : Option Str
  generateKey : Option Bool
  caps : Option Str
  maxBuckets : Option ℤ
  suspended : Option Bool
  system : Option Bool
  admin : Option Bool

structure UserModifyParams where
  uid : UserId
  displayName : Option Str
  email : Option Str
  maxBuckets : Option ℤ
  suspended : Option Bool
  system : Option Bool
  admin : Option Bool
  accessKey : Option Str
  secretKey : Option Str
  generateKey : Bool

structure UserList where
  ids : List UserId
  truncated : Bool
  nextMarker : Str
  deriving DecidableEq

def keygenAttempts : ℕ := 10

def nonempty (s : Option Str) : Option Str := s.filter (· ≠ [])

def requireUid (uid : UserId) : Op Unit :=
  if uid.isEmpty then throw (.invalidArgument (bytes "uid is required")) else pure ()

def ensureEmailFree (uid : UserId) (email : Str) : Op Unit := do
  match ← attempt (.loadUserByEmail email) with
  | .ok other => if other.userId ≠ uid then throw .userAlreadyExists
  | .error .noSuchUser => pure ()
  | .error e => throw e

def ensureKeyFree (uid : UserId) (accessKey : Str) : Op Unit := do
  match ← attempt (.loadUserByAccessKey accessKey) with
  | .ok other => if other.userId ≠ uid then throw .keyExists
  | .error .noSuchUser => pure ()
  | .error e => throw e

def unusedAccessKeyLoop (draws : Draws) : ℕ → ℕ → Op Str
  | 0, _ => throw (.internalError (bytes "could not generate a unique access key"))
  | attempts + 1, i => do
    match ← attempt (.loadUserByAccessKey (draws.accessKey i)) with
    | .error .noSuchUser => return draws.accessKey i
    | .ok _ => unusedAccessKeyLoop draws attempts (i + 1)
    | .error e => throw e

def unusedAccessKey (draws : Draws) : Op Str := unusedAccessKeyLoop draws keygenAttempts 0

def putKey (draws : Draws) (info : UserInfo) (accessKey secretKey : Option Str) (generate : Bool) :
    Op UserInfo := do
  let id ← match accessKey with
    | some id => do
      ensureKeyFree info.userId id
      pure id
    | none =>
      if generate then unusedAccessKey draws
      else throw (.invalidArgument (bytes "access-key is required"))
  let key ← match secretKey with
    | some key => pure key
    | none =>
      if generate then pure draws.secretKey
      else throw (.invalidArgument (bytes "secret-key is required"))
  return info.addAccessKey ⟨id, key, [], true, draws.keyNow⟩

abbrev KeyRequest := Option Str × Option Str × Bool

def keyRequest (accessKey secretKey : Option Str) (generate : Bool) : Op (Option KeyRequest) :=
  match accessKey, secretKey, generate with
  | none, none, false => pure none
  | some _, none, false | none, some _, false =>
    throw (.invalidArgument (bytes "access-key and secret-key must be given together"))
  | a, s, g => pure (some (a, s, g))

def putRequestedKey (draws : Draws) (info : UserInfo) : Option KeyRequest → Op UserInfo
  | none => pure info
  | some (a, s, g) => putKey draws info a s g

def userCreate (draws : Draws) (params : UserCreateParams) : Op UserInfo := do
  requireUid params.uid
  if params.displayName = [] then throw (.invalidArgument (bytes "display-name is required"))
  let accessKey := nonempty params.accessKey
  let secretKey := nonempty params.secretKey
  let generate := params.generateKey.getD (accessKey.isNone && secretKey.isNone)
  let key ← keyRequest accessKey secretKey generate
  let info := UserInfo.new params.uid params.displayName draws.now
  let info ← match nonempty params.caps with
    | none => pure info
    | some caps => do
      let caps ← info.caps.addFromString caps
      pure { info with caps := caps }
  let info ← match nonempty params.email with
    | none => pure info
    | some email => do
      ensureEmailFree info.userId email
      pure { info with userEmail := email }
  let info := { info with
    maxBuckets := params.maxBuckets.getD info.maxBuckets
    suspended := params.suspended.getD false
    system := params.system.getD false
    admin := params.admin.getD false }
  let info ← putRequestedKey draws info key
  invoke (.storeUser info true)
  return info

def userInfo (uid : UserId) : Op UserInfo := do
  requireUid uid
  invoke (.loadUser uid)

def userModify (draws : Draws) (params : UserModifyParams) : Op UserInfo := do
  requireUid params.uid
  let key ← keyRequest (nonempty params.accessKey) (nonempty params.secretKey) params.generateKey
  let info ← invoke (.loadUser params.uid)
  let info ← match params.displayName with
    | none => pure info
    | some name =>
      if name = [] then throw (.invalidArgument (bytes "display-name must not be empty"))
      else pure { info with displayName := name }
  let info ← match params.email with
    | none => pure info
    | some email => do
      if email ≠ [] then ensureEmailFree info.userId email
      pure { info with userEmail := email }
  let info := { info with
    maxBuckets := params.maxBuckets.getD info.maxBuckets
    suspended := params.suspended.getD info.suspended
    system := params.system.getD info.system
    admin := params.admin.getD info.admin }
  let info ← putRequestedKey draws info key
  invoke (.storeUser info false)
  return info

/-- Purge and remove each of a user's buckets. -/
def purgeBuckets (fuel : ℕ) : List BucketInfo → Op Unit
  | [] => pure ()
  | bucket :: buckets => do
    purgeObjects bucket.bucket fuel []
    invoke (.removeBucket bucket.bucket.tenant bucket.bucket.name)
    purgeBuckets fuel buckets

def userRemove (fuel : ℕ) (uid : UserId) (purgeData : Bool) : Op Unit := do
  requireUid uid
  let _ ← invoke (.loadUser uid)
  if !purgeData then
    let first ← invoke (.listBuckets (some uid) [] 1)
    if first.buckets ≠ [] then
      throw (.invalidRequest (bytes "user has buckets; use purge-data"))
  else
    let buckets ← listAllBuckets fuel (some uid)
    purgeBuckets fuel buckets
  invoke (.removeUser uid)

def userList (marker : Str) (max : ℕ) : Op UserList := do
  let max := if max = 0 then defaultMaxEntries else min max defaultMaxEntries
  let ids ← invoke (.listUsers marker (max + 1))
  let truncated := decide (max < ids.length)
  let ids := ids.take max
  let nextMarker := match ids.getLast? with
    | some last => if truncated then last.toString else []
    | none => []
  return ⟨ids, truncated, nextMarker⟩

def keyCreate (draws : Draws) (uid : UserId) (accessKey secretKey : Option Str) (generate : Bool) :
    Op UserInfo := do
  requireUid uid
  let info ← invoke (.loadUser uid)
  let info ← putKey draws info (nonempty accessKey) (nonempty secretKey) generate
  invoke (.storeUser info false)
  return info

def keyRemove (uid : UserId) (accessKey : Str) : Op UserInfo := do
  requireUid uid
  if accessKey = [] then throw (.invalidArgument (bytes "access-key is required"))
  let info ← invoke (.loadUser uid)
  if accessKey ∉ info.accessKeys then throw .invalidAccessKeyId
  let info := { info with accessKeys := info.accessKeys.erase accessKey }
  invoke (.storeUser info false)
  return info

def parseCaps (caps : Str) : RgwResult UserCaps :=
  if trim caps = [] then .error (.invalidArgument (bytes "user-caps is required"))
  else UserCaps.new.addFromString caps

def capsAdd (uid : UserId) (caps : Str) : Op UserInfo := do
  requireUid uid
  let parsed ← parseCaps caps
  let info ← invoke (.loadUser uid)
  let caps ← parsed.iter.foldlM (fun caps e => caps.add e.1 e.2) info.caps
  let info := { info with caps := caps }
  invoke (.storeUser info false)
  return info

def capsRemove (uid : UserId) (caps : Str) : Op UserInfo := do
  requireUid uid
  let parsed ← parseCaps caps
  let info ← invoke (.loadUser uid)
  let info := { info with
    caps := parsed.iter.foldl (fun caps e => caps.remove e.1 e.2) info.caps }
  invoke (.storeUser info false)
  return info

end Users

end RgwAdminOps
