import Rgw.Sal
import Mathlib.Data.List.Sort

/-! # The SQLite driver

The four tables, the statements with the constraints they are checked against, and the
driver methods. A transaction that fails leaves the tables as they were. -/
namespace RgwSalSqlite

open ByteStrings TextCodecs SortedMaps Interaction RgwTypes RgwSal

structure UserRow where
  email : Option Str
  info : UserDoc
  deriving DecidableEq

structure BucketRow where
  tenant : Str
  name : Str
  owner : Str
  info : BucketDoc
  deriving DecidableEq

structure ObjectCols where
  size : ℤ
  etag : Str
  mtime : Time
  ownerId : Str
  ownerDisplay : Str
  storageClass : Str
  attrs : Attrs
  data : Str
  deriving DecidableEq

structure Tables where
  users : Map UserRow
  /-- The uid an access key belongs to. -/
  accessKeys : Map Str
  buckets : Map BucketRow
  /-- By bucket id and name. -/
  objects : PairMap ObjectCols
  deriving DecidableEq

def Tables.empty : Tables := ⟨∅, ∅, ∅, ∅⟩

section Statements

abbrev Tx := StateT Tables RgwResult

/-- Commit on success, roll back on failure. -/
def withTx {α : Type} (f : Tx α) (s : Tables) : RgwResult α × Tables :=
  match f.run s with
  | .ok (a, s') => (.ok a, s')
  | .error e => (.error e, s)

def internal (what : String) : RgwError := .internalError (bytes what)

def foreignKeyFailed : RgwError := internal "FOREIGN KEY constraint failed"

def upsertUser (uid : Str) (row : UserRow) : Tx Unit :=
  modify fun s => { s with users := s.users.insert uid row }

def deleteAccessKeys (uid : Str) : Tx Unit :=
  modify fun s => { s with accessKeys := s.accessKeys.filter fun _ u => u ≠ uid }

def insertAccessKey (uid key : Str) : Tx Unit := do
  let s ← get
  if key ∈ s.accessKeys then throw (internal "UNIQUE constraint failed: access_keys.access_key")
  if uid ∉ s.users then throw foreignKeyFailed
  set { s with accessKeys := s.accessKeys.insert key uid }

/-- The row of a bucket name. -/
def Tables.bucketNamed (s : Tables) (tenant name : Str) : Option (Str × BucketRow) :=
  s.buckets.toList.find? fun r => r.2.tenant = tenant ∧ r.2.name = name

def insertBucket (id : Str) (row : BucketRow) : Tx Unit := do
  let s ← get
  if id ∈ s.buckets then throw (internal "UNIQUE constraint failed: buckets.bucket_id")
  if (s.bucketNamed row.tenant row.name).isSome then
    throw (internal "UNIQUE constraint failed: buckets.tenant, buckets.name")
  set { s with buckets := s.buckets.insert id row }

/-- The object rows of one bucket in name order. -/
def Tables.objectsOf (s : Tables) (bucketId : Str) : List (Str × ObjectCols) :=
  (s.objects.toList.filter fun r => r.1.1 = bucketId).map fun r => (r.1.2, r.2)

def deleteBucket (id : Str) : Tx Unit := do
  let s ← get
  if s.objectsOf id ≠ [] then throw foreignKeyFailed
  set { s with buckets := s.buckets.erase id }

def replaceObject (bucketId name : Str) (row : ObjectCols) : Tx Unit := do
  let s ← get
  if bucketId ∉ s.buckets then throw foreignKeyFailed
  set { s with objects := s.objects.insert (bucketId, name) row }

end Statements

section Conversions

def fromJson (doc : UserDoc) : RgwResult UserInfo :=
  (UserInfo.deserialize doc).mapError fun e => .internalError e.display

def outOfRange : RgwError := internal "out of range integral type conversion attempted"

def toI64 (n : ℕ) : RgwResult ℤ := if n < 2 ^ 63 then .ok n else .error outOfRange
def toU64 (n : ℤ) : RgwResult ℕ := if 0 ≤ n then .ok n.toNat else .error outOfRange

def pageSize (max : ℕ) : ℕ := if max = 0 then defaultMaxEntries else max

theorem pageSize_pos (max : ℕ) : 0 < pageSize max := by
  rw [pageSize, defaultMaxEntries]
  split <;> omega

/-- The columns an object row is read from. -/
structure ObjectRow where
  name : Str
  size : ℤ
  etag : Str
  mtime : Time
  ownerId : Str
  ownerDisplay : Str
  storageClass : Str
  attrs : Attrs
  deriving DecidableEq

def ObjectRow.fromRow (name : Str) (c : ObjectCols) : ObjectRow :=
  ⟨name, c.size, c.etag, c.mtime, c.ownerId, c.ownerDisplay, c.storageClass, c.attrs⟩

def ObjectRow.intoInfo (row : ObjectRow) : RgwResult ObjectInfo := do
  let size ← toU64 row.size
  return {
    key := .new row.name
    size := size
    etag := row.etag
    mtime := row.mtime
    owner := ⟨.parse row.ownerId, row.ownerDisplay⟩
    storageClass := row.storageClass
    attrs := row.attrs }

end Conversions

section UserMethods

def userBy (row : Option UserRow) : RgwResult UserInfo :=
  match row with
  | some row => fromJson row.info
  | none => .error .noSuchUser

def loadUser (id : UserId) (s : Tables) : RgwResult UserInfo := userBy s.users[id.toString]?

def loadUserByAccessKey (accessKey : Str) (s : Tables) : RgwResult UserInfo :=
  userBy (s.accessKeys[accessKey]?.bind fun uid => s.users[uid]?)

def loadUserByEmail (email : Str) (s : Tables) : RgwResult UserInfo :=
  if email = [] then .error .noSuchUser
  else userBy ((s.users.toList.find? fun r => r.2.email = some email).map Prod.snd)

def checkKeyOwner (uid key : Str) : Tx Unit := do
  if (← get).accessKeys[key]?.any (· ≠ uid) then throw .keyExists

def emailColumn (info : UserInfo) : Option Str :=
  if info.userEmail = [] then none else some info.userEmail

def storeUser (info : UserInfo) (exclusive : Bool) : Tx Unit := do
  let uid := info.userId.toString
  if exclusive && uid ∈ (← get).users then throw .userAlreadyExists
  info.accessKeys.keys.forM (checkKeyOwner uid)
  upsertUser uid ⟨emailColumn info, info.serialize⟩
  deleteAccessKeys uid
  info.accessKeys.keys.forM (insertAccessKey uid)

/-- The key rows of a removed user go with it. -/
def removeUser (id : UserId) : Tx Unit := do
  let s ← get
  if id.toString ∉ s.users then throw .noSuchUser
  set { s with
    users := s.users.erase id.toString
    accessKeys := s.accessKeys.filter fun _ u => u ≠ id.toString }

def listUsers (marker : Str) (max : ℕ) (s : Tables) : RgwResult (List UserId) := do
  let limit ← toI64 (pageSize max)
  return ((s.users.keys.filter (marker < ·)).take limit.toNat).map UserId.parse

end UserMethods

section BucketMethods

def createBucket (info : BucketInfo) : Tx Unit := do
  let b := info.bucket
  let s ← get
  if b.bucketId ∈ s.buckets || (s.bucketNamed b.tenant b.name).isSome then
    throw .bucketAlreadyExists
  insertBucket b.bucketId ⟨b.tenant, b.name, info.owner.toString, info.serialize⟩

def loadBucket (tenant name : Str) (s : Tables) : RgwResult BucketInfo :=
  match s.bucketNamed tenant name with
  | some (_, row) => .ok (.deserialize row.info)
  | none => .error .noSuchBucket

/-- By name, then by tenant. -/
def nameTenantLe (a b : BucketRow) : Prop := a.name < b.name ∨ a.name = b.name ∧ a.tenant ≤ b.tenant

instance : DecidableRel nameTenantLe := fun a b =>
  inferInstanceAs (Decidable (a.name < b.name ∨ a.name = b.name ∧ a.tenant ≤ b.tenant))

def bucketPage (max : ℕ) : List BucketRow → BucketList → BucketList
  | [], out => out
  | row :: rows, out =>
    let info := BucketInfo.deserialize row.info
    if out.buckets.length = max then { out with isTruncated := true }
    else bucketPage max rows
      { out with nextMarker := info.bucket.name, buckets := out.buckets ++ [info] }

def listBuckets (owner : Option UserId) (marker : Str) (max : ℕ) (s : Tables) :
    RgwResult BucketList := do
  let limit ← toI64 (pageSize max + 1)
  let rows := (s.buckets.toList.map Prod.snd).filter fun r =>
    marker < r.name ∧ owner.all fun u => r.owner = u.toString
  return bucketPage (pageSize max) ((rows.insertionSort nameTenantLe).take limit.toNat) ⟨[], false, []⟩

def removeBucket (tenant name : Str) : Tx Unit := do
  let s ← get
  match s.bucketNamed tenant name with
  | none => throw .noSuchBucket
  | some (id, _) =>
    if s.objectsOf id ≠ [] then throw .bucketNotEmpty
    deleteBucket id

end BucketMethods

section ObjectMethods

def checkBucket (bucketId : Str) (s : Tables) : RgwResult Unit :=
  if bucketId ∈ s.buckets then .ok () else .error .noSuchBucket

def bucketStats (bucket : BucketKey) (s : Tables) : RgwResult BucketStats := do
  checkBucket bucket.bucketId s
  let sizes := (s.objectsOf bucket.bucketId).map fun r => r.2.size
  if 2 ^ 63 ≤ sizes.sum then throw (internal "integer overflow")
  let size ← toU64 sizes.sum
  return ⟨sizes.length, size⟩

def loadObject (bucketId name : Str) (s : Tables) : RgwResult ObjectInfo := do
  checkBucket bucketId s
  match s.objects[(bucketId, name)]? with
  | some row => (ObjectRow.fromRow name row).intoInfo
  | none => .error .noSuchKey

/-- `length` of a text: its code points before the first U+0000. -/
def sqlLength (s : Str) : ℕ := ((s.takeWhile (· ≠ 0)).filter fun b => !isTail b).length

/-- `substr` of a text from its first code point, not past its first U+0000. -/
def sqlSubstr : ℕ → Str → Str
  | 0, _ => []
  | _, [] => []
  | n + 1, b :: l =>
    if b = 0 then [] else b :: l.takeWhile isTail ++ sqlSubstr n (l.dropWhile isTail)

def rowFilter (params : ListParams) (name : Str) : Bool :=
  params.marker < name ∧ params.listPrefix ≤ name ∧
    sqlSubstr (sqlLength params.listPrefix) name = params.listPrefix

/-- What a row rolls up to: the text through the first delimiter after the prefix. -/
def commonPrefix (params : ListParams) (name rest : Str) : Option Str :=
  if params.delimiter = [] then none
  else (findSub params.delimiter rest).map fun i =>
    name.take (params.listPrefix.length + i + params.delimiter.length)

def listPageLoop (params : ListParams) :
    List ObjectRow → ListResult → Option Str → RgwResult ListResult
  | [], out, _ => .ok out
  | row :: rows, out, lastPrefix =>
    match row.name.dropPrefix? params.listPrefix with
    | none => listPageLoop params rows out lastPrefix
    | some rest =>
      match commonPrefix params row.name rest with
      | some cp =>
        if lastPrefix = some cp ∨ cp ≤ params.marker then listPageLoop params rows out lastPrefix
        else if pageSize params.maxKeys ≤ out.objects.length + out.commonPrefixes.length then
          .ok { out with isTruncated := true }
        else listPageLoop params rows
          { out with nextMarker := cp, commonPrefixes := out.commonPrefixes ++ [cp] } (some cp)
      | none =>
        if pageSize params.maxKeys ≤ out.objects.length + out.commonPrefixes.length then
          .ok { out with isTruncated := true }
        else do
          let info ← row.intoInfo
          listPageLoop params rows
            { out with nextMarker := row.name, objects := out.objects ++ [info] } lastPrefix

def listPage (rows : List ObjectRow) (params : ListParams) : RgwResult ListResult :=
  listPageLoop params rows .default none

def listObjects (bucket : BucketKey) (params : ListParams) (s : Tables) : RgwResult ListResult := do
  checkBucket bucket.bucketId s
  let rows := (s.objectsOf bucket.bucketId).filter fun r => rowFilter params r.1
  listPage (rows.map fun r => .fromRow r.1 r.2) params

def resolveRange (range : ByteRange) (size : ℕ) : RgwResult (ℕ × ℕ) :=
  if size = 0 then .error .invalidRange
  else
    let last := size - 1
    match range with
    | .absolute start end_ =>
      let end_ := end_.elim last fun e => min e last
      if start > last ∨ end_ < start then .error .invalidRange else .ok (start, end_)
    | .suffix 0 => .error .invalidRange
    | .suffix n => .ok (size - min n size, last)

/-- `substr` of a non-empty blob from a one-based offset; of an empty one it is no blob. -/
def substrBlob (data : Str) (start len : ℤ) : RgwResult Str :=
  if data = [] then .error (internal "Invalid column type Null at index: 0, name: substr(data, ?3, ?4)")
  else .ok ((data.drop (start.toNat - 1)).take len.toNat)

def getObject (bucket : BucketKey) (key : ObjectKey) (range : Option ByteRange) (s : Tables) :
    RgwResult ObjectRead := do
  let info ← loadObject bucket.bucketId key.name s
  let range ← range.mapM fun r => resolveRange r info.size
  let (start, len) ← match range with
    | some (first, last) => do
      let start ← toI64 (first + 1)
      let len ← toI64 (last - first + 1)
      pure (start, len)
    | none => do
      let len ← toI64 info.size
      pure (1, len)
  if len = 0 then return ⟨info, range, bodyFromBytes []⟩
  match s.objects[(bucket.bucketId, key.name)]? with
  | none => .error (internal "Query returned no rows")
  | some row =>
    let data ← substrBlob row.data start len
    return ⟨info, range, bodyFromBytes data⟩

def headObject (bucket : BucketKey) (key : ObjectKey) (s : Tables) : RgwResult ObjectInfo :=
  loadObject bucket.bucketId key.name s

/-- The storage class every object gets. -/
def standard : Str := bytes "STANDARD"

def putObject (md5 : Str → Str) (bucket : BucketKey) (key : ObjectKey) (owner : Owner)
    (attrs : Attrs) (body : ObjectBody) (now : Time) : Tx ObjectInfo := do
  let data ← (readBody body).mapError fun e => RgwError.internalError e
  let info : ObjectInfo := {
    key := .new key.name
    size := data.length
    etag := hexEncode (md5 data)
    mtime := now
    owner := owner
    storageClass := standard
    attrs := attrs }
  let size ← toI64 info.size
  checkBucket bucket.bucketId (← get)
  replaceObject bucket.bucketId info.key.name
    ⟨size, info.etag, info.mtime, info.owner.id.toString, info.owner.displayName,
      info.storageClass, info.attrs, data⟩
  return info

def deleteObject (bucket : BucketKey) (key : ObjectKey) : Tx Unit := do
  let s ← get
  checkBucket bucket.bucketId s
  if (bucket.bucketId, key.name) ∉ s.objects then throw .noSuchKey
  set { s with objects := s.objects.erase (bucket.bucketId, key.name) }

end ObjectMethods

/-- A read: nothing changes. -/
def query {α : Type} (f : Tables → RgwResult α) (s : Tables) : RgwResult α × Tables := (f s, s)

/-- The driver. -/
def exec (md5 : Str → Str) : Exec DriverCall Reply Tables
  | .loadUser id => query (loadUser id)
  | .loadUserByAccessKey accessKey => query (loadUserByAccessKey accessKey)
  | .loadUserByEmail email => query (loadUserByEmail email)
  | .storeUser info exclusive => withTx (storeUser info exclusive)
  | .removeUser id => withTx (removeUser id)
  | .listUsers marker max => query (listUsers marker max)
  | .createBucket info => withTx (createBucket info)
  | .loadBucket tenant name => query (loadBucket tenant name)
  | .listBuckets owner marker max => query (listBuckets owner marker max)
  | .removeBucket tenant name => withTx (removeBucket tenant name)
  | .bucketStats bucket => query (bucketStats bucket)
  | .listObjects bucket params => query (listObjects bucket params)
  | .headObject bucket key => query (headObject bucket key)
  | .getObject bucket key range => query (getObject bucket key range)
  | .putObject bucket key owner attrs body now =>
    withTx (putObject md5 bucket key owner attrs body now)
  | .deleteObject bucket key => withTx (deleteObject bucket key)

end RgwSalSqlite
