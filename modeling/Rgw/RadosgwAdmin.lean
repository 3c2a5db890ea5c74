import Rgw.RestAdmin
import Rgw.UserEnumeration

/-! # The admin command line

Its commands talk to the driver themselves and share their operations with the admin API. The
arguments arrive parsed, and the draws of an operation are inputs of the process. -/
namespace RadosgwAdmin

open ByteStrings Interaction RgwTypes RgwSal Http RgwAdminOps RestAdmin

section Arguments

/-- A number of 32 bits, as a flag takes one. -/
abbrev I32 := {n : ℤ // -2 ^ 31 ≤ n ∧ n < 2 ^ 31}

/-- A count of 64 bits, as a flag takes one. -/
abbrev Usize := {n : ℕ // n < 2 ^ 64}

/-- The flags of the commands about users; each command reads the ones it needs. -/
structure UserFlags where
  uid : Option Str
  displayName : Option Str
  email : Option Str
  accessKey : Option Str
  secretKey : Option Str
  genAccessKey : Bool
  genSecret : Bool
  caps : Option Str
  maxBuckets : Option I32
  suspended : Option Bool
  system : Option Bool
  admin : Option Bool
  purgeData : Bool

namespace UserFlags

/-- Every flag left out. -/
def default : UserFlags :=
  ⟨none, none, none, none, none, false, false, none, none, none, none, none, false⟩

variable (f : UserFlags)

/-- The uid that a command asks its flags for. -/
def parsedUid : RgwResult UserId :=
  match f.uid with
  | some uid =>
    if uid ≠ [] then .ok (.parse uid) else .error (.invalidArgument (bytes "--uid is required"))
  | none => .error (.invalidArgument (bytes "--uid is required"))

def generate : Bool := f.genAccessKey || f.genSecret

end UserFlags

/-- A truth value of a flag, or the text that refuses it. -/
def parseBool (s : Str) : Except Str Bool :=
  if s = bytes "true" ∨ s = bytes "yes" ∨ s = bytes "1" then .ok true
  else if s = bytes "false" ∨ s = bytes "no" ∨ s = bytes "0" then .ok false
  else .error (bytes "not a boolean: " ++ s)

inductive UserOp where
  | create (f : UserFlags)
  | info (f : UserFlags)
  | modify (f : UserFlags)
  | rm (f : UserFlags)
  | list (marker : Option Str) (maxEntries : Option Usize)

inductive KeyOp where
  | create (f : UserFlags)
  | rm (f : UserFlags)

inductive CapsOp where
  | add (f : UserFlags)
  | rm (f : UserFlags)

inductive BucketOp where
  | list (uid : Option Str)
  | stats (bucket : Str)
  | rm (bucket : Str) (purgeObjects : Bool)

inductive Command where
  | user (op : UserOp)
  | key (op : KeyOp)
  | caps (op : CapsOp)
  | bucket (op : BucketOp)

end Arguments

section Commands

/-- What a command prints: a document, or nothing. -/
abbrev Output := Option Value

variable (P : Platform) (env : AdminEnv)

/-- Without `--max-entries` the ids of all pages, in one array. -/
def listAllUsers (marker : Str) : Op Value := do
  let ids ← UserEnumeration.listAllUsers env.fuel marker []
  return .array (ids.map .string)

def user : UserOp → Op Output
  | .create f => do
    let uid ← f.parsedUid
    let info ← userCreate env.draws {
      uid := uid
      displayName := f.displayName.getD []
      email := f.email
      accessKey := f.accessKey
      secretKey := f.secretKey
      generateKey := if f.generate then some true else none
      caps := f.caps
      maxBuckets := f.maxBuckets.map (·.val)
      suspended := f.suspended
      system := f.system
      admin := f.admin }
    return some (Dump.userInfo P info)
  | .info f => do
    let uid ← f.parsedUid
    let info ← userInfo uid
    return some (Dump.userInfo P info)
  | .modify f => do
    let uid ← f.parsedUid
    let info ← userModify env.draws {
      uid := uid
      displayName := f.displayName
      email := f.email
      maxBuckets := f.maxBuckets.map (·.val)
      suspended := f.suspended
      system := f.system
      admin := f.admin
      accessKey := f.accessKey
      secretKey := f.secretKey
      generateKey := f.generate }
    return some (Dump.userInfo P info)
  | .rm f => do
    let uid ← f.parsedUid
    userRemove env.fuel uid f.purgeData
    return none
  | .list marker maxEntries => do
    let marker := marker.getD []
    match maxEntries with
    | some max =>
      let page ← userList marker max.val
      return some (Dump.userList page.ids page.truncated page.nextMarker)
    | none =>
      let ids ← listAllUsers env marker
      return some ids

/-- A key that is not named is generated. -/
def key : KeyOp → Op Output
  | .create f => do
    let generate := f.generate || f.accessKey.isNone
    let uid ← f.parsedUid
    let info ← keyCreate env.draws uid f.accessKey f.secretKey generate
    return some (Dump.userInfo P info)
  | .rm f => do
    let uid ← f.parsedUid
    let info ← keyRemove uid (f.accessKey.getD [])
    return some (Dump.userInfo P info)

def caps : CapsOp → Op Output
  | .add f => do
    let uid ← f.parsedUid
    let info ← capsAdd uid (f.caps.getD [])
    return some (Dump.userInfo P info)
  | .rm f => do
    let uid ← f.parsedUid
    let info ← capsRemove uid (f.caps.getD [])
    return some (Dump.userInfo P info)

def bucket : BucketOp → Op Output
  | .list uid => do
    let owner := (nonempty uid).map UserId.parse
    let buckets ← bucketList env.fuel owner
    return some (.array (buckets.map fun b => .string b.bucket.name))
  | .stats bucket => do
    let (tenant, name) := parseBucket bucket
    let (info, stats) ← bucketInfo tenant name
    return some (Dump.bucketInfo P info (some stats))
  | .rm bucket purgeObjects => do
    let (tenant, name) := parseBucket bucket
    bucketRemove env.fuel tenant name purgeObjects
    return none

def run : Command → Op Output
  | .user op => user P env op
  | .key op => key P env op
  | .caps op => caps P op
  | .bucket op => bucket P env op

end Commands

section Process

/-- What the process leaves: a document or nothing and success, or a complaint and failure. -/
inductive Outcome where
  | success (stdout : Output)
  | failure (stderr : Str)

def Outcome.exitCode : Outcome → ℕ
  | .success _ => 0
  | .failure _ => 1

def report : RgwResult Output → Outcome
  | .ok doc => .success doc
  | .error e => .failure (bytes "ERROR: " ++ e.code ++ bytes ": " ++ e.display)

def main (P : Platform) (env : AdminEnv) (command : Command) : Prog DriverCall Reply Outcome := do
  let result ← (run P env command).run
  return report result

end Process

end RadosgwAdmin
