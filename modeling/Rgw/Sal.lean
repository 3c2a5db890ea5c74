import Rgw.Interaction
import Rgw.Types

/-! # The storage abstraction layer

A driver answers calls; one call is one transaction. The instant a written object is
stamped with is an argument of the call that writes it. -/
namespace RgwSal

open ByteStrings Interaction RgwTypes

def defaultMaxEntries : ℕ := 1000

/-- A payload as its chunks, which may break off with an error. -/
abbrev ObjectBody := List (Except Str Str)

def bodyFromBytes (data : Str) : ObjectBody := [.ok data]

def readBody (body : ObjectBody) : Except Str Str := do
  let chunks ← body.mapM id
  return chunks.flatten

structure ListParams where
  listPrefix : Str
  delimiter : Str
  marker : Str
  maxKeys : ℕ
  deriving DecidableEq

structure ListResult where
  objects : List ObjectInfo
  commonPrefixes : List Str
  isTruncated : Bool
  nextMarker : Str
  deriving DecidableEq

def ListResult.default : ListResult := ⟨[], [], false, []⟩

structure BucketList where
  buckets : List BucketInfo
  isTruncated : Bool
  nextMarker : Str
  deriving DecidableEq

inductive ByteRange where
  | absolute (start : ℕ) (end_ : Option ℕ)
  | suffix (len : ℕ)
  deriving DecidableEq

structure ObjectRead where
  info : ObjectInfo
  range : Option (ℕ × ℕ)
  body : ObjectBody
  deriving DecidableEq

inductive DriverCall where
  | loadUser (id : UserId)
  | loadUserByAccessKey (accessKey : Str)
  | loadUserByEmail (email : Str)
  | storeUser (info : UserInfo) (exclusive : Bool)
  | removeUser (id : UserId)
  | listUsers (marker : Str) (max : ℕ)
  | createBucket (info : BucketInfo)
  | loadBucket (tenant name : Str)
  | listBuckets (owner : Option UserId) (marker : Str) (max : ℕ)
  | removeBucket (tenant name : Str)
  | bucketStats (bucket : BucketKey)
  | listObjects (bucket : BucketKey) (params : ListParams)
  | headObject (bucket : BucketKey) (key : ObjectKey)
  | getObject (bucket : BucketKey) (key : ObjectKey) (range : Option ByteRange)
  | putObject (bucket : BucketKey) (key : ObjectKey) (owner : Owner) (attrs : Attrs)
      (body : ObjectBody) (now : Time)
  | deleteObject (bucket : BucketKey) (key : ObjectKey)

/-- What a call returns when it succeeds. -/
@[reducible] def DriverCall.Answer : DriverCall → Type
  | loadUser _ | loadUserByAccessKey _ | loadUserByEmail _ => UserInfo
  | storeUser _ _ | removeUser _ => Unit
  | listUsers _ _ => List UserId
  | createBucket _ | removeBucket _ _ => Unit
  | loadBucket _ _ => BucketInfo
  | listBuckets _ _ _ => BucketList
  | bucketStats _ => BucketStats
  | listObjects _ _ => ListResult
  | headObject _ _ => ObjectInfo
  | getObject _ _ _ => ObjectRead
  | putObject _ _ _ _ _ _ => ObjectInfo
  | deleteObject _ _ => Unit

abbrev Reply (c : DriverCall) := RgwResult c.Answer

/-- The bucket whose objects a call is about. -/
def objectBucket : DriverCall → Option BucketKey
  | .bucketStats bucket | .listObjects bucket _ | .headObject bucket _ | .getObject bucket _ _
  | .putObject bucket _ _ _ _ _ | .deleteObject bucket _ => some bucket
  | _ => none

/-- The body a call writes. -/
def writtenBody : DriverCall → Option ObjectBody
  | .putObject _ _ _ _ body _ => some body
  | _ => none

/-- An operation over the driver that fails with `ε`. -/
abbrev OpT (ε : Type) := ExceptT ε (Prog DriverCall Reply)
abbrev Op := OpT RgwError

/-- Issue a call and hand its reply on as a value. -/
def attempt {ε : Type} (c : DriverCall) : OpT ε (Reply c) := ExceptT.mk (.call c fun r => .done (.ok r))

/-- Issue a call and fail as it fails. -/
def invoke (c : DriverCall) : Op c.Answer := ExceptT.mk (.call c .done)

/-- Give up an unrolled loop. -/
def outOfFuel {ε α : Type} : OpT ε α := ExceptT.mk .cut

@[simp] theorem run_attempt {ε : Type} (c : DriverCall) :
    (attempt c : OpT ε (Reply c)).run = .call c fun r => .done (.ok r) := rfl
@[simp] theorem run_invoke (c : DriverCall) : (invoke c).run = .call c .done := rfl
@[simp] theorem run_outOfFuel {ε α : Type} : (outOfFuel : OpT ε α).run = .cut := rfl
@[simp] theorem run_lift {ε α : Type} (x : Except ε α) : (liftM x : OpT ε α).run = .done x := rfl
@[simp] theorem run_ok {ε α : Type} (a : α) : (pure a : OpT ε α).run = .done (.ok a) := rfl
@[simp] theorem run_fail {ε α : Type} (e : ε) : (throw e : OpT ε α).run = .done (.error e) := rfl

section Keeping

variable {d : Discipline DriverCall Reply} {h : List (Event DriverCall Reply)} {α β ε : Type}

/-- A program keeps to a discipline, whatever it returns. -/
def Keeps (d : Discipline DriverCall Reply) (h : List (Event DriverCall Reply))
    (p : Prog DriverCall Reply α) : Prop :=
  p.Obeys d (fun _ _ => True) h

theorem keeps_done (a : α) : Keeps d h (.done a) := trivial

theorem keeps_bind {x : OpT ε α} {f : α → OpT ε β}
    (hx : x.run.Obeys d (fun h' r => ∀ a, r = .ok a → Keeps d h' (f a).run) h) :
    Keeps d h (x >>= f).run := by
  refine obeys_except_bind.mpr (hx.mono fun h' r _ hr => ?_)
  cases r with
  | ok a => exact hr a rfl
  | error e => exact trivial

theorem keeps_lift_bind {x : Except ε α} {f : α → OpT ε β}
    (hf : ∀ a, x = .ok a → Keeps d h (f a).run) : Keeps d h ((liftM x : OpT ε α) >>= f).run :=
  keeps_bind hf

theorem keeps_invoke_bind {c : DriverCall} {f : c.Answer → Op β} (hc : d.allowed h c)
    (hf : ∀ a, Keeps d (⟨c, .ok a⟩ :: h) (f a).run) : Keeps d h (invoke c >>= f).run := by
  refine keeps_bind ⟨hc, fun r a hr => ?_⟩
  subst hr
  exact hf a

theorem keeps_attempt_bind {c : DriverCall} {f : Reply c → OpT ε β} (hc : d.allowed h c)
    (hf : ∀ r, Keeps d (⟨c, r⟩ :: h) (f r).run) : Keeps d h (attempt c >>= f).run := by
  refine keeps_bind ⟨hc, fun r a hr => ?_⟩
  cases hr
  exact hf r

theorem keeps_invoke {c : DriverCall} (hc : d.allowed h c) : Keeps d h (invoke c).run :=
  ⟨hc, fun _ => trivial⟩

end Keeping

end RgwSal
