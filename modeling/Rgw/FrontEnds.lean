import Rgw.AdminPrivileges
import Rgw.Lockstep
import Rgw.RadosgwAdmin
import Rgw.SalSqlite

/-! # Two front ends

The command line and the admin API are two ways to the same operations. A command and the
request that asks for the same thing make the same calls, whatever the store and whoever else
uses it; they differ in how they check their arguments and in what of the result they show. -/
namespace FrontEnds

open ByteStrings TextCodecs SortedMaps Interaction Lockstep RgwTypes RgwSal RgwSalSqlite Http RgwAuth
  RgwAdminOps RestAdmin AdminPrivileges RadosgwAdmin

section Lifts

variable {ε α β : Type}

theorem lift_ok_bind (a : α) (f : α → OpT ε β) :
    ((liftM (Except.ok a : Except ε α) : OpT ε α) >>= f) = f a :=
  rfl

theorem lift_error_bind (e : ε) (f : α → OpT ε β) :
    ((liftM (Except.error e : Except ε α) : OpT ε α) >>= f) = throw e := rfl

end Lifts

section Queries

/-- The parameters that are given, the first of a name. -/
def query : List (Str × Option Str) → Map Str
  | [] => ∅
  | (name, some v) :: params => (query params).insert name v
  | (_, none) :: params => query params

@[simp] theorem query_nil (name : Str) : (query [])[name]? = none := by
  simp [query]

theorem query_cons (name a : Str) (v : Option Str) (params : List (Str × Option Str)) :
    (query ((name, v) :: params))[a]? =
      if name = a then v.or (query params)[a]? else (query params)[a]? := by
  cases v with
  | none => simp [query]
  | some v =>
    rw [query, getElem?_insert_eq, Option.some_or]

/-- A truth value as a parameter carries it. -/
def flag (b : Bool) : Str := if b then bytes "true" else bytes "false"

theorem parseBool_flag (name : Str) (b : Bool) : RestAdmin.parseBool name (flag b) = .ok b := by
  cases b with
  | true => rfl
  | false => rfl

/-- The command line takes the words that the API takes, for the same truth values. -/
theorem parseBool_words (name s : Str) (b : Bool) :
    RadosgwAdmin.parseBool s = .ok b ↔ RestAdmin.parseBool name s = .ok b := by
  rw [RadosgwAdmin.parseBool, RestAdmin.parseBool]
  by_cases htrue : s = bytes "true" ∨ s = bytes "yes" ∨ s = bytes "1"
  · rw [if_pos htrue, if_pos htrue, Except.ok.injEq, Except.ok.injEq]
  · rw [if_neg htrue, if_neg htrue]
    by_cases hfalse : s = bytes "false" ∨ s = bytes "no" ∨ s = bytes "0"
    · rw [if_pos hfalse, if_pos hfalse, Except.ok.injEq, Except.ok.injEq]
    · rw [if_neg hfalse, if_neg hfalse]
      exact ⟨fun h => (nomatch h), fun h => (nomatch h)⟩

/-- A number as a parameter carries it. -/
def integer (n : ℤ) : Str := if n < 0 then 45 :: decimal n.natAbs else decimal n.natAbs

theorem parseSigned_integer (n : I32) : parseSigned 32 (integer n.val) = some n.val := by
  obtain ⟨n, hlo, hhi⟩ := n
  dsimp only
  rw [integer]
  by_cases hn : n < 0
  · have hne : decimal n.natAbs ≠ [] := decimalDigits_ne_nil (.inr (Nat.succ_pos _))
    have hb : n.natAbs < 2 ^ (32 - 1) + 1 := by omega
    rw [if_pos hn, parseSigned, if_pos rfl, if_neg hne, parseDigits_decimal hb]
    change some (-(n.natAbs : ℤ)) = some n
    congr 1
    omega
  · have hb : n.natAbs < 2 ^ (32 - 1) := by omega
    have hread := parseUnsigned_decimal hb
    have hdigits := decimal_isDigit n.natAbs
    rw [if_neg hn]
    cases hd : decimal n.natAbs with
    | nil => exact absurd hd (decimalDigits_ne_nil (.inr (Nat.succ_pos _)))
    | cons b l =>
      rw [hd] at hread hdigits
      have hsign : b ≠ 45 := by
        rintro rfl
        simp [isDigit] at hdigits
      rw [parseSigned, if_neg hsign, hread]
      change some (n.natAbs : ℤ) = some n
      congr 1
      omega

end Queries

section Requests

def get : Method := ⟨bytes "GET", get_token⟩
def put : Method := ⟨bytes "PUT", put_token⟩
def post : Method := ⟨bytes "POST", post_token⟩
def delete : Method := ⟨bytes "DELETE", delete_token⟩

/-- The parameters that ask the API for what a command does; for a listing of all users, those of
its first page. -/
def params : Command → List (Str × Option Str)
  | .user (.create f) => [
      (bytes "uid", f.uid), (bytes "display-name", f.displayName), (bytes "email", f.email),
      (bytes "access-key", f.accessKey), (bytes "secret-key", f.secretKey),
      (bytes "generate-key", if f.generate then some (flag true) else none),
      (bytes "user-caps", f.caps), (bytes "max-buckets", f.maxBuckets.map fun n => integer n.val),
      (bytes "suspended", f.suspended.map flag), (bytes "system", f.system.map flag)]
  | .user (.info f) => [(bytes "uid", f.uid)]
  | .user (.modify f) => [
      (bytes "uid", f.uid), (bytes "display-name", f.displayName), (bytes "email", f.email),
      (bytes "access-key", f.accessKey), (bytes "secret-key", f.secretKey),
      (bytes "generate-key", some (flag f.generate)),
      (bytes "max-buckets", f.maxBuckets.map fun n => integer n.val),
      (bytes "suspended", f.suspended.map flag), (bytes "system", f.system.map flag)]
  | .user (.rm f) => [(bytes "uid", f.uid), (bytes "purge-data", some (flag f.purgeData))]
  | .user (.list marker max) => [
      (bytes "list", some []), (bytes "marker", marker),
      (bytes "max-entries", max.map fun n => decimal n.val)]
  | .key (.create f) => [
      (bytes "key", some []), (bytes "uid", f.uid), (bytes "access-key", f.accessKey),
      (bytes "secret-key", f.secretKey),
      (bytes "generate-key", some (flag (f.generate || f.accessKey.isNone)))]
  | .key (.rm f) => [(bytes "key", some []), (bytes "uid", f.uid), (bytes "access-key", f.accessKey)]
  | .caps (.add f) | .caps (.rm f) => [
      (bytes "caps", some []), (bytes "uid", f.uid), (bytes "user-caps", f.caps)]
  | .bucket (.list uid) => [(bytes "uid", uid)]
  | .bucket (.stats bucket) => [(bytes "bucket", some bucket), (bytes "stats", some (flag true))]
  | .bucket (.rm bucket purge) => [
      (bytes "bucket", some bucket), (bytes "purge-objects", some (flag purge))]

def method : Command → Method
  | .user (.create _) | .key (.create _) | .caps (.add _) => put
  | .user (.modify _) => post
  | .user (.rm _) | .key (.rm _) | .caps (.rm _) | .bucket (.rm _ _) => delete
  | _ => get

def endpoint : Command → Endpoint
  | .bucket _ => .bucket
  | _ => .user

/-- The request for a command, on behalf of somebody. -/
def request (env : AdminEnv) (identity : Identity) (c : Command) : AdminRequest :=
  ⟨env, identity, method c, endpoint c, .ok (query (params c))⟩

/-- One request can ask for it: only the command line makes an admin or lists all users at once,
and an empty name of a bucket asks the API for a list. -/
def Askable : Command → Prop
  | .user (.create f) | .user (.modify f) => f.admin = none
  | .user (.list _ max) => max.isSome
  | .bucket (.stats bucket) => bucket ≠ []
  | _ => True

end Requests

section Checks

/-- The same failure but for its text. -/
def SameCode (e e' : RgwError) : Prop := e.code = e'.code ∧ e.httpStatus = e'.httpStatus

theorem sameCode_refl (e : RgwError) : SameCode e e := ⟨rfl, rfl⟩

theorem sameCode_argument (what what' : Str) :
    SameCode (.invalidArgument what) (.invalidArgument what') := ⟨rfl, rfl⟩

variable {m : Map Str} {name : Str} {α β : Type} {Q : α → β → Prop}

theorem has_eq : Args.has ⟨m⟩ name = m[name]?.isSome := by
  simp only [Args.has, Std.ExtTreeMap.mem_iff_isSome_getElem?, Bool.decide_eq_true]

/-- Both ask for a uid that is not empty. -/
theorem uid_same {f : UserFlags} (h : m[bytes "uid"]? = f.uid) :
    Results SameCode Eq f.parsedUid (Args.uid ⟨m⟩) := by
  rw [Args.uid, Args.required, UserFlags.parsedUid, h]
  cases f.uid with
  | none => exact .error (sameCode_argument _ _)
  | some uid =>
    dsimp only
    by_cases hu : uid = []
    · rw [if_neg (not_not.mpr hu), if_neg (not_not.mpr hu)]
      exact .error (sameCode_argument _ _)
    · rw [if_pos hu, if_pos hu]
      exact .ok rfl

theorem bool_flag {b : Option Bool} (h : m[name]? = b.map flag) : Args.bool ⟨m⟩ name = .ok b := by
  rw [Args.bool, h]
  cases b with
  | none => rfl
  | some b =>
    rw [Option.map_some]
    dsimp only
    rw [parseBool_flag, map_ok]

theorem int_integer {n : Option I32} (h : m[name]? = n.map fun n => integer n.val) :
    Args.int ⟨m⟩ name (parseSigned 32) = .ok (n.map (·.val)) := by
  rw [Args.int, h]
  cases n with
  | none => rfl
  | some n =>
    rw [Option.map_some]
    dsimp only
    rw [parseSigned_integer]
    rfl

/-- Two checks of the arguments, then two programs. -/
theorem checked_alike {γ δ : Type} {S : γ → δ → Prop} {x : RgwResult γ} {y : RgwResult δ}
    {f : γ → Op α} {g : δ → Op β} (h : Results SameCode S x y)
    (hf : ∀ a b, S a b → Alike (Results SameCode Q) (f a).run (g b).run) :
    Alike (Results SameCode Q) ((liftM x : Op γ) >>= f).run ((liftM y : Op δ) >>= g).run :=
  Alike.except_bind (.done h) hf

/-- Refused for its arguments, before any call. -/
def Unfit {α : Type} (x : Op α) : Prop := ∃ what, x.run = .done (.error (.invalidArgument what))

theorem Unfit.bind {x : Op α} (h : Unfit x) (g : α → Op β) : Unfit (x >>= g) := by
  obtain ⟨what, hx⟩ := h
  refine ⟨what, ?_⟩
  change x.run >>= ExceptT.bindCont g = _
  rw [hx]
  rfl

theorem unfit_after_uid (uid : UserId) {g : Unit → Op α} (h : Unfit (g ())) :
    Unfit (requireUid uid >>= g) := by
  rw [requireUid]
  by_cases hu : uid.isEmpty = true
  · rw [if_pos hu]
    exact ⟨_, rfl⟩
  · rw [if_neg hu]
    exact h

/-- An argument that the API asks for by itself and the operation refuses when it is empty. -/
theorem required_alike {v : Option Str} (h : m[name]? = v) {f : Str → Op α} {g : Str → Op β}
    (hempty : Unfit (f []))
    (hf : ∀ s, Alike (Results SameCode Q) (f s).run (g s).run) :
    Alike (Results SameCode Q) (f (v.getD [])).run
      ((liftM (Args.required ⟨m⟩ name) : Op Str) >>= g).run := by
  have hnone : ∀ what, Alike (Results SameCode Q) (f []).run
      ((liftM (Except.error (.invalidArgument what) : RgwResult Str) : Op Str) >>= g).run := by
    intro what
    obtain ⟨what', hwhat⟩ := hempty
    rw [hwhat, lift_error_bind]
    exact .done (.error (sameCode_argument _ _))
  rw [Args.required, h]
  cases v with
  | none => exact hnone _
  | some s =>
    dsimp only [Option.getD_some]
    by_cases hs : s = []
    · rw [if_neg (not_not.mpr hs), hs]
      exact hnone _
    · rw [if_pos hs]
      exact hf s

end Checks

section Commands

variable {P : Platform} {env : AdminEnv} {identity : Identity} {f : UserFlags}

/-- What the command prints and what the API answers. The API shows no user where it shows the
keys or the caps of one. -/
def Answers (P : Platform) : Command → Output → AdminReply → Prop
  | .user (.rm _), out, reply => out = none ∧ reply = .empty
  | .bucket (.rm _ _), out, reply => out = none ∧ reply = .empty
  | .key (.create _), out, reply =>
    ∃ info, out = some (Dump.userInfo P info) ∧ reply = .json (Dump.keys P info)
  | .key (.rm _), out, reply => ∃ info, out = some (Dump.userInfo P info) ∧ reply = .empty
  | .caps _, out, reply => ∃ info, out = some (Dump.userInfo P info) ∧ reply = .json (Dump.caps info)
  | _, out, reply => ∃ doc, out = some doc ∧ reply = .json doc

/-- The parameters of the request for a command. -/
abbrev args (c : Command) : Args := ⟨query (params c)⟩

/-- A user to create, no admin. -/
def creation (f : UserFlags) (uid : UserId) (displayName : Str) : UserCreateParams where
  uid := uid
  displayName := displayName
  email := f.email
  accessKey := f.accessKey
  secretKey := f.secretKey
  generateKey := if f.generate then some true else none
  caps := f.caps
  maxBuckets := f.maxBuckets.map (·.val)
  suspended := f.suspended
  system := f.system
  admin := none

section Puts

variable (granted : identity.checkCap usersCap .write = true)

include granted

theorem userPut_create :
    userPut P env identity (.ok (query (params (.user (.create f))))) = (do
      let uid ← (args (.user (.create f))).uid
      let displayName ← (args (.user (.create f))).required (bytes "display-name")
      let info ← userCreate env.draws (creation f uid displayName)
      return .json (Dump.userInfo P info)) := by
  have hgen : (args (.user (.create f))).bool (bytes "generate-key") =
      .ok (if f.generate then some true else none) := by
    refine bool_flag ?_
    cases hg : f.generate <;> simp +decide [params, query_cons, hg]
  have hmax : (args (.user (.create f))).int (bytes "max-buckets") (parseSigned 32) =
      .ok (f.maxBuckets.map (·.val)) := int_integer (by simp +decide [params, query_cons])
  have hsuspended : (args (.user (.create f))).bool (bytes "suspended") = .ok f.suspended :=
    bool_flag (by simp +decide [params, query_cons])
  have hsystem : (args (.user (.create f))).bool (bytes "system") = .ok f.system :=
    bool_flag (by simp +decide [params, query_cons])
  simp only [userPut, Args.new, lift_ok_bind, hgen, hmax, hsuspended, hsystem]
  simp +decide [unsupported, requireCap, granted, has_eq, args, params, query_cons, lift_ok_bind,
    Args.string, creation]

theorem userPut_key :
    userPut P env identity (.ok (query (params (.key (.create f))))) = (do
      let uid ← (args (.key (.create f))).uid
      let info ← keyCreate env.draws uid f.accessKey f.secretKey (f.generate || f.accessKey.isNone)
      return .json (Dump.keys P info)) := by
  have hgen : (args (.key (.create f))).bool (bytes "generate-key") =
      .ok (some (f.generate || f.accessKey.isNone)) :=
    bool_flag (by simp +decide [params, query_cons])
  simp only [userPut, Args.new, lift_ok_bind, hgen]
  simp +decide [unsupported, requireCap, granted, has_eq, args, params, query_cons, lift_ok_bind,
    Args.string]

theorem userPut_caps :
    userPut P env identity (.ok (query (params (.caps (.add f))))) = (do
      let uid ← (args (.caps (.add f))).uid
      let caps ← (args (.caps (.add f))).required (bytes "user-caps")
      let info ← capsAdd uid caps
      return .json (Dump.caps info)) := by
  simp +decide [userPut, Args.new, unsupported, requireCap, granted, has_eq, args, params, query_cons,
    lift_ok_bind]

theorem userPost_modify :
    userPost P env identity (.ok (query (params (.user (.modify f))))) = (do
      let uid ← (args (.user (.modify f))).uid
      let info ← userModify env.draws {
        uid := uid
        displayName := f.displayName
        email := f.email
        maxBuckets := f.maxBuckets.map (·.val)
        suspended := f.suspended
        system := f.system
        admin := none
        accessKey := f.accessKey
        secretKey := f.secretKey
        generateKey := f.generate }
      return .json (Dump.userInfo P info)) := by
  have hgen : (args (.user (.modify f))).bool (bytes "generate-key") = .ok (some f.generate) :=
    bool_flag (by simp +decide [params, query_cons])
  have hmax : (args (.user (.modify f))).int (bytes "max-buckets") (parseSigned 32) =
      .ok (f.maxBuckets.map (·.val)) := int_integer (by simp +decide [params, query_cons])
  have hsuspended : (args (.user (.modify f))).bool (bytes "suspended") = .ok f.suspended :=
    bool_flag (by simp +decide [params, query_cons])
  have hsystem : (args (.user (.modify f))).bool (bytes "system") = .ok f.system :=
    bool_flag (by simp +decide [params, query_cons])
  simp only [userPost, Args.new, lift_ok_bind, hgen, hmax, hsuspended, hsystem]
  simp +decide [unsupported, requireCap, granted, has_eq, args, params, query_cons, lift_ok_bind,
    Args.string]

theorem userDelete_rm :
    userDelete env identity (.ok (query (params (.user (.rm f))))) = (do
      let uid ← (args (.user (.rm f))).uid
      userRemove env.fuel uid f.purgeData
      return .empty) := by
  have hpurge : (args (.user (.rm f))).bool (bytes "purge-data") = .ok (some f.purgeData) :=
    bool_flag (by simp +decide [params, query_cons])
  simp only [userDelete, Args.new, lift_ok_bind, hpurge]
  simp +decide [unsupported, requireCap, granted, has_eq, args, params, query_cons, lift_ok_bind]

theorem userDelete_key :
    userDelete env identity (.ok (query (params (.key (.rm f))))) = (do
      let uid ← (args (.key (.rm f))).uid
      let accessKey ← (args (.key (.rm f))).required (bytes "access-key")
      let _ ← keyRemove uid accessKey
      return .empty) := by
  simp +decide [userDelete, Args.new, unsupported, requireCap, granted, has_eq, args, params, query_cons,
    lift_ok_bind]

theorem userDelete_caps :
    userDelete env identity (.ok (query (params (.caps (.rm f))))) = (do
      let uid ← (args (.caps (.rm f))).uid
      let caps ← (args (.caps (.rm f))).required (bytes "user-caps")
      let info ← capsRemove uid caps
      return .json (Dump.caps info)) := by
  simp +decide [userDelete, Args.new, unsupported, requireCap, granted, has_eq, args, params, query_cons,
    lift_ok_bind]

end Puts

theorem userGet_info (granted : identity.checkCap usersCap .read = true) :
    userGet P identity (.ok (query (params (.user (.info f))))) = (do
      let uid ← (args (.user (.info f))).uid
      let info ← userInfo uid
      return .json (Dump.userInfo P info)) := by
  simp +decide [userGet, Args.new, unsupported, requireCap, granted, has_eq, args, params, query_cons,
    lift_ok_bind]

theorem userGet_list (granted : identity.checkCap usersCap .read = true) (marker : Option Str)
    (max : Usize) :
    userGet P identity (.ok (query (params (.user (.list marker (some max)))))) = (do
      let page ← userList (marker.getD []) max.val
      return .json (Dump.userList page.ids page.truncated page.nextMarker)) := by
  have hmax : (args (.user (.list marker (some max)))).int (bytes "max-entries")
      (parseUnsigned 10 (2 ^ 64)) = .ok (some max.val) := by
    have hget : (query (params (.user (.list marker (some max)))))[bytes "max-entries"]? =
        some (decimal max.val) := by
      simp +decide [params, query_cons]
    rw [Args.int, hget]
    dsimp only
    rw [parseUnsigned_decimal max.property]
  simp only [userGet, Args.new, lift_ok_bind, hmax]
  simp +decide [unsupported, requireCap, granted, has_eq, params, query_cons, lift_ok_bind,
    Args.strOrEmpty]

/-- The entries without statistics are the names. -/
theorem bucketEntries_names (buckets : List BucketInfo) : bucketEntries P false buckets =
    pure (buckets.map fun b => .string b.bucket.name) := by
  induction buckets with
  | nil => rfl
  | cons b buckets ih =>
    rw [bucketEntries, ih]
    rfl

theorem bucketGet_list (granted : identity.checkCap bucketsCap .read = true) (uid : Option Str) :
    bucketGet P env identity (.ok (query (params (.bucket (.list uid))))) = (do
      let buckets ← bucketList env.fuel ((nonempty uid).map UserId.parse)
      return .json (.array (buckets.map fun b => .string b.bucket.name))) := by
  simp +decide [bucketGet, Args.new, unsupported, requireCap, granted, has_eq, params, query_cons,
    lift_ok_bind, Args.string, Args.bool, nonempty, bucketEntries_names]

theorem bucketGet_stats (granted : identity.checkCap bucketsCap .read = true) {bucket : Str}
    (named : bucket ≠ []) :
    bucketGet P env identity (.ok (query (params (.bucket (.stats bucket))))) = (do
      let (info, stats) ← bucketInfo (parseBucket bucket).1 (parseBucket bucket).2
      return .json (Dump.bucketInfo P info (some stats))) := by
  have hstats : (args (.bucket (.stats bucket))).bool (bytes "stats") = .ok (some true) :=
    bool_flag (by simp +decide [params, query_cons])
  have hname : nonempty ((args (.bucket (.stats bucket))).string (bytes "bucket")) = some bucket := by
    simp +decide [Args.string, params, query_cons, nonempty, named, Option.filter]
  simp only [bucketGet, Args.new, lift_ok_bind, hstats, hname]
  simp +decide [unsupported, requireCap, granted, has_eq, params, query_cons, lift_ok_bind]

theorem bucketDelete_rm (granted : identity.checkCap bucketsCap .write = true) (bucket : Str)
    (purge : Bool) :
    bucketDelete env identity (.ok (query (params (.bucket (.rm bucket purge))))) = (do
      let bucket ← (args (.bucket (.rm bucket purge))).required (bytes "bucket")
      bucketRemove env.fuel (parseBucket bucket).1 (parseBucket bucket).2 purge
      return .empty) := by
  have hpurge : (args (.bucket (.rm bucket purge))).bool (bytes "purge-objects") = .ok (some purge) :=
    bool_flag (by simp +decide [params, query_cons])
  simp only [bucketDelete, Args.new, lift_ok_bind, hpurge]
  simp +decide [unsupported, requireCap, granted, has_eq, args, params, query_cons, lift_ok_bind]

/-- Who may ask the API for a command. -/
def Granted (identity : Identity) (c : Command) : Prop :=
  identity.checkCap (capOf (endpoint c)) (permOf (method c)) = true

/-- A command and its request, up to what they show. -/
abbrev Same (P : Platform) (c : Command) : Prog DriverCall Reply (RgwResult Output) →
    Prog DriverCall Reply (RgwResult AdminReply) → Prop :=
  Alike (Results SameCode (Answers P c))

/-- Both read a uid first. -/
theorem same_uid {c : Command} {x : UserId → Op Output} {y : UserId → Op AdminReply}
    (h : (query (params c))[bytes "uid"]? = f.uid) (hxy : ∀ uid, Same P c (x uid).run (y uid).run) :
    Same P c ((liftM f.parsedUid : Op UserId) >>= x).run ((liftM (args c).uid : Op UserId) >>= y).run :=
  checked_alike (uid_same h) fun uid _ heq => heq ▸ hxy uid

theorem userCreate_unnamed (draws : Draws) {ps : UserCreateParams} (h : ps.displayName = []) :
    Unfit (userCreate draws ps) := by
  unfold userCreate
  refine unfit_after_uid ps.uid ⟨bytes "display-name is required", ?_⟩
  rw [if_pos h]
  rfl

theorem keyRemove_unnamed (uid : UserId) : Unfit (keyRemove uid []) :=
  unfit_after_uid uid ⟨_, rfl⟩

theorem capsAdd_empty (uid : UserId) : Unfit (capsAdd uid []) := unfit_after_uid uid ⟨_, rfl⟩

theorem capsRemove_empty (uid : UserId) : Unfit (capsRemove uid []) := unfit_after_uid uid ⟨_, rfl⟩

theorem user_same {op : UserOp} (askable : Askable (.user op)) (granted : Granted identity (.user op)) :
    Same P (.user op) (user P env op).run (handler P (request env identity (.user op))).run := by
  cases op with
  | create f =>
    change Same P _ _ (userPut P env identity (.ok (query (params (.user (.create f)))))).run
    rw [userPut_create granted, user]
    refine same_uid (by simp +decide [params, query_cons]) fun uid => ?_
    rw [show f.admin = none from askable]
    refine required_alike (v := f.displayName) (by simp +decide [params, query_cons])
      (f := fun name => userCreate env.draws (creation f uid name) >>= fun info =>
        return some (Dump.userInfo P info))
      (Unfit.bind (userCreate_unnamed env.draws rfl) _) fun name => ?_
    exact alike_views sameCode_refl _ fun info => .done (.ok ⟨_, rfl, rfl⟩)
  | info f =>
    change Same P _ _ (userGet P identity (.ok (query (params (.user (.info f)))))).run
    rw [userGet_info granted, user]
    refine same_uid (by simp +decide [params, query_cons]) fun uid => ?_
    exact alike_views sameCode_refl _ fun info => .done (.ok ⟨_, rfl, rfl⟩)
  | modify f =>
    change Same P _ _ (userPost P env identity (.ok (query (params (.user (.modify f)))))).run
    rw [userPost_modify granted, user]
    refine same_uid (by simp +decide [params, query_cons]) fun uid => ?_
    rw [show f.admin = none from askable]
    exact alike_views sameCode_refl _ fun info => .done (.ok ⟨_, rfl, rfl⟩)
  | rm f =>
    change Same P _ _ (userDelete env identity (.ok (query (params (.user (.rm f)))))).run
    rw [userDelete_rm granted, user]
    refine same_uid (by simp +decide [params, query_cons]) fun uid => ?_
    exact alike_views sameCode_refl _ fun _ => .done (.ok ⟨rfl, rfl⟩)
  | list marker max =>
    obtain ⟨max, rfl⟩ := Option.isSome_iff_exists.mp askable
    change Same P _ _ (userGet P identity (.ok (query (params (.user (.list marker (some max))))))).run
    rw [userGet_list granted, user]
    exact alike_views sameCode_refl _ fun page => .done (.ok ⟨_, rfl, rfl⟩)

theorem key_same {op : KeyOp} (granted : Granted identity (.key op)) :
    Same P (.key op) (key P env op).run (handler P (request env identity (.key op))).run := by
  cases op with
  | create f =>
    change Same P _ _ (userPut P env identity (.ok (query (params (.key (.create f)))))).run
    rw [userPut_key granted, key]
    refine same_uid (by simp +decide [params, query_cons]) fun uid => ?_
    exact alike_views sameCode_refl _ fun info => .done (.ok ⟨info, rfl, rfl⟩)
  | rm f =>
    change Same P _ _ (userDelete env identity (.ok (query (params (.key (.rm f)))))).run
    rw [userDelete_key granted, key]
    refine same_uid (by simp +decide [params, query_cons]) fun uid => ?_
    refine required_alike (v := f.accessKey) (by simp +decide [params, query_cons])
      (f := fun id => keyRemove uid id >>= fun info => return some (Dump.userInfo P info))
      ((keyRemove_unnamed uid).bind _) fun id => ?_
    exact alike_views sameCode_refl _ fun info => .done (.ok ⟨info, rfl, rfl⟩)

theorem caps_same {op : CapsOp} (granted : Granted identity (.caps op)) :
    Same P (.caps op) (caps P op).run (handler P (request env identity (.caps op))).run := by
  cases op with
  | add f =>
    change Same P _ _ (userPut P env identity (.ok (query (params (.caps (.add f)))))).run
    rw [userPut_caps granted, caps]
    refine same_uid (by simp +decide [params, query_cons]) fun uid => ?_
    refine required_alike (v := f.caps) (by simp +decide [params, query_cons])
      (f := fun caps => capsAdd uid caps >>= fun info => return some (Dump.userInfo P info))
      ((capsAdd_empty uid).bind _) fun caps => ?_
    exact alike_views sameCode_refl _ fun info => .done (.ok ⟨info, rfl, rfl⟩)
  | rm f =>
    change Same P _ _ (userDelete env identity (.ok (query (params (.caps (.rm f)))))).run
    rw [userDelete_caps granted, caps]
    refine same_uid (by simp +decide [params, query_cons]) fun uid => ?_
    refine required_alike (v := f.caps) (by simp +decide [params, query_cons])
      (f := fun caps => capsRemove uid caps >>= fun info => return some (Dump.userInfo P info))
      ((capsRemove_empty uid).bind _) fun caps => ?_
    exact alike_views sameCode_refl _ fun info => .done (.ok ⟨info, rfl, rfl⟩)

theorem bucket_same {op : BucketOp} (askable : Askable (.bucket op))
    (granted : Granted identity (.bucket op)) :
    Same P (.bucket op) (bucket P env op).run (handler P (request env identity (.bucket op))).run := by
  cases op with
  | list uid =>
    change Same P _ _ (bucketGet P env identity (.ok (query (params (.bucket (.list uid)))))).run
    rw [bucketGet_list granted, bucket]
    exact alike_views sameCode_refl _ fun buckets => .done (.ok ⟨_, rfl, rfl⟩)
  | stats name =>
    change Same P _ _ (bucketGet P env identity (.ok (query (params (.bucket (.stats name)))))).run
    rw [bucketGet_stats granted askable, bucket]
    exact alike_views sameCode_refl _ fun _ => .done (.ok ⟨_, rfl, rfl⟩)
  | rm name purge =>
    change Same P _ _ (bucketDelete env identity (.ok (query (params (.bucket (.rm name purge)))))).run
    rw [bucketDelete_rm granted, bucket]
    refine required_alike (v := some name) (by simp +decide [params, query_cons])
      (f := fun name => bucketRemove env.fuel (parseBucket name).1 (parseBucket name).2 purge >>=
        fun _ => return none)
      (Unfit.bind ⟨_, rfl⟩ _) fun name => ?_
    exact alike_views sameCode_refl _ fun _ => .done (.ok ⟨rfl, rfl⟩)

theorem run_same {c : Command} (askable : Askable c) (granted : Granted identity c) :
    Same P c (run P env c).run (handler P (request env identity c)).run := by
  cases c with
  | user op => exact user_same askable granted
  | key op => exact key_same granted
  | caps op => exact caps_same granted
  | bucket op => exact bucket_same askable granted

end Commands

section Systems

variable {β ι : Type} [DecidableEq ι] {P : Platform}

/-- The process and the response tell the same: a result as both show it, or one code. -/
def Reports (P : Platform) (c : Command) (requestId : Str) : Outcome → AdminResponse → Prop
  | .success out, resp => ∃ reply, Answers P c out reply ∧ resp = finish requestId (.ok reply)
  | .failure line, resp => ∃ e e', SameCode e e' ∧ line = bytes "ERROR: " ++ e.code ++ bytes ": " ++
    e.display ∧
      resp = adminErrorResponse e' requestId

theorem method_not_head (c : Command) : (method c).name ≠ methodHead := by
  have hput : bytes "PUT" ≠ methodHead := by decide
  have hpost : bytes "POST" ≠ methodHead := by decide
  have hdelete : bytes "DELETE" ≠ methodHead := by decide
  have hget : bytes "GET" ≠ methodHead := by decide
  rcases c with (_ | _ | _ | _ | _) | (_ | _) | (_ | _) | (_ | _ | _) <;> assumption

theorem main_same {env : AdminEnv} {identity : Identity} {c : Command} (askable : Askable c)
    (granted : Granted identity c) :
    Alike (Reports P c env.requestId) (main P env c) (serve P (request env identity c)) := by
  refine Alike.bind (run_same askable granted) fun r r' hr => ?_
  have hmethod : (request env identity c).method.name ≠ methodHead := method_not_head c
  simp only [if_neg hmethod]
  cases hr with
  | ok h => exact .done ⟨_, h, rfl⟩
  | error h => exact .done ⟨_, _, h, rfl, rfl⟩

/-- What a process is there for: an administrator's command, or anything else. -/
inductive Task (β : Type) where
  | command (env : AdminEnv) (identity : Identity) (c : Command)
  | other (p : Prog DriverCall Reply β)

namespace Task

/-- The administrator types the command. -/
def viaCli (P : Platform) : Task β → Prog DriverCall Reply (Outcome ⊕ β)
  | .command env _ c => main P env c >>= fun o => .done (.inl o)
  | .other p => p >>= fun b => .done (.inr b)

/-- The administrator sends the request. -/
def viaApi (P : Platform) : Task β → Prog DriverCall Reply (AdminResponse ⊕ β)
  | .command env identity c => serve P (request env identity c) >>= fun r => .done (.inl r)
  | .other p => p >>= fun b => .done (.inr b)

/-- One request can ask for the command, and its sender may. -/
def Fits : Task β → Prop
  | .command _ identity c => Askable c ∧ Granted identity c
  | .other _ => True

def Tells (P : Platform) : Task β → Outcome ⊕ β → AdminResponse ⊕ β → Prop
  | .command env _ c, .inl outcome, .inl resp => Reports P c env.requestId outcome resp
  | .other _, .inr b, .inr b' => b = b'
  | _, _, _ => False

theorem same {task : Task β} (fits : task.Fits) :
    Alike (task.Tells P) (task.viaCli P) (task.viaApi P) := by
  cases task with
  | command env identity c =>
    exact Alike.bind (main_same fits.1 fits.2) fun _ _ h => .done h
  | other p => exact Alike.bind (alike_refl (Q := Eq) (fun _ => rfl) p) fun _ _ h => .done h

end Task

/-- Whoever else uses the store, administrators who type their commands and administrators who send
requests instead make the same calls in the same order, leave the same store, and are told the
same. -/
theorem front_ends_agree (P : Platform) (md5 : Str → Str) (tasks : ι → Task β)
    (fits : ∀ i, (tasks i).Fits) (s : Tables) (t : List (ι × Event DriverCall Reply)) :
    (∀ y, Trace (exec md5) ⟨s, fun i => (tasks i).viaCli P⟩ t y →
      ∃ y', Trace (exec md5) ⟨s, fun i => (tasks i).viaApi P⟩ t y' ∧ y'.state = y.state ∧
        ∀ i a, y.threads i = .done a → ∃ b, y'.threads i = .done b ∧ (tasks i).Tells P a b) ∧
    ∀ y', Trace (exec md5) ⟨s, fun i => (tasks i).viaApi P⟩ t y' →
      ∃ y, Trace (exec md5) ⟨s, fun i => (tasks i).viaCli P⟩ t y ∧ y.state = y'.state ∧
        ∀ i b, y'.threads i = .done b → ∃ a, y.threads i = .done a ∧ (tasks i).Tells P a b := by
  have hmirror : Mirrors (fun i => (tasks i).Tells P)
      (⟨s, fun i => (tasks i).viaCli P⟩ : Config DriverCall Reply _ Tables ι)
      ⟨s, fun i => (tasks i).viaApi P⟩ := ⟨rfl, fun i => Task.same (fits i)⟩
  constructor
  · intro y run
    obtain ⟨y', run', hy⟩ := hmirror.trace run
    refine ⟨y', run', hy.state.symm, fun i a ha => ?_⟩
    have hi := hy.threads i
    rw [ha] at hi
    exact hi.of_done
  · intro y' run'
    obtain ⟨y, run, hy⟩ := hmirror.swap.trace run'
    refine ⟨y, run, hy.state.symm, fun i b hb => ?_⟩
    have hi := hy.threads i
    rw [hb] at hi
    exact hi.of_done

/-- An operator makes a user, and somebody asks for that user meanwhile. -/
def makeMallory (i : Fin 2) : Task (RgwResult UserInfo) :=
  if i.val = 0 then .command ⟨bytes "tx", noDraws, 3⟩ operator (.user (.create
    { UserFlags.default with uid := some (bytes "mallory"), displayName := some (bytes "M") }))
  else .other (invoke (.loadUser (.new (bytes "mallory")))).run

theorem operator_writes : operator.checkCap usersCap .write = true := by decide

/-- The command was run, so the request would have been answered 200. -/
theorem front_ends_agree_mallory : ∃ t y' resp,
    Trace (exec sampleMd5) ⟨Tables.empty, fun i => (makeMallory i).viaApi (.ofTables [] [] [])⟩ t y' ∧
    bytes "mallory" ∈ y'.state.users ∧ y'.threads 0 = .done (.inl resp) ∧ resp.status = 200 := by
  have hplay : ((Config.play (exec sampleMd5) [0, 1, 0] ([], ⟨Tables.empty,
      fun i => (makeMallory i).viaCli (.ofTables [] [] [])⟩)).bind fun r =>
        (r.2.threads 0).result.map fun a => (a.elim Outcome.exitCode fun _ => 1,
          decide (bytes "mallory" ∈ r.2.state.users))) = some (0, true) := by
    decide +kernel
  obtain ⟨⟨t, y⟩, hr, hplay⟩ := Option.bind_eq_some_iff.mp hplay
  obtain ⟨a, ha, hplay⟩ := Option.map_eq_some_iff.mp hplay
  obtain ⟨hexit, hstored⟩ := Prod.mk.inj hplay
  have fits : ∀ i, (makeMallory i).Fits := Fin.forall_fin_two.mpr ⟨⟨rfl, operator_writes⟩, trivial⟩
  obtain ⟨y', run', hstate, hanswers⟩ := (front_ends_agree (.ofTables [] [] []) sampleMd5 makeMallory
    fits .empty t).1 y (play_trace .nil hr)
  obtain ⟨b, hb, htells⟩ := hanswers 0 a (result_eq_some.mp ha)
  cases a with
  | inr _ => cases hexit
  | inl outcome =>
    cases b with
    | inr _ => cases htells
    | inl resp =>
      refine ⟨t, y', resp, run', ?_, hb, ?_⟩
      · rw [hstate]
        exact of_decide_eq_true hstored
      · cases outcome with
        | failure line => cases hexit
        | success out =>
          obtain ⟨reply, -, rfl⟩ := htells
          cases reply <;> rfl

end Systems

end FrontEnds
