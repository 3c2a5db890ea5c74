import Rgw.RestAdmin
import Rgw.UserConcurrency

/-! # What the admin API lets its callers do

A caller without the capability of a route is refused before any call to the driver. One with
it may raise the system flag of a record, and of no other than the one its request names. -/
namespace AdminPrivileges

open ByteStrings TextCodecs SortedMaps Interaction RgwTypes RgwSal RgwSalSqlite StoreInvariants
  Http RgwAuth RgwAdminOps RestAdmin UserMutations OwnerIsolation UserConcurrency

variable {md5 : Str → Str} {P : Platform} {identity : Identity} {α β : Type}

section Refusals

/-- The caller has no admin flag, and some bit of the capability is not among those held. -/
def Lacks (identity : Identity) (cap : Str) (perm : CapPerm) : Prop :=
  ∀ u, identity.userInfo = some u → u.admin = false ∧
    ∀ held, u.caps.entries[cap]? = some held → held.bits &&& perm.bits ≠ perm.bits

def capOf : Endpoint → Str
  | .user => usersCap
  | .bucket => bucketsCap
  | .info => infoCap

def permOf (method : Method) : CapPerm :=
  if method.name = methodGet ∨ method.name = methodHead then .read else .write

def Refused (op : Op α) : Prop := ∃ e, op.run = .done (.error e)

theorem refused_throw (e : RgwError) : Refused (throw e : Op α) := ⟨e, rfl⟩

theorem refused_lift_bind {x : RgwResult α} {f : α → Op β}
    (hf : ∀ a, x = .ok a → Refused (f a)) : Refused ((liftM x : Op α) >>= f) := by
  cases x with
  | ok a => exact hf a rfl
  | error e => exact ⟨e, rfl⟩

theorem checkCap_lacks {cap : Str} {perm : CapPerm} (lacks : Lacks identity cap perm) :
    identity.checkCap cap perm = false := by
  rw [Identity.checkCap]
  cases hu : identity.userInfo with
  | none => rfl
  | some u =>
    obtain ⟨hadmin, hbits⟩ := lacks u hu
    rw [Option.any_some, hadmin, Bool.false_or, UserCaps.checkCap]
    cases hc : u.caps.entries[cap]? with
    | none => rfl
    | some held =>
      rw [Option.any_some, CapPerm.contains, beq_eq_false_iff_ne]
      exact hbits held hc

theorem refused_cap_bind {cap : Str} {perm : CapPerm} (lacks : Lacks identity cap perm)
    {f : Unit → Op β} : Refused ((liftM (requireCap identity cap perm) : Op Unit) >>= f) := by
  refine refused_lift_bind fun _ ha => ?_
  rw [requireCap, checkCap_lacks lacks] at ha
  cases ha

/-- A handler that reads its arguments and checks the capability first. -/
theorem gated_refused {query : QueryArgs} {names : List Str} {cap : Str} {perm : CapPerm}
    (lacks : Lacks identity cap perm) {f : Args → Unit → Op β} : Refused (do
      let args ← Args.new query
      unsupported args names
      let u ← requireCap identity cap perm
      f args u) := by
  refine refused_lift_bind fun args _ => ?_
  refine refused_lift_bind fun _ _ => ?_
  exact refused_cap_bind lacks

section Handlers

variable {env : AdminEnv} {query : QueryArgs}

theorem userGet_refused (lacks : Lacks identity usersCap .read) :
    Refused (userGet P identity query) := by
  unfold userGet
  exact gated_refused lacks

theorem userPut_refused (lacks : Lacks identity usersCap .write) :
    Refused (userPut P env identity query) := by
  unfold userPut
  exact gated_refused lacks

theorem userPost_refused (lacks : Lacks identity usersCap .write) :
    Refused (userPost P env identity query) := by
  unfold userPost
  exact gated_refused lacks

theorem userDelete_refused (lacks : Lacks identity usersCap .write) :
    Refused (userDelete env identity query) := by
  unfold userDelete
  exact gated_refused lacks

theorem bucketGet_refused (lacks : Lacks identity bucketsCap .read) :
    Refused (bucketGet P env identity query) := by
  unfold bucketGet
  exact gated_refused lacks

theorem bucketDelete_refused (lacks : Lacks identity bucketsCap .write) :
    Refused (bucketDelete env identity query) := by
  unfold bucketDelete
  exact gated_refused lacks

end Handlers

theorem handler_refused (P : Platform) (req : AdminRequest)
    (lacks : Lacks req.identity (capOf req.endpoint) (permOf req.method)) :
    Refused (handler P req) := by
  rw [permOf] at lacks
  rw [handler.eq_def]
  by_cases hget : req.method.name = methodGet ∨ req.method.name = methodHead
  · rw [if_pos hget] at lacks
    cases hend : req.endpoint with
    | user =>
      rw [hend] at lacks
      simp only [hget, ↓reduceIte]
      exact userGet_refused lacks
    | bucket =>
      rw [hend] at lacks
      simp only [hget, ↓reduceIte]
      exact bucketGet_refused lacks
    | info =>
      rw [hend] at lacks
      simp only [hget, ↓reduceIte]
      exact refused_cap_bind lacks
  · rw [if_neg hget] at lacks
    cases hend : req.endpoint with
    | user =>
      rw [hend] at lacks
      simp only [hget, ↓reduceIte]
      split
      · exact userPut_refused lacks
      split
      · exact userPost_refused lacks
      split
      · exact userDelete_refused lacks
      · exact refused_throw _
    | bucket =>
      rw [hend] at lacks
      simp only [hget, ↓reduceIte]
      split
      · exact refused_throw _
      split
      · exact bucketDelete_refused lacks
      · exact refused_throw _
    | info =>
      simp only [hget, ↓reduceIte]
      exact refused_throw _

theorem httpStatus_error (e : RgwError) : 400 ≤ e.httpStatus := by
  cases e <;> simp [RgwError.httpStatus]

/-- A caller without the capability of a route gets one error from every store, and changes
none of them. -/
theorem closed_without_capability (P : Platform) (req : AdminRequest)
    (lacks : Lacks req.identity (capOf req.endpoint) (permOf req.method)) :
    ∃ resp, 400 ≤ resp.status ∧ serve P req = .done resp ∧
      ∀ (md5 : Str → Str) (s : Tables), (serve P req).run (exec md5) s = some (resp, s) := by
  obtain ⟨e, he⟩ := handler_refused P req lacks
  have hserve : serve P req = .done (if req.method.name = methodHead then
      { adminErrorResponse e req.env.requestId with body := none }
      else adminErrorResponse e req.env.requestId) := by
    rw [serve, he]
    rfl
  refine ⟨_, ?_, hserve, fun md5 s => by rw [hserve, run_done]⟩
  split <;> exact httpStatus_error e

def noDraws : Draws := ⟨0, 0, fun _ => bytes "AK", bytes "SK"⟩

def userRoute (identity : Identity) (method : Method) (query : List (Str × Str)) : AdminRequest :=
  ⟨⟨bytes "tx", noDraws, 3⟩, identity, method, .user, .ok (.ofList query)⟩

/-- A caller that may read users, and has no flag. -/
def reader : Identity :=
  .user ⟨{ alice with caps := ⟨.ofList [(usersCap, CapPerm.read)]⟩ }, bytes "AKID"⟩

def removeBob : AdminRequest :=
  userRoute reader ⟨bytes "DELETE", delete_token⟩ [(bytes "uid", bytes "bob")]

/-- To read users is not to remove them. -/
theorem closed_without_capability_reader : ∃ resp, 400 ≤ resp.status ∧
    serve (.ofTables [] [] []) removeBob = .done resp := by
  have lacks : Lacks removeBob.identity (capOf removeBob.endpoint) (permOf removeBob.method) := by
    intro u hu
    cases hu
    refine ⟨rfl, fun held hheld => ?_⟩
    have hread : (⟨.ofList [(usersCap, CapPerm.read)]⟩ : UserCaps).entries[usersCap]? =
        some CapPerm.read := by decide +kernel
    obtain rfl := Option.some.inj (hread.symm.trans hheld)
    decide
  obtain ⟨resp, hs, hd, -⟩ := closed_without_capability (.ofTables [] [] []) removeBob lacks
  exact ⟨resp, hs, hd⟩

end Refusals

section Requests

/-- A request on a user that passes the check of its capability. -/
structure Reaches (req : AdminRequest) (args : Args) (uid : UserId) : Prop where
  endpoint : req.endpoint = .user
  parsed : Args.new req.query = .ok args
  named : args.uid = .ok uid
  cap : req.identity.checkCap usersCap .write = true

def AsksSystem (args : Args) : Prop := args.bool (bytes "system") = .ok (some true)

def OfPart (args : Args) : Prop := args.has (bytes "key") = true ∨ args.has (bytes "caps") = true

def Creates (req : AdminRequest) (args : Args) : Prop :=
  req.method.name = bytes "PUT" ∧ ¬OfPart args

def Modifies (req : AdminRequest) : Prop := req.method.name = bytes "POST"

/-- A request that stores the record it loaded, changed. -/
def Restores (req : AdminRequest) (args : Args) : Prop :=
  Modifies req ∨ (req.method.name = bytes "PUT" ∨ req.method.name = bytes "DELETE") ∧ OfPart args

/-- What a request may write, as far as the flags go. -/
def flagWriting (req : AdminRequest) : Writing := fun h c w => ∀ info, w = some info →
  ∃ args uid, Reaches req args uid ∧
    ((Creates req args ∧ c = .storeUser info true ∧ info.userId = uid ∧ info.admin = false ∧
      (info.system = true → AsksSystem args)) ∨
    (Restores req args ∧ c = .storeUser info false ∧ ∃ loaded,
      (⟨.loadUser uid, .ok loaded⟩ : Event DriverCall Reply) ∈ h ∧ info.userId = loaded.userId ∧
      (info.admin = true → loaded.admin = true) ∧
      (info.system = true → loaded.system = true ∨ Modifies req ∧ AsksSystem args)))

variable {req : AdminRequest} {args : Args} {uid : UserId} {h : History}

theorem reads_keeps {W : Writing} {p : Prog DriverCall Reply α} (hp : Reads h p) :
    Keeps (writeDiscipline W) h p :=
  (reading hp).mono fun _ _ _ _ => trivial

theorem reads_lift_bind {x : RgwResult α} {f : α → Op β} (hn : NoWrite h)
    (hf : ∀ a, x = .ok a → Reads h (f a).run) : Reads h ((liftM x : Op α) >>= f).run := by
  cases x with
  | ok a => exact hf a rfl
  | error e => exact reads_done hn _

/-- An operation that writes as allowed, and a reply made of what it returns. -/
theorem edits_keeps {W W' : Writing} {op : Op UserInfo} {reply : UserInfo → AdminReply}
    (hop : Edits W [] op.run) (hw : ∀ h c w, W h c w → W' h c w) :
    Keeps (writeDiscipline W') [] (op >>= fun info => pure (reply info)).run := by
  refine keeps_bind ((Prog.Obeys.weaken hop (fun h c hc => ?_) fun _ _ => trivial).mono ?_)
  · exact ⟨hc.1, fun w he => hw h c w (hc.2 w he)⟩
  · intro h' r _ _ a _
    exact trivial

/-- A key or caps operation changes no flag. -/
theorem part_writing (hr : Reaches req args uid) (hrest : Restores req args) {m : Mutation}
    (hm : ∀ draws params, m ≠ .userModify draws params) {c : DriverCall} {w : Option UserInfo}
    (hw : mutationWriting uid m h c w) : flagWriting req h c w := by
  obtain ⟨rfl, loaded, hl, he, -⟩ := hw
  rintro info rfl
  refine ⟨args, uid, hr, Or.inr ⟨hrest, rfl, loaded, hl, edit_userId he, ?_⟩⟩
  have hflags : info.admin = loaded.admin ∧ info.system = loaded.system := by
    cases m with
    | userModify draws params => exact absurd rfl (hm draws params)
    | keyCreate draws accessKey secretKey generate =>
      obtain ⟨id, key, -, -, rfl⟩ := he
      exact ⟨rfl, rfl⟩
    | keyRemove accessKey =>
      obtain ⟨-, rfl⟩ := he
      exact ⟨rfl, rfl⟩
    | capsAdd caps =>
      obtain ⟨parsed, added, -, -, rfl⟩ := he
      exact ⟨rfl, rfl⟩
    | capsRemove caps =>
      obtain ⟨parsed, -, rfl⟩ := he
      exact ⟨rfl, rfl⟩
    | userRemove fuel purgeData => cases he
  rw [hflags.1, hflags.2]
  exact ⟨id, Or.inl⟩

theorem modify_writing (hr : Reaches req args uid) (hm : Modifies req) {draws : Draws}
    {params : UserModifyParams} (hadmin : params.admin = none)
    (hsystem : args.bool (bytes "system") = .ok params.system) {c : DriverCall}
    {w : Option UserInfo} (hw : mutationWriting uid (.userModify draws params) h c w) :
    flagWriting req h c w := by
  obtain ⟨rfl, loaded, hl, he, -⟩ := hw
  rintro info rfl
  refine ⟨args, uid, hr, Or.inr ⟨Or.inl hm, rfl, loaded, hl, edit_userId he, ?_⟩⟩
  have hflags : info.admin = loaded.admin ∧ info.system = params.system.getD loaded.system := by
    rcases he with ⟨-, -, -, rfl⟩ | ⟨id, key, -, -, rfl⟩ <;>
      simp [modified, UserInfo.addAccessKey, hadmin]
  rw [hflags.1, hflags.2]
  refine ⟨id, fun hs => ?_⟩
  cases hp : params.system with
  | none =>
    rw [hp] at hs
    exact Or.inl hs
  | some b =>
    rw [hp] at hs hsystem
    obtain rfl : b = true := hs
    exact Or.inr ⟨hm, hsystem⟩

theorem create_writing (hr : Reaches req args uid) (hc : Creates req args) {draws : Draws}
    {params : UserCreateParams} (huid : params.uid = uid) (hadmin : params.admin = none)
    (hsystem : args.bool (bytes "system") = .ok params.system) {c : DriverCall}
    {w : Option UserInfo} (hw : creationWriting draws params h c w) : flagWriting req h c w := by
  obtain ⟨stored, rfl, rfl, hcreated, -⟩ := hw
  rintro info he
  obtain rfl := Option.some.inj he
  refine ⟨args, uid, hr, Or.inl ⟨hc, rfl, (created_userId hcreated).trans huid, ?_⟩⟩
  obtain ⟨caps, -, hkey⟩ := hcreated
  have hflags : stored.admin = false ∧ stored.system = params.system.getD false := by
    rcases hkey with ⟨-, -, -, rfl⟩ | ⟨id, key, -, -, rfl⟩ <;>
      simp [created, UserInfo.addAccessKey, hadmin]
  refine ⟨hflags.1, fun hs => ?_⟩
  rw [hflags.2] at hs
  rw [AsksSystem, hsystem]
  cases hp : params.system with
  | none =>
    rw [hp] at hs
    cases hs
  | some b =>
    rw [hp] at hs
    obtain rfl : b = true := hs
    rfl

theorem requireCap_ok {cap : Str} {perm : CapPerm} {u : Unit}
    (hc : requireCap identity cap perm = .ok u) : identity.checkCap cap perm = true := by
  rw [requireCap] at hc
  by_cases hcap : identity.checkCap cap perm = true
  · exact hcap
  · rw [if_neg hcap] at hc
    cases hc

/-- A handler of users that writes comes to its uid with the capability. -/
theorem reaches (hend : req.endpoint = .user) (hargs : Args.new req.query = .ok args)
    {u : Unit} (hcap : requireCap req.identity usersCap .write = .ok u)
    (huid : args.uid = .ok uid) : Reaches req args uid :=
  ⟨hend, hargs, huid, requireCap_ok hcap⟩

theorem userPut_keeps (hend : req.endpoint = .user) (hm : req.method.name = bytes "PUT") :
    Keeps (writeDiscipline (flagWriting req)) [] (userPut P req.env req.identity req.query).run := by
  unfold userPut
  refine keeps_lift_bind fun args hargs => keeps_lift_bind fun _ _ => keeps_lift_bind fun _ hcap => ?_
  by_cases hkey : args.has (bytes "key") = true
  · rw [if_pos hkey]
    refine keeps_lift_bind fun uid huid => keeps_lift_bind fun generate _ => ?_
    refine edits_keeps (keyCreate_edits _ _ _ _) fun h c w hw => ?_
    exact part_writing (reaches hend hargs hcap huid) (Or.inr ⟨Or.inl hm, Or.inl hkey⟩)
      (fun _ _ he => by cases he) hw
  rw [if_neg hkey]
  by_cases hcaps : args.has (bytes "caps") = true
  · rw [if_pos hcaps]
    refine keeps_lift_bind fun uid huid => keeps_lift_bind fun caps _ => ?_
    refine edits_keeps (capsAdd_edits _) fun h c w hw => ?_
    exact part_writing (reaches hend hargs hcap huid) (Or.inr ⟨Or.inl hm, Or.inr hcaps⟩)
      (fun _ _ he => by cases he) hw
  rw [if_neg hcaps]
  refine keeps_lift_bind fun uid huid => keeps_lift_bind fun _ _ => keeps_lift_bind fun _ _ => ?_
  refine keeps_lift_bind fun _ _ => keeps_lift_bind fun _ _ => keeps_lift_bind fun system hs => ?_
  refine edits_keeps (userCreate_edits _ _) fun h c w hw => ?_
  have hpart : ¬OfPart args := fun hp => hp.elim hkey hcaps
  exact create_writing (reaches hend hargs hcap huid) ⟨hm, hpart⟩ rfl rfl hs hw

theorem userPost_keeps (hend : req.endpoint = .user) (hm : Modifies req) :
    Keeps (writeDiscipline (flagWriting req)) [] (userPost P req.env req.identity req.query).run := by
  unfold userPost
  refine keeps_lift_bind fun args hargs => keeps_lift_bind fun _ _ => keeps_lift_bind fun _ hcap => ?_
  refine keeps_lift_bind fun uid huid => keeps_lift_bind fun _ _ => keeps_lift_bind fun _ _ => ?_
  refine keeps_lift_bind fun system hs => keeps_lift_bind fun _ _ => ?_
  refine edits_keeps (ownUid_edits _ _) fun h c w hw => ?_
  exact modify_writing (reaches hend hargs hcap huid) hm rfl hs hw

theorem remove_writing {m : Mutation} (hm : ∃ fuel purge, m = .userRemove fuel purge)
    {c : DriverCall} {w : Option UserInfo} (hw : mutationWriting uid m h c w) :
    flagWriting req h c w := by
  obtain ⟨fuel, purge, rfl⟩ := hm
  obtain ⟨rfl, loaded, -, he, -⟩ := hw
  rintro info rfl
  cases he

theorem userDelete_keeps (hend : req.endpoint = .user) (hm : req.method.name = bytes "DELETE") :
    Keeps (writeDiscipline (flagWriting req)) [] (userDelete req.env req.identity req.query).run := by
  unfold userDelete
  refine keeps_lift_bind fun args hargs => keeps_lift_bind fun _ _ => keeps_lift_bind fun _ hcap => ?_
  apply keeps_lift_bind
  intro uid huid
  have hr := reaches hend hargs hcap huid
  by_cases hkey : args.has (bytes "key") = true
  · rw [if_pos hkey]
    apply keeps_lift_bind
    intro accessKey _
    apply edits_keeps (keyRemove_edits _)
    intro h c w hw
    exact part_writing hr (Or.inr ⟨Or.inr hm, Or.inl hkey⟩) (fun _ _ he => by cases he) hw
  rw [if_neg hkey]
  by_cases hcaps : args.has (bytes "caps") = true
  · rw [if_pos hcaps]
    apply keeps_lift_bind
    intro caps _
    apply edits_keeps (capsRemove_edits _)
    intro h c w hw
    exact part_writing hr (Or.inr ⟨Or.inr hm, Or.inr hcaps⟩) (fun _ _ he => by cases he) hw
  rw [if_neg hcaps]
  refine keeps_lift_bind fun purge _ => ?_
  have hremove : Keeps (writeDiscipline (flagWriting req)) []
      (userRemove req.env.fuel uid (purge.getD false)).run := by
    refine ((userRemove_obeys req.env.fuel (purge.getD false)).weaken (fun h c hc => ?_)
      fun _ _ => trivial).mono fun _ _ _ _ => trivial
    exact ⟨hc.1, fun w he => remove_writing ⟨_, _, rfl⟩ (hc.2 w he)⟩
  refine keeps_bind (hremove.mono ?_)
  intro h' r _ _ a _
  exact trivial

theorem userGet_reads (identity : Identity) (query : QueryArgs) :
    Reads [] (userGet P identity query).run := by
  unfold userGet
  refine reads_lift_bind noWrite_nil fun args _ => reads_lift_bind noWrite_nil fun _ _ => ?_
  apply reads_lift_bind noWrite_nil
  intro _ _
  by_cases hlist : args.has (bytes "list") = true
  · rw [if_pos hlist]
    refine reads_lift_bind noWrite_nil fun max _ => ?_
    refine reads_bind ?_ fun h' _ hn => reads_done hn _
    exact reads_bind (reads_invoke noWrite_nil rfl) fun h' _ hn => reads_done hn _
  · rw [if_neg hlist]
    refine reads_lift_bind noWrite_nil fun uid _ => ?_
    refine reads_bind ?_ fun h' _ hn => reads_done hn _
    rw [userInfo, requireUid]
    by_cases he : uid.isEmpty = true
    · rw [if_pos he]
      exact reads_done noWrite_nil _
    · rw [if_neg he]
      exact reads_invoke noWrite_nil rfl

theorem requireName_reads (hn : NoWrite h) (name : Str) : Reads h (requireName name).run := by
  rw [requireName]
  by_cases hname : name = []
  · rw [if_pos hname]
    exact reads_done hn _
  · rw [if_neg hname]
    exact reads_done hn _

theorem bucketEntries_reads (stats : Bool) (buckets : List BucketInfo) (hn : NoWrite h) :
    Reads h (bucketEntries P stats buckets).run := by
  induction buckets generalizing h with
  | nil => exact reads_done hn _
  | cons b buckets ih =>
    have hrest : ∀ h' entry, NoWrite h' → Reads h' (do
        return entry :: (← bucketEntries P stats buckets) : Op (List Value)).run := by
      intro h' entry hn'
      exact reads_bind (ih hn') fun _ _ hn'' => reads_done hn'' _
    rw [bucketEntries]
    cases stats with
    | false => exact hrest h _ hn
    | true => exact reads_bind (reads_invoke hn rfl) fun h' _ hn' => hrest h' _ hn'

theorem bucketGet_reads (env : AdminEnv) (identity : Identity) (query : QueryArgs) :
    Reads [] (bucketGet P env identity query).run := by
  unfold bucketGet
  refine reads_lift_bind noWrite_nil fun args _ => reads_lift_bind noWrite_nil fun _ _ => ?_
  refine reads_lift_bind noWrite_nil fun _ _ => reads_lift_bind noWrite_nil fun stats _ => ?_
  cases nonempty (args.string (bytes "bucket")) with
  | some bucket =>
    refine reads_bind ?_ fun h' _ hn => reads_done hn _
    apply reads_bind (requireName_reads noWrite_nil _)
    intro h' _ hn
    refine reads_bind (reads_invoke hn rfl) fun h' _ hn => ?_
    exact reads_bind (reads_invoke hn rfl) fun _ _ hn => reads_done hn _
  | none =>
    refine reads_bind (listAllBucketsLoop_reads _ env.fuel [] [] noWrite_nil) fun h' _ hn => ?_
    exact reads_bind (bucketEntries_reads _ _ hn) fun _ _ hn' => reads_done hn' _

theorem bucketDelete_reads (env : AdminEnv) (identity : Identity) (query : QueryArgs) :
    Reads [] (bucketDelete env identity query).run := by
  unfold bucketDelete
  refine reads_lift_bind noWrite_nil fun args _ => reads_lift_bind noWrite_nil fun _ _ => ?_
  refine reads_lift_bind noWrite_nil fun _ _ => reads_lift_bind noWrite_nil fun bucket _ => ?_
  apply reads_lift_bind noWrite_nil
  intro purge _
  refine reads_bind ?_ fun h' _ hn => reads_done hn _
  apply reads_bind (requireName_reads noWrite_nil _)
  intro h' _ hn
  cases purge.getD false with
  | false => exact reads_invoke hn rfl
  | true =>
    apply reads_bind (reads_invoke hn rfl)
    intro h' _ hn'
    exact reads_bind (purgeObjects_reads _ _ _ hn') fun _ _ hn'' => reads_invoke hn'' rfl

theorem handler_keeps (P : Platform) (req : AdminRequest) :
    Keeps (writeDiscipline (flagWriting req)) [] (handler P req).run := by
  have hfail : ∀ e, Keeps (writeDiscipline (flagWriting req)) [] (throw e : Op AdminReply).run :=
    fun e => trivial
  rw [handler.eq_def]
  dsimp only
  split
  case h_1 hend =>
    split
    · exact reads_keeps (userGet_reads _ _)
    split
    next hm => exact userPut_keeps hend hm
    split
    next hm => exact userPost_keeps hend hm
    split
    next hm => exact userDelete_keeps hend hm
    exact hfail _
  case h_2 =>
    split
    · exact reads_keeps (bucketGet_reads _ _ _)
    split
    · exact hfail _
    split
    · exact reads_keeps (bucketDelete_reads _ _ _)
    · exact hfail _
  case h_3 =>
    split
    · exact reads_keeps (reads_lift_bind noWrite_nil fun _ _ => reads_done noWrite_nil _)
    · exact hfail _

theorem serve_keeps (P : Platform) (req : AdminRequest) :
    Keeps (writeDiscipline (flagWriting req)) [] (serve P req) := by
  refine obeys_bind.mpr ((handler_keeps P req).mono fun h' r _ _ => ?_)
  exact trivial

end Requests

section Flags

variable {s s' t : Tables} {req : AdminRequest} {h : History}

def Flagged (flag : UserDoc → Bool) (s : Tables) (u : Str) : Prop :=
  ∃ row, s.users[u]? = some row ∧ flag row.info = true

/-- No user has a flag that it had not before, and none is new with one. -/
def NoGain (s s' : Tables) : Prop := ∀ u : Str,
  (Flagged UserDoc.system s' u → Flagged UserDoc.system s u) ∧
  (Flagged UserDoc.admin s' u → Flagged UserDoc.admin s u)

/-- The request asks for the system flag of no user that lacks it, and stores no flagged record
under a uid that is not read back as it was stored. -/
def Restrained (t : Tables) (req : AdminRequest) : Prop := ∀ args uid, Reaches req args uid →
  (Creates req args → AsksSystem args → uid.toString ∈ t.users) ∧
  (Restores req args → ∀ row, t.users[uid.toString]? = some row →
    (Modifies req → AsksSystem args → row.info.system = true) ∧
    (row.info.system = true ∨ row.info.admin = true →
      (UserId.parse uid.toString).toString = uid.toString))

/-- The request is refused before any call, or is restrained. -/
def Harmless (P : Platform) (t : Tables) (req : AdminRequest) : Prop :=
  Refused (handler P req) ∨ Restrained t req

/-- Where a request stands that began on `t`. -/
structure Standing (md5 : Str → Str) (t : Tables) (h : History) (s : Tables) : Prop where
  wf : WellFormed md5 s
  kept : NoGain t s
  before : NoWrite h → SameUsers s t
  loads : ∀ uid loaded, (⟨.loadUser uid, .ok loaded⟩ : Event DriverCall Reply) ∈ h →
    loadUser uid t = .ok loaded

theorem Flagged.mono {flag : UserDoc → Bool} {u : Str} (hf : Flagged flag s' u)
    (hs : ∀ row, s'.users[u]? = some row → s.users[u]? = some row) : Flagged flag s u := by
  obtain ⟨row, hr, hflag⟩ := hf
  exact ⟨row, hs row hr, hflag⟩

theorem noGain_refl (s : Tables) : NoGain s s := fun _ => ⟨id, id⟩

theorem noGain_same (h : NoGain t s) (hs : SameUsers s' s) : NoGain t s' := by
  intro u
  obtain ⟨hsystem, hadmin⟩ := h u
  have hsub : ∀ row, s'.users[u]? = some row → s.users[u]? = some row := by
    rw [hs.1]
    exact fun _ hr => hr
  exact ⟨fun hf => hsystem (hf.mono hsub), fun hf => hadmin (hf.mono hsub)⟩

/-- A loaded record has the flags of the row, and the uid that the row's is read as. -/
theorem loaded_row {uid : UserId} {loaded : UserInfo} (wf : WellFormed md5 t)
    (hl : loadUser uid t = .ok loaded) : ∃ row, t.users[uid.toString]? = some row ∧
      loaded.userId = .parse uid.toString ∧ loaded.system = row.info.system ∧
      loaded.admin = row.info.admin := by
  obtain ⟨row, hr, hread, hid⟩ := UserIds.loadUser_row wf.userRows hl
  obtain ⟨caps, -, rfl⟩ := UserIds.fromJson_eq_ok.mp hread
  exact ⟨row, hr, hid, rfl, rfl⟩

/-- A stored record brings no flag that its uid had not. -/
theorem noGain_store {info : UserInfo} {exclusive : Bool} (hs : SameUsers s t)
    (hf : (exclusive = true → info.userId.toString ∉ t.users) →
      (info.system = true → Flagged UserDoc.system t info.userId.toString) ∧
      (info.admin = true → Flagged UserDoc.admin t info.userId.toString)) :
    NoGain t (exec md5 (.storeUser info exclusive) s).2 := by
  have hself : NoGain t s := noGain_same (noGain_refl t) hs
  rw [exec_storeUser]
  by_cases hx : exclusive = true ∧ info.userId.toString ∈ s.users
  · rw [if_pos hx]
    exact hself
  rw [if_neg hx]
  by_cases hk : keysFree s info = true
  swap
  · rw [if_neg hk]
    exact hself
  rw [if_pos hk]
  have hnew := hf fun he hm => hx ⟨he, hs.1 ▸ hm⟩
  intro u
  by_cases hu : info.userId.toString = u
  · subst hu
    refine ⟨fun hflag => hnew.1 ?_, fun hflag => hnew.2 ?_⟩ <;>
    · obtain ⟨row, hr, hflag⟩ := hflag
      rw [withUser, getElem?_insert_eq, if_pos rfl] at hr
      obtain rfl := Option.some.inj hr
      exact hflag
  · have hsub : ∀ row, (withUser s info).users[u]? = some row → s.users[u]? = some row := by
      rw [withUser, getElem?_insert_eq, if_neg hu]
      exact fun _ hr => hr
    obtain ⟨hsystem, hadmin⟩ := hself u
    exact ⟨fun hf => hsystem (hf.mono hsub), fun hf => hadmin (hf.mono hsub)⟩

theorem noGain_removeUser {id : UserId} (hs : SameUsers s t) :
    NoGain t (exec md5 (.removeUser id) s).2 := by
  have hself : NoGain t s := noGain_same (noGain_refl t) hs
  rw [exec_removeUser]
  by_cases hm : id.toString ∈ s.users
  · rw [if_pos hm]
    intro u
    have hsub : ∀ row, (withoutUser s id).users[u]? = some row → s.users[u]? = some row := by
      intro row hr
      rw [withoutUser, getElem?_erase_eq] at hr
      split at hr
      · cases hr
      · exact hr
    obtain ⟨hsystem, hadmin⟩ := hself u
    exact ⟨fun hf => hsystem (hf.mono hsub), fun hf => hadmin (hf.mono hsub)⟩
  · rw [if_neg hm]
    exact hself

/-- A write as allowed, of a restrained request, brings no flag. -/
theorem noGain_write {c : DriverCall} {w : Option UserInfo} (hs : Standing md5 t h s)
    (wf : WellFormed md5 t) (restrained : Restrained t req) (hn : NoWrite h) (hc : writeOf c = some w)
    (hw : flagWriting req h c w) : NoGain t (exec md5 c s).2 := by
  have hsame := hs.before hn
  cases w with
  | none =>
    cases c with
    | removeUser id => exact noGain_removeUser hsame
    | _ => cases hc
  | some info =>
    obtain ⟨args, uid, hr, hcase⟩ := hw info rfl
    obtain ⟨hcreate, hrestore⟩ := restrained args uid hr
    rcases hcase with ⟨hcreates, rfl, rfl, hadmin, hsystem⟩ | ⟨hrestores, rfl, loaded, hl, hid, ha, hsys⟩
    · refine noGain_store hsame fun hfresh => ⟨fun hf => ?_, fun hf => ?_⟩
      · exact absurd (hcreate hcreates (hsystem hf)) (hfresh rfl)
      · rw [hadmin] at hf
        cases hf
    · obtain ⟨row, hrow, huid, hlsys, hladm⟩ := loaded_row wf (hs.loads uid loaded hl)
      obtain ⟨hasked, hread⟩ := hrestore hrestores row hrow
      have hflagged : row.info.system = true ∨ row.info.admin = true →
          info.userId.toString = uid.toString := by
        intro hf
        rw [hid, huid]
        exact hread hf
      refine noGain_store hsame fun _ => ⟨fun hf => ?_, fun hf => ?_⟩
      · have hrowsys : row.info.system = true := by
          rcases hsys hf with hf | ⟨hm, hask⟩
          · exact hlsys ▸ hf
          · exact hasked hm hask
        rw [hflagged (Or.inl hrowsys)]
        exact ⟨row, hrow, hrowsys⟩
      · have hrowadm : row.info.admin = true := hladm ▸ ha hf
        rw [hflagged (Or.inr hrowadm)]
        exact ⟨row, hrow, hrowadm⟩

theorem standing_call {c : DriverCall} (wf : WellFormed md5 t) (restrained : Restrained t req)
    (hs : Standing md5 t h s) (hc : (writeDiscipline (flagWriting req)).allowed h c) :
    Standing md5 t (⟨c, (exec md5 c s).1⟩ :: h) (exec md5 c s).2 := by
  have hloads : ∀ uid loaded, (⟨.loadUser uid, .ok loaded⟩ : Event DriverCall Reply) ∈
      ⟨c, (exec md5 c s).1⟩ :: h → loadUser uid t = .ok loaded := by
    intro uid loaded hm
    rcases List.mem_cons.mp hm with he | hm
    · obtain ⟨rfl, hreply⟩ := Sigma.mk.inj_iff.mp he
      rw [← loadUser_congr (hs.before hc.1)]
      exact (eq_of_heq hreply).symm
    · exact hs.loads uid loaded hm
  cases hw : writeOf c with
  | none =>
    have hsame := @exec_users md5 s _ hw
    refine ⟨exec_wellFormed hs.wf c, noGain_same hs.kept hsame, fun _ => ?_, hloads⟩
    have hbefore := hs.before hc.1
    exact ⟨hsame.1.trans hbefore.1, hsame.2.trans hbefore.2⟩
  | some w =>
    refine ⟨exec_wellFormed hs.wf c, noGain_write hs wf restrained hc.1 hw (hc.2 w hw), ?_, hloads⟩
    intro hn
    have hnone := hn _ List.mem_cons_self
    rw [hw] at hnone
    cases hnone

theorem serve_noGain {resp : AdminResponse} (wf : WellFormed P.md5 t) (harmless : Harmless P t req)
    (hr : (serve P req).run (exec P.md5) t = some (resp, s)) :
    WellFormed P.md5 s ∧ NoGain t s := by
  rcases harmless with ⟨e, hrefused⟩ | restrained
  · rw [serve, hrefused] at hr
    cases hr
    exact ⟨wf, noGain_refl _⟩
  have start : Standing P.md5 t [] t :=
    { wf := wf
      kept := noGain_refl t
      before := fun _ => ⟨rfl, rfl⟩
      loads := fun _ _ hm => by cases hm }
  obtain ⟨h', hs, -⟩ := run_invariant (Standing P.md5 t)
    (fun h s c hs hc => standing_call wf restrained hs hc) start (serve_keeps P req) hr
  exact ⟨hs.wf, hs.kept⟩

end Flags

section Sessions

/-- Requests served one after another, latest first, each as `S` says. -/
inductive Session (P : Platform) (S : Tables → AdminRequest → Tables → Prop) (s : Tables) :
    List AdminRequest → Tables → Prop where
  | nil : Session P S s [] s
  | snoc {reqs t req resp u} : Session P S s reqs t →
      (serve P req).run (exec P.md5) t = some (resp, u) → S t req u → Session P S s (req :: reqs) u

/-- Whatever unprivileged callers send, and in whatever order, as long as each request is
harmless no user gains a flag. -/
theorem flags_kept (P : Platform) (store : Store P.md5) (reqs : List AdminRequest) (s : Tables)
    (run : Session P (fun t req _ => Unprivileged req.identity ∧ Harmless P t req) store.1 reqs s) :
    Session P (fun t _ u => NoGain t u) store.1 reqs s ∧ NoGain store.1 s := by
  have hall : WellFormed P.md5 s ∧ Session P (fun t _ u => NoGain t u) store.1 reqs s ∧
      NoGain store.1 s := by
    induction run with
    | nil => exact ⟨store.2, .nil, noGain_refl _⟩
    | snoc _ hr hS ih =>
      obtain ⟨wf, hs, hg⟩ := ih
      obtain ⟨wf', hstep⟩ := serve_noGain wf hS.2 hr
      refine ⟨wf', .snoc hs hr hstep, fun u => ?_⟩
      obtain ⟨hsystem, hadmin⟩ := hg u
      exact ⟨fun hf => hsystem ((hstep u).1 hf), fun hf => hadmin ((hstep u).2 hf)⟩
  exact hall.2

/-- A caller that holds all of `users`, and no flag. -/
def operator : Identity :=
  .user ⟨{ alice with caps := ⟨.ofList [(usersCap, CapPerm.all)]⟩ }, bytes "AKID"⟩

def newUser (more : List (Str × Str)) : AdminRequest :=
  userRoute operator ⟨bytes "PUT", put_token⟩
    ([(bytes "uid", bytes "mallory"), (bytes "display-name", bytes "M")] ++ more)

theorem operator_unprivileged (method : Method) (query : List (Str × Str)) :
    Unprivileged (userRoute operator method query).identity := by
  intro u hu
  cases hu
  exact ⟨rfl, rfl⟩

/-- A user with the system flag. -/
def root : UserInfo := { UserInfo.new (.new (bytes "root")) [] 0 with system := true }

def rootStore : Store (Platform.ofTables [] [] []).md5 :=
  ⟨execAll sampleMd5 [.storeUser root false] .empty, execAll_wellFormed _⟩

/-- A request on that user, which leaves it the flag. -/
def onRoot (method : Method) (more : List (Str × Str)) : AdminRequest :=
  userRoute operator method ((bytes "uid", bytes "root") :: more)

theorem onRoot_restrained {method : Method} {more : List (Str × Str)} {args : Args} {t : Tables}
    (hargs : Args.new (onRoot method more).query = .ok args) (huid : args.uid = .ok root.userId)
    (hc : ¬Creates (onRoot method more) args)
    (hrow : t.users[bytes "root"]?.map (fun row => row.info.system) = some true) :
    Restrained t (onRoot method more) := by
  intro args' uid hr
  obtain rfl := Except.ok.inj (hargs.symm.trans hr.parsed)
  obtain rfl := Except.ok.inj (huid.symm.trans hr.named)
  refine ⟨fun hcreates => absurd hcreates hc, fun _ row hm => ⟨fun _ _ => ?_, fun _ => by decide⟩⟩
  rw [show root.userId.toString = bytes "root" by decide] at hm
  rw [hm] at hrow
  exact Option.some.inj hrow

def raise : AdminRequest := onRoot ⟨bytes "POST", post_token⟩ [(bytes "system", bytes "true")]

def addKey : AdminRequest := onRoot ⟨bytes "PUT", put_token⟩ [(bytes "key", []),
  (bytes "access-key", bytes "RK"), (bytes "secret-key", bytes "s"),
  (bytes "generate-key", bytes "false")]

/-- Mallory is created, a flag is asked for that its user has, that user gets a key, and Mallory
is not created again. -/
theorem flags_kept_mallory : ∃ s, s.users.size = 2 ∧ s.accessKeys.size = 2 ∧
    Session (.ofTables [] [] []) (fun t _ u => NoGain t u) rootStore.1
      [newUser [(bytes "system", bytes "true")], addKey, raise, newUser []] s := by
  have hrun : ((serve (.ofTables [] [] []) (newUser [])).run (exec sampleMd5) rootStore.1).bind
      (fun a => ((serve (.ofTables [] [] []) raise).run (exec sampleMd5) a.2).bind fun b =>
        ((serve (.ofTables [] [] []) addKey).run (exec sampleMd5) b.2).bind fun c =>
          ((serve (.ofTables [] [] []) (newUser [(bytes "system", bytes "true")])).run
            (exec sampleMd5) c.2).map fun d =>
              (a.2.users[bytes "root"]?.map (fun row => row.info.system),
                b.2.users[bytes "root"]?.map (fun row => row.info.system),
                decide (bytes "mallory" ∈ c.2.users), d.2.users.size, d.2.accessKeys.size)) =
      some (some true, some true, true, 2, 2) := by decide +kernel
  obtain ⟨⟨_, a⟩, ha, hrun⟩ := Option.bind_eq_some_iff.mp hrun
  obtain ⟨⟨_, b⟩, hb, hrun⟩ := Option.bind_eq_some_iff.mp hrun
  obtain ⟨⟨_, c⟩, hc, hrun⟩ := Option.bind_eq_some_iff.mp hrun
  obtain ⟨⟨_, d⟩, hd, hrun⟩ := Option.map_eq_some_iff.mp hrun
  simp only [Prod.mk.injEq, decide_eq_true_eq] at hrun
  obtain ⟨hroota, hrootb, hmallory, husers, hkeys⟩ := hrun
  have hnew : Restrained rootStore.1 (newUser []) := by
    intro args uid hreach
    have hparsed := hreach.parsed
    cases hparsed
    refine ⟨fun _ hask => absurd hask ?_, fun hrest => absurd hrest ?_⟩
    · rw [AsksSystem]
      decide +kernel
    · rw [Restores, Modifies, OfPart]
      decide +kernel
  have hagain : Restrained c (newUser [(bytes "system", bytes "true")]) := by
    intro args uid hreach
    have hparsed := hreach.parsed
    cases hparsed
    have huid : uid = .new (bytes "mallory") :=
      Except.ok.inj (hreach.named.symm.trans (by decide +kernel))
    refine ⟨fun _ _ => ?_, fun hrest => absurd hrest ?_⟩
    · rw [huid, show (UserId.new (bytes "mallory")).toString = bytes "mallory" by decide]
      exact hmallory
    · rw [Restores, Modifies, OfPart]
      decide +kernel
  have hraise : Restrained a raise :=
    onRoot_restrained rfl (by decide +kernel) (by rw [Creates, OfPart]; decide +kernel) hroota
  have hadd : Restrained b addKey :=
    onRoot_restrained rfl (by decide +kernel) (by rw [Creates, OfPart]; decide +kernel) hrootb
  refine ⟨d, husers, hkeys, (flags_kept (.ofTables [] [] []) rootStore _ d ?_).1⟩
  exact .snoc (.snoc (.snoc (.snoc .nil ha ⟨operator_unprivileged _ _, .inr hnew⟩) hb
    ⟨operator_unprivileged _ _, .inr hraise⟩) hc ⟨operator_unprivileged _ _, .inr hadd⟩) hd
    ⟨operator_unprivileged _ _, .inr hagain⟩

/-- A caller without flags creates a user with the system flag. -/
theorem system_flag_granted : ¬∀ (P : Platform) (store : Store P.md5) (reqs : List AdminRequest)
    (s : Tables), Session P (fun _ req _ => Unprivileged req.identity) store.1 reqs s →
      Session P (fun t _ u => NoGain t u) store.1 reqs s := by
  intro claim
  have hrun : (((serve (.ofTables [] [] []) (newUser [(bytes "system", bytes "true")])).run
      (exec sampleMd5) .empty).map fun r => r.2.users[bytes "mallory"]?.map fun row =>
        row.info.system) = some (some true) := by decide +kernel
  obtain ⟨⟨resp, s⟩, hr, hflag⟩ := Option.map_eq_some_iff.mp hrun
  obtain ⟨row, hrow, hsystem⟩ := Option.map_eq_some_iff.mp hflag
  have hs := claim (.ofTables [] [] []) ⟨.empty, wellFormed_empty⟩ _ s
    (.snoc .nil hr (operator_unprivileged _ _))
  cases hs with
  | snoc hbefore _ hstep =>
    cases hbefore with
    | nil =>
      obtain ⟨row', hrow', -⟩ := (hstep (bytes "mallory")).1 ⟨row, hrow, hsystem⟩
      simp [Tables.empty] at hrow'

end Sessions

end AdminPrivileges
