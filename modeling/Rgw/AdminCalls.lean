import Rgw.AdminPrivileges
import Rgw.ReachableStores

/-! # What an admin request may ask of the driver

Nothing, unless its caller has the capability of its route. Then a GET only reads, the user
route writes no object, and the bucket route writes neither objects nor users. -/
namespace AdminCalls

open ByteStrings Interaction RgwTypes RgwSal RgwSalSqlite Http RgwAuth RgwAdminOps RestAdmin
  UserMutations AdminPrivileges ReachableStores

section Changes

/-- The calls that may change the store. -/
def Changes : DriverCall → Prop
  | .storeUser _ _ | .removeUser _ | .createBucket _ | .removeBucket _ _ | .putObject _ _ _ _ _ _
  | .deleteObject _ _ => True
  | _ => False

theorem exec_still {md5 : Str → Str} {c : DriverCall} (s : Tables) (hc : ¬Changes c) :
    (exec md5 c s).2 = s := by
  cases c <;> first | rfl | exact absurd trivial hc

/-- What a route of the admin API may change. -/
def AdminChange (endpoint : Endpoint) : DriverCall → Prop
  | .storeUser _ _ | .removeUser _ => endpoint = .user
  | .createBucket _ | .putObject _ _ _ _ _ _ => False
  | _ => endpoint ≠ .info

def adminDiscipline (req : AdminRequest) : Discipline DriverCall Reply where
  allowed _ c := req.identity.checkCap (capOf req.endpoint) (permOf req.method) = true ∧
    (Changes c → permOf req.method = .write ∧ AdminChange req.endpoint c)
  mayCut _ := True

end Changes

section Browsing

variable {d : Discipline DriverCall Reply} {P : Platform} {identity : Identity} {query : QueryArgs}
  {env : AdminEnv}

theorem userGet_browses (hd : ∀ h c, ¬Changes c → d.allowed h c) :
    Anytime d (userGet P identity query) := by
  have hread : ∀ {c : DriverCall}, ¬Changes c → Anytime d (invoke c) :=
    fun hc => anytime_invoke fun h => hd h _ hc
  unfold userGet
  refine anytime_bind (anytime_lift _) fun args => anytime_bind (anytime_lift _) fun _ => ?_
  refine anytime_bind (anytime_lift _) fun _ => anytime_ite ?_ ?_
  · refine anytime_bind (anytime_lift _) fun max => anytime_bind ?_ fun _ => anytime_pure _
    exact anytime_bind (hread id) fun _ => anytime_pure _
  · refine anytime_bind (anytime_lift _) fun uid => anytime_bind ?_ fun _ => anytime_pure _
    exact anytime_bind anytime_requireUid fun _ => hread id

theorem listAllBucketsLoop_browses (hd : ∀ h c, ¬Changes c → d.allowed h c) (hcut : ∀ h, d.mayCut h)
    (owner : Option UserId) (fuel : ℕ) (marker : Str) (out : List BucketInfo) :
    Anytime d (listAllBucketsLoop owner fuel marker out) := by
  induction fuel generalizing marker out with
  | zero => exact hcut
  | succ fuel ih =>
    refine anytime_bind (anytime_invoke fun h => hd h _ id) fun page => ?_
    exact anytime_ite (anytime_pure _) (anytime_ite (anytime_throw _) (ih page.nextMarker _))

theorem bucketEntries_browses (hd : ∀ h c, ¬Changes c → d.allowed h c) (stats : Bool)
    (buckets : List BucketInfo) : Anytime d (bucketEntries P stats buckets) := by
  induction buckets with
  | nil => exact anytime_pure _
  | cons b buckets ih =>
    have hrest : ∀ entry, Anytime d (do return entry :: (← bucketEntries P stats buckets)) :=
      fun entry => anytime_bind ih fun _ => anytime_pure _
    rw [bucketEntries]
    cases stats with
    | false => exact hrest _
    | true => exact anytime_bind (anytime_invoke fun h => hd h _ id) fun _ => hrest _

theorem bucketGet_browses (hd : ∀ h c, ¬Changes c → d.allowed h c) (hcut : ∀ h, d.mayCut h) :
    Anytime d (bucketGet P env identity query) := by
  have hread : ∀ {c : DriverCall}, ¬Changes c → Anytime d (invoke c) :=
    fun hc => anytime_invoke fun h => hd h _ hc
  unfold bucketGet
  refine anytime_bind (anytime_lift _) fun args => anytime_bind (anytime_lift _) fun _ => ?_
  refine anytime_bind (anytime_lift _) fun _ => anytime_bind (anytime_lift _) fun stats => ?_
  cases nonempty (args.string (bytes "bucket")) with
  | some bucket =>
    refine anytime_bind ?_ fun _ => anytime_pure _
    refine anytime_bind (anytime_ite (anytime_throw _) (anytime_pure _)) fun _ => ?_
    exact anytime_bind (hread id) fun _ => anytime_bind (hread id) fun _ => anytime_pure _
  | none =>
    refine anytime_bind (listAllBucketsLoop_browses hd hcut _ env.fuel [] []) fun _ => ?_
    exact anytime_bind (bucketEntries_browses hd _ _) fun _ => anytime_pure _

end Browsing

section Routes

variable {P : Platform} {req : AdminRequest}

theorem lacks_of_refused {identity : Identity} {cap : Str} {perm : CapPerm}
    (h : identity.checkCap cap perm ≠ true) : Lacks identity cap perm := by
  intro u hu
  rw [Identity.checkCap, hu, Option.any_some, ne_eq, Bool.or_eq_true, not_or] at h
  refine ⟨Bool.eq_false_iff.mpr h.1, fun held hheld hbits => h.2 ?_⟩
  rw [UserCaps.checkCap, hheld, Option.any_some, CapPerm.contains]
  exact beq_iff_eq.mpr hbits

theorem userRoute_permits (granted : req.identity.checkCap usersCap .write = true)
    (hend : req.endpoint = .user) (hw : permOf req.method = .write) : Permits (adminDiscipline req) := by
  have hcap : req.identity.checkCap (capOf req.endpoint) (permOf req.method) = true := by
    rw [hend, hw]
    exact granted
  exact {
    load := fun _ _ => ⟨hcap, fun h => h.elim⟩
    byAccessKey := fun _ _ => ⟨hcap, fun h => h.elim⟩
    byEmail := fun _ _ => ⟨hcap, fun h => h.elim⟩
    store := fun _ _ _ => ⟨hcap, fun _ => ⟨hw, hend⟩⟩ }

/-- An operation of an administrator, on the route of the users. -/
theorem userRoute_admin {α : Type} {x : Op α} (hx : Admin x)
    (hcap : req.identity.checkCap (capOf req.endpoint) (permOf req.method) = true)
    (hend : req.endpoint = .user) (hw : permOf req.method = .write) :
    Anytime (adminDiscipline req) x := by
  intro h
  refine (hx h).weaken (fun h c hc => ⟨hcap, fun _ => ⟨hw, ?_⟩⟩) fun _ _ => trivial
  rw [hend]
  cases c with
  | createBucket info => exact hc
  | putObject bucket key owner attrs body now => exact hc
  | storeUser info exclusive => rfl
  | removeUser id => rfl
  | _ => exact fun he => by cases he

/-- The same on the route of the buckets, when it writes no user. -/
theorem bucketRoute_admin {α : Type} {x : Op α} (hx : Admin x) (hreads : Reads [] x.run)
    (hcap : req.identity.checkCap (capOf req.endpoint) (permOf req.method) = true)
    (hend : req.endpoint = .bucket) (hw : permOf req.method = .write) :
    Keeps (adminDiscipline req) [] x.run := by
  have hboth := ((hx []).and hreads).mono (Q := fun _ _ => True) fun _ _ _ _ => trivial
  refine hboth.weaken (fun h c hc => ⟨hcap, fun _ => ⟨hw, ?_⟩⟩) fun _ _ => trivial
  obtain ⟨hadmin, -, hwrite⟩ := hc
  rw [hend]
  cases c with
  | createBucket info => exact hadmin
  | putObject bucket key owner attrs body now => exact hadmin
  | storeUser info exclusive => exact (hwrite _ rfl).elim
  | removeUser id => exact (hwrite _ rfl).elim
  | _ => exact fun he => by cases he

theorem userPut_calls (hp : Permits (adminDiscipline req)) :
    Anytime (adminDiscipline req) (userPut P req.env req.identity req.query) := by
  unfold userPut
  refine anytime_bind (anytime_lift _) fun args => anytime_bind (anytime_lift _) fun _ => ?_
  refine anytime_bind (anytime_lift _) fun _ => anytime_ite ?_ (anytime_ite ?_ ?_)
  · refine anytime_bind (anytime_lift _) fun uid => anytime_bind (anytime_lift _) fun generate => ?_
    exact anytime_bind (anytime_keyCreate hp _ _ _ _) fun _ => anytime_pure _
  · refine anytime_bind (anytime_lift _) fun uid => anytime_bind (anytime_lift _) fun caps => ?_
    exact anytime_bind (anytime_capsAdd hp _) fun _ => anytime_pure _
  · refine anytime_bind (anytime_lift _) fun uid => anytime_bind (anytime_lift _) fun name => ?_
    refine anytime_bind (anytime_lift _) fun _ => anytime_bind (anytime_lift _) fun _ => ?_
    refine anytime_bind (anytime_lift _) fun _ => anytime_bind (anytime_lift _) fun _ => ?_
    exact anytime_bind (anytime_userCreate hp _ _) fun _ => anytime_pure _

theorem userPost_calls (hp : Permits (adminDiscipline req)) :
    Anytime (adminDiscipline req) (userPost P req.env req.identity req.query) := by
  unfold userPost
  refine anytime_bind (anytime_lift _) fun args => anytime_bind (anytime_lift _) fun _ => ?_
  refine anytime_bind (anytime_lift _) fun _ => anytime_bind (anytime_lift _) fun uid => ?_
  refine anytime_bind (anytime_lift _) fun _ => anytime_bind (anytime_lift _) fun _ => ?_
  refine anytime_bind (anytime_lift _) fun _ => anytime_bind (anytime_lift _) fun _ => ?_
  exact anytime_bind (anytime_userModify hp _ _) fun _ => anytime_pure _

theorem userDelete_calls (hp : Permits (adminDiscipline req))
    (hremove : ∀ (uid : UserId) (purge : Bool),
      Anytime (adminDiscipline req) (userRemove req.env.fuel uid purge)) :
    Anytime (adminDiscipline req) (userDelete req.env req.identity req.query) := by
  unfold userDelete
  refine anytime_bind (anytime_lift _) fun args => anytime_bind (anytime_lift _) fun _ => ?_
  refine anytime_bind (anytime_lift _) fun _ => anytime_bind (anytime_lift _) fun uid => ?_
  refine anytime_ite ?_ (anytime_ite ?_ ?_)
  · refine anytime_bind (anytime_lift _) fun accessKey => ?_
    exact anytime_bind (anytime_keyRemove hp _) fun _ => anytime_pure _
  · refine anytime_bind (anytime_lift _) fun caps => ?_
    exact anytime_bind (anytime_capsRemove hp _) fun _ => anytime_pure _
  · refine anytime_bind (anytime_lift _) fun purge => ?_
    exact anytime_bind (hremove uid _) fun _ => anytime_pure _

theorem bucketDelete_admin : Admin (bucketDelete req.env req.identity req.query) := by
  unfold bucketDelete
  refine anytime_bind (anytime_lift _) fun args => anytime_bind (anytime_lift _) fun _ => ?_
  refine anytime_bind (anytime_lift _) fun _ => anytime_bind (anytime_lift _) fun bucket => ?_
  refine anytime_bind (anytime_lift _) fun purge => ?_
  exact anytime_bind (admin_bucketRemove _ _ _ _) fun _ => anytime_pure _

theorem permOf_write (h : ¬(req.method.name = methodGet ∨ req.method.name = methodHead)) :
    permOf req.method = .write := by
  rw [permOf, if_neg h]

/-- Every request of the admin API keeps to what its route and method may do. -/
theorem handler_calls (P : Platform) (req : AdminRequest) :
    Keeps (adminDiscipline req) [] (handler P req).run := by
  by_cases hcap : req.identity.checkCap (capOf req.endpoint) (permOf req.method) = true
  swap
  · obtain ⟨e, he⟩ := handler_refused P req (lacks_of_refused hcap)
    rw [he]
    exact trivial
  have hread : ∀ h c, ¬Changes c → (adminDiscipline req).allowed h c :=
    fun _ _ hc => ⟨hcap, fun h => absurd h hc⟩
  rw [handler.eq_def]
  dsimp only
  split
  case h_1 hend =>
    split
    · exact userGet_browses hread []
    have hw : permOf req.method = .write := permOf_write ‹_›
    have hp : Permits (adminDiscipline req) := by
      rw [hend, hw] at hcap
      exact userRoute_permits hcap hend hw
    split
    · exact userPut_calls hp []
    split
    · exact userPost_calls hp []
    split
    · refine userDelete_calls hp (fun uid purge => ?_) []
      exact userRoute_admin (admin_userRemove _ _) hcap hend hw
    · exact trivial
  case h_2 hend =>
    split
    · exact bucketGet_browses hread (fun _ => trivial) []
    split
    · exact trivial
    split
    · have hw : permOf req.method = .write := permOf_write ‹_›
      exact bucketRoute_admin bucketDelete_admin (bucketDelete_reads _ _ _) hcap hend hw
    · exact trivial
  case h_3 =>
    split
    · exact keeps_lift_bind fun _ _ => keeps_done _
    · exact trivial

theorem serve_calls (P : Platform) (req : AdminRequest) :
    Keeps (adminDiscipline req) [] (serve P req) :=
  obeys_bind.mpr ((handler_calls P req).mono fun _ _ _ _ => trivial)

end Routes

end AdminCalls
