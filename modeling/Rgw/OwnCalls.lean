import Rgw.RequestShapes

/-! # Whose buckets a request lists and creates

Those of the user it is made by. A request without a user lists and creates none. -/
namespace OwnCalls

open ByteStrings Interaction RgwTypes RgwSal Http RgwAuth RestS3Wire RestS3Handlers S3Discipline
  BucketIncarnations RequestShapes

/-- The user is the one that the request is made by. -/
def Own (identity : Identity) (owner : UserId) : Prop :=
  ∃ u, identity.userInfo = some u ∧ owner = u.userId

def ownCalls (identity : Identity) : Discipline DriverCall Reply where
  allowed _
    | .listBuckets owner _ _ => ∃ uid, owner = some uid ∧ Own identity uid
    | .createBucket info => Own identity info.owner
    | _ => True
  mayCut _ := True

variable {identity : Identity} {env : ReqEnv} {req : Request} {P : Platform} {args : Args}
  {name key : Str} {headers : HeaderMap} {body : ObjectBody} {h : History} {ctx : ReqCtx}

section Shapes

theorem object_allowed {c : DriverCall} {bucket : BucketKey} (key : objectBucket c = some bucket) :
    (ownCalls identity).allowed h c := by
  cases c with
  | listBuckets owner marker max => cases key
  | createBucket info => cases key
  | _ => trivial

theorem keeps_ends {c : DriverCall} {k : Reply c → Program} (hc : (ownCalls identity).allowed h c)
    (ends : ∀ r, ∃ resp, k r = .done resp) : Keeps (ownCalls identity) h (.call c k) := by
  refine ⟨hc, fun r => ?_⟩
  obtain ⟨resp, hr⟩ := ends r
  rw [hr]
  exact trivial

theorem oneCall_owns {removes : Prop} {b : BucketInfo} {p : Program} (hp : OneCall ctx removes b p) :
    Keeps (ownCalls identity) h p := by
  cases hp with
  | answer resp => exact trivial
  | object key body ends gone => exact keeps_ends (object_allowed key) ends
  | removal allowed ends gone => exact keeps_ends trivial ends

theorem oneRead_owns {range : Option ByteRange} {b : BucketInfo} {p : Program}
    (hp : OneRead ctx range b p) : Keeps (ownCalls identity) h p := by
  cases hp with
  | answer resp fits => exact trivial
  | @read key k k' found lost unfit size unsized =>
    refine ⟨trivial, fun r => ?_⟩
    cases r with
    | ok read =>
      obtain ⟨resp, hr, -⟩ := found read
      rw [hr]
      exact trivial
    | error e =>
      by_cases he : e = .invalidRange
      · subst e
        rw [unfit]
        refine keeps_ends trivial fun r => ?_
        cases r with
        | ok info => exact ⟨_, size info⟩
        | error e => exact ⟨_, unsized e⟩
      · rw [lost e he]
        exact trivial

theorem onBucket_owns {rest : BucketInfo → Program → Prop} {p : Program} (hp : OnBucket ctx rest p)
    (hrest : ∀ b q h, rest b q → Keeps (ownCalls identity) h q) : Keeps (ownCalls identity) h p := by
  cases hp with
  | answer resp fits => exact trivial
  | load denied granted =>
    refine ⟨trivial, fun r => ?_⟩
    cases r with
    | ok b => exact hrest b _ _ (granted b)
    | error e =>
      rw [denied e]
      exact trivial

end Shapes

section Operations

theorem requireUser_own {user : UserInfo} (hu : requireUser identity = .ok user) :
    Own identity user.userId := by
  rw [requireUser] at hu
  split at hu
  · next u hi =>
    cases hu
    exact ⟨_, hi, rfl⟩
  · cases hu

theorem listOwnedBucketsLoop_owns {owner : UserId} (ho : Own identity owner) (limit : Option ℕ)
    (fuel : ℕ) (marker : Str) (out : List BucketInfo) :
    Keeps (ownCalls identity) h (listOwnedBucketsLoop owner limit fuel marker out).run := by
  induction fuel generalizing h marker out with
  | zero => exact trivial
  | succ fuel ih =>
    rw [listOwnedBucketsLoop]
    refine keeps_invoke_bind ⟨owner, rfl, ho⟩ fun page => ?_
    by_cases hl : limit.any (fun l => l ≤ (out ++ page.buckets).length) = true
    · simp only [hl, ↓reduceIte]
      exact keeps_done _
    simp only [hl]
    cases page.buckets.getLast? with
    | none => exact keeps_done _
    | some last =>
      by_cases ht : page.isTruncated = true
      · simp only [ht, ↓reduceIte]
        exact ih _ _
      · simp only [ht]
        exact keeps_done _

theorem listBuckets_owns : Keeps (ownCalls identity) [] (listBuckets P env identity).run := by
  refine keeps_plain (keeps_lift_bind fun user hu => keeps_bind ?_)
  refine (listOwnedBucketsLoop_owns (requireUser_own hu) none env.fuel [] []).mono ?_
  intro h' r _ _ a _
  exact keeps_done _

theorem createBucket_owns : Keeps (ownCalls identity) [] (createBucket env identity name).run := by
  refine keeps_create fun user hu _ => ?_
  have hquota : Keeps (ownCalls identity) [] (checkQuota env user).run := by
    rw [checkQuota]
    by_cases hn : user.maxBuckets < 0
    · simp only [hn, ↓reduceIte]
      exact keeps_done _
    simp only [hn, ↓reduceIte]
    by_cases hp : user.maxBuckets > 0
    · simp only [hp, ↓reduceIte]
      refine keeps_bind ((listOwnedBucketsLoop_owns (requireUser_own hu) _ env.fuel [] []).mono ?_)
      intro h' r _ _ owned _
      by_cases hm : user.maxBuckets.toNat ≤ owned.length
      · simp only [hm, ↓reduceIte]
        exact keeps_done _
      · simp only [hm, ↓reduceIte]
        exact keeps_done _
    · simp only [hp]
      exact keeps_done _
  exact hquota.mono fun _ _ _ _ _ => ⟨requireUser_own hu, fun _ => trivial⟩

theorem deleteEach_owns {bucket : BucketKey} (quiet : Bool) (objects : List RestS3Wire.DeleteObject)
    (result : DeleteResult) : Keeps (ownCalls identity) h
    (deleteEach bucket quiet objects result).run := by
  induction objects generalizing h result with
  | nil => exact keeps_done _
  | cons obj objects ih =>
    rw [deleteEach]
    refine keeps_attempt_bind trivial fun r => ?_
    cases r with
    | ok _ => exact ih _
    | error e => cases e <;> exact ih _

theorem deleteMulti_owns : Keeps (ownCalls identity) []
    (deleteMulti P identity name headers body).run := by
  refine keeps_plain (keeps_load_bind trivial fun r b => ?_)
  refine keeps_lift_bind fun expected _ => keeps_lift_bind fun data _ => ?_
  have hrest : ∀ h, Keeps (ownCalls identity) h (do
      let req ← liftM (parseDeleteRequest P data)
      let result ← deleteEach b.bucket req.quiet req.objects ⟨xmlns, [], []⟩
      return xmlResponse (.deleteResult result) : Op Response).run := by
    intro h
    refine keeps_lift_bind fun req _ => keeps_bind ?_
    exact (deleteEach_owns req.quiet req.objects _).mono fun _ _ _ _ _ _ => keeps_done _
  cases expected with
  | none => exact hrest _
  | some expected => exact keeps_lift_bind fun _ _ => hrest _

end Operations

section Dispatch

theorem bucketPut_owns : Keeps (ownCalls identity) [] (bucketPut env identity args name).run := by
  refine keeps_reject ?_
  by_cases hv : args.exists_ (bytes "versioning") = true
  · rw [if_pos hv]
    exact keeps_done _
  · rw [if_neg hv]
    exact createBucket_owns

theorem bucketPost_owns :
    Keeps (ownCalls identity) [] (bucketPost P identity args name headers body).run := by
  rw [bucketPost]
  by_cases hd : args.exists_ (bytes "delete") = true
  · rw [if_pos hd]
    exact deleteMulti_owns
  · rw [if_neg hd]
    exact keeps_done _

/-- Every request, whatever its route, query and headers, as authentication hands it on. -/
theorem handle_owns (writes : Writes Readable identity req.body) :
    Keeps (ownCalls identity) [] (handle P env identity req) := by
  by_cases one : OneBucket req
  · by_cases hd : IsDownload req
    · exact onBucket_owns (download_onBucket hd) fun _ _ _ hq => oneRead_owns hq
    · exact onBucket_owns (handle_onBucket writes one hd) fun _ _ _ hq => oneCall_owns hq
  rw [OneBucket] at one
  rw [handle]
  cases hroute : route req.uri.path with
  | service =>
    dsimp only
    by_cases hg : req.method.name = methodGet
    · rw [if_pos hg]
      exact keeps_finish listBuckets_owns
    rw [if_neg hg]
    by_cases hh : req.method.name = methodHead
    · rw [if_pos hh]
      exact obeys_bind.mpr ((keeps_finish listBuckets_owns).mono fun _ _ _ _ => trivial)
    · rw [if_neg hh]
      exact trivial
  | bucket segment =>
    have hmethod : req.method.name = bytes "PUT" ∨ req.method.name = bytes "POST" := by
      simp only [hroute, ne_eq, not_and_or, not_not] at one
      exact one
    dsimp only
    cases hop : bucketMethod P env identity req with
    | none => exact trivial
    | some op =>
      cases pathParam segment with
      | none => exact trivial
      | some name =>
        refine keeps_finish ?_
        dsimp only [bucketMethod] at hop
        rcases hmethod with hm | hm
        · rw [if_neg (by rw [hm]; decide), if_neg (by rw [hm]; decide), if_pos hm] at hop
          cases hop
          exact bucketPut_owns
        · rw [if_neg (by rw [hm]; decide), if_neg (by rw [hm]; decide), if_neg (by rw [hm]; decide),
            if_neg (by rw [hm]; decide), if_pos hm] at hop
          cases hop
          exact bucketPost_owns
  | object segment rest => simp [hroute] at one
  | unknown => exact trivial

end Dispatch

end OwnCalls
