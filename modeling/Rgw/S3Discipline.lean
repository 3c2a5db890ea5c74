import Rgw.RestS3Handlers

/-! # What an S3 request may ask of the driver

Every call of a request follows one discipline: a bucket's objects are reached, and a bucket is
removed, only after that bucket was loaded and the identity verified against it, one bucket at
most is created, and nothing follows a removal. -/
namespace S3Discipline

open ByteStrings Interaction RgwTypes RgwSal Http RgwAuth RestS3Wire RestS3Handlers

abbrev History := List (Event DriverCall Reply)

section Calls

def NoRemoval (h : History) : Prop := ∀ e ∈ h, ∀ tenant name, e.1 ≠ .removeBucket tenant name
def NoCreation (h : History) : Prop := ∀ e ∈ h, ∀ info, e.1 ≠ .createBucket info

/-- The bucket was loaded, and the identity has access to it as it was then. -/
def Loaded (identity : Identity) (h : History) (b : BucketInfo) : Prop :=
  (∃ name, ⟨.loadBucket [] name, .ok b⟩ ∈ h) ∧ verifyBucketAccess identity b = .ok ()

variable (B : ObjectBody → Prop) (identity : Identity) (bucketId : Str) (h : History)

inductive S3Call : DriverCall → Prop where
  | listBuckets (owner : Option UserId) (marker : Str) (max : ℕ) :
      S3Call (.listBuckets owner marker max)
  | loadBucket (name : Str) : S3Call (.loadBucket [] name)
  | createBucket (info : BucketInfo) (id : info.bucket.bucketId = bucketId)
      (first : NoCreation h) : S3Call (.createBucket info)
  | removeBucket (b : BucketInfo) (loaded : Loaded identity h b) :
      S3Call (.removeBucket b.bucket.tenant b.bucket.name)
  | object (c : DriverCall) (b : BucketInfo) (loaded : Loaded identity h b)
      (key : objectBucket c = some b.bucket) (body : ∀ body, writtenBody c = some body → B body) :
      S3Call c

/-- What a request may call next. -/
def S3Allowed (c : DriverCall) : Prop := NoRemoval h ∧ S3Call B identity bucketId h c

end Calls

section Walks

/-- The pages of one owner's buckets read so far, each with more to come, and where the next
one starts. -/
inductive Walk (owner : UserId) : History → Str → Prop where
  | start : Walk owner [] []
  | page {h : History} {marker : Str} (page : BucketList) (last : BucketInfo)
      (before : Walk owner h marker) (ends : page.buckets.getLast? = some last)
      (more : page.isTruncated = true) :
      Walk owner (⟨.listBuckets (some owner) marker 0, .ok page⟩ :: h)
        (if page.nextMarker = [] then last.bucket.name else page.nextMarker)

theorem walk_calls {owner : UserId} {h : History} {marker : Str} (hw : Walk owner h marker) :
    ∀ e ∈ h, ∃ marker', e.1 = .listBuckets (some owner) marker' 0 := by
  induction hw with
  | start => exact fun e he => by cases he
  | page page last before ends more ih =>
    intro e he
    rcases List.mem_cons.mp he with rfl | he
    · exact ⟨_, rfl⟩
    · exact ih e he

theorem walk_noRemoval {owner : UserId} {h : History} {marker : Str} (hw : Walk owner h marker) :
    NoRemoval h := by
  intro e he tenant name hc
  obtain ⟨m, hm⟩ := walk_calls hw e he
  rw [hm] at hc
  cases hc

theorem walk_noCreation {owner : UserId} {h : History} {marker : Str} (hw : Walk owner h marker) :
    NoCreation h := by
  intro e he info hc
  obtain ⟨m, hm⟩ := walk_calls hw e he
  rw [hm] at hc
  cases hc

end Walks

/-- The discipline of a request: it is cut only in a walk that used all of its limit. -/
def s3Discipline (B : ObjectBody → Prop) (identity : Identity) (env : ReqEnv) :
    Discipline DriverCall Reply where
  allowed := S3Allowed B identity env.bucketId
  mayCut h := ∃ owner marker, Walk owner h marker ∧ h.length = env.fuel

section Loading

variable {B : ObjectBody → Prop} {identity : Identity} {h : History}
  {b : BucketInfo} {env : ReqEnv}

/-- A request may go on to the objects of the bucket it loaded. -/
structure Holds (identity : Identity) (h : History) (b : BucketInfo) : Prop where
  loaded : Loaded identity h b
  present : NoRemoval h

theorem Holds.object (hh : Holds identity h b) {c : DriverCall}
    (key : objectBucket c = some b.bucket) (body : ∀ body, writtenBody c = some body → B body) :
    S3Allowed B identity env.bucketId h c :=
  ⟨hh.present, .object c b hh.loaded key body⟩

theorem Holds.after (hh : Holds identity h b) {c : DriverCall} {k : BucketKey}
    (key : objectBucket c = some k) (r : Reply c) : Holds identity (⟨c, r⟩ :: h) b := by
  obtain ⟨⟨⟨name, hn⟩, hv⟩, hp⟩ := hh
  refine ⟨⟨⟨name, List.mem_cons_of_mem _ hn⟩, hv⟩, fun e he tenant name hc => ?_⟩
  rcases List.mem_cons.mp he with rfl | he
  · subst hc
    cases key
  · exact hp e he tenant name hc

theorem noRemoval_nil : NoRemoval [] := fun _ he => by cases he
theorem noCreation_nil : NoCreation [] := fun _ he => by cases he

theorem noRemoval_cons {c : DriverCall} {r : Reply c} (hh : NoRemoval h)
    (hc : ∀ tenant name, c ≠ .removeBucket tenant name) : NoRemoval (⟨c, r⟩ :: h) := by
  intro e he
  rcases List.mem_cons.mp he with rfl | he
  · exact hc
  · exact hh e he

theorem noCreation_cons {c : DriverCall} {r : Reply c} (hh : NoCreation h)
    (hc : ∀ info, c ≠ .createBucket info) : NoCreation (⟨c, r⟩ :: h) := by
  intro e he
  rcases List.mem_cons.mp he with rfl | he
  · exact hc
  · exact hh e he

theorem obeys_loadBucketFor {name : Str} :
    (loadBucketFor identity name).run.Obeys (s3Discipline B identity env)
      (fun h' r => ∀ b, r = .ok b → Holds identity h' b) [] := by
  rw [loadBucketFor]
  by_cases hs : (47 : UInt8) ∈ name
  · simp only [hs, ↓reduceIte]
    intro b hb
    cases hb
  · simp only [hs, ↓reduceIte]
    refine obeys_except_bind.mpr ⟨⟨noRemoval_nil, .loadBucket name⟩, fun r => ?_⟩
    cases r with
    | error e =>
      intro b hb
      cases hb
    | ok loaded =>
      refine obeys_except_bind.mpr ?_
      cases hv : verifyBucketAccess identity loaded with
      | error e =>
        intro b hb
        cases hb
      | ok _ =>
        intro b hb
        cases hb
        exact ⟨⟨⟨name, List.mem_singleton_self _⟩, hv⟩,
          noRemoval_cons noRemoval_nil fun _ _ hc => by cases hc⟩

theorem keeps_loadBucketFor_bind {β : Type} {name : Str} {f : BucketInfo → Op β}
    (hf : ∀ h' b, Holds identity h' b → Keeps (s3Discipline B identity env) h' (f b).run) :
    Keeps (s3Discipline B identity env) [] (loadBucketFor identity name >>= f).run :=
  keeps_bind (obeys_loadBucketFor.mono fun h' _ _ hr b hb => hf h' b (hr b hb))

/-- Walking a user's buckets neither creates nor removes one. -/
theorem obeys_listOwnedBucketsLoop (owner : UserId) (limit : Option ℕ) (fuel : ℕ) (marker : Str)
    (out : List BucketInfo) (hw : Walk owner h marker) (hf : h.length + fuel = env.fuel) :
    (listOwnedBucketsLoop owner limit fuel marker out).run.Obeys (s3Discipline B identity env)
      (fun h' _ => NoRemoval h' ∧ NoCreation h') h := by
  induction fuel generalizing h marker out with
  | zero => exact ⟨owner, marker, hw, hf⟩
  | succ fuel ih =>
    rw [listOwnedBucketsLoop]
    refine obeys_except_bind.mpr ⟨⟨walk_noRemoval hw, .listBuckets _ _ _⟩, fun r => ?_⟩
    have hquiet : NoRemoval (⟨.listBuckets (some owner) marker 0, r⟩ :: h) ∧
        NoCreation (⟨.listBuckets (some owner) marker 0, r⟩ :: h) :=
      ⟨noRemoval_cons (walk_noRemoval hw) (fun _ _ he => by cases he),
        noCreation_cons (walk_noCreation hw) fun _ he => by cases he⟩
    cases r with
    | error e => exact hquiet
    | ok page =>
      rw [obeys_done]
      dsimp only
      by_cases hl : limit.any (fun l => l ≤ (out ++ page.buckets).length) = true
      · simp only [hl, ↓reduceIte]
        exact hquiet
      · simp only [hl]
        cases hlast : page.buckets.getLast? with
        | none => exact hquiet
        | some last =>
          by_cases ht : page.isTruncated = true
          · simp only [ht, ↓reduceIte]
            refine ih _ _ (.page page last hw hlast ht) ?_
            rw [List.length_cons]
            omega
          · simp only [ht]
            exact hquiet

end Loading

section Plain

variable {d : Discipline DriverCall Reply} {h : History} {α : Type}

theorem obeys_plain {x : Op α} {Q : History → Except OpError α → Prop} :
    (plain x).run.Obeys d Q h ↔
      x.run.Obeys d (fun h' r => Q h' (r.mapError .ofError)) h := by
  change (x.run >>= fun r => .done (r.mapError OpError.ofError)).Obeys _ Q h ↔ _
  rw [obeys_bind]
  rfl

theorem keeps_plain {x : Op α} (hx : Keeps d h x.run) : Keeps d h (plain x).run :=
  obeys_plain.mpr hx

/-- Loading a bucket for a request is one call, whatever the discipline makes of it. -/
theorem keeps_load_bind {identity : Identity} {name : Str} {f : BucketInfo → Op α}
    (hl : d.allowed h (.loadBucket [] name))
    (hf : ∀ r b, Keeps d (⟨.loadBucket [] name, r⟩ :: h) (f b).run) :
    Keeps d h (loadBucketFor identity name >>= f).run := by
  rw [loadBucketFor]
  by_cases hs : (47 : UInt8) ∈ name
  · simp only [hs, ↓reduceIte]
    exact keeps_done _
  · simp only [hs, ↓reduceIte]
    refine obeys_except_bind.mpr (obeys_except_bind.mpr ⟨hl, fun r => ?_⟩)
    cases r with
    | error e => exact trivial
    | ok loaded =>
      refine obeys_except_bind.mpr ?_
      cases verifyBucketAccess identity loaded with
      | error e => exact trivial
      | ok _ => exact hf _ loaded

/-- A creation is one call after the quota was checked, and a load when it fails. -/
theorem keeps_create {env : ReqEnv} {identity : Identity} {name : Str}
    (hq : ∀ user, requireUser identity = .ok user → validateBucketName name = .ok () →
      (checkQuota env user).run.Obeys d (fun h' r => r = .ok () →
        d.allowed h' (.createBucket (newBucket env user.userId name)) ∧
        ∀ r, d.allowed (⟨.createBucket (newBucket env user.userId name), r⟩ :: h')
          (.loadBucket [] name)) h) :
    Keeps d h (createBucket env identity name).run := by
  refine keeps_plain (keeps_lift_bind fun user hu => keeps_lift_bind fun _ hname => keeps_bind ?_)
  apply (hq user hu hname).mono
  intro h' r _ hallowed _ hr
  apply keeps_attempt_bind (hallowed hr).1
  intro reply
  cases reply with
  | ok _ => exact keeps_lift_bind fun _ _ => keeps_done _
  | error e =>
    cases e with
    | bucketAlreadyExists =>
      apply keeps_attempt_bind ((hallowed hr).2 _)
      intro r
      cases r with
      | error _ => exact keeps_done _
      | ok existing =>
        by_cases ho : existing.owner = user.userId
        · simp only [ho, decide_true, ↓reduceIte]
          exact keeps_done _
        · simp only [ho, decide_false]
          exact keeps_done _
    | _ => exact keeps_done _

end Plain

section Dispatch

variable {d : Discipline DriverCall Reply} {h : History} {P : Platform} {env : ReqEnv}
  {identity : Identity} {req : Request}

/-- A request for what is not supported makes no call. -/
theorem keeps_reject {args : Args} {table : List Str} {op : S3Op Response} (hop : Keeps d h op.run) :
    Keeps d h (plain (rejectUnsupported args table) >>= fun _ => op : S3Op Response).run := by
  rw [rejectUnsupported]
  by_cases ha : (args.anyOf table).isSome = true
  · rw [if_pos ha]
    exact keeps_done _
  · rw [if_neg ha]
    exact hop

theorem keeps_finish {op : S3Op Response} (hop : Keeps d h op.run) : Keeps d h (finish env req op) := by
  refine obeys_bind.mpr (hop.mono fun h' r _ _ => ?_)
  cases r <;> exact trivial

/-- What the operations keep to, every request keeps to. -/
theorem keeps_handle (hlist : Keeps d h (listBuckets P env identity).run)
    (hbucket : ∀ op name, bucketMethod P env identity req = some op → Keeps d h (op name).run)
    (hobject : ∀ segment rest op name key, route req.uri.path = .object segment rest →
      objectMethod P env identity req = some op → pathParam rest = some key →
      Keeps d h (op name key).run) : Keeps d h (handle P env identity req) := by
  rw [handle]
  cases hroute : route req.uri.path with
  | service =>
    dsimp only
    by_cases hg : req.method.name = methodGet
    · rw [if_pos hg]
      exact keeps_finish hlist
    rw [if_neg hg]
    by_cases hh : req.method.name = methodHead
    · rw [if_pos hh]
      exact obeys_bind.mpr ((keeps_finish hlist).mono fun _ _ _ _ => trivial)
    · rw [if_neg hh]
      exact trivial
  | bucket segment =>
    dsimp only
    cases hop : bucketMethod P env identity req with
    | none => exact trivial
    | some op =>
      cases pathParam segment with
      | none => exact trivial
      | some name => exact keeps_finish (hbucket op name hop)
  | object segment rest =>
    dsimp only
    by_cases hp : req.method.name = bytes "POST"
    · rw [if_pos hp]
      exact keeps_finish (keeps_done _)
    rw [if_neg hp]
    cases hop : objectMethod P env identity req with
    | none => exact trivial
    | some op =>
      cases pathParam segment with
      | none => exact trivial
      | some name =>
        cases hkey : pathParam rest with
        | none => exact trivial
        | some key => exact keeps_finish (hobject segment rest op name key hroute hop hkey)
  | unknown => exact trivial

end Dispatch

section Operations

variable {B : ObjectBody → Prop} {identity : Identity} {h : History}
  {b : BucketInfo} {P : Platform} {env : ReqEnv} {args : Args} {name key : Str}
  {headers : HeaderMap} {body : ObjectBody}

/-- The bodies a request may write: its own and that as one chunk. -/
def Writes (B : ObjectBody → Prop) (identity : Identity) (body : ObjectBody) : Prop :=
  identity.userInfo ≠ none → B body ∧
    ∀ data, bufferBody body maxBufferedPut = .ok data → B (bodyFromBytes data)

theorem listBuckets_keeps : Keeps (s3Discipline B identity env) [] (listBuckets P env identity).run := by
  refine keeps_plain (keeps_lift_bind fun user _ => keeps_bind ?_)
  exact (obeys_listOwnedBucketsLoop _ _ _ _ _ .start (Nat.zero_add _)).mono
    fun _ _ _ _ _ _ => keeps_done _

theorem obeys_checkQuota (env : ReqEnv) (user : UserInfo) :
    (checkQuota env user).run.Obeys (s3Discipline B identity env)
      (fun h' _ => NoRemoval h' ∧ NoCreation h') [] := by
  rw [checkQuota]
  by_cases hn : user.maxBuckets < 0
  · simp only [hn, ↓reduceIte]
    exact ⟨noRemoval_nil, noCreation_nil⟩
  · simp only [hn, ↓reduceIte]
    by_cases hp : user.maxBuckets > 0
    · simp only [hp, ↓reduceIte]
      refine obeys_except_bind.mpr ((obeys_listOwnedBucketsLoop _ _ _ _ _ .start
        (Nat.zero_add _)).mono fun h' r _ hh => ?_)
      cases r with
      | error e => exact hh
      | ok owned =>
        by_cases hm : user.maxBuckets.toNat ≤ owned.length
        · simp only [hm, ↓reduceIte]
          exact hh
        · simp only [hm, ↓reduceIte]
          exact hh
    · simp only [hp]
      exact ⟨noRemoval_nil, noCreation_nil⟩

theorem createBucket_keeps : Keeps (s3Discipline B identity env) []
    (createBucket env identity name).run := by
  refine keeps_create fun user _ _ => (obeys_checkQuota env user).mono fun h' r _ ⟨hr, hc⟩ _ => ?_
  refine ⟨⟨hr, .createBucket _ rfl hc⟩, fun reply => ⟨?_, .loadBucket name⟩⟩
  exact noRemoval_cons hr fun _ _ he => by cases he

theorem deleteBucket_keeps : Keeps (s3Discipline B identity env) [] (deleteBucket identity name).run :=
  keeps_plain (keeps_loadBucketFor_bind fun _ _ hh =>
    keeps_invoke_bind ⟨hh.present, .removeBucket _ hh.loaded⟩ fun _ => keeps_done _)

theorem statBucket_keeps : Keeps (s3Discipline B identity env) [] (statBucket identity name).run :=
  keeps_plain (keeps_loadBucketFor_bind fun _ _ hh =>
    keeps_invoke_bind (hh.object rfl fun _ hb => by cases hb) fun _ =>
      keeps_lift_bind fun _ _ => keeps_lift_bind fun _ _ => keeps_done _)

theorem getLocation_keeps : Keeps (s3Discipline B identity env) [] (getLocation identity name).run :=
  keeps_plain (keeps_loadBucketFor_bind fun _ _ _ => keeps_done _)

theorem getVersioning_keeps : Keeps (s3Discipline B identity env) [] (getVersioning identity name).run :=
  keeps_plain (keeps_loadBucketFor_bind fun _ _ _ => keeps_done _)

theorem list_keeps (hh : Holds identity h b) (common : Common) (marker : Str) :
    Keeps (s3Discipline B identity env) h (common.list b.bucket marker).run := by
  rw [Common.list]
  by_cases hm : common.maxKeys = 0
  · rw [if_pos hm]
    exact keeps_done _
  · rw [if_neg hm]
    exact keeps_invoke (hh.object rfl fun _ hb => by cases hb)

theorem listObjectsV1_keeps :
    Keeps (s3Discipline B identity env) [] (listObjectsV1 P identity name args).run :=
  keeps_plain (keeps_lift_bind fun common _ => keeps_loadBucketFor_bind fun _ _ hh =>
    keeps_bind ((list_keeps hh common _).mono fun _ _ _ _ _ _ => keeps_done _))

theorem listObjectsV2_keeps :
    Keeps (s3Discipline B identity env) [] (listObjectsV2 P identity name args).run :=
  keeps_plain (keeps_lift_bind fun common _ => keeps_loadBucketFor_bind fun _ _ hh =>
    keeps_bind ((list_keeps hh common _).mono fun _ _ _ _ _ _ => keeps_done _))

theorem deleteObject_keeps :
    Keeps (s3Discipline B identity env) [] (deleteObject identity name key).run := by
  refine keeps_plain (keeps_loadBucketFor_bind fun h' b hh =>
    keeps_attempt_bind (hh.object rfl fun _ hb => by cases hb) fun r => ?_)
  cases r with
  | ok _ => exact keeps_done _
  | error e => cases e <;> exact keeps_done _

theorem deleteEach_keeps (quiet : Bool) (objects : List RestS3Wire.DeleteObject)
    (result : DeleteResult) (hh : Holds identity h b) :
    Keeps (s3Discipline B identity env) h (deleteEach b.bucket quiet objects result).run := by
  induction objects generalizing h result with
  | nil => exact keeps_done _
  | cons obj objects ih =>
    rw [deleteEach]
    apply keeps_attempt_bind (hh.object rfl fun _ hb => by cases hb)
    intro r
    have hh' := hh.after (c := .deleteObject b.bucket (.new obj.key)) rfl r
    cases r with
    | ok _ => exact ih _ hh'
    | error e => cases e <;> exact ih _ hh'

theorem deleteMulti_keeps :
    Keeps (s3Discipline B identity env) [] (deleteMulti P identity name headers body).run := by
  refine keeps_plain (keeps_loadBucketFor_bind fun h' b hh => keeps_lift_bind fun expected _ =>
    keeps_lift_bind fun data _ => ?_)
  have hrest : Keeps (s3Discipline B identity env) h' (do
      let req ← liftM (parseDeleteRequest P data)
      let result ← deleteEach b.bucket req.quiet req.objects ⟨xmlns, [], []⟩
      return xmlResponse (.deleteResult result) : Op Response).run :=
    keeps_lift_bind fun req _ => keeps_bind
      ((deleteEach_keeps req.quiet req.objects _ hh).mono fun _ _ _ _ _ _ => keeps_done _)
  cases expected with
  | none => exact hrest
  | some expected => exact keeps_lift_bind fun _ _ => hrest

theorem getObject_keeps (getData : Bool) :
    Keeps (s3Discipline B identity env) [] (getObject P identity name key headers getData).run := by
  rw [getObject]
  refine keeps_bind (obeys_plain.mpr (obeys_loadBucketFor.mono fun h' r _ hr b hb => ?_))
  have hh : Holds identity h' b := by
    cases r with
    | error e => cases hb
    | ok b' =>
      cases hb
      exact hr _ rfl
  have hhead : S3Allowed B identity env.bucketId h' (.headObject b.bucket (.new key)) :=
    hh.object rfl fun _ hb => by cases hb
  cases getData with
  | false =>
    simp only [Bool.not_false, ↓reduceIte]
    refine keeps_bind (obeys_plain.mpr ⟨hhead, fun r info _ => ?_⟩)
    cases requestedRange headers with
    | none => exact keeps_plain (keeps_done _)
    | some range =>
      cases hres : resolveRange range info.size with
      | none =>
        simp only [hres]
        exact keeps_done _
      | some resolved =>
        simp only [hres]
        exact keeps_plain (keeps_done _)
  | true =>
    simp only [Bool.not_true]
    refine keeps_attempt_bind (hh.object rfl fun _ hb => by cases hb) fun r => ?_
    cases r with
    | ok read => exact keeps_plain (keeps_done _)
    | error e =>
      cases e with
      | invalidRange =>
        have hhead' : S3Allowed B identity env.bucketId _ (.headObject b.bucket (.new key)) :=
          (hh.after (c := .getObject b.bucket (.new key) (requestedRange headers)) rfl
            (.error .invalidRange)).object rfl fun _ hb => by cases hb
        exact keeps_bind (obeys_plain.mpr ⟨hhead', fun _ _ _ => keeps_done _⟩)
      | _ => exact keeps_done _

theorem putObject_keeps (hB : Writes B identity body) :
    Keeps (s3Discipline B identity env) [] (putObject P env identity name key headers body).run := by
  rw [putObject]
  refine keeps_plain ?_
  by_cases hc : headers.containsKey (bytes "x-amz-copy-source") = true
  · simp only [hc, ↓reduceIte]
    exact keeps_done _
  simp only [hc]
  refine keeps_loadBucketFor_bind fun h' b hh => keeps_lift_bind fun user hu => ?_
  have hw : B body ∧ ∀ data, bufferBody body maxBufferedPut = .ok data → B (bodyFromBytes data) := by
    refine hB fun hn => ?_
    rw [requireUser, hn] at hu
    cases hu
  have hput : ∀ payload, B payload → S3Allowed B identity env.bucketId h' (.putObject b.bucket
      (.new key) ⟨user.userId, user.displayName⟩ (putAttrs headers) payload env.now) := by
    refine fun payload hp => hh.object rfl fun body' he => ?_
    cases he
    exact hp
  by_cases hl : maxObjectName < key.length
  · simp only [hl, ↓reduceIte]
    exact keeps_done _
  simp only [hl]
  by_cases hd : ((headerStr headers contentLength.val).bind (parseUnsigned 10 (2 ^ 64))).any
      (fun n => decide (maxPutSize < n)) = true
  · simp only [hd, ↓reduceIte]
    exact keeps_done _
  simp only [hd]
  refine keeps_lift_bind fun expected _ => ?_
  cases expected with
  | none => exact keeps_invoke_bind (hput _ hw.1) fun _ => keeps_lift_bind fun _ _ => keeps_done _
  | some expected =>
    refine keeps_lift_bind fun data hdata => keeps_lift_bind fun _ _ => ?_
    exact keeps_invoke_bind (hput _ (hw.2 data hdata)) fun _ =>
      keeps_lift_bind fun _ _ => keeps_done _

end Operations

section Requests

variable {B : ObjectBody → Prop} {identity : Identity} {h : History}
  {P : Platform} {env : ReqEnv} {args : Args} {name key : Str} {req : Request}

theorem bucketGet_keeps : Keeps (s3Discipline B identity env) []
    (bucketGet P identity args name).run := by
  rw [bucketGet]
  by_cases hl : args.exists_ (bytes "location") = true
  · rw [if_pos hl]
    exact getLocation_keeps
  rw [if_neg hl]
  by_cases hv : args.exists_ (bytes "versioning") = true
  · rw [if_pos hv]
    exact getVersioning_keeps
  rw [if_neg hv]
  refine keeps_reject ?_
  by_cases ht : args.get (bytes "list-type") = some (bytes "2")
  · rw [if_pos ht]
    exact listObjectsV2_keeps
  · rw [if_neg ht]
    exact listObjectsV1_keeps

theorem bucketPut_keeps :
    Keeps (s3Discipline B identity env) [] (bucketPut env identity args name).run := by
  refine keeps_reject ?_
  by_cases hv : args.exists_ (bytes "versioning") = true
  · rw [if_pos hv]
    exact keeps_done _
  · rw [if_neg hv]
    exact createBucket_keeps

theorem bucketPost_keeps {headers : HeaderMap} {body : ObjectBody} :
    Keeps (s3Discipline B identity env) [] (bucketPost P identity args name headers body).run := by
  rw [bucketPost]
  by_cases hd : args.exists_ (bytes "delete") = true
  · rw [if_pos hd]
    exact deleteMulti_keeps
  · rw [if_neg hd]
    exact keeps_done _

theorem bucketMethod_keeps {op : Str → S3Op Response}
    (hop : bucketMethod P env identity req = some op) :
    Keeps (s3Discipline B identity env) [] (op name).run := by
  simp only [bucketMethod] at hop
  split at hop
  · cases hop
    exact bucketGet_keeps
  split at hop
  · cases hop
    exact statBucket_keeps
  split at hop
  · cases hop
    exact bucketPut_keeps
  split at hop
  · cases hop
    exact keeps_reject deleteBucket_keeps
  split at hop
  · cases hop
    exact bucketPost_keeps
  · cases hop

theorem objectMethod_keeps (hB : Writes B identity req.body) {op : Str → Str → S3Op Response}
    (hop : objectMethod P env identity req = some op) :
    Keeps (s3Discipline B identity env) [] (op name key).run := by
  simp only [objectMethod] at hop
  split at hop
  · cases hop
    exact keeps_reject (getObject_keeps true)
  split at hop
  · cases hop
    exact keeps_reject (getObject_keeps false)
  split at hop
  · cases hop
    exact keeps_reject (putObject_keeps hB)
  split at hop
  · cases hop
    exact keeps_reject deleteObject_keeps
  · cases hop

/-- Every request keeps to the discipline, whatever its route, query, headers and body. -/
theorem handle_keeps (hB : Writes B identity req.body) :
    Keeps (s3Discipline B identity env) [] (handle P env identity req) :=
  keeps_handle listBuckets_keeps (fun _ _ hop => bucketMethod_keeps hop) fun _ _ _ _ _ _ hop _ =>
    objectMethod_keeps hB hop

end Requests

end S3Discipline
