import Rgw.ListingPages
import Rgw.ObjectRoundTrip

/-! # Storage classes

The class a put names is kept as an attribute. The driver fills the field of the record with a
class of its own, and every reader takes the field first. -/
namespace StorageClasses

open ByteStrings TextCodecs SortedMaps Interaction RgwTypes RgwSal RgwSalSqlite Http RestS3Wire
  RestS3Handlers StoreInvariants StoreRefinement ObjectResponses ObjectRequests ObjectReads
  ObjectRoundTrip ListingPages
open RgwAuth (Identity)

variable {md5 : Str → Str} {s t : Tables} {bucketId name : Str} {c : DriverCall}

section Later

/-- A call that neither overwrites nor deletes an object. -/
def Spares (bucketId name : Str) : DriverCall → Prop
  | .putObject bucket key _ _ _ _ | .deleteObject bucket key =>
    ¬(bucket.bucketId = bucketId ∧ key.name = name)
  | _ => True

instance (bucketId name : Str) : DecidablePred (Spares bucketId name)
  | .putObject bucket key .. | .deleteObject bucket key =>
    inferInstanceAs (Decidable ¬(bucket.bucketId = bucketId ∧ key.name = name))
  | .loadUser .. | .loadUserByAccessKey .. | .loadUserByEmail .. | .storeUser .. | .removeUser ..
  | .listUsers .. | .createBucket .. | .loadBucket .. | .listBuckets .. | .removeBucket ..
  | .bucketStats .. | .listObjects .. | .headObject .. | .getObject .. => isTrue trivial

theorem spares_object (h : Spares bucketId name c) :
    (exec md5 c s).2.objects[(bucketId, name)]? = s.objects[(bucketId, name)]? := by
  cases c with
  | storeUser info exclusive =>
    rw [exec_storeUser]
    split
    · rfl
    · split <;> rfl
  | removeUser id =>
    rw [exec_removeUser]
    split <;> rfl
  | createBucket info =>
    rw [exec_createBucket]
    split <;> rfl
  | removeBucket tenant bucketName =>
    rw [exec_removeBucket]
    cases s.bucketNamed tenant bucketName with
    | none => rfl
    | some r =>
      dsimp only
      split <;> rfl
  | putObject bucket key owner attrs body now =>
    have hne : (bucket.bucketId, key.name) ≠ (bucketId, name) := by
      intro he
      exact h ⟨congrArg Prod.fst he, congrArg Prod.snd he⟩
    rw [exec_putObject]
    cases readBody body with
    | error e => rfl
    | ok data =>
      dsimp only
      split
      · rfl
      · split
        · rw [withObject, getElem?_insert_eq, if_neg hne]
        · rfl
  | deleteObject bucket key =>
    have hne : (bucket.bucketId, key.name) ≠ (bucketId, name) := by
      intro he
      exact h ⟨congrArg Prod.fst he, congrArg Prod.snd he⟩
    rw [exec_deleteObject]
    split
    · rfl
    · split
      · rfl
      · rw [withoutObject, getElem?_erase_eq, if_neg hne]
  | _ => rfl

/-- A bucket with an object in it is not removed. -/
theorem exec_keeps_bucket {row : BucketRow} (hrow : s.buckets[bucketId]? = some row)
    {cols : ObjectCols} (hobj : s.objects[(bucketId, name)]? = some cols) :
    (exec md5 c s).2.buckets[bucketId]? = some row := by
  by_cases hr : ∃ tenant bucketName, c = .removeBucket tenant bucketName
  · obtain ⟨tenant, bucketName, rfl⟩ := hr
    rw [exec_removeBucket]
    cases s.bucketNamed tenant bucketName with
    | none => exact hrow
    | some r =>
      dsimp only
      split
      · next hbare =>
        have hne : r.1 ≠ bucketId := by
          rintro rfl
          have hmem := mem_objectsOf.mpr hobj
          rw [hbare] at hmem
          cases hmem
        rw [withoutBucket, getElem?_erase_eq, if_neg hne]
        exact hrow
      · exact hrow
  · apply exec_buckets_grow _ hrow
    intro tenant bucketName he
    exact hr ⟨tenant, bucketName, he⟩

/-- What stays of an object and its bucket through any calls that spare it. -/
theorem execAll_spares {row : BucketRow} {cols : ObjectCols} (calls : List DriverCall)
    (spared : ∀ c ∈ calls, Spares bucketId name c) (hrow : s.buckets[bucketId]? = some row)
    (hobj : s.objects[(bucketId, name)]? = some cols) :
    (execAll md5 calls s).buckets[bucketId]? = some row ∧
    (execAll md5 calls s).objects[(bucketId, name)]? = some cols := by
  induction calls generalizing s with
  | nil => exact ⟨hrow, hobj⟩
  | cons c calls ih =>
    rw [List.forall_mem_cons] at spared
    apply ih spared.2
    · exact exec_keeps_bucket hrow hobj
    · rw [spares_object spared.1]
      exact hobj

end Later

section Records

/-- Every object is stored under the driver's own class. -/
theorem info_class (o : StoredObject) : RestS3Handlers.storageClass (o.info md5 name) = standard :=
  if_pos (show standard ≠ [] by decide)

theorem reply_class {P : Platform} {o : StoredObject} {range : Option (ℕ × ℕ)}
    {body : ResponseBody} {resp : Response}
    (h : objectResponse P (o.info P.md5 name) range body = .ok resp) :
    resp.headers.getAll amzStorageClass.val = [standard] := by
  have hfield : (o.info P.md5 name).storageClass ≠ [] := (by decide : standard ≠ [])
  rw [(objectResponse_reply h).1.storageClass, if_pos (Or.inl hfield), info_class]

/-- A page holds what was on it before, and objects of its rows. -/
theorem listPageLoop_objects {params : ListParams} {rows : List ObjectRow} {out res : ListResult}
    {last : Option Str} (h : listPageLoop params rows out last = .ok res) :
    ∀ o ∈ res.objects, o ∈ out.objects ∨ ∃ row ∈ rows, row.intoInfo = .ok o := by
  induction rows generalizing out last with
  | nil =>
    cases h
    exact fun o ho => Or.inl ho
  | cons row rows ih =>
    have hlater : ∀ {out : ListResult} {last : Option Str}, listPageLoop params rows out last = .ok res →
        ∀ o ∈ res.objects, o ∈ out.objects ∨ ∃ r ∈ row :: rows, r.intoInfo = .ok o := by
      intro out last h o ho
      rcases ih h o ho with hout | ⟨r, hr, he⟩
      · exact Or.inl hout
      · exact Or.inr ⟨r, List.mem_cons_of_mem row hr, he⟩
    rw [listPageLoop] at h
    split at h
    · exact hlater h
    · split at h
      · split at h
        · exact hlater h
        · split at h
          · cases h
            exact fun o ho => Or.inl ho
          · have hrest := hlater h
            exact hrest
      · split at h
        · cases h
          exact fun o ho => Or.inl ho
        · obtain ⟨info, hinfo, h⟩ := bind_eq_ok.mp h
          intro o ho
          rcases hlater h o ho with hout | hrow
          · rcases List.mem_append.mp hout with hout | hinfo'
            · exact Or.inl hout
            · rw [List.mem_singleton.mp hinfo']
              exact Or.inr ⟨row, List.mem_cons_self, hinfo⟩
          · exact Or.inr hrow

theorem listObjects_class (wf : WellFormed md5 s) {bucket : BucketKey} {params : ListParams}
    {res : ListResult} (h : listObjects bucket params s = .ok res) :
    ∀ o ∈ res.objects, RestS3Handlers.storageClass o = standard := by
  obtain ⟨u, -, h⟩ := bind_eq_ok.mp h
  intro o ho
  rcases listPageLoop_objects h o ho with hnone | ⟨row, hrow, hinfo⟩
  · cases hnone
  · obtain ⟨⟨n, cols⟩, hcols, rfl⟩ := List.mem_map.mp hrow
    have hstored := mem_objectsOf.mp (List.mem_filter.mp hcols).1
    obtain ⟨o', rfl, -⟩ := wellFormed_held wf hstored
    rw [intoInfo_row] at hinfo
    cases hinfo
    exact info_class o'

end Records

section Requests

variable {P : Platform} {identity : Identity} {bucketName key : Str} {bucket : BucketInfo}

/-- An entry of a listing, by the name its client reads. -/
def Lists (resp : Response) (name : Str) (entry : ContentsXml) : Prop :=
  (∃ doc, resp.body = .document (.listBucketV1 doc) ∧ entry ∈ doc.contents ∧
    clientText doc.encodingType entry.key = name) ∨
  ∃ doc, resp.body = .document (.listBucketV2 doc) ∧ entry ∈ doc.contents ∧
    clientText doc.encodingType entry.key = name

/-- Every answer to a request for an object, for its data or not, reports the class. -/
def ReadsClass (P : Platform) (bucketId key class_ : Str) (t : Tables) : Prop :=
  ∀ identity bucketName bucket headers getData resp t',
    bucketFor identity bucketName t = .ok bucket → bucket.bucket.bucketId = bucketId →
    (RestS3Handlers.getObject P identity bucketName key headers getData).run.run (exec P.md5) t =
      some (.ok resp, t') → resp.headers.getAll amzStorageClass.val = [class_]

/-- Every entry for it in either listing of the bucket does. -/
def ListsClass (P : Platform) (bucketId key class_ : Str) (t : Tables) : Prop :=
  ∀ identity bucketName bucket args resp t' entry,
    bucketFor identity bucketName t = .ok bucket → bucket.bucket.bucketId = bucketId →
    ((listObjectsV1 P identity bucketName args).run.run (exec P.md5) t = some (.ok resp, t') ∨
      (listObjectsV2 P identity bucketName args).run.run (exec P.md5) t = some (.ok resp, t')) →
    Lists resp key entry → entry.storageClass = class_

/-- The class a put named is the one reported; where it named none, listings report `STANDARD`. -/
def KeepsClass (P : Platform) (bucketId key : Str) (named : Option Str) (t : Tables) : Prop :=
  match named with
  | some class_ => ReadsClass P bucketId key class_ t ∧ ListsClass P bucketId key class_ t
  | none => ListsClass P bucketId key standard t

theorem reads_standard {o : StoredObject} (held : Held P.md5 t bucketId key o) :
    ReadsClass P bucketId key standard t := by
  rintro identity bucketName bucket headers getData resp t' hb rfl hrun
  obtain ⟨span, body, hsent⟩ := sent_held hb held hrun
  exact reply_class hsent

theorem contents_class {common : Common} {objects : List ObjectInfo} {withOwner : Bool}
    (h : ∀ o ∈ objects, RestS3Handlers.storageClass o = standard) {entry : ContentsXml}
    (he : entry ∈ common.contents P objects withOwner) : entry.storageClass = standard := by
  obtain ⟨o, ho, rfl⟩ := List.mem_map.mp he
  exact h o ho

/-- A page of either listing. -/
theorem list_class (wf : WellFormed P.md5 t) {common : Common} {marker : Str} {res : ListResult}
    {t' : Tables} (h : (common.list bucket.bucket marker).run.run (exec P.md5) t =
      some (.ok res, t')) : ∀ o ∈ res.objects, RestS3Handlers.storageClass o = standard := by
  rw [Common.list] at h
  split at h
  · cases h
    exact fun o ho => by cases ho
  · rw [run_invoke] at h
    exact listObjects_class wf (congrArg Prod.fst (Option.some.inj h))

/-- A listing that succeeds, taken apart. -/
theorem listing_run (wf : WellFormed P.md5 t) {args : Args} {marker : Str}
    (hb : bucketFor identity bucketName t = .ok bucket) {f : Common → BucketInfo → ListResult → Response}
    {resp : Response} {t' : Tables} (hrun : (plain do
      let common ← Common.parse args
      let bucket ← loadBucketFor identity bucketName
      let res ← common.list bucket.bucket marker
      return f common bucket res).run.run (exec P.md5) t = some (.ok resp, t')) :
    ∃ common res, resp = f common bucket res ∧
      ∀ o ∈ res.objects, RestS3Handlers.storageClass o = standard := by
  have hload := @run_loadBucketFor P.md5 identity bucketName t
  rw [hb] at hload
  rw [run_plain_eq_ok] at hrun
  cases hc : Common.parse args with
  | error e =>
    rw [run_lift_error hc] at hrun
    cases hrun
  | ok common =>
    rw [run_lift_ok hc, run_bind_ok hload] at hrun
    cases hlist : (common.list bucket.bucket marker).run.run (exec P.md5) t with
    | none =>
      rw [run_except_bind, hlist] at hrun
      cases hrun
    | some r =>
      obtain ⟨r, t''⟩ := r
      cases r with
      | error e =>
        rw [run_bind_error hlist] at hrun
        cases hrun
      | ok res =>
        rw [run_bind_ok hlist] at hrun
        cases hrun
        exact ⟨common, res, rfl, list_class wf hlist⟩

theorem lists_standard (wf : WellFormed P.md5 t) : ListsClass P bucketId key standard t := by
  intro identity bucketName bucket args resp t' entry hb _ hrun hentry
  rcases hrun with hrun | hrun
  · obtain ⟨common, res, rfl, hclass⟩ := listing_run wf hb (f := fun common bucket res =>
      xmlResponse (.listBucketV1 (listDocV1 P common bucket ((args.get (bytes "marker")).getD []) res)))
      hrun
    rcases hentry with ⟨doc, hdoc, he, -⟩ | ⟨doc, hdoc, -⟩
    · cases hdoc
      exact contents_class hclass he
    · cases hdoc
  · obtain ⟨common, res, rfl, hclass⟩ := listing_run wf hb (f := fun common bucket res =>
      xmlResponse (.listBucketV2 (listDocV2 P common bucket (args.get (bytes "continuation-token"))
        (args.get (bytes "start-after"))
        ((args.get (bytes "fetch-owner")).any fun v => eqIgnoreAsciiCase v (bytes "true")) res)))
      hrun
    rcases hentry with ⟨doc, hdoc, -⟩ | ⟨doc, hdoc, he, -⟩
    · cases hdoc
    · cases hdoc
      exact contents_class hclass he

end Requests

section Puts

variable {P : Platform} {env : ReqEnv} {identity : Identity} {bucketName key : Str}
  {headers : HeaderMap} {body : ObjectBody} {bucket : BucketInfo} {put : Response}

/-- A bucket that stays is loaded by its name later on. -/
theorem bucketFor_later (wf : WellFormed md5 s) (wf' : WellFormed md5 t)
    (hb : bucketFor identity bucketName s = .ok bucket)
    (stays : ∀ row, s.buckets[bucket.bucket.bucketId]? = some row →
      t.buckets[bucket.bucket.bucketId]? = some row) :
    bucketFor identity bucketName t = .ok bucket := by
  rw [bucketFor] at hb ⊢
  split at hb
  · cases hb
  · next hslash =>
    obtain ⟨b, hload, hb⟩ := bind_eq_ok.mp hb
    obtain ⟨u, haccess, hb⟩ := bind_eq_ok.mp hb
    cases hb
    obtain ⟨row, hrow, hd⟩ := loadBucket_stored wf hload
    obtain ⟨row', hnamed, hd'⟩ := stored_named wf' ⟨row, stays row hrow, hd⟩
    have hname : bucket.bucket.tenant = [] ∧ bucket.bucket.name = bucketName := by
      rw [loadBucket] at hload
      cases hn : s.bucketNamed [] bucketName with
      | none =>
        rw [hn] at hload
        cases hload
      | some r =>
        obtain ⟨id, row''⟩ := r
        rw [hn] at hload
        cases hload
        obtain ⟨hr, ht, hname⟩ := bucketNamed_some hn
        obtain ⟨-, ht', hname'⟩ := bucketRow_key wf hr
        exact ⟨ht'.symm.trans ht, hname'.symm.trans hname⟩
    rw [hname.1, hname.2] at hnamed
    have hlater : loadBucket [] bucketName t = .ok bucket := by
      rw [loadBucket, hnamed]
      exact congrArg Except.ok hd'
    rw [if_neg hslash, hlater, ok_bind, haccess]
    rfl

/-- An object that can be read keeps the driver's class and no other. -/
theorem keepsClass_of_held (wf : WellFormed P.md5 t) {o : StoredObject}
    (held : Held P.md5 t bucket.bucket.bucketId key o) (sendable : Representable P (o.info P.md5 key))
    (hb : bucketFor identity bucketName t = .ok bucket) (named : Option Str) :
    KeepsClass P bucket.bucket.bucketId key named t ↔ named = none ∨ named = some standard := by
  cases named with
  | none => exact ⟨fun _ => Or.inl rfl, fun _ => lists_standard wf⟩
  | some class_ =>
    constructor
    · rintro ⟨hreads, -⟩
      right
      obtain ⟨resp, hresp⟩ := objectResponse_ok sendable none .empty
      have hrun : (RestS3Handlers.getObject P identity bucketName key .empty false).run.run
          (exec P.md5) t = some (.ok resp, t) := by
        have hrange : requestedRange .empty = none := rfl
        rw [run_head_held hb held, hrange, headReply, hresp]
        rfl
      have hsaid := hreads identity bucketName bucket .empty false resp t hb rfl hrun
      rw [reply_class hresp] at hsaid
      cases hsaid
      rfl
    · rintro (hnone | hsome)
      · cases hnone
      · cases hsome
        exact ⟨reads_standard held, lists_standard wf⟩

/-- What a put left, and any calls that spared it. -/
theorem held_later {r : Except OpError Response} {s' : Tables} (wf : WellFormed P.md5 s)
    (outcome : PutOutcome P identity bucketName key headers body s r s') (hr : r = .ok put)
    (hb : bucketFor identity bucketName s = .ok bucket) (calls : List DriverCall)
    (spared : ∀ c ∈ calls, Spares bucket.bucket.bucketId key c) :
    WellFormed P.md5 (execAll P.md5 calls s') ∧
    (∃ o, o.attrs = putAttrs headers ∧
      Held P.md5 (execAll P.md5 calls s') bucket.bucket.bucketId key o) ∧
    bucketFor identity bucketName (execAll P.md5 calls s') = .ok bucket := by
  cases outcome with
  | refused e => cases hr
  | stored bucket' owner data now resp named there read small answer =>
    rw [named] at hb
    cases hb
    have wf' := wellFormed_change wf
      (.object bucket.bucket.bucketId key owner (putAttrs headers) data now there small)
    have wf'' : WellFormed P.md5 (execAll P.md5 calls (withObject s bucket.bucket.bucketId key
        (objectRow P.md5 owner (putAttrs headers) data now))) :=
      execAll_invariant (WellFormed P.md5) (fun _ c h => exec_wellFormed h c) calls wf'
    have hobj : (withObject s bucket.bucket.bucketId key (objectRow P.md5 owner (putAttrs headers)
        data now)).objects[(bucket.bucket.bucketId, key)]? =
        some (objectRow P.md5 owner (putAttrs headers) data now) := by
      rw [withObject, getElem?_insert_eq, if_pos rfl]
    obtain ⟨row, hrow⟩ := mem_buckets.mp there
    have hkept : (withObject s bucket.bucket.bucketId key (objectRow P.md5 owner (putAttrs headers)
        data now)).buckets[bucket.bucket.bucketId]? = some row := hrow
    obtain ⟨hrow', hobj'⟩ := @execAll_spares P.md5 _ _ _ _ _ calls spared hkept hobj
    refine ⟨wf'', ⟨⟨data, owner, putAttrs headers, now⟩, rfl, mem_buckets.mpr ⟨row, hrow'⟩, hobj',
      small⟩, ?_⟩
    apply bucketFor_later wf wf'' named
    intro row' hr'
    rw [hrow] at hr'
    cases hr'
    exact hrow'

theorem storage_class_kept_iff (P : Platform) (dates : ∀ t, isHeaderValue (P.httpDate t) = true)
    (s : Store P.md5) (env : ReqEnv) (identity : Identity) (bucketName key : Str)
    (headers : HeaderMap) (body : ObjectBody) {put : Response} {s' : Tables} {bucket : BucketInfo}
    (stored : (RestS3Handlers.putObject P env identity bucketName key headers body).run.run
      (exec P.md5) s.1 = some (.ok put, s'))
    (hb : bucketFor identity bucketName s.1 = .ok bucket) (calls : List DriverCall)
    (spared : ∀ c ∈ calls, Spares bucket.bucket.bucketId key c) :
    KeepsClass P bucket.bucket.bucketId key (headers.get amzStorageClass.val)
      (execAll P.md5 calls s') ↔
    headers.get amzStorageClass.val = none ∨ headers.get amzStorageClass.val = some standard := by
  obtain ⟨r, s'', hrun, outcome⟩ := @run_putObject s.1 P env identity bucketName key headers body
  rw [stored] at hrun
  cases hrun
  obtain ⟨wf, ⟨o, hattrs, held⟩, hlater⟩ := held_later s.2 outcome rfl hb calls spared
  exact keepsClass_of_held wf held (stored_representable dates hattrs) hlater _

def glacierHeaders : HeaderMap := ⟨[(amzStorageClass, ⟨bytes "GLACIER", by decide⟩)]⟩

theorem glacier_put : ∃ put s',
    (RestS3Handlers.putObject (.ofTables [] [] []) (OwnerIsolation.drawn []) aliceUser (bytes "docs")
      (bytes "notes") glacierHeaders [.ok (bytes "hello")]).run.run (exec sampleMd5)
      OwnerIsolation.twoBuckets.1 = some (.ok put, s') :=
  ⟨_, _, rfl⟩

/-- The class of a put that names `GLACIER` is not the one its readers are told. -/
theorem glacier_forgotten : ∃ put s',
    (RestS3Handlers.putObject (.ofTables [] [] []) (OwnerIsolation.drawn []) aliceUser (bytes "docs")
      (bytes "notes") glacierHeaders [.ok (bytes "hello")]).run.run (exec sampleMd5)
      OwnerIsolation.twoBuckets.1 = some (.ok put, s') ∧
    ¬KeepsClass (.ofTables [] [] []) OwnerIsolation.docs.bucket.bucketId (bytes "notes")
      (some (bytes "GLACIER")) s' := by
  obtain ⟨put, s', hrun⟩ := glacier_put
  obtain ⟨r, s'', hrun', outcome⟩ := @run_putObject OwnerIsolation.twoBuckets.1 (.ofTables [] [] [])
    (OwnerIsolation.drawn []) aliceUser (bytes "docs") (bytes "notes") glacierHeaders
    [.ok (bytes "hello")]
  have hsame := hrun.symm.trans hrun'
  cases hsame
  obtain ⟨wf, ⟨o, hattrs, held⟩, hlater⟩ := held_later OwnerIsolation.twoBuckets.2 outcome rfl
    docs_alice [] (fun _ h => by cases h)
  refine ⟨put, s', hrun, fun hkeeps => ?_⟩
  have hclass := (keepsClass_of_held wf held (stored_representable sampleHttpDate_value hattrs) hlater
    (some (bytes "GLACIER"))).mp hkeeps
  revert hclass
  decide

theorem storage_class_kept_iff_glacier : ∃ put s',
    (RestS3Handlers.putObject (.ofTables [] [] []) (OwnerIsolation.drawn []) aliceUser (bytes "docs")
      (bytes "notes") glacierHeaders [.ok (bytes "hello")]).run.run (exec sampleMd5)
      OwnerIsolation.twoBuckets.1 = some (.ok put, s') ∧
    (KeepsClass (.ofTables [] [] []) OwnerIsolation.docs.bucket.bucketId (bytes "notes")
      (glacierHeaders.get amzStorageClass.val)
      (execAll sampleMd5 [.removeBucket [] (bytes "docs")] s') ↔
    glacierHeaders.get amzStorageClass.val = none ∨
      glacierHeaders.get amzStorageClass.val = some standard) := by
  obtain ⟨put, s', hrun⟩ := glacier_put
  refine ⟨put, s', hrun, ?_⟩
  apply storage_class_kept_iff (.ofTables [] [] []) sampleHttpDate_value OwnerIsolation.twoBuckets
    (OwnerIsolation.drawn []) aliceUser (bytes "docs") (bytes "notes") glacierHeaders
    [.ok (bytes "hello")] hrun docs_alice
  intro c hc
  rw [List.mem_singleton.mp hc]
  trivial

end Puts

end StorageClasses
