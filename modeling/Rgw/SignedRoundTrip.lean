import Rgw.ClientSigning
import Rgw.Moments
import Rgw.StorageClasses

/-! # A signed upload, downloaded

From client to client: what a signed put carries in, in whatever framing, a signed get of the
same name brings out. -/
namespace SignedRoundTrip

open ByteStrings TextCodecs Interaction RgwTypes RgwSal RgwSalSqlite Http HeaderMaps RestS3Wire
  RestS3Handlers StoreInvariants StoreRefinement ObjectResponses ObjectRequests ObjectReads
  ObjectRoundTrip StorageClasses Rgwd ClientSigning
open RgwAuth (Identity Request contentEncoding stripAwsChunkedEncoding decodedContentLength
  contentLengthOf verifyPayload_length)

section Headers

variable {P : Platform} {d : Draft} {info : UserInfo} {data raw name : Str} {f : HeaderMap → HeaderMap}
  {headers : HeaderMap}

theorem getAll_stripped (h : name ≠ contentEncoding.val) :
    (stripAwsChunkedEncoding headers).getAll name = headers.getAll name := by
  rw [stripAwsChunkedEncoding]
  split
  · rfl
  · dsimp only
    split
    · exact getAll_remove_ne h
    · split
      · exact getAll_insert_ne h
      · rfl

/-- Only the headers of the framing change. -/
theorem getAll_unframed (h₁ : name ≠ contentEncoding.val) (h₂ : name ≠ decodedContentLength) :
    (unframed headers).getAll name = headers.getAll name := by
  rw [unframed, getAll_stripped h₁, withoutDeclared]
  split
  · rfl
  · exact getAll_remove_ne h₂

/-- The headers that the middleware writes. -/
def fixedUp : List Str :=
  [authorization.val, contentEncoding.val, decodedContentLength, bytes "transfer-encoding",
    contentLength.val]

theorem delivered_getAll (w : Wire P d data raw f) (h : name ∉ fixedUp) :
    (d.delivered P info f data).headers.getAll name = d.headers.getAll name := by
  simp only [fixedUp, List.mem_cons, List.not_mem_nil, or_false, not_or] at h
  obtain ⟨hauthorization, hencoding, hdecoded, htransfer, hlength⟩ := h
  have hmessage : (f (d.message P []).headers).getAll name = (d.message P []).headers.getAll name := by
    cases w with
    | hashed => rfl
    | unsigned => rfl
    | chunked => exact getAll_unframed hencoding hdecoded
  rw [Draft.delivered, getAll_insert_ne hlength, getAll_remove_ne htransfer, hmessage]
  exact getAll_insert_ne hauthorization

theorem once_remove {other : Str} (h : (headers.getAll name).length ≤ 1) :
    ((headers.remove other).getAll name).length ≤ 1 := by
  by_cases hname : name = other
  · subst hname
    rw [getAll_remove_self]
    exact Nat.zero_le 1
  · rw [getAll_remove_ne hname]
    exact h

theorem once_insert {other : HeaderName} {v : HeaderValue} (h : (headers.getAll name).length ≤ 1) :
    ((headers.insert other v).getAll name).length ≤ 1 := by
  by_cases hname : name = other.val
  · subst hname
    rw [getAll_insert_self]
    exact Nat.le_refl 1
  · rw [getAll_insert_ne hname]
    exact h

theorem once_unframed (h : (headers.getAll name).length ≤ 1) :
    ((unframed headers).getAll name).length ≤ 1 := by
  have hlength : ((withoutDeclared headers).getAll name).length ≤ 1 := by
    rw [withoutDeclared]
    split
    · exact h
    · exact once_remove h
  rw [unframed, stripAwsChunkedEncoding]
  split
  · exact hlength
  · dsimp only
    split
    · exact once_remove hlength
    · split
      · exact once_insert hlength
      · exact hlength

/-- Plain headers stay plain on their way to a handler. -/
theorem delivered_plain (w : Wire P d data raw f) (plain : PlainHeaders d.headers) :
    PlainHeaders (d.delivered P info f data).headers where
  once := by
    intro name hname
    have hmessage : ((d.message P []).headers.getAll name).length ≤ 1 :=
      once_insert (plain.once name hname)
    have hframing : ((f (d.message P []).headers).getAll name).length ≤ 1 := by
      cases w with
      | hashed => exact hmessage
      | unsigned => exact hmessage
      | chunked => exact once_unframed hmessage
    exact once_insert (once_remove hframing)
  type := by
    intro v hv
    apply plain.type v
    rw [← hv, HeaderMap.get, HeaderMap.get, delivered_getAll w (by decide)]

theorem delivered_get (w : Wire P d data raw f) (h : name ∉ fixedUp) :
    (d.delivered P info f data).headers.get name = d.headers.get name :=
  congrArg List.head? (delivered_getAll w h)

end Headers

section Puts

/-- A put that a handler has no reason to refuse: of a key within the limit, under the digest of
the data if one is given, and no copy of another object. -/
structure Storable (P : Platform) (headers : HeaderMap) (key data : Str) : Prop where
  original : headers.get (bytes "x-amz-copy-source") = none
  short : key.length ≤ maxObjectName
  digest : ∀ v, headers.get (bytes "content-md5") = some v →
    P.base64Decode (trimAscii v) = some (P.md5 data) ∧ (P.md5 data).length = 16

variable {P : Platform} {env : ReqEnv} {user : RgwAuth.AuthedUser} {bucketName key data : Str}
  {headers : HeaderMap} {bucket : BucketInfo} {s : Tables}

/-- The row that a put leaves. -/
def putRow (env : ReqEnv) (user : RgwAuth.AuthedUser) (headers : HeaderMap) (data : Str) :
    StoredObject :=
  ⟨data, ⟨user.info.userId, user.info.displayName⟩, putAttrs headers, env.now⟩

theorem contentMd5_storable (storable : Storable P headers key data) :
    contentMd5 P headers = .ok none ∨ contentMd5 P headers = .ok (some (P.md5 data)) := by
  rw [contentMd5]
  cases hv : headers.get (bytes "content-md5") with
  | none => exact .inl rfl
  | some v =>
    obtain ⟨hdecode, hlength⟩ := storable.digest v hv
    dsimp only
    rw [hdecode]
    dsimp only
    rw [if_pos hlength]
    exact .inr rfl

theorem bufferBody_bytes (h : data.length ≤ maxBufferedPut) :
    bufferBody (bodyFromBytes data) maxBufferedPut = .ok data := by
  have hbytes : toBytes maxBufferedPut (bodyFromBytes data) [] = .ok data := by
    have hframes := @toBytes_frames maxBufferedPut [data] [] (by simpa using h)
    rw [List.flatten_singleton] at hframes
    exact hframes
  rw [bufferBody, hbytes]

theorem run_putObject_stored (hb : bucketFor (.user user) bucketName s = .ok bucket)
    (there : bucket.bucket.bucketId ∈ s.buckets) (storable : Storable P headers key data)
    (fits : data.length ≤ maxBufferedPut)
    (declared : headerStr headers contentLength.val = some (decimal data.length)) :
    ∃ put, (RestS3Handlers.putObject P env (.user user) bucketName key headers
        (bodyFromBytes data)).run.run (exec P.md5) s =
      some (.ok put, withObject s bucket.bucket.bucketId key
      ((putRow env user headers data).row P.md5)) ∧
      put.status = 200 ∧ put.headers.getAll etag.val = [34 :: hexEncode (P.md5 data) ++ [34]] := by
  have hsmall : data.length < 2 ^ 63 := fits.trans_lt (by decide)
  have hlen : (headerStr headers contentLength.val).bind (parseUnsigned 10 (2 ^ 64)) =
    some data.length := by
    rw [declared, Option.bind_some]
    exact parseUnsigned_decimal (by omega)
  have hexec : exec P.md5 (.putObject bucket.bucket (.new key) ⟨user.info.userId, user.info.displayName⟩
      (putAttrs headers) (bodyFromBytes data) env.now) s =
        (.ok (objectInfo P.md5 (.new key) ⟨user.info.userId, user.info.displayName⟩
          (putAttrs headers) data
          env.now), withObject s bucket.bucket.bucketId key
            ((putRow env user headers data).row P.md5)) := by
    rw [exec_putObject, readBody_bytes]
    dsimp only
    rw [if_neg (by omega), if_pos there]
    rfl
  have hstore : (do
      let info ← invoke (.putObject bucket.bucket (.new key)
        ⟨user.info.userId, user.info.displayName⟩ (putAttrs headers) (bodyFromBytes data) env.now)
      let v ← headerValue (34 :: info.etag ++ [34])
      return ⟨200, .append .empty etag v, .empty⟩ : Op Response).run.run (exec P.md5) s =
        some (.ok ⟨200, .append .empty etag ⟨34 :: hexEncode (P.md5 data) ++ [34], isHeaderValue_etag _⟩,
          .empty⟩, withObject s bucket.bucket.bucketId key
            ((putRow env user headers data).row P.md5)) := by
    rw [run_invoke_ok hexec, objectInfo, run_lift_ok (headerValue_ok (isHeaderValue_etag (P.md5 data)))]
    rfl
  refine ⟨⟨200, .append .empty etag ⟨34 :: hexEncode (P.md5 data) ++ [34], isHeaderValue_etag _⟩,
    .empty⟩,
    ?_, rfl, rfl⟩
  have hcopy : ¬headers.containsKey (bytes "x-amz-copy-source") = true := by
    rw [HeaderMap.containsKey, storable.original]
    decide
  have hload : (loadBucketFor (.user user) bucketName).run.run (exec P.md5) s =
    some (.ok bucket, s) := by
    rw [run_loadBucketFor, hb]
  have hlarge : ¬(some data.length).any (fun n => decide (maxPutSize < n)) = true := by
    have hle : data.length ≤ maxPutSize := fits.trans (by decide)
    rw [Option.any_some, decide_eq_true_eq]
    exact not_lt.mpr hle
  rw [RestS3Handlers.putObject, run_plain_eq_ok, if_neg hcopy, run_bind_ok hload,
    run_lift_ok (show requireUser (.user user) = .ok user.info from rfl),
      if_neg (not_lt.mpr storable.short)]
  dsimp only
  rw [hlen, if_neg hlarge]
  rcases contentMd5_storable storable with hmd5 | hmd5
  · rw [run_lift_ok hmd5]
    exact hstore
  · rw [run_lift_ok hmd5]
    dsimp only
    rw [run_lift_ok (bufferBody_bytes fits),
      run_lift_ok (show verifyMd5 P (P.md5 data) data = .ok () from if_pos rfl)]
    exact hstore

end Puts

section Routes

/-- A URI that names an object to the S3 routes, and asks for nothing else of it. -/
structure Names (A : App) (uri : Uri) (bucketName key : Str) : Prop where
  s3 : adminRoute A.entry uri.path = none
  object : target uri.path = some (bucketName, some key)
  whole : (Args.parse uri.query).anyOf objectUnsupported = none

variable {A : App} {env : AppEnv} {req : Request} {bucketName key : Str} {identity : Identity}
  {s s' : Tables} {resp : Response}

/-- A request for an object runs the operation of its method. -/
theorem run_router {op : Str → Str → S3Op Response} (names : Names A req.uri bucketName key)
    (hid : req.identity = some identity) (hpost : req.method.name ≠ bytes "POST")
    (hop : objectMethod A.platform env.s3 identity req = some op)
    (h : (op bucketName key).run.run (exec A.platform.md5) s = some (.ok resp, s')) :
    (router A env req).run (exec A.platform.md5) s = some (.ofS3 resp, s') := by
  have htarget := names.object
  rw [router, hid]
  dsimp only
  rw [names.s3]
  dsimp only
  rw [run_bind, handle]
  rw [target] at htarget
  split at htarget
  · next segment hroute =>
    cases hname : pathParam segment with
    | none => rw [hname] at htarget; cases htarget
    | some name => rw [hname] at htarget; cases htarget
  · next segment rest hroute =>
    obtain ⟨name, hname, htarget⟩ := Option.bind_eq_some_iff.mp htarget
    obtain ⟨key', hkey, htarget⟩ := Option.bind_eq_some_iff.mp htarget
    cases htarget
    rw [hroute]
    dsimp only
    rw [if_neg hpost, hop, hname, hkey]
    dsimp only
    rw [finish, run_bind, h]
    rfl
  · cases htarget

theorem rejects_nothing (names : Names A req.uri bucketName key) (op : S3Op Response) :
    (plain (rejectUnsupported (Args.parse req.uri.query) objectUnsupported) >>= fun _ => op).run.run
      (exec A.platform.md5) s = op.run.run (exec A.platform.md5) s := by
  have hpure : (rejectUnsupported (Args.parse req.uri.query) objectUnsupported).run.run
      (exec A.platform.md5) s = some (.ok (), s) := by
    rw [rejectUnsupported, names.whole]
    rfl
  rw [run_plain_ok hpure]

end Routes

section Clients

/-- A signed put that nothing stands against. -/
structure Upload (A : App) (env : AppEnv) (d : Draft) (data : Str) (f : HeaderMap → HeaderMap)
    (body : ObjectBody) (s : Tables) (info : UserInfo) (bucketName key : Str) (bucket : BucketInfo) :
    Prop where
  sent : Sent A env d data f body s info
  put : d.method.name = bytes "PUT"
  names : Names A d.uri bucketName key
  allowed : bucketFor (.user ⟨info, d.creds.accessKeyId⟩) bucketName s = .ok bucket
  plain : PlainHeaders d.headers
  storable : Storable A.platform d.headers key data

/-- A signed get of the whole of an object. -/
structure Download (A : App) (env : AppEnv) (d : Draft) (data : Str) (f : HeaderMap → HeaderMap)
    (body : ObjectBody) (s : Tables) (info : UserInfo) (bucketName key : Str) (bucket : BucketInfo) :
    Prop where
  sent : Sent A env d data f body s info
  get : d.method.name = methodGet
  names : Names A d.uri bucketName key
  allowed : bucketFor (.user ⟨info, d.creds.accessKeyId⟩) bucketName s = .ok bucket
  whole : d.headers.get (bytes "range") = none

variable {A : App} {env : AppEnv} {d : Draft} {data bucketName key : Str} {f : HeaderMap → HeaderMap}
  {body : ObjectBody} {s : Tables} {info : UserInfo} {bucket : BucketInfo} {o : StoredObject}

theorem sent_fits (sent : Sent A env d data f body s info) : data.length ≤ maxBufferedPut := by
  obtain ⟨raw, wire, arrives⟩ := sent.carried
  have hpayload := verifyPayload_length (@verifyPayload_wire A.platform d data raw f d.headers wire rfl)
  exact (hpayload.trans arrives.fits).trans (by decide)

theorem delivered_length : headerStr (d.delivered A.platform info f data).headers contentLength.val =
    some (decimal data.length) := by
  have hvisible : (decimal data.length).all isVisibleAscii = true :=
    List.all_eq_true.mpr fun b hb =>
      visible_of_digit b (List.all_eq_true.mp (decimal_isDigit data.length) b hb)
  have hget : (d.delivered A.platform info f data).headers.get contentLength.val =
      some (decimal data.length) := congrArg List.head? getAll_insert_self
  rw [headerStr, hget, Option.bind_some, toStr, if_pos hvisible]

/-- An upload writes its object, and nothing else. -/
theorem upload_stores (wf : WellFormed A.platform.md5 s)
    (up : Upload A env d data f body s info bucketName key bucket) : ∃ put,
    (buildApp A env (d.message A.platform body)).run (exec A.platform.md5) s =
      some (stamp env.requestId (.ofS3 put), withObject s bucket.bucket.bucketId key
        ((putRow env.s3 ⟨info, d.creds.accessKeyId⟩ (d.delivered A.platform info f data).headers
          data).row A.platform.md5)) ∧
      put.status = 200 ∧ put.headers.getAll etag.val =
      [34 :: hexEncode (A.platform.md5 data) ++ [34]] := by
  obtain ⟨raw, wire, -⟩ := up.sent.carried
  have hstorable : Storable A.platform (d.delivered A.platform info f data).headers key data :=
    ⟨by rw [delivered_get wire (by decide)]; exact up.storable.original, up.storable.short,
      by rw [delivered_get wire (by decide)]; exact up.storable.digest⟩
  obtain ⟨put, hput, hstatus, hetag⟩ := @run_putObject_stored A.platform env.s3 _ bucketName key data
    (d.delivered A.platform info f data).headers bucket s up.allowed (bucketFor_there wf up.allowed)
    hstorable (sent_fits up.sent) delivered_length
  have hmethod : (d.delivered A.platform info f data).method.name = bytes "PUT" := up.put
  have hpost : (d.delivered A.platform info f data).method.name ≠ bytes "POST" := by
    rw [hmethod]
    decide
  have hop : objectMethod A.platform env.s3 (.user ⟨info, d.creds.accessKeyId⟩)
      (d.delivered A.platform info f data) = some fun name key =>
        objectPut A.platform env.s3 (.user ⟨info, d.creds.accessKeyId⟩)
          (Args.parse d.uri.query) name key (d.delivered A.platform info f data).headers
          (bodyFromBytes data) := by
    rw [objectMethod, hmethod, if_neg (by decide), if_neg (by decide), if_pos rfl]
    rfl
  have hnames : Names A (d.delivered A.platform info f data).uri bucketName key := up.names
  have hrouter := run_router hnames rfl hpost hop ((rejects_nothing hnames _).trans hput)
  refine ⟨put, ?_, hstatus, hetag⟩
  have hhead : ¬(d.message A.platform body).method.name = methodHead := by
    rw [show (d.message A.platform body).method.name = bytes "PUT" from up.put]
    decide
  rw [run_buildApp (verify_sent up.sent), hrouter, Option.map_some, strip, if_neg hhead]

/-- A download reads what is held. -/
theorem download_reads (dates : ∀ t, isHeaderValue (A.platform.httpDate t) = true) {headers : HeaderMap}
    (plain : PlainHeaders headers) (hattrs : o.attrs = putAttrs headers)
    (held : Held A.platform.md5 s bucket.bucket.bucketId key o)
    (down : Download A env d data f body s info bucketName key bucket) : ∃ get,
    (buildApp A env (d.message A.platform body)).run (exec A.platform.md5) s =
      some (stamp env.requestId (.ofS3 get), s) ∧ ReadsBack A.platform headers o.data get := by
  obtain ⟨raw, wire, -⟩ := down.sent.carried
  have hrange : requestedRange (d.delivered A.platform info f data).headers = none := by
    rw [requestedRange, headerStr, delivered_get wire (by decide), down.whole]
    rfl
  obtain ⟨get, hget⟩ := objectResponse_ok (@stored_representable A.platform key headers o dates hattrs)
    none (.object (bodyFromBytes o.data))
  obtain ⟨reply, hbody⟩ := objectResponse_reply hget
  have hmethod : (d.delivered A.platform info f data).method.name = methodGet := down.get
  have hpost : (d.delivered A.platform info f data).method.name ≠ bytes "POST" := by
    rw [hmethod]
    decide
  have hop : objectMethod A.platform env.s3 (.user ⟨info, d.creds.accessKeyId⟩)
      (d.delivered A.platform info f data) = some fun name key =>
        objectGet A.platform (.user ⟨info, d.creds.accessKeyId⟩) (Args.parse d.uri.query) name key
          (d.delivered A.platform info f data).headers true := by
    rw [objectMethod, hmethod, if_pos rfl]
    rfl
  have hnames : Names A (d.delivered A.platform info f data).uri bucketName key := down.names
  have hread : (RestS3Handlers.getObject A.platform (.user ⟨info, d.creds.accessKeyId⟩) bucketName key
      (d.delivered A.platform info f data).headers true).run.run (exec A.platform.md5) s =
        some (.ok get, s) := by
    rw [run_get_held down.allowed held, hrange, heldRead, getReply]
    dsimp only
    rw [hget]
    rfl
  have hrouter := run_router hnames rfl hpost hop ((rejects_nothing hnames _).trans hread)
  refine ⟨get, ?_, readsBack_reply plain hattrs reply hbody⟩
  have hhead : ¬(d.message A.platform body).method.name = methodHead := by
    rw [show (d.message A.platform body).method.name = methodGet from down.get]
    decide
  rw [run_buildApp (verify_sent down.sent), hrouter, Option.map_some, strip, if_neg hhead]

/-- An object stays as it is while nothing writes to it, whatever else goes on. -/
theorem held_meanwhile {ι α : Type} [DecidableEq ι] {md5 : Str → Str} {bucketId : Str}
    {x y : Config DriverCall Reply α Tables ι} {t : List (ι × Event DriverCall Reply)}
    (run : Trace (exec md5) x t y) (spared : ∀ e ∈ t, Spares bucketId key e.2.1)
    (held : Held md5 x.state bucketId key o) : Held md5 y.state bucketId key o := by
  induction run with
  | nil => exact held
  | @snoc t y e z _ step ih =>
    rw [List.forall_mem_cons] at spared
    have hy := ih spared.2
    obtain ⟨row, hrow⟩ := mem_buckets.mp hy.bucket
    rw [(Moments.step_state step).2]
    exact ⟨mem_buckets.mpr ⟨row, exec_keeps_bucket hrow hy.row⟩,
      by rw [spares_object spared.1]; exact hy.row, hy.small⟩

/-- A signed put stores its data, and whatever other requests run meanwhile, as long as none of
them writes to the object, a signed get sends the data and the headers of the put. -/
theorem signed_round_trip (A : App) (dates : ∀ t, isHeaderValue (A.platform.httpDate t) = true)
    (env : AppEnv) (d : Draft) (data : Str) (f : HeaderMap → HeaderMap) (body : ObjectBody) (s : Tables)
    (wf : WellFormed A.platform.md5 s) (info : UserInfo) (bucketName key : Str) (bucket : BucketInfo)
    (up : Upload A env d data f body s info bucketName key bucket) : ∃ put s',
    (buildApp A env (d.message A.platform body)).run (exec A.platform.md5) s =
      some (stamp env.requestId (.ofS3 put), s') ∧
    put.status = 200 ∧ put.headers.getAll etag.val = [34 :: hexEncode (A.platform.md5 data) ++ [34]] ∧
    ∀ {ι α : Type} [DecidableEq ι] (threads : ι → Prog DriverCall Reply α)
      (t : List (ι × Event DriverCall Reply)) (y : Config DriverCall Reply α Tables ι),
      Trace (exec A.platform.md5) ⟨s', threads⟩ t y →
      (∀ e ∈ t, Spares bucket.bucket.bucketId key e.2.1) →
      ∀ (env' : AppEnv) (d' : Draft) (data' : Str) (f' : HeaderMap → HeaderMap) (body' : ObjectBody)
        (info' : UserInfo), Download A env' d' data' f' body' y.state info' bucketName key bucket →
      ∃ get, (buildApp A env' (d'.message A.platform body')).run (exec A.platform.md5) y.state =
          some (stamp env'.requestId (.ofS3 get), y.state) ∧
        ReadsBack A.platform (d.delivered A.platform info f data).headers data get := by
  obtain ⟨raw, wire, -⟩ := up.sent.carried
  obtain ⟨put, hrun, hstatus, hetag⟩ := upload_stores wf up
  refine ⟨put, _, hrun, hstatus, hetag, ?_⟩
  intro ι α _ threads t y run spared env' d' data' f' body' info' down
  have held := @held_put A.platform.md5 s bucket.bucket key (putRow env.s3 ⟨info, d.creds.accessKeyId⟩
    (d.delivered A.platform info f data).headers data) (bucketFor_there wf up.allowed)
    ((sent_fits up.sent).trans_lt (by decide))
  exact download_reads dates (delivered_plain wire up.plain) rfl (held_meanwhile run spared held) down

end Clients

section Samples

open SignatureBinding Mediation

theorem once_of_nodup {headers : HeaderMap} (h : (headers.entries.map fun e => e.1.val).Nodup)
    (name : Str) : (headers.getAll name).length ≤ 1 := by
  have hcount : (headers.getAll name).length = (headers.entries.map fun e => e.1.val).count name := by
    rw [HeaderMap.getAll, List.length_map, List.count_eq_countP, List.countP_map,
      List.countP_eq_length_filter]
    congr 2
    funext e
    exact (beq_eq_decide e.1.val name).symm
  rw [hcount]
  exact List.nodup_iff_count_le_one.mp h name

theorem uploadHeaders_plain : PlainHeaders uploadDraft.headers where
  once := fun name _ => once_of_nodup (by decide +kernel) name
  type := by
    have hnone : uploadDraft.headers.get contentType.val = none := by decide +kernel
    intro v hv
    rw [hnone] at hv
    cases hv

theorem upload_two : Upload gateway appEnv uploadDraft (bytes "hi") id inPieces twoTables uploader
    (bytes "docs") (bytes "a-b") OwnerIsolation.docs where
  sent := ⟨uploadDraft_sent.signable, uploadDraft_sent.carried, uploadDraft_sent.fresh,
    by constructor <;> decide +kernel⟩
  put := by decide +kernel
  names := by constructor <;> decide +kernel
  allowed := by decide +kernel
  plain := uploadHeaders_plain
  storable := by
    have hdigest : uploadDraft.headers.get (bytes "content-md5") = none := by decide +kernel
    refine ⟨by decide +kernel, by decide +kernel, fun v hv => ?_⟩
    rw [hdigest] at hv
    cases hv

/-- Alice's download, of no data of its own. -/
def downloadDraft : Draft :=
  { uploadDraft with
    method := ⟨bytes "GET", get_token⟩
    uri := ⟨bytes "/docs/%61-b", none, some (bytes "example.com")⟩
    headers := headersOf [(bytes "x-amz-date", bytes "20130524T000000Z"),
      (bytes "x-amz-content-sha256", SigV4.unsignedPayload)]
    hash := SigV4.unsignedPayload }

theorem download_two {s : Tables} (known : Known downloadDraft s uploader)
    (allowed : bucketFor (.user ⟨uploader, downloadDraft.creds.accessKeyId⟩) (bytes "docs") s =
      .ok OwnerIsolation.docs) :
    Download gateway appEnv downloadDraft [] id [] s uploader (bytes "docs") (bytes "a-b")
      OwnerIsolation.docs where
  sent := by
    refine ⟨by constructor <;> decide +kernel, ⟨[], .unsigned rfl, ⟨[], rfl, rfl⟩, by decide +kernel,
      fun n hn => ?_⟩, by decide +kernel, known⟩
    have hnone : headerStr (downloadDraft.message requestPlatform []).headers (bytes "content-length") =
      none := by decide +kernel
    rw [show gateway.platform = requestPlatform from rfl, hnone] at hn
    cases hn
  get := by decide +kernel
  names := by constructor <;> decide +kernel
  allowed := allowed
  whole := by decide +kernel

theorem two_wellFormed : WellFormed gateway.platform.md5 twoTables := by
  have hcalls : twoTables = execAll sampleMd5 [.storeUser uploader true,
    .createBucket OwnerIsolation.docs]
    .empty := rfl
  rw [hcalls]
  exact execAll_wellFormed _

/-- Alice's upload of another object, once it is authenticated. -/
def otherUpload : Prog DriverCall Reply Response :=
  handle gateway.platform appEnv.s3 (.user ⟨uploader, bytes "AKID"⟩)
    (BucketIncarnations.userRequest uploader ⟨bytes "PUT", put_token⟩ (bytes "/docs/other")).request

/-- Between the upload and the download another object is written. -/
theorem signed_round_trip_upload : ∃ put s' t y get,
    (buildApp gateway appEnv (uploadDraft.message gateway.platform inPieces)).run
    (exec gateway.platform.md5)
      twoTables = some (stamp appEnv.requestId (.ofS3 put), s') ∧
    put.headers.getAll etag.val = [bytes "\"49f68a5c8493ec2c0bf489821c21fc3b\""] ∧
    Trace (exec gateway.platform.md5) ⟨s', fun _ : Unit => otherUpload⟩ t y ∧
    s'.objects.size = 1 ∧ y.state.objects.size = 2 ∧
    (buildApp gateway appEnv (downloadDraft.message gateway.platform [])).run (exec gateway.platform.md5)
      y.state = some (stamp appEnv.requestId (.ofS3 get), y.state) ∧
    ReadsBack gateway.platform (uploadDraft.delivered gateway.platform uploader id (bytes "hi")).headers
      (bytes "hi") get := by
  obtain ⟨put, s', hput, -, hetag, later⟩ := signed_round_trip gateway sampleHttpDate_value appEnv
    uploadDraft (bytes "hi") id inPieces twoTables two_wellFormed uploader (bytes "docs") (bytes "a-b")
    OwnerIsolation.docs upload_two
  have hplay : ((buildApp gateway appEnv (uploadDraft.message gateway.platform inPieces)).run
      (exec gateway.platform.md5) twoTables).bind (fun r =>
        (Config.play (exec gateway.platform.md5) [(), ()] ([], ⟨r.2, fun _ : Unit => otherUpload⟩)).map
          fun q => (r.2.objects.size, q.2.state.objects.size,
            decide (∀ e ∈ q.1, Spares OwnerIsolation.docs.bucket.bucketId (bytes "a-b") e.2.1),
            decide (loadUserByAccessKey (bytes "AKID") q.2.state = .ok uploader),
            decide (bucketFor (.user ⟨uploader, bytes "AKID"⟩) (bytes "docs") q.2.state =
              .ok OwnerIsolation.docs))) = some (1, 2, true, true, true) := by decide +kernel
  rw [hput, Option.bind_some] at hplay
  obtain ⟨⟨t, y⟩, hr, hplay⟩ := Option.map_eq_some_iff.mp hplay
  simp only [Prod.mk.injEq, decide_eq_true_eq] at hplay
  obtain ⟨hone, htwo, hspared, hstored, hallowed⟩ := hplay
  have run : Trace (exec gateway.platform.md5) ⟨s', fun _ : Unit => otherUpload⟩ t y :=
    play_trace .nil hr
  have known : Known downloadDraft y.state uploader :=
    ⟨hstored, upload_two.sent.known.enabled, upload_two.sent.known.secret⟩
  obtain ⟨get, hget, hback⟩ := later _ t y run hspared appEnv downloadDraft [] id [] uploader
    (download_two known hallowed)
  exact ⟨put, s', t, y, get, hput, hetag.trans (by decide +kernel), run, hone, htwo, hget, hback⟩

end Samples

end SignedRoundTrip
