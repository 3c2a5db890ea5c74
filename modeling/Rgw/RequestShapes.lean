import Rgw.BucketIncarnations
import Rgw.ObjectResponses

/-! # The calls a request is made of

A request about one bucket loads it and then makes one call with it, if any; a download asks
for the object's size once more when its range does not fit. -/
namespace RequestShapes

open ByteStrings Interaction RgwTypes RgwSal RgwSalSqlite Http RgwAuth RestS3Wire RestS3Handlers
  S3Discipline BucketIncarnations ObjectResponses

section Shapes

abbrev Program := Prog DriverCall Reply Response

variable (ctx : ReqCtx)

def failed (e : RgwError) : Program := .done (errorResponse ctx (.ofError e))

/-- What a request may do with the bucket it loaded: one call about the objects, or its removal. -/
inductive OneCall (removes : Prop) (b : BucketInfo) : Program → Prop where
  | answer (resp : Response) : OneCall removes b (.done resp)
  | object {c : DriverCall} {k : Reply c → Program} (key : objectBucket c = some b.bucket)
      (body : ∀ body, writtenBody c = some body → Readable body)
      (ends : ∀ r, ∃ resp, k r = .done resp)
      (gone : k (.error .noSuchBucket) = failed ctx .noSuchBucket) : OneCall removes b (.call c k)
  | removal {k : Reply (.removeBucket b.bucket.tenant b.bucket.name) → Program} (allowed : removes)
      (ends : ∀ r, ∃ resp, k r = .done resp)
      (gone : k (.error .noSuchBucket) = failed ctx .noSuchBucket) : OneCall removes b (.call _ k)

/-- How a download goes on: it reads, and asks for the size when the range does not fit. -/
inductive OneRead (range : Option ByteRange) (b : BucketInfo) : Program → Prop where
  | answer (resp : Response) (fits : resp.status ≠ 416) : OneRead range b (.done resp)
  | read {key : Str} {k : Reply (.getObject b.bucket (.new key) range) → Program}
      {k' : Reply (.headObject b.bucket (.new key)) → Program}
      (found : ∀ read, ∃ resp, k (.ok read) = .done resp ∧ resp.status ≠ 416)
      (lost : ∀ e, e ≠ .invalidRange → k (.error e) = failed ctx e)
      (unfit : k (.error .invalidRange) = .call (.headObject b.bucket (.new key)) k')
      (size : ∀ info, k' (.ok info) = .done (errorResponse ctx (invalidRange info.size)))
      (unsized : ∀ e, k' (.error e) = failed ctx e) : OneRead range b (.call _ k)

/-- A request about one bucket, and what it does once it has it. -/
inductive OnBucket (rest : BucketInfo → Program → Prop) : Program → Prop where
  | answer (resp : Response) (fits : resp.status ≠ 416) : OnBucket rest (.done resp)
  | load {name : Str} {k : Reply (.loadBucket [] name) → Program}
      (denied : ∀ e, k (.error e) = failed ctx e) (granted : ∀ b, rest b (k (.ok b))) :
      OnBucket rest (.call _ k)

end Shapes

section Operations

variable {rest : BucketInfo → Program → Prop} {env : ReqEnv} {req : Request} {identity : Identity}
  {b : BucketInfo} {name key : Str} {P : Platform} {args : Args} {removes : Prop}

def contextOf (env : ReqEnv) (req : Request) : ReqCtx :=
  ⟨req.uri.path, env.requestId, req.method.name = methodHead⟩

theorem errorResponse_status (ctx : ReqCtx) (e : OpError) :
    (errorResponse ctx e).status = e.err.httpStatus := by
  rw [errorResponse]
  cases ctx.head <;> rfl

theorem plain_bind {α β : Type} (x : Op α) (f : α → Op β) :
    plain (x >>= f) = plain x >>= fun a => plain (f a) := by
  refine congrArg ExceptT.mk ?_
  change ((x.run >>= ExceptT.bindCont f) >>= fun r => .done (r.mapError OpError.ofError)) =
    (x.run >>= fun r => .done (r.mapError OpError.ofError)) >>= ExceptT.bindCont fun a => plain (f a)
  rw [bind_assoc', bind_assoc']
  refine congrArg _ (funext fun r => ?_)
  cases r <;> rfl

/-- What a program without calls returns. -/
def Returns {ε α : Type} (x : OpT ε α) : Prop := ∃ r, x.run = .done r

theorem returns_bind {ε α β : Type} {x : OpT ε α} {f : α → OpT ε β} (hx : Returns x)
    (hf : ∀ a, Returns (f a)) : Returns (x >>= f) := by
  obtain ⟨r, hr⟩ := hx
  rw [Returns, ExceptT.run_bind, hr]
  cases r with
  | error e => exact ⟨.error e, rfl⟩
  | ok a => exact hf a

theorem returns_finish {op : S3Op Response} (h : Returns op) :
    ∃ resp, finish env req op = .done resp := by
  obtain ⟨r, hr⟩ := h
  rw [finish, hr]
  cases r with
  | ok resp => exact ⟨resp, rfl⟩
  | error e => exact ⟨_, rfl⟩

theorem returns_plain {x : Op Response} (h : Returns x) : Returns (plain x) := by
  obtain ⟨r, hr⟩ := h
  refine ⟨r.mapError .ofError, ?_⟩
  change (x.run >>= fun r => .done (r.mapError OpError.ofError)) = _
  rw [hr]
  rfl

theorem load_onBucket {f : BucketInfo → S3Op Response}
    (denied : ∀ b, rest b (failed (contextOf env req) .accessDenied))
    (hf : ∀ b, rest b (finish env req (f b))) :
    OnBucket (contextOf env req) rest (finish env req (plain (loadBucketFor identity name) >>= f)) := by
  rw [loadBucketFor]
  by_cases hs : (47 : UInt8) ∈ name
  · simp only [hs, ↓reduceIte]
    exact .answer _ (by rw [errorResponse_status]; decide)
  · simp only [hs, ↓reduceIte]
    refine .load (fun e => rfl) fun b => ?_
    change rest b (finish env req (plain (do
      liftM (verifyBucketAccess identity b)
      return b) >>= f))
    cases hv : verifyBucketAccess identity b with
    | ok u => exact hf b
    | error e =>
      have he : e = .accessDenied := by
        rw [verifyBucketAccess] at hv
        split at hv
        · split at hv <;> cases hv
          rfl
        · cases hv
          rfl
      rw [he]
      exact denied b

theorem plain_load_onBucket {f : BucketInfo → Op Response}
    (denied : ∀ b, rest b (failed (contextOf env req) .accessDenied))
    (hf : ∀ b, rest b (finish env req (plain (f b)))) :
    OnBucket (contextOf env req) rest (finish env req (plain (loadBucketFor identity name >>= f))) := by
  rw [plain_bind]
  exact load_onBucket denied hf

theorem invoke_oneCall {c : DriverCall} {f : c.Answer → Op Response}
    (key : objectBucket c = some b.bucket) (body : ∀ body, writtenBody c = some body → Readable body)
    (hf : ∀ a, Returns (f a)) :
    OneCall (contextOf env req) removes b (finish env req (plain (invoke c >>= f))) := by
  refine .object key body (fun r => ?_) rfl
  cases r with
  | error e => exact ⟨_, rfl⟩
  | ok a => exact returns_finish (returns_plain (hf a))

theorem lift_oneCall {α : Type} {x : RgwResult α} {f : α → Op Response}
    (hf : ∀ a, x = .ok a → OneCall (contextOf env req) removes b (finish env req (plain (f a)))) :
    OneCall (contextOf env req) removes b (finish env req (plain (liftM x >>= f))) := by
  cases hx : x with
  | error e => exact .answer _
  | ok a => exact hf a hx

theorem getLocation_onBucket : OnBucket (contextOf env req) (OneCall (contextOf env req) removes)
    (finish env req (getLocation identity name)) :=
  plain_load_onBucket (fun _ => .answer _) fun _ => .answer _

theorem getVersioning_onBucket : OnBucket (contextOf env req) (OneCall (contextOf env req) removes)
    (finish env req (getVersioning identity name)) :=
  plain_load_onBucket (fun _ => .answer _) fun _ => .answer _

theorem statBucket_onBucket : OnBucket (contextOf env req) (OneCall (contextOf env req) removes)
    (finish env req (statBucket identity name)) :=
  plain_load_onBucket (fun _ => .answer _) fun _ => invoke_oneCall rfl (fun _ hb => by cases hb)
    fun _ => returns_bind ⟨_, rfl⟩ fun _ => returns_bind ⟨_, rfl⟩ fun _ => ⟨_, rfl⟩

theorem deleteBucket_onBucket (hr : removes) :
    OnBucket (contextOf env req) (OneCall (contextOf env req) removes)
      (finish env req (deleteBucket identity name)) := by
  refine plain_load_onBucket (fun _ => .answer _) fun b => .removal hr (fun r => ?_) rfl
  cases r with
  | error e => exact ⟨_, rfl⟩
  | ok a => exact ⟨_, rfl⟩

theorem parse_onBucket {f : Common → Op Response}
    (hf : ∀ common, OnBucket (contextOf env req) rest (finish env req (plain (f common)))) :
    OnBucket (contextOf env req) rest (finish env req (plain (liftM (Common.parse args) >>= f))) := by
  cases hp : Common.parse args with
  | ok common => exact hf common
  | error e =>
    refine .answer _ ?_
    rw [errorResponse_status]
    have hmax : ∀ v e, parseMaxKeys v = .error e → e.httpStatus = 400 := by
      intro v e hv
      rw [parseMaxKeys.eq_def] at hv
      split at hv
      · cases hv
      · split at hv
        · cases hv
          rfl
        · split at hv <;> cases hv
          rfl
    rw [Common.parse] at hp
    cases hv : parseMaxKeys (args.get (bytes "max-keys")) with
    | ok n =>
      rw [hv] at hp
      cases hp
    | error e' =>
      rw [hv] at hp
      cases hp
      rw [OpError.ofError, hmax _ _ hv]
      decide

theorem list_oneCall {common : Common} {marker : Str} {f : ListResult → Op Response}
    (hf : ∀ res, Returns (f res)) : OneCall (contextOf env req) removes b
      (finish env req (plain (common.list b.bucket marker >>= f))) := by
  rw [Common.list]
  by_cases hm : common.maxKeys = 0
  · rw [if_pos hm]
    obtain ⟨resp, hr⟩ := @returns_finish env req _ (returns_plain (hf .default))
    change OneCall _ _ _ (finish env req (plain (f .default)))
    rw [hr]
    exact .answer resp
  · rw [if_neg hm]
    exact invoke_oneCall rfl (fun _ hb => by cases hb) hf

theorem listObjectsV1_onBucket : OnBucket (contextOf env req) (OneCall (contextOf env req) removes)
    (finish env req (listObjectsV1 P identity name args)) :=
  parse_onBucket fun _ => plain_load_onBucket (fun _ => .answer _) fun _ =>
    list_oneCall fun _ => ⟨_, rfl⟩

theorem listObjectsV2_onBucket : OnBucket (contextOf env req) (OneCall (contextOf env req) removes)
    (finish env req (listObjectsV2 P identity name args)) :=
  parse_onBucket fun _ => plain_load_onBucket (fun _ => .answer _) fun _ =>
    list_oneCall fun _ => ⟨_, rfl⟩

theorem deleteObject_onBucket : OnBucket (contextOf env req) (OneCall (contextOf env req) removes)
    (finish env req (deleteObject identity name key)) := by
  refine plain_load_onBucket (fun _ => .answer _) fun b => .object rfl (fun _ hb => by cases hb) ?_ rfl
  intro r
  cases r with
  | ok _ => exact ⟨_, rfl⟩
  | error e => cases e <;> exact ⟨_, rfl⟩

variable {headers : HeaderMap} {body : ObjectBody}

theorem getObject_oneCall : OnBucket (contextOf env req) (OneCall (contextOf env req) removes)
    (finish env req (getObject P identity name key headers false)) := by
  refine load_onBucket (fun _ => .answer _) fun b => .object (c := .headObject b.bucket (.new key)) rfl
    (fun _ hb => by cases hb) (fun r => ?_) rfl
  cases r with
  | error e => exact ⟨_, rfl⟩
  | ok info =>
    refine returns_finish ?_
    dsimp only [ExceptT.bindCont, Except.mapError]
    cases requestedRange headers with
    | none => exact ⟨_, rfl⟩
    | some r =>
      dsimp only
      cases RestS3Wire.resolveRange r info.size <;> exact ⟨_, rfl⟩

theorem objectResponse_error {info : ObjectInfo} {span : Option (ℕ × ℕ)} {sent : ResponseBody}
    {e : RgwError} (h : objectResponse P info span sent = .error e) : e.httpStatus = 500 := by
  have hvalue : ∀ s e, headerValue s = .error e → e.httpStatus = 500 := by
    intro s e hv
    rw [headerValue] at hv
    split at hv <;> cases hv
    rfl
  have hbind : ∀ {α β : Type} (x : RgwResult α) (f : α → RgwResult β),
      (∀ e, x = .error e → e.httpStatus = 500) → (∀ a e, f a = .error e → e.httpStatus = 500) →
      ∀ e, (x >>= f) = .error e → e.httpStatus = 500 := by
    intro α β x f hx hf e he
    cases x with
    | error e' =>
      cases he
      exact hx _ rfl
    | ok a => exact hf a e he
  rw [objectResponse_eq] at h
  refine hbind _ _ ?_ (fun _ => hbind _ _ (hvalue _) fun _ => hbind _ _ (hvalue _) fun _ =>
    hbind _ _ (hvalue _) fun _ => hbind _ _ (hvalue _) fun _ => hbind _ _ (hvalue _) fun _ =>
      hbind _ _ ?_ fun _ _ he => by cases he) e h
  · cases span with
    | none => exact fun _ he => by cases he
    | some r => exact hbind _ _ (hvalue _) fun _ _ he => by cases he
  · rw [withStorageClass]
    split
    · exact hbind _ _ (hvalue _) fun _ _ he => by cases he
    · exact fun _ he => by cases he

theorem getObject_oneRead : OnBucket (contextOf env req)
    (OneRead (contextOf env req) (requestedRange headers))
    (finish env req (getObject P identity name key headers true)) := by
  have hdenied : ∀ b, OneRead (contextOf env req) (requestedRange headers) b
      (failed (contextOf env req) .accessDenied) := by
    intro b
    refine .answer _ ?_
    rw [errorResponse_status]
    decide
  refine load_onBucket hdenied fun b =>
    @OneRead.read _ _ b key _ _ (fun read => ?_) (fun e he => ?_) rfl (fun info => rfl) fun e => rfl
  · change ∃ resp, finish env req (plain (liftM (objectResponse P read.info read.range
      (.object read.body)))) = .done resp ∧ resp.status ≠ 416
    cases hr : objectResponse P read.info read.range (.object read.body) with
    | ok resp =>
      refine ⟨resp, rfl, ?_⟩
      rw [(objectResponse_reply hr).1.status]
      split <;> decide
    | error e =>
      refine ⟨_, rfl, ?_⟩
      rw [errorResponse_status, OpError.ofError, objectResponse_error hr]
      decide
  · cases e with
    | invalidRange => exact absurd rfl he
    | _ => rfl

theorem putObject_onBucket (hB : Writes Readable identity body) :
    OnBucket (contextOf env req) (OneCall (contextOf env req) removes)
      (finish env req (putObject P env identity name key headers body)) := by
  rw [RestS3Handlers.putObject]
  by_cases hc : headers.containsKey (bytes "x-amz-copy-source") = true
  · simp only [hc, ↓reduceIte]
    exact .answer _ (by rw [errorResponse_status]; decide)
  simp only [hc]
  refine plain_load_onBucket (fun _ => .answer _) fun b => lift_oneCall fun user hu => ?_
  have hw : Readable body ∧ ∀ data, bufferBody body maxBufferedPut = .ok data →
      Readable (bodyFromBytes data) := by
    refine hB fun hn => ?_
    rw [requireUser, hn] at hu
    cases hu
  have hput : ∀ payload, Readable payload → OneCall (contextOf env req) removes b
      (finish env req (plain (do
        let info ← invoke (.putObject b.bucket (.new key) ⟨user.userId, user.displayName⟩
          (putAttrs headers) payload env.now)
        let v ← headerValue (34 :: info.etag ++ [34])
        return ⟨200, .append .empty etag v, .empty⟩))) := by
    intro payload hp
    refine invoke_oneCall rfl (fun body he => ?_) fun info => returns_bind ⟨_, rfl⟩ fun _ => ⟨_, rfl⟩
    cases he
    exact hp
  by_cases hl : maxObjectName < key.length
  · simp only [hl, ↓reduceIte]
    exact .answer _
  simp only [hl]
  by_cases hd : ((headerStr headers contentLength.val).bind (parseUnsigned 10 (2 ^ 64))).any
      (fun n => decide (maxPutSize < n)) = true
  · simp only [hd, ↓reduceIte]
    exact .answer _
  simp only [hd]
  refine lift_oneCall fun expected _ => ?_
  cases expected with
  | none => exact hput _ hw.1
  | some expected =>
    exact lift_oneCall fun data hdata => lift_oneCall fun _ _ => hput _ (hw.2 data hdata)

end Operations

section Dispatch

variable {rest : BucketInfo → Program → Prop} {env : ReqEnv} {req : Request} {identity : Identity}
  {name key : Str} {P : Platform} {args : Args}

def IsDownload (req : Request) : Prop :=
  req.method.name = methodGet ∧ ∃ segment rest, route req.uri.path = .object segment rest

def IsRemoval (req : Request) : Prop :=
  req.method.name = bytes "DELETE" ∧ ∃ segment, route req.uri.path = .bucket segment

/-- The requests about one bucket or about one of its objects, creation aside. -/
def OneBucket (req : Request) : Prop :=
  match route req.uri.path with
  | .service => False
  | .bucket _ => req.method.name ≠ bytes "PUT" ∧ req.method.name ≠ bytes "POST"
  | _ => True

theorem badPath_status (method : Method) (param : String) : (badPath method param).status ≠ 416 := by
  change (400 : ℕ) ≠ 416
  decide

theorem reject_onBucket {table : List Str} {op : S3Op Response}
    (hop : OnBucket (contextOf env req) rest (finish env req op)) : OnBucket (contextOf env req) rest
      (finish env req (plain (rejectUnsupported args table) >>= fun _ => op)) := by
  rw [rejectUnsupported]
  by_cases ha : (args.anyOf table).isSome = true
  · rw [if_pos ha]
    exact .answer _ (by rw [errorResponse_status]; decide)
  · rw [if_neg ha]
    exact hop

theorem bucketGet_onBucket : OnBucket (contextOf env req) (OneCall (contextOf env req) (IsRemoval req))
    (finish env req (bucketGet P identity args name)) := by
  rw [bucketGet]
  by_cases hl : args.exists_ (bytes "location") = true
  · rw [if_pos hl]
    exact getLocation_onBucket
  rw [if_neg hl]
  by_cases hv : args.exists_ (bytes "versioning") = true
  · rw [if_pos hv]
    exact getVersioning_onBucket
  rw [if_neg hv]
  refine reject_onBucket ?_
  by_cases ht : args.get (bytes "list-type") = some (bytes "2")
  · rw [if_pos ht]
    exact listObjectsV2_onBucket
  · rw [if_neg ht]
    exact listObjectsV1_onBucket

theorem answer_onBucket {resp : Response} (h : resp.status ≠ 416) :
    OnBucket (contextOf env req) rest (.done resp) := .answer resp h

/-- Whatever is not a download makes one call about its bucket, or none. -/
theorem handle_onBucket (writes : Writes Readable identity req.body) (one : OneBucket req)
    (hn : ¬IsDownload req) : OnBucket (contextOf env req) (OneCall (contextOf env req) (IsRemoval req))
      (handle P env identity req) := by
  rw [OneBucket] at one
  rw [handle]
  cases hroute : route req.uri.path with
  | service => simp [hroute] at one
  | bucket segment =>
    simp only [hroute] at one
    dsimp only
    cases hop : bucketMethod P env identity req with
    | none => exact answer_onBucket (by decide)
    | some op =>
      cases pathParam segment with
      | none => exact answer_onBucket (badPath_status _ _)
      | some name =>
        simp only [bucketMethod] at hop
        split at hop
        · cases hop
          exact bucketGet_onBucket
        split at hop
        · cases hop
          exact statBucket_onBucket
        split at hop
        · exact absurd ‹_› one.1
        split at hop
        · next hdelete =>
          cases hop
          exact reject_onBucket (deleteBucket_onBucket ⟨hdelete, segment, hroute⟩)
        split at hop
        · exact absurd ‹_› one.2
        · cases hop
  | object segment rest =>
    dsimp only
    by_cases hp : req.method.name = bytes "POST"
    · rw [if_pos hp]
      exact answer_onBucket (by rw [errorResponse_status]; decide)
    rw [if_neg hp]
    cases hop : objectMethod P env identity req with
    | none => exact answer_onBucket (by decide)
    | some op =>
      cases pathParam segment with
      | none => exact answer_onBucket (badPath_status _ _)
      | some name =>
        cases pathParam rest with
        | none => exact answer_onBucket (badPath_status _ _)
        | some key =>
          simp only [objectMethod] at hop
          split at hop
          · next hget => exact absurd ⟨hget, segment, rest, hroute⟩ hn
          split at hop
          · cases hop
            exact reject_onBucket getObject_oneCall
          split at hop
          · cases hop
            exact reject_onBucket (putObject_onBucket writes)
          split at hop
          · cases hop
            exact reject_onBucket deleteObject_onBucket
          · cases hop
  | unknown => exact answer_onBucket (by decide)

theorem download_onBucket (hd : IsDownload req) : OnBucket (contextOf env req)
    (OneRead (contextOf env req) (requestedRange req.headers)) (handle P env identity req) := by
  obtain ⟨hget, segment, rest, hroute⟩ := hd
  have hpost : req.method.name ≠ bytes "POST" := by
    rw [hget]
    decide
  rw [handle, hroute]
  dsimp only
  rw [if_neg hpost, objectMethod, if_pos hget]
  cases pathParam segment with
  | none => exact answer_onBucket (badPath_status _ _)
  | some name =>
    cases pathParam rest with
    | none => exact answer_onBucket (badPath_status _ _)
    | some key => exact reject_onBucket getObject_oneRead

end Dispatch

end RequestShapes
