import Rgw.ObjectResponses
import Rgw.StoreInvariants

/-! # Object requests, one at a time

Without others in between, a request for an object is a function of the tables: what it
answers, and, where it writes, the tables it leaves. -/
namespace ObjectRequests

open ByteStrings TextCodecs Interaction RgwTypes RgwSal RgwSalSqlite Http HeaderMaps RestS3Wire
  RestS3Handlers StoreInvariants
open RgwAuth (Identity)

variable {md5 : Str → Str} {s s' : Tables}

section Calls

variable {σ α β ε : Type} {exec : Exec DriverCall Reply σ} {t t' : σ}

theorem run_bind_ok {x : OpT ε β} {b : β} (h : x.run.run exec t = some (.ok b, t')) (f : β → OpT ε α) :
    (x >>= f).run.run exec t = (f b).run.run exec t' := by
  rw [run_except_bind, h]
  rfl

theorem run_bind_error {x : OpT ε β} {e : ε} (h : x.run.run exec t = some (.error e, t'))
    (f : β → OpT ε α) : (x >>= f).run.run exec t = some (.error e, t') := by
  rw [run_except_bind, h]
  rfl

theorem run_invoke_ok {c : DriverCall} {a : c.Answer} (h : exec c t = (.ok a, t'))
    (f : c.Answer → Op α) : (invoke c >>= f).run.run exec t = (f a).run.run exec t' := by
  rw [run_except_bind, run_invoke, run_call, run_done, h]
  rfl

theorem run_invoke_error {c : DriverCall} {e : RgwError} (h : exec c t = (.error e, t'))
    (f : c.Answer → Op α) : (invoke c >>= f).run.run exec t = some (.error e, t') := by
  rw [run_except_bind, run_invoke, run_call, run_done, h]
  rfl

theorem run_attempt_bind (c : DriverCall) (f : Reply c → OpT ε α) (t : σ) :
    (attempt c >>= f).run.run exec t = (f (exec c t).1).run.run exec (exec c t).2 := by
  rw [run_except_bind]
  rfl

theorem run_lift_ok {x : Except ε β} {b : β} (h : x = .ok b) (f : β → OpT ε α) (t : σ) :
    ((liftM x : OpT ε β) >>= f).run.run exec t = (f b).run.run exec t := by
  rw [run_except_bind, run_lift, run_done, h]
  rfl

theorem run_lift_error {x : Except ε β} {e : ε} (h : x = .error e) (f : β → OpT ε α) (t : σ) :
    ((liftM x : OpT ε β) >>= f).run.run exec t = some (.error e, t) := by
  rw [run_except_bind, run_lift, run_done, h]
  rfl

theorem run_plain_ok {x : Op β} {b : β} (h : x.run.run exec t = some (.ok b, t')) (f : β → S3Op α) :
    (plain x >>= f).run.run exec t = (f b).run.run exec t' := by
  rw [run_except_bind, run_plain, h]
  rfl

theorem run_plain_eq_ok {x : Op α} {a : α} :
    (plain x).run.run exec t = some (.ok a, t') ↔ x.run.run exec t = some (.ok a, t') := by
  rw [run_plain]
  cases x.run.run exec t with
  | none => constructor <;> intro h <;> cases h
  | some r =>
    obtain ⟨r, t''⟩ := r
    cases r with
    | error e => constructor <;> intro h <;> cases h
    | ok b => constructor <;> intro h <;> cases h <;> rfl

end Calls

section Buckets

/-- The bucket a request names, if its identity may use it. -/
def bucketFor (identity : Identity) (name : Str) (s : Tables) : RgwResult BucketInfo := do
  if 47 ∈ name then throw .noSuchBucket
  let bucket ← loadBucket [] name s
  verifyBucketAccess identity bucket
  return bucket

theorem run_loadBucketFor (identity : Identity) (name : Str) (s : Tables) :
    (loadBucketFor identity name).run.run (exec md5) s = some (bucketFor identity name s, s) := by
  rw [loadBucketFor, bucketFor]
  by_cases hslash : 47 ∈ name
  · simp [hslash]
  · simp only [hslash, ↓reduceIte]
    cases hload : loadBucket [] name s with
    | error e => rw [run_invoke_error (congrArg (·, s) hload)]; rfl
    | ok bucket =>
      rw [run_invoke_ok (congrArg (·, s) hload), ok_bind]
      cases verifyBucketAccess identity bucket with
      | error e => rfl
      | ok u => rfl

/-- What a caller may use is there. -/
theorem bucketFor_there (wf : WellFormed md5 s) {identity : Identity} {name : Str} {bucket : BucketInfo}
    (h : bucketFor identity name s = .ok bucket) : bucket.bucket.bucketId ∈ s.buckets := by
  rw [bucketFor] at h
  split at h
  · cases h
  · obtain ⟨b, hload, h⟩ := bind_eq_ok.mp h
    obtain ⟨u, -, h⟩ := bind_eq_ok.mp h
    cases h
    obtain ⟨row, hrow, -⟩ := loadBucket_stored wf hload
    exact mem_buckets.mpr ⟨row, hrow⟩

end Buckets

section Reads

variable (P : Platform) (identity : Identity) (bucketName key : Str) (headers : HeaderMap)

/-- The reply to a request for the metadata alone. -/
def headReply (info : ObjectInfo) (range : Option ByteRange) : Except OpError Response :=
  match range with
  | none => (objectResponse P info none .empty).mapError .ofError
  | some r => match RestS3Wire.resolveRange r info.size with
    | some resolved => (objectResponse P info (some resolved) .empty).mapError .ofError
    | none => .error (invalidRange info.size)

/-- The reply to a request for the data, after what the driver returned. -/
def getReply (read : RgwResult ObjectRead) (info : RgwResult ObjectInfo) : Except OpError Response :=
  match read with
  | .ok read => (objectResponse P read.info read.range (.object read.body)).mapError .ofError
  | .error .invalidRange => do
    let info ← info.mapError .ofError
    .error (invalidRange info.size)
  | .error e => .error (.ofError e)

theorem run_head {bucket : BucketInfo} (hb : bucketFor identity bucketName s = .ok bucket) :
    (RestS3Handlers.getObject P identity bucketName key headers false).run.run (exec md5) s =
      some (do
        let info ← (RgwSalSqlite.headObject bucket.bucket (.new key) s).mapError .ofError
        headReply P info (requestedRange headers), s) := by
  have hload := @run_loadBucketFor md5 identity bucketName s
  rw [hb] at hload
  rw [RestS3Handlers.getObject, run_plain_ok hload]
  dsimp only
  rw [Bool.not_false, if_pos rfl, run_except_bind, run_plain, run_invoke]
  change Option.bind (some ((RgwSalSqlite.headObject bucket.bucket (.new key) s).mapError
    OpError.ofError, s)) _ = _
  cases RgwSalSqlite.headObject bucket.bucket (.new key) s with
  | error e => rfl
  | ok info =>
    cases requestedRange headers with
    | none => rfl
    | some r =>
      dsimp only [Option.bind_some, Except.mapError, ok_bind, headReply]
      cases RestS3Wire.resolveRange r info.size with
      | none => rfl
      | some resolved => rfl

theorem run_get {bucket : BucketInfo} (hb : bucketFor identity bucketName s = .ok bucket) :
    (RestS3Handlers.getObject P identity bucketName key headers true).run.run (exec md5) s =
      some (getReply P (RgwSalSqlite.getObject bucket.bucket (.new key) (requestedRange headers) s)
        (RgwSalSqlite.headObject bucket.bucket (.new key) s), s) := by
  have hload := @run_loadBucketFor md5 identity bucketName s
  rw [hb] at hload
  rw [RestS3Handlers.getObject, run_plain_ok hload]
  dsimp only
  rw [Bool.not_true, if_neg Bool.false_ne_true, run_attempt_bind]
  have hexec : exec md5 (.getObject bucket.bucket (.new key) (requestedRange headers)) s =
    (RgwSalSqlite.getObject bucket.bucket (.new key) (requestedRange headers) s, s) := rfl
  rw [hexec]
  cases RgwSalSqlite.getObject bucket.bucket (.new key) (requestedRange headers) s with
  | ok read => rfl
  | error e =>
    cases e with
    | invalidRange =>
      dsimp only
      rw [run_except_bind, run_plain, run_invoke]
      change Option.bind (some ((RgwSalSqlite.headObject bucket.bucket (.new key) s).mapError
        OpError.ofError, s)) _ = _
      cases RgwSalSqlite.headObject bucket.bucket (.new key) s with
      | error e => rfl
      | ok info => rfl
    | _ => rfl

end Reads

section Writes

/-- What a request to store an object comes to: a failure that writes nothing, or the object's
row, with the whole body for its data, and the digest of it for an answer. -/
inductive PutOutcome (P : Platform) (identity : Identity) (bucketName key : Str)
    (headers : HeaderMap) (body : ObjectBody) (s : Tables) : Except OpError Response → Tables →
    Prop where
  | refused (e : OpError) : PutOutcome P identity bucketName key headers body s (.error e) s
  | stored (bucket : BucketInfo) (owner : Owner) (data : Str) (now : Time) (resp : Response)
      (named : bucketFor identity bucketName s = .ok bucket)
      (there : bucket.bucket.bucketId ∈ s.buckets) (read : readBody body = .ok data)
      (small : data.length < 2 ^ 63)
      (answer : resp.headers.getAll etag.val = [34 :: hexEncode (P.md5 data) ++ [34]]) :
      PutOutcome P identity bucketName key headers body s (.ok resp)
        (withObject s bucket.bucket.bucketId key (objectRow P.md5 owner (putAttrs headers) data now))

theorem toBytes_read {limit : ℕ} {body : ObjectBody} {acc data : Str}
    (h : toBytes limit body acc = .ok data) : ∃ read, readBody body = .ok read ∧ data = acc ++ read := by
  induction body generalizing acc with
  | nil =>
    cases h
    exact ⟨[], rfl, (List.append_nil data).symm⟩
  | cons chunk body ih =>
    cases chunk with
    | error e => cases h
    | ok chunk =>
      rw [toBytes, guard_eq_ok] at h
      obtain ⟨read, hread, rfl⟩ := ih h.2
      obtain ⟨chunks, hchunks, hflat⟩ := bind_eq_ok.mp hread
      cases hflat
      refine ⟨chunk ++ chunks.flatten, ?_, List.append_assoc _ _ _⟩
      rw [readBody, List.mapM_cons, hchunks]
      rfl

theorem bufferBody_read {limit : ℕ} {body : ObjectBody} {data : Str}
    (h : bufferBody body limit = .ok data) : readBody body = .ok data := by
  rw [bufferBody] at h
  cases hb : toBytes limit body [] with
  | error e => cases e <;> rw [hb] at h <;> cases h
  | ok read =>
    rw [hb] at h
    cases h
    obtain ⟨read', hread, rfl⟩ := toBytes_read hb
    exact hread

theorem isHeaderValue_hexEncode (digest : Str) : isHeaderValue (hexEncode digest) = true := by
  have hhex : ∀ b : UInt8, isHexDigit b = true → (b == 9 || 32 ≤ b && b ≠ 127) = true :=
    forall_byte (by decide +kernel)
  rw [isHeaderValue, List.all_eq_true]
  intro b hb
  exact hhex b (mem_hexEncode hb)

theorem isHeaderValue_etag (digest : Str) : isHeaderValue (34 :: hexEncode digest ++ [34]) = true := by
  rw [isHeaderValue_append, isHeaderValue_cons, isHeaderValue_hexEncode]
  rfl

variable {P : Platform} {env : ReqEnv} {identity : Identity} {bucketName key : Str}
  {headers : HeaderMap} {body payload : ObjectBody}

/-- The driver stores the payload, and the digest goes into the answer. -/
theorem run_store {bucket : BucketInfo} (hb : bucketFor identity bucketName s = .ok bucket)
    (hp : ∀ data, readBody payload = .ok data → readBody body = .ok data) (owner : Owner) (now : Time) :
    ∃ r s', (do
        let info ← invoke (.putObject bucket.bucket (.new key) owner (putAttrs headers) payload now)
        let v ← headerValue (34 :: info.etag ++ [34])
        return ⟨200, .append .empty etag v, .empty⟩ : Op Response).run.run (exec P.md5) s =
        some (r, s') ∧
      PutOutcome P identity bucketName key headers body s (r.mapError .ofError) s' := by
  have hexec := @exec_putObject P.md5 s bucket.bucket (.new key) owner (putAttrs headers) payload now
  cases hread : readBody payload with
  | error e =>
    rw [hread] at hexec
    rw [run_invoke_error hexec]
    exact ⟨_, _, rfl, .refused _⟩
  | ok data =>
    rw [hread] at hexec
    dsimp only at hexec
    by_cases hlarge : 2 ^ 63 ≤ data.length
    · rw [if_pos hlarge] at hexec
      rw [run_invoke_error hexec]
      exact ⟨_, _, rfl, .refused _⟩
    · rw [if_neg hlarge] at hexec
      by_cases hthere : bucket.bucket.bucketId ∈ s.buckets
      · rw [if_pos hthere] at hexec
        have hetag := headerValue_ok (isHeaderValue_etag (P.md5 data))
        rw [run_invoke_ok hexec, objectInfo, run_lift_ok hetag]
        exact ⟨_, _, rfl, .stored bucket owner data now _ hb hthere (hp data hread) (by omega) rfl⟩
      · rw [if_neg hthere] at hexec
        rw [run_invoke_error hexec]
        exact ⟨_, _, rfl, .refused _⟩

theorem run_putObject : ∃ r s',
    (RestS3Handlers.putObject P env identity bucketName key headers body).run.run (exec P.md5) s =
      some (r, s') ∧ PutOutcome P identity bucketName key headers body s r s' := by
  have lower : ∀ {x : Op Response}, (∃ r s', x.run.run (exec P.md5) s = some (r, s') ∧
      PutOutcome P identity bucketName key headers body s (r.mapError .ofError) s') →
      ∃ r s', (plain x).run.run (exec P.md5) s = some (r, s') ∧
        PutOutcome P identity bucketName key headers body s r s' := by
    rintro x ⟨r, s', hx, ho⟩
    rw [run_plain, hx]
    exact ⟨_, _, rfl, ho⟩
  rw [RestS3Handlers.putObject]
  apply lower
  by_cases hcopy : headers.containsKey (bytes "x-amz-copy-source") = true
  · simp only [hcopy, ↓reduceIte]
    exact ⟨_, _, rfl, .refused _⟩
  simp only [hcopy, Bool.false_eq_true, ↓reduceIte]
  have hload := @run_loadBucketFor P.md5 identity bucketName s
  cases hb : bucketFor identity bucketName s with
  | error e =>
    rw [hb] at hload
    rw [run_bind_error hload]
    exact ⟨_, _, rfl, .refused _⟩
  | ok bucket =>
    rw [hb] at hload
    rw [run_bind_ok hload]
    cases huser : requireUser identity with
    | error e =>
      rw [run_lift_error rfl]
      exact ⟨_, _, rfl, .refused _⟩
    | ok user =>
      rw [run_lift_ok rfl]
      by_cases hlong : maxObjectName < key.length
      · simp only [hlong, ↓reduceIte]
        exact ⟨_, _, rfl, .refused _⟩
      simp only [hlong, ↓reduceIte]
      by_cases hlarge : ((headerStr headers contentLength.val).bind (parseUnsigned 10 (2 ^ 64))).any
          (fun n => decide (maxPutSize < n)) = true
      · simp only [hlarge, ↓reduceIte]
        exact ⟨_, _, rfl, .refused _⟩
      simp only [hlarge, Bool.false_eq_true, ↓reduceIte]
      cases hmd5 : contentMd5 P headers with
      | error e => exact ⟨_, _, rfl, .refused _⟩
      | ok expected =>
        rw [run_lift_ok rfl]
        cases expected with
        | none => exact run_store hb (fun _ h => h) _ _
        | some expected =>
          dsimp only
          cases hdata : bufferBody body maxBufferedPut with
          | error e =>
            rw [run_lift_error rfl]
            exact ⟨_, _, rfl, .refused _⟩
          | ok data =>
            rw [run_lift_ok rfl]
            cases hverify : verifyMd5 P expected data with
            | error e =>
              rw [run_lift_error rfl]
              exact ⟨_, _, rfl, .refused _⟩
            | ok u =>
              have hread : ∀ read, readBody (bodyFromBytes data) = .ok read →
                readBody body = .ok read := by
                intro read h
                cases h
                exact (bufferBody_read hdata).trans (congrArg Except.ok (List.append_nil data).symm)
              rw [run_lift_ok rfl, pure_bind]
              exact run_store hb hread ⟨user.userId, user.displayName⟩ env.now

end Writes

end ObjectRequests
