import Rgw.S3Discipline

/-! # What requests write

Whatever a request is, it creates buckets in the empty tenant under a name, writes objects under
a name and leaves the users alone. -/
namespace RequestCalls

open ByteStrings TextCodecs Interaction RgwSal Http RgwAuth RestS3Wire RestS3Handlers S3Discipline

/-- What any request may call. -/
def requestCalls : Discipline DriverCall Reply where
  allowed _
    | .createBucket info => info.bucket.tenant = [] ∧ info.bucket.name ≠ []
    | .putObject _ key _ _ _ _ => key.name ≠ []
    | .storeUser _ _ | .removeUser _ => False
    | _ => True
  mayCut _ := True

variable {identity : Identity} {env : ReqEnv} {P : Platform} {args : Args} {name key : Str}
  {headers : HeaderMap} {body : ObjectBody} {h : History}

section Operations

/-- A request that writes no body, and would create a bucket under no id that it could draw,
neither writes nor creates. -/
theorem keeps_unwriting (identity : Identity) (env : ReqEnv) {α : Type} {p : Prog DriverCall Reply α}
    (hp : ∀ bucketId, Keeps (s3Discipline (fun _ => False) identity { env with bucketId := bucketId })
      [] p) : Keeps requestCalls [] p := by
  have hboth := (hp (bytes "a")).and (hp (bytes "b"))
  refine (hboth.weaken (fun h c hc => ?_) fun h _ => trivial).mono fun _ _ _ _ => trivial
  obtain ⟨⟨-, ha⟩, -, hb⟩ := hc
  cases c with
  | createBucket info =>
    exfalso
    cases ha with
    | createBucket _ ida => cases hb with
      | createBucket _ idb =>
        have hsame : bytes "a" = bytes "b" := ida.symm.trans idb
        revert hsame
        decide
      | object _ _ _ key => cases key
    | object _ _ _ key => cases key
  | putObject bucket key owner attrs body now =>
    exfalso
    cases ha with
    | object _ _ _ _ hbody => exact hbody body rfl
  | storeUser info exclusive => cases ha with
    | object _ _ _ key => cases key
  | removeUser id => cases ha with
    | object _ _ _ key => cases key
  | _ => trivial

theorem validated_ne_nil (hv : validateBucketName name = .ok ()) : name ≠ [] := by
  rintro rfl
  cases hv

theorem createBucket_calls : Keeps requestCalls [] (createBucket env identity name).run := by
  refine keeps_create fun user _ hname => ?_
  have hquota : Keeps requestCalls [] (checkQuota env user).run :=
    keeps_unwriting identity env fun bucketId =>
      (obeys_checkQuota { env with bucketId := bucketId } user).mono fun _ _ _ _ => trivial
  exact hquota.mono fun _ _ _ _ _ => ⟨⟨rfl, validated_ne_nil hname⟩, fun _ => trivial⟩

theorem putObject_calls (hk : key ≠ []) :
    Keeps requestCalls [] (putObject P env identity name key headers body).run := by
  rw [putObject]
  refine keeps_plain ?_
  by_cases hc : headers.containsKey (bytes "x-amz-copy-source") = true
  · simp only [hc, ↓reduceIte]
    exact keeps_done _
  simp only [hc]
  refine keeps_load_bind trivial fun r b => keeps_lift_bind fun user hu => ?_
  by_cases hl : maxObjectName < key.length
  · simp only [hl, ↓reduceIte]
    exact keeps_done _
  simp only [hl]
  by_cases hd : ((headerStr headers contentLength.val).bind (parseUnsigned 10 (2 ^ 64))).any
      (fun n => decide (maxPutSize < n)) = true
  · simp only [hd, ↓reduceIte]
    exact keeps_done _
  simp only [hd]
  refine keeps_lift_bind fun expected _ => ?_
  cases expected with
  | none => exact keeps_invoke_bind hk fun _ => keeps_lift_bind fun _ _ => keeps_done _
  | some expected =>
    refine keeps_lift_bind fun data hdata => keeps_lift_bind fun _ _ => ?_
    exact keeps_invoke_bind hk fun _ => keeps_lift_bind fun _ _ => keeps_done _

end Operations

section Dispatch

theorem bucketPut_calls : Keeps requestCalls [] (bucketPut env identity args name).run := by
  refine keeps_reject ?_
  by_cases hv : args.exists_ (bytes "versioning") = true
  · rw [if_pos hv]
    exact keeps_done _
  · rw [if_neg hv]
    exact createBucket_calls

theorem bucketMethod_calls {req : Request} {op : Str → S3Op Response}
    (hop : bucketMethod P env identity req = some op) : Keeps requestCalls [] (op name).run := by
  simp only [bucketMethod] at hop
  split at hop
  · cases hop
    exact keeps_unwriting identity env fun _ => bucketGet_keeps
  split at hop
  · cases hop
    exact keeps_unwriting identity env fun _ => statBucket_keeps
  split at hop
  · cases hop
    exact bucketPut_calls
  split at hop
  · cases hop
    exact keeps_reject (keeps_unwriting identity env fun _ => deleteBucket_keeps)
  split at hop
  · cases hop
    exact keeps_unwriting identity env fun _ => bucketPost_keeps
  · cases hop

theorem objectMethod_calls {req : Request} {op : Str → Str → S3Op Response} (hk : key ≠ [])
    (hop : objectMethod P env identity req = some op) : Keeps requestCalls [] (op name key).run := by
  simp only [objectMethod] at hop
  split at hop
  · cases hop
    exact keeps_reject (keeps_unwriting identity env fun _ => getObject_keeps true)
  split at hop
  · cases hop
    exact keeps_reject (keeps_unwriting identity env fun _ => getObject_keeps false)
  split at hop
  · cases hop
    exact keeps_reject (putObject_calls hk)
  split at hop
  · cases hop
    exact keeps_reject (keeps_unwriting identity env fun _ => deleteObject_keeps)
  · cases hop

theorem percentDecode_ne_nil {s : Str} (hs : s ≠ []) : percentDecode s ≠ [] := by
  rcases s with - | ⟨b, - | ⟨x, - | ⟨y, rest⟩⟩⟩
  · exact absurd rfl hs
  · simp [percentDecode]
  · simp [percentDecode]
  · rw [percentDecode]
    split <;> simp

/-- A key that a path names is not empty. -/
theorem object_key_ne_nil {path segment rest : Str} (hr : route path = .object segment rest)
    (hk : pathParam rest = some key) : key ≠ [] := by
  have hrest : rest ≠ [] := by
    unfold route at hr
    split at hr
    · split at hr
      · cases hr
      · split at hr
        · cases hr
        · split at hr
          · cases hr
          · next hne =>
            cases hr
            exact hne
    · cases hr
  simp only [pathParam] at hk
  split at hk
  · cases hk
    exact percentDecode_ne_nil hrest
  · cases hk

/-- Every request, whatever its route, query, headers and body. -/
theorem handle_calls (P : Platform) (env : ReqEnv) (identity : Identity) (req : Request) :
    Keeps requestCalls [] (handle P env identity req) := by
  refine keeps_handle ?_ (fun _ _ hop => bucketMethod_calls hop) fun _ _ _ _ _ hroute hop hkey =>
    objectMethod_calls (object_key_ne_nil hroute hkey) hop
  refine keeps_unwriting identity env fun bucketId => ?_
  exact @listBuckets_keeps _ identity P { env with bucketId := bucketId }

end Dispatch

end RequestCalls
