import Rgw.AdminCalls
import Rgw.Moments
import Rgw.OwnCalls
import Rgw.Rgwd

/-! # Who changes the store

However requests interleave, a call that changes the store is made for a user whose signature
verified, with a key that the store gave for an active user of it, and is one that this user
may make. A request that is not signed asks for buckets by name and for nothing else. -/
namespace Mediation

open ByteStrings TextCodecs Interaction RgwTypes RgwSal RgwSalSqlite Http RgwAuth RestAdmin
  RestS3Wire RestS3Handlers S3Discipline BucketIncarnations SignatureBinding AdminPrivileges
    OwnerIsolation
  AdminCalls OwnCalls Moments Rgwd

section Vouching

variable {P : Platform} {config : AuthConfig} {now : Time} {req out : Request}
  {auth : SigV4.AuthorizationV4} {amzDate : Str} {info : UserInfo} {h : History}

/-- After these calls a request is known to be signed with a key of a user that the store holds. -/
structure Vouched (P : Platform) (config : AuthConfig) (now : Time) (req : Request) (h : History)
    (u : AuthedUser) : Prop where
  stored : (⟨.loadUserByAccessKey u.accessKeyId, .ok u.info⟩ : Event DriverCall Reply) ∈ h
  enabled : u.info.suspended = false
  signed : ∃ out auth amzDate secret payloadHash,
    Admitted P config now req out u auth amzDate secret payloadHash ∧ auth.accessKeyId = u.accessKeyId

theorem readBody_length {limit : ℕ} {headers : HeaderMap} {body : ObjectBody} {raw : Str}
    (h : RgwAuth.readBody limit headers body = .ok raw) : raw.length ≤ limit := by
  simp only [RgwAuth.readBody] at h
  split at h
  · cases h
  · split at h
    · next ht =>
      cases h
      exact toBytes_length (Nat.zero_le _) ht
    · cases h
    · cases h

/-- What `verifyUser` lets through: the same request, with the payload that was checked. -/
theorem verifyUser_out (h : verifyUser P config req auth amzDate info = .ok out) :
    info.suspended = false ∧ ∃ headers payload, payload.length ≤ config.maxBodyBytes ∧
      out = { req with
        headers := headers
        body := bodyFromBytes payload
        identity := some (.user ⟨info, auth.accessKeyId⟩) } := by
  rw [verifyUser] at h
  simp only [throw_error, error_bind, guard_eq_ok] at h
  obtain ⟨hsuspended, h⟩ := h
  obtain ⟨secret, -, h⟩ := bind_eq_ok.mp h
  obtain ⟨payloadHash, -, h⟩ := bind_eq_ok.mp h
  obtain ⟨_, -, h⟩ := bind_eq_ok.mp h
  obtain ⟨raw, hr, h⟩ := bind_eq_ok.mp h
  obtain ⟨⟨headers, payload⟩, hv, h⟩ := bind_eq_ok.mp h
  cases h
  exact ⟨Bool.eq_false_iff.mpr hsuspended, _, payload,
    (verifyPayload_length hv).trans (readBody_length hr), rfl⟩

/-- How a request comes through authentication. -/
inductive Passed (P : Platform) (config : AuthConfig) (now : Time) (req : Request) :
    History → Request → Prop where
  | anonymous (unsigned : req.headers.get (bytes "authorization") = none) :
      Passed P config now req [] { req with identity := some .anonymous }
  | user {h : History} {u : AuthedUser} {headers : HeaderMap} {payload : Str}
      (vouched : Vouched P config now req h u) (small : payload.length ≤ config.maxBodyBytes) :
      Passed P config now req h { req with
        headers := headers
        body := bodyFromBytes payload
        identity := some (.user u) }

/-- The one call of authentication is for the key that the request presents. What comes through
it. -/
theorem verify_obeys {d : Discipline DriverCall Reply}
    (hd : ∀ auth, presented req = some auth → d.allowed [] (.loadUserByAccessKey auth.accessKeyId)) :
    (verify P config now req).run.Obeys d
      (fun h r => ∀ out, r = .ok out → Passed P config now req h out) [] := by
  rw [verify]
  split
  · intro out hr
    cases hr
  split
  · next hnone =>
    intro out hr
    cases hr
    exact .anonymous hnone
  next authorization ha =>
    rw [obeys_except_bind, run_lift, obeys_done]
    cases hc : parseCredentials authorization with
    | error e =>
      intro out hr
      cases hr
    | ok auth =>
      have hp : presented req = some auth := by simp [presented, ha, hc, Except.toOption]
      dsimp only
      rw [obeys_except_bind, run_lift, obeys_done]
      cases hdate : requestTime P config now req.headers auth.scope with
      | error e =>
        intro out hr
        cases hr
      | ok amzDate =>
        dsimp only
        rw [obeys_except_bind, run_attempt]
        refine ⟨hd auth hp, fun r => ?_⟩
        rw [obeys_done]
        dsimp only
        cases r with
        | error e => cases e <;> exact fun out hr => by cases hr
        | ok info =>
          intro out hr
          obtain ⟨hsuspended, headers, payload, hsmall, rfl⟩ := verifyUser_out hr
          obtain ⟨secret, payloadHash, hadmitted⟩ := verifyUser_ok hp hdate hr rfl
          refine .user ⟨List.mem_singleton_self _, hsuspended, ?_⟩ hsmall
          exact ⟨_, auth, amzDate, secret, payloadHash, hadmitted, rfl⟩

end Vouching

section Requests

variable {A : App} {env : AppEnv} {msg : Incoming} {identity : Identity} {h : History} {c : DriverCall}

/-- Who a request turned out to be by these calls. -/
inductive Identified (A : App) (env : AppEnv) (msg : Incoming) : History → Identity → Prop where
  | anonymous (unsigned : msg.headers.get (bytes "authorization") = none) :
      Identified A env msg [] .anonymous
  | user {h : History} {u : AuthedUser}
      (vouched : Vouched A.platform .default env.checked msg.request h u) :
        Identified A env msg h (.user u)

/-- What the API that a request goes to may call for it. -/
def routed (A : App) (env : AppEnv) (msg : Incoming) (identity : Identity) :
    Discipline DriverCall Reply :=
  match adminRoute A.entry msg.uri.path with
  | some endpoint => adminDiscipline (adminRequest A env identity endpoint msg.request)
  | none => (s3Discipline (fun _ => True) identity env.s3).both (ownCalls identity)

/-- A request looks up the key it presents, when it is signed, and goes on as who it is. -/
def gatewayDiscipline (A : App) (env : AppEnv) (msg : Incoming) : Discipline DriverCall Reply where
  allowed h c :=
    (h = [] ∧ ∃ auth, presented msg.request = some auth ∧ c = .loadUserByAccessKey auth.accessKeyId) ∨
    ∃ identity h₀, Identified A env msg h₀ identity ∧
      (Discipline.after (routed A env msg identity) h₀).allowed h c
  mayCut _ := True

theorem passed_identified {out : Request}
    (hp : Passed A.platform .default env.checked msg.request h out) :
    ∃ identity, Identified A env msg h identity ∧ out.identity = some identity ∧
      out.method = msg.method ∧ out.uri = msg.uri ∧ Writes Readable identity out.body := by
  cases hp with
  | anonymous unsigned => exact ⟨_, .anonymous unsigned, rfl, rfl, rfl, fun hu => absurd rfl hu⟩
  | @user h u headers payload vouched small =>
    refine ⟨_, .user vouched, rfl, rfl, rfl, ?_⟩
    have hlt : payload.length < 2 ^ 63 := lt_of_le_of_lt small (by decide)
    exact Delivered.writes ⟨.user u, { msg.request with body := bodyFromBytes payload },
      fun _ => ⟨payload, rfl, hlt⟩⟩

theorem router_keeps {out : Request} (hp : Passed A.platform .default env.checked msg.request h out) :
    Keeps (gatewayDiscipline A env msg) h (router A env out) := by
  obtain ⟨identity, hid, hout, hmethod, huri, hwrites⟩ := passed_identified hp
  have hrest : ∀ {β : Type} {p : Prog DriverCall Reply β}, Keeps (routed A env msg identity) [] p →
      ∀ f : β → Prog DriverCall Reply AppResponse, (∀ b, ∃ resp, f b = .done resp) →
        Keeps (gatewayDiscipline A env msg) h (p >>= f) := by
    intro β p hkeeps f hf
    refine obeys_bind.mpr ((Prog.Obeys.weaken (obeys_after hkeeps h) (fun h' c hc => ?_)
      fun _ _ => trivial).mono fun h' b _ _ => ?_)
    · exact Or.inr ⟨identity, h, hid, hc⟩
    · obtain ⟨resp, hresp⟩ := hf b
      rw [hresp]
      exact trivial
  rw [router, hout]
  dsimp only
  rw [huri]
  cases hroute : adminRoute A.entry msg.uri.path with
  | some endpoint =>
    refine hrest ?_ _ fun resp => ⟨_, rfl⟩
    have hsame : adminRequest A env identity endpoint out =
        adminRequest A env identity endpoint msg.request := by
      rw [adminRequest, adminRequest, hmethod, huri]
      rfl
    rw [routed, hroute, hsame]
    exact serve_calls _ _
  | none =>
    refine hrest ?_ _ fun resp => ⟨_, rfl⟩
    rw [routed, hroute]
    have hkeeps := @handle_keeps (fun _ => True) identity A.platform env.s3 out
      fun _ => ⟨trivial, fun _ _ => trivial⟩
    have hboth := hkeeps.and (@handle_owns identity env.s3 out A.platform hwrites)
    exact hboth.mono fun _ _ _ _ => trivial

/-- Every request to the gateway, whatever it is. -/
theorem buildApp_keeps (A : App) (env : AppEnv) (msg : Incoming) :
    Keeps (gatewayDiscipline A env msg) [] (buildApp A env msg) := by
  have hverify := @verify_obeys A.platform .default env.checked msg.request
    (gatewayDiscipline A env msg) fun auth hp => Or.inl ⟨rfl, auth, hp, rfl⟩
  refine obeys_bind.mpr (Prog.Obeys.mono (P := fun _ _ => True) ?_ fun _ _ _ _ => trivial)
  refine obeys_bind.mpr (hverify.mono fun h r _ hr => ?_)
  cases r with
  | ok out => exact router_keeps (hr out rfl)
  | error e => exact trivial

end Requests

section Calls

/-- What a user whom a request is signed for may ask of the driver through it. -/
inductive Entitled (A : App) (msg : Incoming) (u : AuthedUser) (h : History) : DriverCall → Prop where
  | admin {c : DriverCall} (endpoint : Endpoint) (route : adminRoute A.entry msg.uri.path =
    some endpoint)
      (cap : (Identity.user u).checkCap (capOf endpoint) (permOf msg.method) = true)
      (scope : Changes c → permOf msg.method = .write ∧ AdminChange endpoint c) : Entitled A msg u h c
  | lookUp (name : Str) (route : adminRoute A.entry msg.uri.path = none) :
      Entitled A msg u h (.loadBucket [] name)
  | list (marker : Str) (max : ℕ) (route : adminRoute A.entry msg.uri.path = none) :
      Entitled A msg u h (.listBuckets (some u.info.userId) marker max)
  | create (info : BucketInfo) (route : adminRoute A.entry msg.uri.path = none)
      (own : info.owner = u.info.userId) : Entitled A msg u h (.createBucket info)
  | remove (b : BucketInfo) (route : adminRoute A.entry msg.uri.path = none)
      (loaded : Loaded (.user u) h b) : Entitled A msg u h (.removeBucket b.bucket.tenant b.bucket.name)
  | object {c : DriverCall} (b : BucketInfo) (route : adminRoute A.entry msg.uri.path = none)
      (loaded : Loaded (.user u) h b) (key : objectBucket c = some b.bucket) : Entitled A msg u h c

variable {A : App} {env : AppEnv} {msg : Incoming} {h : History} {c : DriverCall}

theorem loaded_append {identity : Identity} {b : BucketInfo} (hl : Loaded identity h b) (h₀ : History) :
    Loaded identity (h ++ h₀) b := by
  obtain ⟨⟨name, hm⟩, hv⟩ := hl
  exact ⟨⟨name, List.mem_append_left _ hm⟩, hv⟩

theorem vouched_append {P : Platform} {config : AuthConfig} {now : Time} {req : Request}
    {u : AuthedUser} (hv : Vouched P config now req h u) (h' : History) :
    Vouched P config now req (h' ++ h) u :=
  ⟨List.mem_append_right _ hv.stored, hv.enabled, hv.signed⟩

/-- Without a user nothing but a bucket's name may be asked for. -/
theorem anonymous_routed (hc : (routed A env msg .anonymous).allowed h c) :
    ∃ name, c = .loadBucket [] name := by
  rw [routed] at hc
  split at hc
  · exact absurd hc.1 (by simp [adminRequest, Identity.checkCap, Identity.userInfo])
  · obtain ⟨⟨-, hs3⟩, hown⟩ := hc
    have hloaded : ∀ b, ¬Loaded .anonymous h b := fun b hl => by cases hl.2
    cases hs3 with
    | listBuckets owner marker max =>
      obtain ⟨uid, -, u, hu, -⟩ := hown
      cases hu
    | loadBucket name => exact ⟨name, rfl⟩
    | createBucket info id first =>
      obtain ⟨u, hu, -⟩ := hown
      cases hu
    | removeBucket b loaded => exact absurd loaded (hloaded b)
    | object c b loaded key body => exact absurd loaded (hloaded b)

theorem user_entitled {u : AuthedUser} (hc : (routed A env msg (.user u)).allowed h c) (h₀ : History) :
    Entitled A msg u (h ++ h₀) c := by
  rw [routed] at hc
  split at hc
  · next endpoint hroute => exact .admin endpoint hroute hc.1 hc.2
  · next hroute =>
    obtain ⟨⟨-, hs3⟩, hown⟩ := hc
    cases hs3 with
    | listBuckets owner marker max =>
      obtain ⟨uid, rfl, info, hu, rfl⟩ := hown
      cases hu
      exact .list marker max hroute
    | loadBucket name => exact .lookUp name hroute
    | createBucket info id first =>
      obtain ⟨info', hu, ho⟩ := hown
      cases hu
      exact .create info hroute ho
    | removeBucket b loaded => exact .remove b hroute (loaded_append loaded h₀)
    | object c b loaded key body => exact .object b hroute (loaded_append loaded h₀) key

variable {ι : Type} [DecidableEq ι]

/-- Requests to a gateway, each at its start. -/
def arrivals (A : App) (s : Tables) (env : ι → AppEnv) (msg : ι → Incoming) :
    Config DriverCall Reply AppResponse Tables ι :=
  ⟨s, fun i => buildApp A (env i) (msg i)⟩

/-- The call is one that the user may make whom the request is signed for, with a key that the
store held for this user earlier on. -/
def OnBehalf (A : App) (s : Tables) (env : ι → AppEnv) (msg : ι → Incoming)
    (t : List (ι × Event DriverCall Reply)) (i : ι) (c : DriverCall) : Prop :=
  ∃ u, Vouched A.platform .default (env i).checked (msg i).request (seen i t) u ∧
    Entitled A (msg i) u (seen i t) c ∧
    ∃ before z, before <:+ t ∧ Trace (exec A.platform.md5) (arrivals A s env msg) before z ∧
      loadUserByAccessKey u.accessKeyId z.state = .ok u.info

/-- Every call looks up the key that a request presents, and then it is the request's first; or
asks for a bucket by name, and then the request is not signed; or is on behalf of the user. Only
the last changes the store. -/
inductive Mediated (A : App) (s : Tables) (env : ι → AppEnv) (msg : ι → Incoming)
    (t : List (ι × Event DriverCall Reply)) (x : Config DriverCall Reply AppResponse Tables ι) :
    ι × Event DriverCall Reply → Config DriverCall Reply AppResponse Tables ι → Prop where
  | key {i : ι} {auth : SigV4.AuthorizationV4} {r : Reply (.loadUserByAccessKey auth.accessKeyId)}
      {y : Config DriverCall Reply AppResponse Tables ι} (first : seen i t = [])
      (signed : presented (msg i).request = some auth) (still : y.state = x.state) :
      Mediated A s env msg t x (i, ⟨_, r⟩) y
  | anonymous {i : ι} {name : Str} {r : Reply (.loadBucket [] name)}
      {y : Config DriverCall Reply AppResponse Tables ι}
      (unsigned : (msg i).headers.get (bytes "authorization") = none) (still : y.state = x.state) :
      Mediated A s env msg t x (i, ⟨_, r⟩) y
  | user {i : ι} {e : Event DriverCall Reply} {y : Config DriverCall Reply AppResponse Tables ι}
      (behalf : OnBehalf A s env msg t i e.1) : Mediated A s env msg t x (i, e) y

/-- Every call of every run is mediated. -/
theorem calls_mediated (A : App) (s : Tables) (env : ι → AppEnv) (msg : ι → Incoming)
    (t : List (ι × Event DriverCall Reply)) (x : Config DriverCall Reply AppResponse Tables ι)
    (run : Trace (exec A.platform.md5) (arrivals A s env msg) t x) :
    Along (exec A.platform.md5) (Mediated A s env msg) (arrivals A s env msg) t x := by
  refine run.along fun t x e y run step => ?_
  obtain ⟨i, c, r⟩ := e
  have hc := (step_obeys step (trace_obeys run fun j => buildApp_keeps A (env j) (msg j))).1
  have hstill : ¬Changes c → y.state = x.state := fun h => (step_state step).2.trans (exec_still _ h)
  rcases hc with ⟨first, auth, signed, rfl⟩ | ⟨identity, h₀, hid, h', hseen, hc⟩
  · exact .key first signed (hstill id)
  · cases hid with
    | anonymous unsigned =>
      obtain ⟨name, rfl⟩ := anonymous_routed hc
      exact .anonymous unsigned (hstill id)
    | @user h₀ u vouched =>
      have hall : Vouched A.platform .default (env i).checked (msg i).request (seen i t) u := by
        rw [hseen]
        exact vouched_append vouched h'
      obtain ⟨before, z, hmade, hz, hreply⟩ := trace_reply run (mem_seen.mp hall.stored)
      refine .user ⟨u, hall, ?_, before, z, (List.suffix_cons _ _).trans hmade, hz, hreply.symm⟩
      rw [hseen]
      exact user_entitled hc h₀

def gateway : App := ⟨requestPlatform, defaultAdminEntry, fun _ => .ok ∅⟩

def appEnv : AppEnv where
  uuid := ⟨List.replicate 16 7, rfl⟩
  minted := uploadTime
  checked := uploadTime
  now := uploadTime
  bucketId := bytes "id-1"
  draws := noDraws
  fuel := 3

/-- Alice's upload, signed, and a download that is not. -/
def twoMessages (i : Fin 2) : Incoming := match i with
  | 0 => ⟨plainUpload.method, plainUpload.uri, plainUpload.headers, plainUpload.body⟩
  | 1 => ⟨⟨bytes "GET", get_token⟩, ⟨bytes "/docs/a-b", none, none⟩, .empty, []⟩

def twoTables : Tables := (exec sampleMd5 (.createBucket docs) uploaderTables).2

theorem calls_mediated_upload : ∃ t x,
    Trace (exec gateway.platform.md5) (arrivals gateway twoTables (fun _ => appEnv) twoMessages) t x ∧
      t.length = 4 ∧ x.state.objects.size = 1 ∧
      Along (exec gateway.platform.md5) (Mediated gateway twoTables (fun _ => appEnv) twoMessages)
        (arrivals gateway twoTables (fun _ => appEnv) twoMessages) t x := by
  have hplay : ((Config.play (exec gateway.platform.md5) [0, 1, 0, 0]
      ([], arrivals gateway twoTables (fun _ => appEnv) twoMessages)).map fun r =>
        (r.1.length, r.2.state.objects.size)) = some (4, 1) := by decide +kernel
  obtain ⟨⟨t, x⟩, hr, hlen⟩ := Option.map_eq_some_iff.mp hplay
  obtain ⟨hlength, hsize⟩ := Prod.mk.inj hlen
  have run : Trace _ (arrivals gateway twoTables (fun _ => appEnv) twoMessages) t x := play_trace .nil hr
  exact ⟨t, x, run, hlength, hsize, calls_mediated gateway twoTables _ _ t x run⟩

end Calls

end Mediation
