import Rgw.OwnerIsolation
import Rgw.SignatureBinding

/-! # Interleaved requests and the buckets they verified

A bucket id names one bucket for good: ids are drawn once and owners never change. What a
request verified when it loaded a bucket is therefore still so wherever that id is found. -/
namespace BucketIncarnations

open ByteStrings TextCodecs SortedMaps Interaction RgwTypes RgwSal RgwSalSqlite StoreInvariants
  Http RgwAuth RestS3Wire RestS3Handlers S3Discipline OwnerIsolation

section Delivery

/-- A body that is read without failing and is no longer than a buffer can be. -/
def Readable (body : ObjectBody) : Prop :=
  ∃ data, RgwSal.readBody body = .ok data ∧ data.length < 2 ^ 63

/-- A request as the middleware hands it on: a user's payload was buffered and checked. -/
structure Delivered where
  identity : Identity
  request : Request
  buffered : identity.userInfo ≠ none →
    ∃ payload, request.body = bodyFromBytes payload ∧ payload.length < 2 ^ 63

theorem readable_bytes {data : Str} (h : data.length < 2 ^ 63) : Readable (bodyFromBytes data) := by
  refine ⟨data, ?_, h⟩
  simp [RgwSal.readBody, bodyFromBytes]

theorem Delivered.writes (d : Delivered) : Writes Readable d.identity d.request.body := by
  intro hu
  obtain ⟨payload, hb, hl⟩ := d.buffered hu
  refine ⟨hb ▸ readable_bytes hl, fun data hd => readable_bytes ?_⟩
  rw [bufferBody] at hd
  split at hd
  · next data' ht =>
    cases hd
    exact lt_of_le_of_lt (toBytes_length (Nat.zero_le _) ht) (by decide)
  · cases hd
  · cases hd

/-- What `verify` lets through is delivered so. -/
theorem verify_delivers {P : Platform} {md5 : Str → Str} {config : AuthConfig} {now : Time}
    {req out : Request} {s s' : Tables} {identity : Identity}
    (limit : config.maxBodyBytes < 2 ^ 63)
    (h : (verify P config now req).run.run (exec md5) s = some (.ok out, s'))
    (hi : out.identity = some identity) :
    ∃ d : Delivered, d.identity = identity ∧ d.request = out := by
  refine ⟨⟨identity, out, fun hu => ?_⟩, rfl, rfl⟩
  cases identity with
  | anonymous => exact absurd rfl hu
  | user u =>
    obtain ⟨auth, amzDate, secret, hash, a⟩ := SignatureBinding.verify_admitted h hi
    obtain ⟨raw, headers, payload, hr, hp, hb⟩ := a.body
    refine ⟨payload, hb, lt_of_le_of_lt (verifyPayload_length hp) (lt_of_le_of_lt ?_ limit)⟩
    simp only [RgwAuth.readBody] at hr
    split at hr
    · cases hr
    · split at hr
      · next raw' ht =>
        cases hr
        exact toBytes_length (Nat.zero_le _) ht
      · cases hr
      · cases hr

end Delivery

section Runs

variable {ι : Type} [DecidableEq ι]

/-- The requests of a run and what each draws. -/
structure Requests (ι : Type) where
  platform : Platform
  env : ι → ReqEnv
  req : ι → Delivered
  store : Store platform.md5
  /-- Bucket ids are drawn once. -/
  fresh : Function.Injective fun i => (env i).bucketId
  unused : ∀ i, (env i).bucketId ∉ store.1.buckets

namespace Requests

variable (R : Requests ι)

def identity (i : ι) : Identity := (R.req i).identity

/-- Every request at its start. -/
def start : Config DriverCall Reply Response Tables ι :=
  ⟨R.store.1, fun i => handle R.platform (R.env i) (R.identity i) (R.req i).request⟩

/-- A run of the requests, call by call in any order. -/
abbrev Run (t : List (ι × Event DriverCall Reply)) (x : Config DriverCall Reply Response Tables ι) :
    Prop := Trace (exec R.platform.md5) R.start t x

end Requests

variable {R : Requests ι} {t : List (ι × Event DriverCall Reply)} {s : Tables}
  {x y : Config DriverCall Reply Response Tables ι} {i : ι} {e : Event DriverCall Reply}

/-- What ids and owners do over a run: an id yet to be used is in no row and was in none that
was loaded, and an id that was verified means the same bucket wherever it still is. -/
structure Incarnations (R : Requests ι) (t : List (ι × Event DriverCall Reply)) (s : Tables) :
    Prop where
  wf : WellFormed R.platform.md5 s
  unused : ∀ i, NoCreation (seen i t) → (R.env i).bucketId ∉ s.buckets
  unseen : ∀ i b, Loaded (R.identity i) (seen i t) b → ∀ j, NoCreation (seen j t) →
    (R.env j).bucketId ≠ b.bucket.bucketId
  fixed : ∀ i b, Loaded (R.identity i) (seen i t) b → ∀ row : BucketRow,
    s.buckets[b.bucket.bucketId]? = some row → BucketInfo.deserialize row.info = b

theorem noCreation_seen {j : ι} (h : NoCreation (seen j ((i, e) :: t))) :
    NoCreation (seen j t) := by
  intro e' he'
  refine h e' ?_
  rw [mem_seen] at he' ⊢
  exact List.mem_cons_of_mem _ he'

theorem loaded_seen {identity : Identity} {j : ι} {b : BucketInfo}
    (h : Loaded identity (seen j ((i, e) :: t)) b) :
    Loaded identity (seen j t) b ∨ ∃ name, e = ⟨.loadBucket [] name, .ok b⟩ := by
  obtain ⟨⟨name, hm⟩, hv⟩ := h
  rw [mem_seen] at hm
  rcases List.mem_cons.mp hm with he | hm
  · exact Or.inr ⟨name, (Prod.mk.inj he).2.symm⟩
  · exact Or.inl ⟨⟨name, mem_seen.mpr hm⟩, hv⟩

theorem incarnations_start (R : Requests ι) : Incarnations R [] R.store.1 where
  wf := R.store.2
  unused i _ := R.unused i
  unseen := by
    rintro i b ⟨⟨name, hm⟩, -⟩
    cases hm
  fixed := by
    rintro i b ⟨⟨name, hm⟩, -⟩
    cases hm

/-- A row of the id that request `j` may still use is one that `j` itself just created. -/
theorem creator {c : DriverCall} {info : BucketInfo} {j : ι}
    (hc : (s3Discipline Readable (R.identity i) (R.env i)).allowed (seen i t) c)
    (he : c = .createBucket info) (hid : info.bucket.bucketId = (R.env j).bucketId) :
    j = i ∧ NoCreation (seen i t) := by
  subst he
  obtain ⟨-, hc⟩ := hc
  cases hc with
  | createBucket info id first => exact ⟨R.fresh (hid.symm.trans id), first⟩
  | object c b loaded key body => cases key

theorem incarnations_call {c : DriverCall} (h : Incarnations R t s)
    (hc : (s3Discipline Readable (R.identity i) (R.env i)).allowed (seen i t) c) :
    Incarnations R ((i, ⟨c, (exec R.platform.md5 c s).1⟩) :: t) (exec R.platform.md5 c s).2 := by
  refine ⟨exec_wellFormed h.wf c, fun j hj hm => ?_, fun k b hl j hj => ?_, fun k b hl row hr => ?_⟩
  · obtain ⟨row, hr⟩ := mem_buckets.mp hm
    rcases exec_buckets_new hr with hr | ⟨info, he, hid⟩
    · exact h.unused j (noCreation_seen hj) (mem_buckets.mpr ⟨row, hr⟩)
    · obtain ⟨rfl, -⟩ := creator hc he hid
      rw [seen_cons_self] at hj
      exact hj _ List.mem_cons_self info he
  · rcases loaded_seen hl with hold | ⟨name, he⟩
    · exact h.unseen k b hold j (noCreation_seen hj)
    · -- the bucket was just loaded, so its id is in a row
      obtain ⟨rfl, hreply⟩ := Sigma.mk.inj_iff.mp he
      obtain ⟨row, hr, -⟩ := loadBucket_stored h.wf (eq_of_heq hreply)
      intro hid
      exact h.unused j (noCreation_seen hj) (mem_buckets.mpr ⟨row, hid ▸ hr⟩)
  · rcases loaded_seen hl with hold | ⟨name, he⟩
    · rcases exec_buckets_new hr with hr | ⟨info, he, hid⟩
      · exact h.fixed k b hold row hr
      · subst he
        obtain ⟨-, hcreate⟩ := hc
        cases hcreate with
        | createBucket info id first => exact absurd (id.symm.trans hid) (h.unseen k b hold i first)
        | object c b loaded key body => cases key
    · obtain ⟨rfl, hreply⟩ := Sigma.mk.inj_iff.mp he
      obtain ⟨row', hr', hd⟩ := loadBucket_stored h.wf (eq_of_heq hreply)
      change s.buckets[b.bucket.bucketId]? = some row at hr
      rw [hr'] at hr
      exact Option.some.inj hr ▸ hd

omit [DecidableEq ι] in
theorem start_keeps (R : Requests ι) (j : ι) :
    (R.start.threads j).Obeys (s3Discipline Readable (R.identity j) (R.env j)) (fun _ _ => True)
      [] :=
  handle_keeps (R.req j).writes

/-- The invariant at every moment of every run. -/
theorem incarnations_run (run : R.Run t x) : Incarnations R t x.state :=
  trace_invariant (Incarnations R) (fun _ _ _ _ h hc => incarnations_call h hc) run
    (start_keeps R) (incarnations_start R)

/-- Every call of every run is one its request may make. -/
theorem run_allowed (run : R.Run t x) (step : Step (exec R.platform.md5) x (i, e) y) :
    S3Allowed Readable (R.identity i) (R.env i).bucketId (seen i t) e.1 :=
  (step_obeys step (trace_obeys run (start_keeps R))).1

theorem step_exec (step : Step (exec R.platform.md5) x (i, e) y) :
    e.2 = (exec R.platform.md5 e.1 x.state).1 ∧ y.state = (exec R.platform.md5 e.1 x.state).2 := by
  cases step with
  | call s p i c k hi => exact ⟨rfl, rfl⟩

end Runs

section Access

variable {ι : Type} [DecidableEq ι]

/-- The bucket is there and the identity's own. -/
def Owned (identity : Identity) (s : Tables) (id : Str) : Prop :=
  ∃ row u, s.buckets[id]? = some row ∧ identity.userInfo = some u ∧
    (BucketInfo.deserialize row.info).owner = u.userId

/-- Where the id of a verified bucket is found, the bucket is still the identity's own. -/
theorem owned_of_loaded {R : Requests ι} {t : List (ι × Event DriverCall Reply)} {s : Tables}
    {i : ι} {b : BucketInfo} {row : BucketRow} (h : Incarnations R t s)
    (hu : Unprivileged (R.identity i)) (hl : Loaded (R.identity i) (seen i t) b)
    (hr : s.buckets[b.bucket.bucketId]? = some row) :
    Owned (R.identity i) s b.bucket.bucketId := by
  obtain ⟨u, hi, ho⟩ := verified_owner hu hl.2
  exact ⟨row, u, hr, hi, by rw [h.fixed i b hl row hr, ho]⟩

/-- A call about a bucket's objects, if its user has no privileges, is about that user's own
bucket or about none, and then fails and changes nothing. -/
def ActsOnOwn (R : Requests ι) (_ : List (ι × Event DriverCall Reply))
    (x : Config DriverCall Reply Response Tables ι) (e : ι × Event DriverCall Reply)
    (y : Config DriverCall Reply Response Tables ι) : Prop :=
  Unprivileged (R.identity e.1) → ∀ bucket, objectBucket e.2.1 = some bucket →
    Owned (R.identity e.1) x.state bucket.bucketId ∨
      (bucket.bucketId ∉ x.state.buckets ∧ e.2.2 = .error .noSuchBucket ∧ y.state = x.state)

/-- Every call of every run about objects is authorised against the bucket it reaches, and at
every moment each object is in a bucket that exists. -/
theorem object_access_authorised (R : Requests ι) (t : List (ι × Event DriverCall Reply))
    (x : Config DriverCall Reply Response Tables ι) (run : R.Run t x) :
    Along (exec R.platform.md5) (ActsOnOwn R) R.start t x ∧
    ∀ (id name : Str) (row : ObjectCols), x.state.objects[(id, name)]? = some row →
      id ∈ x.state.buckets := by
  refine ⟨run.along fun t x e y run step hu bucket key => ?_, fun id name row hr =>
    ((incarnations_run run).wf.objectRows id name row hr).1⟩
  obtain ⟨i, c, r⟩ := e
  obtain ⟨hreply, hstate⟩ := step_exec step
  obtain ⟨-, hc⟩ := run_allowed run step
  cases hc with
  | object c b loaded key' body =>
    obtain rfl : b.bucket = bucket := Option.some.inj (key'.symm.trans key)
    by_cases hm : b.bucket.bucketId ∈ x.state.buckets
    · obtain ⟨row, hr⟩ := mem_buckets.mp hm
      exact Or.inl (owned_of_loaded (incarnations_run run) hu loaded hr)
    · have habsent := @exec_object_absent R.platform.md5 _ _ _ key' hm body
      rw [habsent] at hreply hstate
      exact Or.inr ⟨hm, hreply, hstate⟩
  | _ => cases key

/-- A request of a user, with an empty payload. -/
def userRequest (u : UserInfo) (method : Method) (path : Str) : Delivered :=
  ⟨.user ⟨u, bytes "AKID"⟩, { bareRequest method path with body := bodyFromBytes [] },
    fun _ => ⟨[], rfl, by decide⟩⟩

def deleteDocs : Delivered := userRequest alice ⟨bytes "DELETE", delete_token⟩ (bytes "/docs")

/-- A request races Alice deleting her bucket and Bob creating one of that name. -/
def race (first : Delivered) : Requests (Fin 3) where
  platform := .ofTables [] [] []
  env i := drawn (bytes "id-" ++ [UInt8.ofNat (50 + i)])
  req i := match i with
    | 0 => first
    | 1 => deleteDocs
    | 2 => userRequest bob ⟨bytes "PUT", put_token⟩ (bytes "/docs")
  store := ⟨execAll sampleMd5 [.createBucket docs] .empty, execAll_wellFormed _⟩
  fresh := by
    have hf : ∀ i j : Fin 3, bytes "id-" ++ [UInt8.ofNat (50 + i)] =
        bytes "id-" ++ [UInt8.ofNat (50 + j)] → i = j := by decide
    exact fun i j he => hf i j he
  unused := by decide +kernel

def upload : Delivered := userRequest alice ⟨bytes "PUT", put_token⟩ (bytes "/docs/a")

/-- Alice's upload is authorised, her bucket is gone and Bob's in its place, and the upload
finds no bucket. -/
theorem object_access_authorised_upload :
    ∃ t x, (race upload).Run t x ∧ t.length = 6 ∧
      Along (exec (race upload).platform.md5) (ActsOnOwn (race upload)) (race upload).start t x ∧
      ∀ (id name : Str) (row : ObjectCols), x.state.objects[(id, name)]? = some row →
        id ∈ x.state.buckets := by
  have hplay : ((Config.play (exec (race upload).platform.md5) [0, 1, 1, 2, 2, 0]
      ([], (race upload).start)).map fun r => r.1.length) = some 6 := by decide +kernel
  obtain ⟨⟨t, x⟩, hr, hlen⟩ := Option.map_eq_some_iff.mp hplay
  have run : (race upload).Run t x := play_trace .nil hr
  exact ⟨t, x, run, hlen, object_access_authorised (race upload) t x run⟩

end Access

section Removal

variable {ι : Type} [DecidableEq ι]

/-- Every bucket row that a step takes away is its user's own, if that has no privileges. -/
def RemovesOwn (R : Requests ι) (_ : List (ι × Event DriverCall Reply))
    (x : Config DriverCall Reply Response Tables ι) (e : ι × Event DriverCall Reply)
    (y : Config DriverCall Reply Response Tables ι) : Prop :=
  Unprivileged (R.identity e.1) → ∀ (id : Str) (row : BucketRow),
    x.state.buckets[id]? = some row → y.state.buckets[id]? = none →
      Owned (R.identity e.1) x.state id

/-- The empty bucket that a removal of a user without privileges finds under a name is the one
that the request loaded under it, or has taken its place and has the same owner. -/
def SameIncarnation (R : Requests ι) (t : List (ι × Event DriverCall Reply))
    (x : Config DriverCall Reply Response Tables ι) (e : ι × Event DriverCall Reply)
    (_ : Config DriverCall Reply Response Tables ι) : Prop :=
  Unprivileged (R.identity e.1) → ∀ tenant name id row, e.2.1 = .removeBucket tenant name →
    x.state.bucketNamed tenant name = some (id, row) → x.state.objectsOf id = [] → ∀ b,
      Loaded (R.identity e.1) (seen e.1 t) b → b.bucket.tenant = tenant → b.bucket.name = name →
        b.bucket.bucketId = id ∨ (BucketInfo.deserialize row.info).owner = b.owner

theorem removesOwn_step {R : Requests ι} {t : List (ι × Event DriverCall Reply)}
    {x y : Config DriverCall Reply Response Tables ι} {e : ι × Event DriverCall Reply}
    (htrace : R.Run t x) (step : Step (exec R.platform.md5) x e y)
    (same : SameIncarnation R t x e y) : RemovesOwn R t x e y := by
  intro hu id row hr hgone
  obtain ⟨i, e⟩ := e
  have h := incarnations_run htrace
  obtain ⟨-, hstate⟩ := step_exec step
  obtain ⟨-, hc⟩ := run_allowed htrace step
  by_cases hremoval : ∃ tenant name, e.1 = .removeBucket tenant name
  · obtain ⟨tenant, name, he⟩ := hremoval
    rw [he, exec_removeBucket] at hstate
    cases hn : x.state.bucketNamed tenant name with
    | none =>
      rw [hstate, hn] at hgone
      exact absurd (hgone.symm.trans hr) (by simp)
    | some found =>
      obtain ⟨id', row'⟩ := found
      rw [he] at hc
      rw [hstate, hn] at hgone
      dsimp only at hgone
      have hempty : x.state.objectsOf id' = [] := by
        by_contra hfull
        rw [if_neg hfull] at hgone
        exact absurd (hgone.symm.trans hr) (by simp)
      rw [if_pos hempty] at hgone
      have hid : id' = id := by
        by_contra hne
        simp [withoutBucket, getElem?_erase_eq, hne, hr] at hgone
      subst hid
      generalize hcall : DriverCall.removeBucket tenant name = call at hc
      cases hc with
      | removeBucket b loaded =>
        cases hcall
        rcases same hu _ _ _ _ he hn hempty b loaded rfl rfl with hb | howner
        · subst hb
          exact owned_of_loaded h hu loaded hr
        · obtain ⟨u, hi, ho⟩ := verified_owner hu loaded.2
          exact ⟨row', u, (bucketNamed_some hn).1, hi, howner.trans ho⟩
      | object c b loaded key body =>
        subst hcall
        cases key
      | _ => cases hcall
  · rw [hstate] at hgone
    have hkept := @exec_buckets_grow R.platform.md5 x.state e.1
      (fun tenant name he => hremoval ⟨tenant, name, he⟩) _ _ hr
    rw [hkept] at hgone
    cases hgone

/-- What a step takes away is found under the name of the call. -/
theorem sameIncarnation_step {R : Requests ι} {t : List (ι × Event DriverCall Reply)}
    {x y : Config DriverCall Reply Response Tables ι} {e : ι × Event DriverCall Reply}
    (step : Step (exec R.platform.md5) x e y) (own : RemovesOwn R t x e y) :
    SameIncarnation R t x e y := by
  intro hu tenant name id row he hn hempty b hl _ _
  obtain ⟨-, hstate⟩ := step_exec step
  have hgone : y.state.buckets[id]? = none := by
    rw [hstate, he, exec_removeBucket, hn]
    dsimp only
    rw [if_pos hempty, withoutBucket, getElem?_erase_eq, if_pos rfl]
  have hrow := (bucketNamed_some hn).1
  obtain ⟨row', u, hrow', hi, ho⟩ := own hu id row hrow hgone
  rw [hrow] at hrow'
  obtain rfl := Option.some.inj hrow'
  obtain ⟨u', hi', ho'⟩ := verified_owner hu hl.2
  obtain rfl := Option.some.inj (hi.symm.trans hi')
  exact .inr (ho.trans ho'.symm)

/-- No other owner's bucket goes in a run exactly when each removal finds the bucket that was
loaded, or one in its place that is of the same owner. -/
theorem removes_own_bucket (R : Requests ι) (t : List (ι × Event DriverCall Reply))
    (x : Config DriverCall Reply Response Tables ι) :
    Along (exec R.platform.md5) (SameIncarnation R) R.start t x ↔
      Along (exec R.platform.md5) (RemovesOwn R) R.start t x :=
  ⟨fun run => run.mono fun _ _ _ _ htrace step same => removesOwn_step htrace step same,
    fun run => run.mono fun _ _ _ _ _ step own => sameIncarnation_step step own⟩

/-- A removal finds what was loaded when that is still stored. -/
theorem sameIncarnation_stored {R : Requests ι} {t : List (ι × Event DriverCall Reply)}
    {x y : Config DriverCall Reply Response Tables ι} {e : ι × Event DriverCall Reply}
    (wf : WellFormed R.platform.md5 x.state)
    (h : ∀ b, Loaded (R.identity e.1) (seen e.1 t) b → Stored x.state b) :
    SameIncarnation R t x e y := by
  rintro - tenant name id row - hn - b hl rfl rfl
  obtain ⟨row', hn', -⟩ := stored_named wf (h b hl)
  rw [hn] at hn'
  exact .inl (Prod.mk.inj (Option.some.inj hn')).1.symm

/-- A deletion alone takes the bucket it loaded. -/
theorem removes_own_bucket_docs :
    ∃ t x, t.length = 2 ∧ x.state.buckets[bytes "id-1"]? = none ∧
      Along (exec (race deleteDocs).platform.md5) (RemovesOwn (race deleteDocs))
        (race deleteDocs).start t x := by
  have hplay : (((race deleteDocs).start.next (exec (race deleteDocs).platform.md5) 0).bind
      fun r => (r.2.next (exec (race deleteDocs).platform.md5) 0).map fun n =>
        (r.1.1, n.1.1, n.2.state.buckets[bytes "id-1"]?)) = some (0, 0, none) := by decide +kernel
  obtain ⟨⟨⟨i, e⟩, x⟩, hx, hplay⟩ := Option.bind_eq_some_iff.mp hplay
  obtain ⟨⟨⟨j, f⟩, y⟩, hy, hgone⟩ := Option.map_eq_some_iff.mp hplay
  simp only [Prod.mk.injEq] at hgone
  obtain ⟨rfl, rfl, hgone⟩ := hgone
  have hload := next_step hx
  have hrun : Trace (exec (race deleteDocs).platform.md5) (race deleteDocs).start [(0, e)] x :=
    .snoc .nil hload
  have hfirst : SameIncarnation (race deleteDocs) [] (race deleteDocs).start (0, e) x := by
    refine sameIncarnation_stored (incarnations_run .nil).wf ?_
    rintro b ⟨⟨name, hm⟩, -⟩
    cases hm
  have hsecond : SameIncarnation (race deleteDocs) [(0, e)] x (0, f) y := by
    refine sameIncarnation_stored (incarnations_run hrun).wf ?_
    rintro b ⟨⟨name, hm⟩, -⟩
    obtain ⟨hreply, hstate⟩ := step_exec hload
    obtain rfl := List.mem_singleton.mp hm
    rw [hstate]
    exact loadBucket_stored (race deleteDocs).store.2 hreply.symm
  exact ⟨_, y, rfl, hgone, (removes_own_bucket (race deleteDocs) _ y).mp
    (.snoc (.snoc .nil hload hfirst) (next_step hy) hsecond)⟩

/-- Both of Alice's deletions load the bucket, one removes it, Bob creates his, and the other
deletion removes that one. -/
theorem removes_recreated :
    ¬∀ t x e y, (race deleteDocs).Run t x → Step (exec (race deleteDocs).platform.md5) x e y →
      RemovesOwn (race deleteDocs) t x e y := by
  intro h
  have hplay : ((Config.play (exec (race deleteDocs).platform.md5) [0, 1, 0, 2, 2]
      ([], (race deleteDocs).start)).bind fun r =>
        (r.2.next (exec (race deleteDocs).platform.md5) 1).map fun n =>
          (n.1.1, r.2.state.buckets[bytes "id-4"]?, n.2.state.buckets[bytes "id-4"]?)) =
      some (1, some (bucketRow (newBucket (drawn (bytes "id-4")) bob.userId (bytes "docs"))),
        none) := by decide +kernel
  obtain ⟨⟨t, x⟩, hr, hplay⟩ := Option.bind_eq_some_iff.mp hplay
  obtain ⟨⟨⟨i, e⟩, y⟩, hn, hrow⟩ := Option.map_eq_some_iff.mp hplay
  simp only [Prod.mk.injEq] at hrow
  obtain ⟨rfl, hbob, hgone⟩ := hrow
  have unprivileged : Unprivileged (.user ⟨alice, bytes "AKID"⟩) := by
    intro u hu
    cases hu
    exact ⟨rfl, rfl⟩
  obtain ⟨row, u, hrow, hu, hown⟩ :=
    h t x _ y (play_trace .nil hr) (next_step hn) unprivileged _ _ hbob hgone
  rw [hbob] at hrow
  cases hrow
  cases hu
  revert hown
  decide +kernel

end Removal

end BucketIncarnations
