import Rgw.S3Discipline
import Rgw.StoreInvariants

/-! # What a request learns of other owners' objects

Two stores that differ in the objects of foreign buckets alone answer every call a request
may make alike, and go on differing there alone. -/
namespace OwnerIsolation

open ByteStrings TextCodecs SortedMaps Interaction RgwTypes RgwSal RgwSalSqlite StoreInvariants
  Http RgwAuth RestS3Wire RestS3Handlers S3Discipline

variable {md5 : Str → Str} {identity : Identity} {env : ReqEnv} {h : History}
  {s s₁ s₂ t₁ t₂ : Tables}

section Owners

/-- Nobody, or a user whose flags open no other owner's bucket. -/
def Unprivileged (identity : Identity) : Prop :=
  ∀ u, identity.userInfo = some u → u.system = false ∧ u.admin = false

/-- A bucket of someone else. -/
def Foreign (identity : Identity) (s : Tables) (id : Str) : Prop :=
  ∃ row, s.buckets[id]? = some row ∧
    ∀ u, identity.userInfo = some u → (BucketInfo.deserialize row.info).owner ≠ u.userId

/-- The tables differ at most in the objects of foreign buckets. -/
structure SameBut (identity : Identity) (s₁ s₂ : Tables) : Prop where
  users : s₁.users = s₂.users
  accessKeys : s₁.accessKeys = s₂.accessKeys
  buckets : s₁.buckets = s₂.buckets
  objects : ∀ id name : Str, ¬Foreign identity s₁ id →
    s₁.objects[(id, name)]? = s₂.objects[(id, name)]?

theorem verified_owner (hu : Unprivileged identity) {b : BucketInfo}
    (hv : verifyBucketAccess identity b = .ok ()) :
    ∃ u, identity.userInfo = some u ∧ b.owner = u.userId := by
  rw [verifyBucketAccess] at hv
  cases hi : identity.userInfo with
  | none => rw [hi] at hv; cases hv
  | some u =>
    obtain ⟨hs, ha⟩ := hu u hi
    rw [hi] at hv
    simp only [hs, ha, Bool.or_self, Bool.false_or, decide_eq_true_eq] at hv
    by_cases ho : u.userId = b.owner
    · exact ⟨u, rfl, ho.symm⟩
    · rw [if_neg ho] at hv
      cases hv

/-- What was verified when loaded and is still stored is the user's own. -/
theorem not_foreign (hu : Unprivileged identity) {b : BucketInfo} (hb : Stored s b)
    (hv : verifyBucketAccess identity b = .ok ()) : ¬Foreign identity s b.bucket.bucketId := by
  rintro ⟨row, hr, hf⟩
  obtain ⟨row', hr', hd⟩ := hb
  obtain ⟨u, hi, ho⟩ := verified_owner hu hv
  rw [hr] at hr'
  obtain rfl := Option.some.inj hr'
  exact hf u hi (by rw [hd, ho])

theorem foreign_grow {id : Str} (hf : Foreign identity s₁ id)
    (hg : ∀ row, s₁.buckets[id]? = some row → s₂.buckets[id]? = some row) :
    Foreign identity s₂ id := by
  obtain ⟨row, hr, ho⟩ := hf
  exact ⟨row, hg row hr, ho⟩

theorem bucketNamed_congr (hb : s₁.buckets = s₂.buckets) (tenant name : Str) :
    s₁.bucketNamed tenant name = s₂.bucketNamed tenant name := by
  rw [Tables.bucketNamed, hb]
  rfl

theorem listBuckets_congr (hb : s₁.buckets = s₂.buckets) (owner : Option UserId) (marker : Str)
    (max : ℕ) : RgwSalSqlite.listBuckets owner marker max s₁ =
      RgwSalSqlite.listBuckets owner marker max s₂ := by
  rw [RgwSalSqlite.listBuckets, hb]
  rfl

theorem loadBucket_congr (hb : s₁.buckets = s₂.buckets) (tenant name : Str) :
    loadBucket tenant name s₁ = loadBucket tenant name s₂ := by
  rw [loadBucket, bucketNamed_congr hb]
  rfl

end Owners

section Writes

/-- What is done to a foreign bucket's objects shows in no other place. -/
theorem sameBut_foreign {c : DriverCall} {bucket : BucketKey} (hk : objectBucket c = some bucket)
    (hf : Foreign identity s bucket.bucketId) : SameBut identity s (exec md5 c s).2 := by
  obtain ⟨husers, hkeys, hbuckets, hother⟩ := @exec_object_frame md5 s _ _ hk
  refine ⟨husers.symm, hkeys.symm, hbuckets.symm, fun id name hn => ?_⟩
  have he : id ≠ bucket.bucketId := by
    rintro rfl
    exact hn hf
  exact (hother id name he).symm

end Writes

section Twins

/-- Where two runs of a request stand after the same calls and answers. -/
structure Twin (md5 : Str → Str) (identity : Identity) (s₁ s₂ : Tables) (h : History)
    (t₁ t₂ : Tables) : Prop where
  wf₁ : WellFormed md5 t₁
  wf₂ : WellFormed md5 t₂
  same : SameBut identity t₁ t₂
  kept : NoRemoval h → ∀ (id : Str) (row : BucketRow), s₁.buckets[id]? = some row →
    t₁.buckets[id]? = some row
  stored : NoRemoval h → ∀ b, Loaded identity h b → Stored t₁ b
  unchanged : NoRemoval h → NoCreation h → t₁.buckets = s₁.buckets
  walked : NoRemoval h → NoCreation h → ∀ owner marker max r,
    (⟨.listBuckets owner marker max, r⟩ : Event DriverCall Reply) ∈ h →
      r = RgwSalSqlite.listBuckets owner marker max s₁
  foreign₁ : ∀ id name : Str, Foreign identity s₁ id →
    t₁.objects[(id, name)]? = s₁.objects[(id, name)]?
  foreign₂ : ∀ id name : Str, Foreign identity s₁ id →
    t₂.objects[(id, name)]? = s₂.objects[(id, name)]?

/-- What one call has to show; the rest follows from what a call can do to bucket rows. -/
theorem twin_step (tw : Twin md5 identity s₁ s₂ h t₁ t₂) (hp : NoRemoval h) (c : DriverCall)
    (same : SameBut identity (exec md5 c t₁).2 (exec md5 c t₂).2)
    (frame : ∀ id name : Str, Foreign identity s₁ id →
      (exec md5 c t₁).2.objects[(id, name)]? = t₁.objects[(id, name)]? ∧
      (exec md5 c t₂).2.objects[(id, name)]? = t₂.objects[(id, name)]?) :
    Twin md5 identity s₁ s₂ (⟨c, (exec md5 c t₁).1⟩ :: h) (exec md5 c t₁).2 (exec md5 c t₂).2 := by
  have hkeep : NoRemoval (⟨c, (exec md5 c t₁).1⟩ :: h) → ∀ (id : Str) (row : BucketRow),
      t₁.buckets[id]? = some row → (exec md5 c t₁).2.buckets[id]? = some row :=
    fun hr _ _ => exec_buckets_grow (hr _ List.mem_cons_self)
  refine ⟨exec_wellFormed tw.wf₁ c, exec_wellFormed tw.wf₂ c, same, ?_, ?_, ?_, ?_, ?_, ?_⟩
  · exact fun hr id row hs => hkeep hr id row (tw.kept hp id row hs)
  · rintro hr b ⟨⟨name, hm⟩, hv⟩
    rcases List.mem_cons.mp hm with he | hm
    · obtain ⟨rfl, hreply⟩ := Sigma.mk.inj_iff.mp he
      exact loadBucket_stored tw.wf₁ (eq_of_heq hreply).symm
    · obtain ⟨row, hrow, hd⟩ := tw.stored hp b ⟨⟨name, hm⟩, hv⟩
      exact ⟨row, hkeep hr _ row hrow, hd⟩
  · intro hr hc
    have hh : NoCreation h := fun e he => hc e (List.mem_cons_of_mem _ he)
    exact (exec_buckets (hc _ List.mem_cons_self) (hr _ List.mem_cons_self)).trans
      (tw.unchanged hp hh)
  · intro hr hc owner marker max r hm
    have hh : NoCreation h := fun e he => hc e (List.mem_cons_of_mem _ he)
    rcases List.mem_cons.mp hm with he | hm
    · obtain ⟨rfl, hreply⟩ := Sigma.mk.inj_iff.mp he
      rw [eq_of_heq hreply]
      exact listBuckets_congr (tw.unchanged hp hh) owner marker max
    · exact tw.walked hp hh owner marker max r hm
  · exact fun id name hf => ((frame id name hf).1).trans (tw.foreign₁ id name hf)
  · exact fun id name hf => ((frame id name hf).2).trans (tw.foreign₂ id name hf)

/-- A call that changes nothing in either run. -/
theorem twin_read (tw : Twin md5 identity s₁ s₂ h t₁ t₂) (hp : NoRemoval h) (c : DriverCall)
    (h₁ : (exec md5 c t₁).2 = t₁) (h₂ : (exec md5 c t₂).2 = t₂) :
    Twin md5 identity s₁ s₂ (⟨c, (exec md5 c t₁).1⟩ :: h) (exec md5 c t₁).2 (exec md5 c t₂).2 := by
  refine twin_step tw hp c ?_ fun id name _ => ?_
  · rw [h₁, h₂]
    exact tw.same
  · rw [h₁, h₂]
    exact ⟨rfl, rfl⟩

theorem twin_create (tw : Twin md5 identity s₁ s₂ h t₁ t₂) (hp : NoRemoval h) (info : BucketInfo) :
    (exec md5 (.createBucket info) t₁).1 = (exec md5 (.createBucket info) t₂).1 ∧
    Twin md5 identity s₁ s₂ (⟨.createBucket info, (exec md5 (.createBucket info) t₁).1⟩ :: h)
      (exec md5 (.createBucket info) t₁).2 (exec md5 (.createBucket info) t₂).2 := by
  have hb := tw.same.buckets
  have hgrow : ∀ (id : Str) (row : BucketRow), t₁.buckets[id]? = some row →
      (exec md5 (.createBucket info) t₁).2.buckets[id]? = some row :=
    fun _ _ => exec_buckets_grow fun _ _ he => by cases he
  by_cases hx : info.bucket.bucketId ∈ t₁.buckets ∨
      (t₁.bucketNamed info.bucket.tenant info.bucket.name).isSome
  · have h₁ := (@exec_createBucket md5 t₁ info).trans (if_pos hx)
    have h₂ := @exec_createBucket md5 t₂ info
    rw [← hb, ← bucketNamed_congr hb, if_pos hx] at h₂
    exact ⟨by rw [h₁, h₂], twin_read tw hp _ (by rw [h₁]) (by rw [h₂])⟩
  · have h₁ := (@exec_createBucket md5 t₁ info).trans (if_neg hx)
    have h₂ := @exec_createBucket md5 t₂ info
    rw [← hb, ← bucketNamed_congr hb, if_neg hx] at h₂
    refine ⟨by rw [h₁, h₂], twin_step tw hp _ ⟨?_, ?_, ?_, ?_⟩ fun id name _ => ?_⟩
    · rw [h₁, h₂]
      exact tw.same.users
    · rw [h₁, h₂]
      exact tw.same.accessKeys
    · rw [h₁, h₂]
      exact congrArg (Std.ExtTreeMap.insert · _ _) hb
    · intro id name hf
      have hf' : ¬Foreign identity t₁ id := fun hx => hf (foreign_grow hx (hgrow id))
      rw [h₁, h₂]
      exact tw.same.objects id name hf'
    · rw [h₁, h₂]
      exact ⟨rfl, rfl⟩

/-- The bucket that goes is the one that was verified, so both runs remove it or neither. -/
theorem twin_remove (hu : Unprivileged identity) (tw : Twin md5 identity s₁ s₂ h t₁ t₂)
    (hp : NoRemoval h) {b : BucketInfo} (hl : Loaded identity h b) :
    (exec md5 (.removeBucket b.bucket.tenant b.bucket.name) t₁).1 =
      (exec md5 (.removeBucket b.bucket.tenant b.bucket.name) t₂).1 ∧
    Twin md5 identity s₁ s₂ (⟨.removeBucket b.bucket.tenant b.bucket.name,
        (exec md5 (.removeBucket b.bucket.tenant b.bucket.name) t₁).1⟩ :: h)
      (exec md5 (.removeBucket b.bucket.tenant b.bucket.name) t₁).2
      (exec md5 (.removeBucket b.bucket.tenant b.bucket.name) t₂).2 := by
  have hb := tw.same.buckets
  have hstored := tw.stored hp b hl
  have hown := not_foreign hu hstored hl.2
  obtain ⟨row, hn, -⟩ := stored_named tw.wf₁ hstored
  have hrows : t₁.objectsOf b.bucket.bucketId = t₂.objectsOf b.bucket.bucketId :=
    objectsOf_congr fun name => tw.same.objects _ name hown
  have h₁ := @exec_removeBucket md5 t₁ b.bucket.tenant b.bucket.name
  have h₂ := @exec_removeBucket md5 t₂ b.bucket.tenant b.bucket.name
  rw [hn] at h₁
  rw [← bucketNamed_congr hb, hn] at h₂
  dsimp only at h₁ h₂
  rw [← hrows] at h₂
  by_cases hbare : t₁.objectsOf b.bucket.bucketId = []
  · rw [if_pos hbare] at h₁ h₂
    refine ⟨by rw [h₁, h₂], twin_step tw hp _ ⟨?_, ?_, ?_, ?_⟩ fun id name _ => ?_⟩
    · rw [h₁, h₂]
      exact tw.same.users
    · rw [h₁, h₂]
      exact tw.same.accessKeys
    · rw [h₁, h₂]
      exact congrArg (Std.ExtTreeMap.erase · _) hb
    · intro id name hf
      have hf' : ¬Foreign identity t₁ id := by
        intro hx
        by_cases he : b.bucket.bucketId = id
        · exact hown (he ▸ hx)
        · refine hf (foreign_grow hx fun row hr => ?_)
          rw [h₁]
          simp [withoutBucket, getElem?_erase_eq, he, hr]
      rw [h₁, h₂]
      exact tw.same.objects id name hf'
    · rw [h₁, h₂]
      exact ⟨rfl, rfl⟩
  · rw [if_neg hbare] at h₁ h₂
    exact ⟨by rw [h₁, h₂], twin_read tw hp _ (by rw [h₁]) (by rw [h₂])⟩

theorem twin_object (hu : Unprivileged identity) (tw : Twin md5 identity s₁ s₂ h t₁ t₂)
    (hp : NoRemoval h) {c : DriverCall} {b : BucketInfo} (hl : Loaded identity h b)
    (hk : objectBucket c = some b.bucket) : (exec md5 c t₁).1 = (exec md5 c t₂).1 ∧
    Twin md5 identity s₁ s₂ (⟨c, (exec md5 c t₁).1⟩ :: h) (exec md5 c t₁).2 (exec md5 c t₂).2 := by
  have hown := not_foreign hu (tw.stored hp b hl) hl.2
  obtain ⟨husers₁, hkeys₁, hbuckets₁, hother₁⟩ := @exec_object_frame md5 t₁ _ _ hk
  obtain ⟨husers₂, hkeys₂, hbuckets₂, hother₂⟩ := @exec_object_frame md5 t₂ _ _ hk
  obtain ⟨hreply, hobjects⟩ := @exec_object_congr md5 _ _ _ _ hk tw.same.buckets fun name =>
    tw.same.objects _ name hown
  refine ⟨hreply, twin_step tw hp c ⟨?_, ?_, ?_, ?_⟩ fun id name hf => ?_⟩
  · rw [husers₁, husers₂, tw.same.users]
  · rw [hkeys₁, hkeys₂, tw.same.accessKeys]
  · rw [hbuckets₁, hbuckets₂, tw.same.buckets]
  · intro id name hf
    by_cases he : id = b.bucket.bucketId
    · subst he
      exact hobjects name
    · have hf' : ¬Foreign identity t₁ id := by
        intro hx
        exact hf (foreign_grow hx fun row hr => by rw [hbuckets₁]; exact hr)
      rw [hother₁ id name he, hother₂ id name he]
      exact tw.same.objects id name hf'
  · have he : id ≠ b.bucket.bucketId := by
      rintro rfl
      exact hown (foreign_grow hf (tw.kept hp _))
    exact ⟨hother₁ id name he, hother₂ id name he⟩

/-- Every allowed call is answered alike and leaves twins. -/
theorem twin_call (hu : Unprivileged identity) {B : ObjectBody → Prop}
    (tw : Twin md5 identity s₁ s₂ h t₁ t₂) (c : DriverCall)
    (hc : (s3Discipline B identity env).allowed h c) : (exec md5 c t₁).1 = (exec md5 c t₂).1 ∧
    Twin md5 identity s₁ s₂ (⟨c, (exec md5 c t₁).1⟩ :: h) (exec md5 c t₁).2 (exec md5 c t₂).2 := by
  obtain ⟨hp, hc⟩ := hc
  cases hc with
  | listBuckets owner marker max =>
    exact ⟨listBuckets_congr tw.same.buckets owner marker max, twin_read tw hp _ rfl rfl⟩
  | loadBucket name =>
    exact ⟨loadBucket_congr tw.same.buckets [] name, twin_read tw hp _ rfl rfl⟩
  | createBucket info id first => exact twin_create tw hp info
  | removeBucket b loaded => exact twin_remove hu tw hp loaded
  | object c b loaded key body => exact twin_object hu tw hp loaded key

end Twins

section Walks

/-- The bucket rows that a page from `marker` on may show. -/
def past (s : Tables) (marker : Str) : List (Str × BucketRow) :=
  s.buckets.toList.filter fun r => marker < r.2.name

theorem mem_past {marker : Str} {r : Str × BucketRow} :
    r ∈ past s marker ↔ r ∈ s.buckets.toList ∧ marker < r.2.name := by
  rw [past, List.mem_filter, decide_eq_true_eq]

/-- A page shows nothing new or resumes at the name of a row it was made of. -/
theorem bucketPage_next (max : ℕ) (rows : List BucketRow) (out : BucketList) :
    ((bucketPage max rows out).buckets = out.buckets ∧
      (bucketPage max rows out).nextMarker = out.nextMarker) ∨
    ∃ row ∈ rows, (bucketPage max rows out).nextMarker =
      (BucketInfo.deserialize row.info).bucket.name := by
  induction rows generalizing out with
  | nil => exact Or.inl ⟨rfl, rfl⟩
  | cons row rows ih =>
    rw [bucketPage]
    by_cases hf : out.buckets.length = max
    · rw [if_pos hf]
      exact Or.inl ⟨rfl, rfl⟩
    · rw [if_neg hf]
      refine Or.inr ?_
      rcases ih { out with
        nextMarker := (BucketInfo.deserialize row.info).bucket.name
        buckets := out.buckets ++ [BucketInfo.deserialize row.info] } with ⟨-, he⟩ | ⟨row', hm, he⟩
      · exact ⟨row, List.mem_cons_self, he⟩
      · exact ⟨row', List.mem_cons_of_mem _ hm, he⟩

theorem listBuckets_next (wf : WellFormed md5 s) {owner : Option UserId} {marker : Str} {max : ℕ}
    {page : BucketList} {last : BucketInfo}
    (hp : RgwSalSqlite.listBuckets owner marker max s = .ok page)
    (hlast : page.buckets.getLast? = some last) :
    ∃ r ∈ past s marker, page.nextMarker = r.2.name := by
  rw [RgwSalSqlite.listBuckets] at hp
  obtain ⟨limit, -, hp⟩ := bind_eq_ok.mp hp
  obtain rfl := Except.ok.inj hp
  rcases bucketPage_next (pageSize max) _ ⟨[], false, []⟩ with ⟨hempty, -⟩ | ⟨row, hm, he⟩
  · rw [hempty] at hlast
    cases hlast
  · have hm := (List.mem_insertionSort _).mp (List.mem_of_mem_take hm)
    rw [List.mem_filter, List.mem_map, decide_eq_true_eq] at hm
    obtain ⟨⟨⟨id, row'⟩, hr, rfl⟩, hlt, -⟩ := hm
    refine ⟨(id, row'), mem_past.mpr ⟨hr, hlt⟩, he.trans ?_⟩
    exact ((bucketRow_key wf (mem_rows.mp hr)).2.2).symm

/-- The rows ahead shrink. -/
theorem past_lt {marker : Str} {r : Str × BucketRow} (hr : r ∈ past s marker) :
    (past s r.2.name).length < (past s marker).length := by
  obtain ⟨hm, hlt⟩ := mem_past.mp hr
  have hsub : past s r.2.name = (past s marker).filter fun x => r.2.name < x.2.name := by
    rw [past, past, List.filter_filter]
    apply List.filter_congr
    intro x _
    by_cases hx : r.2.name < x.2.name
    · simp [hx, lt_trans hlt hx]
    · simp [hx]
  rw [hsub, List.length_filter_lt_length_iff_exists]
  exact ⟨r, hr, by simp⟩

/-- A walk takes a step for each row at most. -/
theorem walk_length (wf : WellFormed md5 s) {owner : UserId} {marker : Str}
    (hw : Walk owner h marker) (ha : ∀ o m n r,
      (⟨.listBuckets o m n, r⟩ : Event DriverCall Reply) ∈ h →
        r = RgwSalSqlite.listBuckets o m n s) :
    h.length + (past s marker).length ≤ s.buckets.size := by
  induction hw with
  | start =>
    rw [List.length_nil, Nat.zero_add, past, ← Std.ExtTreeMap.length_toList]
    exact List.length_filter_le _ _
  | @page h marker page last before ends more ih =>
    have hp := (ha _ _ _ _ List.mem_cons_self).symm
    have hlen := ih fun o m n r hm => ha o m n r (List.mem_cons_of_mem _ hm)
    obtain ⟨r, hr, he⟩ := listBuckets_next wf hp ends
    have hne : page.nextMarker ≠ [] := by
      intro hn
      have hlt := (mem_past.mp hr).2
      rw [← he, hn] at hlt
      exact absurd hlt (List.not_lt_nil _)
    have hlt := past_lt hr
    rw [if_neg hne, he, List.length_cons]
    omega

end Walks

section Requests

/-- A request of an identity without privileges answers alike on two stores that differ in
foreign buckets' objects, leaves stores that differ there alone, and touches no such object. -/
theorem owner_isolation (P : Platform) (env : ReqEnv) (identity : Identity) (req : Request)
    (s₁ s₂ : Store P.md5) (unprivileged : Unprivileged identity)
    (same : SameBut identity s₁.1 s₂.1) (rounds : s₁.1.buckets.size < env.fuel) :
    ∃ (resp : Response) (t₁ t₂ : Store P.md5),
      (handle P env identity req).run (exec P.md5) s₁.1 = some (resp, t₁.1) ∧
      (handle P env identity req).run (exec P.md5) s₂.1 = some (resp, t₂.1) ∧
      SameBut identity t₁.1 t₂.1 ∧ ∀ id name : Str, Foreign identity s₁.1 id →
        t₁.1.objects[(id, name)]? = s₁.1.objects[(id, name)]? ∧
        t₂.1.objects[(id, name)]? = s₂.1.objects[(id, name)]? := by
  have start : Twin P.md5 identity s₁.1 s₂.1 [] s₁.1 s₂.1 :=
    { wf₁ := s₁.2
      wf₂ := s₂.2
      same := same
      kept := fun _ _ _ hr => hr
      stored := by
        rintro - b ⟨⟨name, hm⟩, -⟩
        cases hm
      unchanged := fun _ _ => rfl
      walked := by
        intro _ _ owner marker max r hm
        cases hm
      foreign₁ := fun _ _ _ => rfl
      foreign₂ := fun _ _ _ => rfl }
  have whole : ∀ h t₁ t₂, Twin P.md5 identity s₁.1 s₂.1 h t₁ t₂ →
      ¬(s3Discipline (fun _ => True) identity env).mayCut h := by
    rintro h t₁ t₂ tw ⟨owner, marker, hw, hlen⟩
    have hle := walk_length s₁.2 hw (tw.walked (walk_noRemoval hw) (walk_noCreation hw))
    omega
  obtain ⟨resp, t₁, t₂, h, hr₁, hr₂, tw, -⟩ := run_related (Twin P.md5 identity s₁.1 s₂.1)
    (fun h t₁ t₂ c tw hc => twin_call unprivileged tw c hc) whole start
    (@handle_keeps (fun _ => True) identity P env req fun _ => ⟨trivial, fun _ _ => trivial⟩)
  exact ⟨resp, ⟨t₁, tw.wf₁⟩, ⟨t₂, tw.wf₂⟩, hr₁, hr₂, tw.same, fun id name hf =>
    ⟨tw.foreign₁ id name hf, tw.foreign₂ id name hf⟩⟩

def alice : UserInfo := .new (.new (bytes "alice")) [] 0
def bob : UserInfo := .new (.new (bytes "bob")) [] 0

/-- A request without headers or a body. -/
def bareRequest (method : Method) (path : Str) : Request :=
  ⟨method, ⟨path, none, none⟩, none, .empty, [], none⟩

def drawn (bucketId : Str) : ReqEnv := ⟨[], 0, bucketId, 3⟩

def docs : BucketInfo := newBucket (drawn (bytes "id-1")) alice.userId (bytes "docs")
def vault : BucketInfo := newBucket (drawn (bytes "id-2")) bob.userId (bytes "vault")

/-- A bucket of each user. -/
def twoBuckets : Store sampleMd5 :=
  ⟨execAll sampleMd5 [.createBucket docs, .createBucket vault] .empty, execAll_wellFormed _⟩

def secretWrite : DriverCall :=
  .putObject vault.bucket (.new (bytes "secret")) ⟨bob.userId, []⟩ ∅ (bodyFromBytes (bytes "x")) 0

def withSecret : Store sampleMd5 :=
  ⟨(exec sampleMd5 secretWrite twoBuckets.1).2, exec_wellFormed twoBuckets.2 _⟩

def vaultRequest : Request := bareRequest ⟨bytes "DELETE", delete_token⟩ (bytes "/vault")

/-- Alice's attempt on Bob's bucket tells her nothing of what is in it. -/
theorem owner_isolation_vault :
    ∃ (resp : Response) (t₁ t₂ : Store sampleMd5),
      (handle (.ofTables [] [] []) (drawn []) (.user ⟨alice, bytes "AKID"⟩) vaultRequest).run
        (exec sampleMd5) twoBuckets.1 = some (resp, t₁.1) ∧
      (handle (.ofTables [] [] []) (drawn []) (.user ⟨alice, bytes "AKID"⟩) vaultRequest).run
        (exec sampleMd5) withSecret.1 = some (resp, t₂.1) ∧
      SameBut (.user ⟨alice, bytes "AKID"⟩) t₁.1 t₂.1 ∧
      ∀ id name : Str, Foreign (.user ⟨alice, bytes "AKID"⟩) twoBuckets.1 id →
        t₁.1.objects[(id, name)]? = twoBuckets.1.objects[(id, name)]? ∧
        t₂.1.objects[(id, name)]? = withSecret.1.objects[(id, name)]? := by
  have unprivileged : Unprivileged (.user ⟨alice, bytes "AKID"⟩) := by
    intro u hu
    cases hu
    exact ⟨rfl, rfl⟩
  have foreign : Foreign (.user ⟨alice, bytes "AKID"⟩) twoBuckets.1 vault.bucket.bucketId := by
    refine ⟨bucketRow vault, by decide +kernel, fun u hu => ?_⟩
    cases hu
    decide +kernel
  exact owner_isolation (.ofTables [] [] []) (drawn []) (.user ⟨alice, bytes "AKID"⟩) vaultRequest
    twoBuckets withSecret unprivileged (sameBut_foreign rfl foreign) (by decide +kernel)

end Requests

end OwnerIsolation
