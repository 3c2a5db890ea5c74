import Rgw.AdminCalls
import Rgw.Purging
import Rgw.Restarts

/-! # Purges that are stopped

A purge makes many calls, and the process may end between two of them. What is left is then less
of what was to go and all of the rest, so a purge that is started again ends where one that was
never stopped would have. -/
namespace PurgeRestarts

open ByteStrings SortedMaps Interaction Restarts RgwTypes RgwSal RgwSalSqlite StoreInvariants Http
  RgwAdminOps UserMutations OwnerIsolation BucketPages ReachableStores AdminCalls Purging

variable {md5 : Str → Str} {s s' s₀ : Tables} {gone : Str → Bool}

section Parts

/-- Some of the buckets that are to go, and some objects of such, are gone. What is left of them is
as it was, and so is the rest. -/
structure PartPurged (gone : Str → Bool) (s₀ s : Tables) : Prop where
  users : s.users = s₀.users
  accessKeys : s.accessKeys = s₀.accessKeys
  buckets : ∀ (id : Str) (row : BucketRow), s.buckets[id]? = some row → s₀.buckets[id]? = some row
  objects : ∀ (k : Str × Str) (row : ObjectCols), s.objects[k]? = some row → s₀.objects[k]? = some row
  rest : withoutBuckets s gone = withoutBuckets s₀ gone

theorem partPurged_refl (gone : Str → Bool) (s : Tables) : PartPurged gone s s :=
  ⟨rfl, rfl, fun _ _ hr => hr, fun _ _ hr => hr, rfl⟩

/-- Without more buckets the same is left. -/
theorem rest_mono {gone' : Str → Bool} (hle : ∀ id, gone id = true → gone' id = true)
    (h : withoutBuckets s gone = withoutBuckets s₀ gone) :
    withoutBuckets s gone' = withoutBuckets s₀ gone' := by
  have hgone : (fun id => gone id || gone' id) = gone' := by
    funext id
    cases hg : gone id with
    | false => rfl
    | true => exact (hle id hg).symm
  have htwice := congrArg (fun t => withoutBuckets t gone') h
  simpa only [withoutBuckets_twice, hgone] using htwice

theorem PartPurged.trans {gone' : Str → Bool} (h : PartPurged gone' s₀ s) (h' : PartPurged gone s s')
    (hle : ∀ id, gone id = true → gone' id = true) : PartPurged gone' s₀ s' where
  users := h'.users.trans h.users
  accessKeys := h'.accessKeys.trans h.accessKeys
  buckets id row hr := h.buckets id row (h'.buckets id row hr)
  objects k row hr := h.objects k row (h'.objects k row hr)
  rest := (rest_mono hle h'.rest).trans h.rest

/-- An object of a bucket that is to go. -/
theorem partPurged_withoutObjects {lost : Str × Str → Bool} (h : ∀ k, lost k = true → gone k.1 = true) :
    PartPurged gone s (withoutObjects s lost) := by
  refine ⟨rfl, rfl, fun _ _ hr => hr, fun _ _ hr => (withoutObjects_eq_some.mp hr).1,
    tables_ext rfl rfl (fun id row => ?_) fun k row => ?_⟩
  · rw [withoutBuckets_bucket, withoutBuckets_bucket]
    exact Iff.rfl
  · rw [withoutBuckets_object, withoutObjects_eq_some, withoutBuckets_object]
    refine ⟨fun hk => ⟨hk.1.1, hk.2⟩, fun hk => ⟨⟨hk.1, ?_⟩, hk.2⟩⟩
    cases hlost : lost k with
    | false => rfl
    | true => exact absurd (h k hlost) (Bool.eq_false_iff.mp hk.2)

theorem partPurged_withoutBuckets {lost : Str → Bool} (h : ∀ id, lost id = true → gone id = true) :
    PartPurged gone s (withoutBuckets s lost) := by
  refine ⟨rfl, rfl, fun _ _ hr => (withoutBuckets_bucket.mp hr).1,
    fun _ _ hr => (withoutBuckets_object.mp hr).1, ?_⟩
  rw [withoutBuckets_twice]
  congr 1
  funext id
  cases hlost : lost id with
  | false => rfl
  | true => exact (h id hlost).symm

theorem withoutBucket_empty {id : Str} (h : s.objectsOf id = []) :
    withoutBucket s id = withoutBuckets s fun id' => id' = id := by
  refine tables_ext rfl rfl (fun id' row => ?_) fun k row => ?_
  · rw [withoutBuckets_bucket]
    simp only [withoutBucket, getElem?_erase_eq]
    by_cases hid : id = id'
    · simp [hid]
    · simp [hid, Ne.symm hid]
  · rw [withoutBuckets_object, decide_eq_false_iff_not]
    refine ⟨fun hr => ⟨hr, ?_⟩, fun hr => hr.1⟩
    rintro rfl
    have hm : (k.2, row) ∈ s.objectsOf k.1 := mem_objectsOf.mpr hr
    rw [h] at hm
    cases hm

end Parts

section Calls

/-- The calls of a purge: they read, delete objects of what is to go, and remove such buckets. -/
def purges (gone : Str → Bool) (s₀ : Tables) : Discipline DriverCall Reply where
  allowed _
    | .deleteObject bucket _ => gone bucket.bucketId = true
    | .removeBucket tenant name =>
      ∀ (id : Str) (row : BucketRow), s₀.buckets[id]? = some row → row.tenant = tenant →
        row.name = name →
        gone id = true
    | c => ¬Changes c
  mayCut _ := True

/-- A store that is served, with part of the work done. -/
def Begun (md5 : Str → Str) (gone : Str → Bool) (s₀ s : Tables) : Prop :=
  Served md5 s ∧ PartPurged gone s₀ s

theorem begun_exec (h : List (Event DriverCall Reply)) (c : DriverCall) (s : Tables)
    (hc : (purges gone s₀).allowed h c) (hs : Begun md5 gone s₀ s) :
    Begun md5 gone s₀ (exec md5 c s).2 := by
  have hstill : ∀ {c : DriverCall}, ¬Changes c → Begun md5 gone s₀ (exec md5 c s).2 := by
    intro c hc
    rw [exec_still s hc]
    exact hs
  cases c with
  | deleteObject bucket key =>
    refine ⟨served_exec hs.1 trivial, ?_⟩
    by_cases hb : bucket.bucketId ∈ s.buckets
    · obtain ⟨reply, hexec, -⟩ := @exec_deleteObject_eq md5 s bucket key hb
      rw [hexec]
      refine hs.2.trans (partPurged_withoutObjects fun k hk => ?_) fun _ hid => hid
      obtain rfl := of_decide_eq_true hk
      exact hc
    · rw [exec_deleteObject, if_pos hb]
      exact hs.2
  | removeBucket tenant name =>
    refine ⟨served_exec hs.1 trivial, ?_⟩
    rw [exec_removeBucket]
    cases hn : s.bucketNamed tenant name with
    | none => exact hs.2
    | some r =>
      obtain ⟨id, row⟩ := r
      dsimp only
      split
      · next hempty =>
        obtain ⟨hr, htenant, hname⟩ := bucketNamed_some hn
        rw [withoutBucket_empty hempty]
        refine hs.2.trans (partPurged_withoutBuckets fun id' hid => ?_) fun _ hid => hid
        obtain rfl := of_decide_eq_true hid
        exact hc _ row (hs.2.buckets _ row hr) htenant hname
      · exact hs.2
  | _ => exact hstill hc

theorem purges_reads (h : List (Event DriverCall Reply)) (c : DriverCall) (hc : ¬Changes c) :
    (purges gone s₀).allowed h c := by
  cases c <;> first | exact hc | exact absurd trivial hc

theorem purgePage_deletes {d : Discipline DriverCall Reply} {bucket : BucketKey}
    (hd : ∀ h key, d.allowed h (.deleteObject bucket key)) (objects : List ObjectInfo) :
    Anytime d (purgePage bucket objects) := by
  induction objects with
  | nil => exact anytime_pure _
  | cons obj objects ih =>
    refine anytime_bind (anytime_attempt fun h => hd h obj.key) fun r => ?_
    split
    · exact ih
    · exact ih
    · exact anytime_throw _

theorem purgeObjects_deletes {d : Discipline DriverCall Reply} {bucket : BucketKey}
    (hread : ∀ h c, ¬Changes c → d.allowed h c) (hd : ∀ h key, d.allowed h (.deleteObject bucket key))
    (hcut : ∀ h, d.mayCut h) (fuel : ℕ) (marker : Str) :
    Anytime d (purgeObjects bucket fuel marker) := by
  induction fuel generalizing marker with
  | zero => exact hcut
  | succ fuel ih =>
    refine anytime_bind (anytime_invoke fun h => hread h _ id) fun page => ?_
    refine anytime_bind (purgePage_deletes hd page.objects) fun _ => ?_
    exact anytime_ite (anytime_pure _) (anytime_ite (anytime_throw _) (ih page.nextMarker))

/-- A bucket that is to go, and the only one under its name. -/
def Doomed (gone : Str → Bool) (s₀ : Tables) (b : BucketInfo) : Prop :=
  gone b.bucket.bucketId = true ∧ ∀ (id : Str) (row : BucketRow), s₀.buckets[id]? = some row →
    row.tenant = b.bucket.tenant → row.name = b.bucket.name → gone id = true

theorem purgeBuckets_purges (fuel : ℕ) (buckets : List BucketInfo)
    (hb : ∀ b ∈ buckets, Doomed gone s₀ b) :
    Anytime (purges gone s₀) (purgeBuckets fuel buckets) := by
  induction buckets with
  | nil => exact anytime_pure _
  | cons b buckets ih =>
    rw [List.forall_mem_cons] at hb
    have hempty := @purgeObjects_deletes (purges gone s₀) b.bucket purges_reads (fun _ _ => hb.1.1)
      (fun _ => trivial) fuel []
    refine anytime_bind hempty fun _ => ?_
    exact anytime_bind (anytime_invoke fun _ => hb.1.2) fun _ => ih hb.2

theorem doomed_stored (wf : WellFormed md5 s₀) {b : BucketInfo} (hb : Stored s₀ b)
    (hgone : gone b.bucket.bucketId = true) : Doomed gone s₀ b := by
  refine ⟨hgone, fun id row hr htenant hname => ?_⟩
  obtain ⟨row', hr', rfl⟩ := hb
  obtain ⟨-, htenant', hname'⟩ := bucketRow_key wf hr'
  rw [wf.bucketNames id _ row row' hr hr' (htenant.trans htenant'.symm) (hname.trans hname'.symm)]
  exact hgone

def reads : Discipline DriverCall Reply := ⟨fun _ c => ¬Changes c, fun _ => True⟩

theorem leaves_still {α : Type} {x : Op α} (hx : Anytime reads x) (left : Leaves (exec md5) x.run s s') :
    s' = s := by
  refine leaves_keeps (I := (· = s)) (fun h c t hc ht => ?_) (hx []) left rfl
  rw [exec_still t hc]
  exact ht

/-- What a part of an operation leaves that keeps to the calls of a purge. -/
theorem leaves_begun {α : Type} {x : Op α} (hx : Anytime (purges gone s₀) x)
    (left : Leaves (exec md5) x.run s s') (hs : Begun md5 gone s₀ s) : Begun md5 gone s₀ s' :=
  leaves_keeps begun_exec (hx []) left hs

end Calls

section Users

variable {uid : UserId}

/-- A stopped removal of a user and its data has part of it done, or all. -/
theorem userRemove_leaves (h : Served md5 s) (hm : uid.toString ∈ s.users) {fuel : ℕ}
    (left : Leaves (exec md5) (userRemove fuel uid true).run s s') :
    Begun md5 (ownedBy s uid) s s' ∨ s' = withoutOwner s uid := by
  have hstart : Begun md5 (ownedBy s uid) s s := ⟨h, partPurged_refl _ s⟩
  have hread : ∀ {c : DriverCall}, ¬Changes c → Anytime (purges (ownedBy s uid) s) (invoke c) :=
    fun hc => anytime_invoke fun h => purges_reads h _ hc
  have hform : userRemove fuel uid true = (do
      requireUid uid
      let _ ← invoke (.loadUser uid)
      let buckets ← listAllBuckets fuel (some uid)
      purgeBuckets fuel buckets
      invoke (.removeUser uid)) := rfl
  rw [hform] at left
  rcases leaves_except_bind left with hstop | ⟨_, t, hr, hload⟩
  · exact .inl (leaves_begun anytime_requireUid hstop hstart)
  obtain rfl : s = t := by
    rw [requireUid] at hr
    split at hr <;> cases hr
    rfl
  rcases leaves_except_bind hload with hstop | ⟨_, t, hr, hlists⟩
  · exact .inl (leaves_begun (hread id) hstop hstart)
  obtain rfl : s = t := (Prod.mk.inj (Option.some.inj hr)).2
  rcases leaves_except_bind hlists with hstop | ⟨buckets, t, hr, hpurges⟩
  · have hreads := @listAllBucketsLoop_browses (purges (ownedBy s uid) s) purges_reads
      (fun _ => trivial) (some uid) fuel [] []
    exact .inl (leaves_begun hreads hstop hstart)
  have hlist := @listAllBucketsLoop_settles md5 s (some uid) h.plain fuel [] []
  obtain ⟨hbuckets, rfl⟩ := Prod.mk.inj (hlist.unique hr)
  obtain rfl := Except.ok.inj hbuckets
  have howned := @listed_ahead md5 t uid h.plain
  have hstored := @ahead_stored md5 t h.plain (some uid) []
  rcases leaves_except_bind hpurges with hstop | ⟨_, t', hr, hremoves⟩
  · refine .inl (leaves_begun (purgeBuckets_purges fuel _ fun b hb => ?_) hstop hstart)
    refine doomed_stored h.plain.wf (hstored b hb) ?_
    rw [← howned]
    exact List.any_eq_true.mpr ⟨b, hb, decide_eq_true rfl⟩
  have hpurge := @purgeBuckets_settles md5 t h _ fuel _ hstored (ahead_ids h.plain) le_rfl
  obtain ⟨-, rfl⟩ := Prod.mk.inj (hpurge.unique hr)
  rw [howned] at hremoves
  rcases leaves_call hremoves with rfl | hdone
  · exact .inl ⟨served_withoutBuckets h _, partPurged_withoutBuckets fun _ hid => hid⟩
  · obtain rfl := leaves_done hdone
    have hm' : uid.toString ∈ (withoutBuckets t (ownedBy t uid)).users := hm
    rw [exec_removeUser, if_pos hm', withoutOwner_eq]
    exact .inr rfl

theorem ownedBy_same (h : PartPurged gone s₀ s) {id : Str} {row : BucketRow}
    (hr : s.buckets[id]? = some row) : ownedBy s uid id = ownedBy s₀ uid id := by
  rw [ownedBy, ownedBy, hr, h.buckets id row hr]

theorem ownedBy_le (h : PartPurged gone s₀ s) (id : Str) (howned : ownedBy s uid id = true) :
    ownedBy s₀ uid id = true := by
  obtain ⟨row, hr, howner⟩ := ownedBy_eq_true.mp howned
  exact ownedBy_eq_true.mpr ⟨row, h.buckets id row hr, howner⟩

/-- With part of the work done, the rest of it comes to the same. -/
theorem withoutOwner_begun (h : Begun md5 (ownedBy s₀ uid) s₀ s) :
    withoutOwner s uid = withoutOwner s₀ uid := by
  have hsame : withoutBuckets s (ownedBy s uid) = withoutBuckets s (ownedBy s₀ uid) := by
    refine tables_ext rfl rfl (fun id row => ?_) fun k row => ?_
    · rw [withoutBuckets_bucket, withoutBuckets_bucket]
      exact and_congr_right fun hr => by rw [ownedBy_same h.2 hr]
    · rw [withoutBuckets_object, withoutBuckets_object]
      refine and_congr_right fun hr => ?_
      obtain ⟨bucket, hb⟩ := mem_buckets.mp (h.1.plain.wf.objectRows k.1 k.2 row hr).1
      rw [ownedBy_same h.2 hb]
  rw [← withoutOwner_eq, ← withoutOwner_eq, hsame, h.2.rest]

theorem requireUid_run {t : Tables} {r : RgwResult Unit}
    (h : (requireUid uid).run.run (exec md5) s = some (r, t)) : t = s := by
  rw [requireUid] at h
  split at h <;> cases h <;> rfl

theorem loadUser_gone (hm : uid.toString ∉ s.users) :
    exec md5 (.loadUser uid) s = (.error .noSuchUser, s) := by
  refine Prod.ext ?_ rfl
  change loadUser uid s = _
  rw [loadUser, Std.ExtTreeMap.getElem?_eq_none hm]
  rfl

/-- Once the user is gone, an attempt only finds that out. -/
theorem userRemove_gone (hm : uid.toString ∉ s.users) {fuel : ℕ}
    (left : Leaves (exec md5) (userRemove fuel uid true).run s s') : s' = s := by
  rcases leaves_except_bind left with hstop | ⟨_, t, hr, hload⟩
  · exact leaves_still anytime_requireUid hstop
  obtain rfl := requireUid_run hr
  rcases leaves_except_bind hload with hstop | ⟨info, t', hr, -⟩
  · exact leaves_still (anytime_invoke fun _ => show ¬Changes (.loadUser uid) from id) hstop
  · rw [run_invoke, run_call, loadUser_gone hm] at hr
    cases hr

theorem userRemove_refused (hid : uid.isEmpty = false) (hm : uid.toString ∉ s.users) (fuel : ℕ) :
    (userRemove fuel uid true).run.run (exec md5) s = some (.error .noSuchUser, s) := by
  rw [userRemove, run_except_bind, requireUid, hid]
  change ((invoke (.loadUser uid) >>= fun _ => _ : Op Unit).run.run (exec md5) s) = _
  rw [run_except_bind, run_invoke, run_call, loadUser_gone hm]
  rfl

end Users

section Buckets

variable {tenant name id : Str} {row : BucketRow}

/-- The calls of emptying one bucket. -/
def empties (id : Str) : Discipline DriverCall Reply where
  allowed _
    | .deleteObject bucket _ => bucket.bucketId = id
    | c => ¬Changes c
  mayCut _ := True

theorem empties_exec (h : List (Event DriverCall Reply)) (c : DriverCall) (s : Tables)
    (hc : (empties id).allowed h c) (hs : Begun md5 (fun id' => id' = id) s₀ s ∧
    s.buckets = s₀.buckets) :
    Begun md5 (fun id' => id' = id) s₀ (exec md5 c s).2 ∧ (exec md5 c s).2.buckets = s₀.buckets := by
  cases c with
  | deleteObject bucket key =>
    refine ⟨begun_exec h _ s (decide_eq_true hc) hs.1, ?_⟩
    rw [(@exec_object_frame md5 s (.deleteObject bucket key) bucket rfl).2.2.1]
    exact hs.2
  | _ =>
    rw [exec_still s (by exact hc)]
    exact hs

theorem requireName_run {t : Tables} {r : RgwResult Unit}
    (h : (requireName name).run.run (exec md5) s = some (r, t)) : t = s := by
  rw [requireName] at h
  split at h <;> cases h <;> rfl

theorem anytime_requireName {d : Discipline DriverCall Reply} : Anytime d (requireName name) :=
  anytime_ite (anytime_throw _) (anytime_pure _)

theorem exec_loadBucket_named (hn : s.bucketNamed tenant name = some (id, row)) :
    exec md5 (.loadBucket tenant name) s = (.ok (rowInfo row), s) := by
  refine Prod.ext ?_ rfl
  change loadBucket tenant name s = _
  rw [loadBucket, hn]
  rfl

/-- A stopped removal of a bucket and its objects has some of them gone, or all and the bucket. -/
theorem bucketRemove_leaves (h : Served md5 s) (hn : s.bucketNamed tenant name = some (id, row))
    {fuel : ℕ}
    (left : Leaves (exec md5) (bucketRemove fuel tenant name true).run s s') :
    (Begun md5 (fun id' => id' = id) s s' ∧ s'.buckets = s.buckets) ∨
      s' = withoutBuckets s fun id' => id' = id := by
  have hstart : Begun md5 (fun id' => id' = id) s s ∧ s.buckets = s.buckets :=
    ⟨⟨h, partPurged_refl _ s⟩, rfl⟩
  have hform : bucketRemove fuel tenant name true = (do
      requireName name
      let info ← invoke (.loadBucket tenant name)
      purgeObjects info.bucket fuel []
      invoke (.removeBucket tenant name)) := rfl
  obtain ⟨hrow, rfl, rfl⟩ := bucketNamed_some hn
  obtain ⟨rfl, htenant, hname⟩ := bucketRow_key h.plain.wf hrow
  rw [hform] at left
  rcases leaves_except_bind left with hstop | ⟨_, t, hr, hload⟩
  · obtain rfl := leaves_still anytime_requireName hstop
    exact .inl hstart
  obtain rfl := requireName_run hr
  rcases leaves_except_bind hload with hstop | ⟨info, t', hr, hpurges⟩
  · obtain rfl := leaves_still (anytime_invoke fun _ => show ¬Changes (.loadBucket _ _) from id) hstop
    exact .inl hstart
  rw [run_invoke, run_call, exec_loadBucket_named hn, run_done] at hr
  obtain ⟨hinfo, rfl⟩ := Prod.mk.inj (Option.some.inj hr)
  obtain rfl := Except.ok.inj hinfo
  have hempties := @purgeObjects_deletes (empties (rowInfo row).bucket.bucketId) (rowInfo row).bucket
    (fun h c hc => by cases c <;> first | exact hc | exact absurd trivial hc) (fun _ _ => rfl)
    (fun _ => trivial) fuel []
  have hkeeps : ∀ s', Leaves (exec md5) (purgeObjects (rowInfo row).bucket fuel []).run t s' →
      Begun md5 (fun id' => id' = (rowInfo row).bucket.bucketId) t s' ∧ s'.buckets = t.buckets :=
    fun s' hstop => leaves_keeps (I := fun s' => Begun md5 _ t s' ∧ s'.buckets = t.buckets) empties_exec
      (hempties []) hstop hstart
  rcases leaves_except_bind hpurges with hstop | ⟨_, t', hr, hremoves⟩
  · exact .inl (hkeeps s' hstop)
  have hend := hkeeps t' (leaves_end hr)
  have hpurge := purgeObjects_settles h.plain.wf fuel (mem_buckets.mpr ⟨row, hrow⟩) (past_start h)
  obtain ⟨-, rfl⟩ := Prod.mk.inj (hpurge.unique hr)
  rcases leaves_call hremoves with rfl | hdone
  · exact .inl hend
  · obtain rfl := leaves_done hdone
    rw [htenant, hname, exec_removeBucket_emptied h.plain.wf ⟨row, hrow, rfl⟩]
    exact .inr rfl

/-- The name leads nowhere once its bucket is gone. -/
theorem named_withoutBuckets (wf : WellFormed md5 s) (hn : s.bucketNamed tenant name = some (id, row)) :
    (withoutBuckets s fun id' => id' = id).bucketNamed tenant name = none := by
  obtain ⟨hr, htenant, hname⟩ := bucketNamed_some hn
  cases hgone : (withoutBuckets s fun id' => id' = id).bucketNamed tenant name with
  | none => rfl
  | some r =>
    obtain ⟨id', row'⟩ := r
    obtain ⟨hr', htenant', hname'⟩ := bucketNamed_some hgone
    obtain ⟨hr', hkept⟩ := withoutBuckets_bucket.mp hr'
    have hid := wf.bucketNames id' id row' row hr' hr (htenant'.trans htenant.symm)
      (hname'.trans hname.symm)
    exact absurd hid (of_decide_eq_false hkept)

theorem exec_loadBucket_gone (hn : s.bucketNamed tenant name = none) :
    exec md5 (.loadBucket tenant name) s = (.error .noSuchBucket, s) := by
  refine Prod.ext ?_ rfl
  change loadBucket tenant name s = _
  rw [loadBucket, hn]

/-- Once the bucket is gone, an attempt only finds that out. -/
theorem bucketRemove_gone (hn : s.bucketNamed tenant name = none) {fuel : ℕ}
    (left : Leaves (exec md5) (bucketRemove fuel tenant name true).run s s') : s' = s := by
  rcases leaves_except_bind left with hstop | ⟨_, t, hr, hload⟩
  · exact leaves_still anytime_requireName hstop
  obtain rfl := requireName_run hr
  rcases leaves_except_bind hload with hstop | ⟨info, t', hr, -⟩
  · exact leaves_still (anytime_invoke fun _ => show ¬Changes (.loadBucket _ _) from id) hstop
  · rw [run_invoke, run_call, exec_loadBucket_gone hn] at hr
    cases hr

theorem bucketRemove_refused (hname : name ≠ []) (hn : s.bucketNamed tenant name = none) (fuel : ℕ) :
    (bucketRemove fuel tenant name true).run.run (exec md5) s = some (.error .noSuchBucket, s) := by
  rw [bucketRemove, run_except_bind, requireName, if_neg hname]
  change ((invoke (.loadBucket tenant name) >>= fun _ => _ : Op Unit).run.run (exec md5) s) = _
  rw [run_except_bind, run_invoke, run_call, exec_loadBucket_gone hn]
  rfl

end Buckets

section Attempts

/-- However often a purge was started and stopped before, only what was to go is gone, and one that
runs through ends where it would have ended at first. -/
theorem purges_restart {P : Platform} (h : Reachable P s₀) :
    (∀ uid, Existing s₀ uid → ∀ s,
      Attempts (exec P.md5) (fun n => (userRemove n uid true).run) s₀ s →
      ∀ rounds, s.buckets.size + s.objects.size < rounds →
        (PartPurged (ownedBy s₀ uid) s₀ s ∧
          (userRemove rounds uid true).run.run (exec P.md5) s = some (.ok (), withoutOwner s₀ uid)) ∨
        (s = withoutOwner s₀ uid ∧
          (userRemove rounds uid true).run.run (exec P.md5) s = some (.error .noSuchUser, s))) ∧
    ∀ tenant name id row, s₀.bucketNamed tenant name = some (id, row) → ∀ s,
      Attempts (exec P.md5) (fun n => (bucketRemove n tenant name true).run) s₀ s →
      ∀ rounds, s.objects.size < rounds →
        (PartPurged (fun id' => id' = id) s₀ s ∧ (bucketRemove rounds tenant name true).run.run
          (exec P.md5) s = some (.ok (), withoutBuckets s₀ fun id' => id' = id)) ∨
        ((s = withoutBuckets s₀ fun id' => id' = id) ∧
          (bucketRemove rounds tenant name true).run.run (exec P.md5) s =
          some (.error .noSuchBucket, s)) := by
  have hs := reachable_served h
  constructor
  · intro uid hu s hattempts rounds hrounds
    have hgone : ∀ s, s = withoutOwner s₀ uid → uid.toString ∉ s.users := by
      rintro s rfl
      simp [withoutOwner]
    have hon : ∀ n s s', Begun P.md5 (ownedBy s₀ uid) s₀ s →
        Leaves (exec P.md5) (userRemove n uid true).run s s' →
        Begun P.md5 (ownedBy s₀ uid) s₀ s' ∨ s' = withoutOwner s₀ uid := by
      intro n s s' hbegun left
      have hm : uid.toString ∈ s.users := by
        rw [hbegun.2.users]
        exact hu.2
      rcases userRemove_leaves hbegun.1 hm left with hpart | hdone
      · exact .inl ⟨hpart.1, hbegun.2.trans hpart.2 (ownedBy_le hbegun.2)⟩
      · exact .inr (hdone.trans (withoutOwner_begun hbegun))
    rcases attempts_begun_or_done hon (fun n s s' hdone left => userRemove_gone (hgone s hdone) left)
      hattempts ⟨hs, partPurged_refl _ s₀⟩ with hbegun | hdone
    · have hm : uid.toString ∈ s.users := by
        rw [hbegun.2.users]
        exact hu.2
      have hrun := (userRemove_purge hbegun.1 ⟨hu.1, hm⟩ rounds).run_eq hrounds
      rw [withoutOwner_begun hbegun] at hrun
      exact .inl ⟨hbegun.2, hrun⟩
    · exact .inr ⟨hdone, userRemove_refused hu.1 (hgone s hdone) rounds⟩
  · intro tenant name id row hn s hattempts rounds hrounds
    have hname : name ≠ [] := by
      obtain ⟨hr, -, rfl⟩ := bucketNamed_some hn
      exact hs.plain.name id row hr
    have hgone : ∀ s, (s = withoutBuckets s₀ fun id' => id' = id) → s.bucketNamed tenant name =
      none := by
      rintro s rfl
      exact named_withoutBuckets hs.plain.wf hn
    have hnamed : ∀ s : Tables, s.buckets = s₀.buckets → s.bucketNamed tenant name = some (id, row) :=
      fun s hb => (bucketNamed_congr hb tenant name).trans hn
    have hon : ∀ n s s', (Begun P.md5 (fun id' => id' = id) s₀ s ∧ s.buckets = s₀.buckets) →
        Leaves (exec P.md5) (bucketRemove n tenant name true).run s s' →
        (Begun P.md5 (fun id' => id' = id) s₀ s' ∧ s'.buckets = s₀.buckets) ∨
          s' = withoutBuckets s₀ fun id' => id' = id := by
      rintro n s s' ⟨hbegun, hb⟩ left
      rcases bucketRemove_leaves hbegun.1 (hnamed s hb) left with ⟨hpart, hb'⟩ | hdone
      · exact .inl ⟨⟨hpart.1, hbegun.2.trans hpart.2 fun _ hid => hid⟩, hb'.trans hb⟩
      · exact .inr (hdone.trans hbegun.2.rest)
    rcases attempts_begun_or_done hon (fun n s s' hdone left => bucketRemove_gone (hgone s hdone) left)
      hattempts ⟨⟨hs, partPurged_refl _ s₀⟩, rfl⟩ with ⟨hbegun, hb⟩ | hdone
    · have hrun := (bucketRemove_purge hbegun.1 (hnamed s hb) rounds).run_eq hrounds
      rw [hbegun.2.rest] at hrun
      exact .inl ⟨hbegun.2, hrun⟩
    · exact .inr ⟨hdone, bucketRemove_refused hname (hgone s hdone) rounds⟩

/-- The removal of Alice is stopped between her object and her bucket, and started again. -/
theorem purges_restart_alice : ∃ s₀ s, Reachable (.ofTables [] [] []) s₀ ∧
    Attempts (exec (Platform.ofTables [] [] []).md5) (fun n => (userRemove n alice.userId true).run)
    s₀ s ∧
    s.buckets.size = 2 ∧ s.objects.toList.map (fun r => r.1) = [(bytes "/other", bytes "b")] ∧
    (userRemove 4 alice.userId true).run.run (exec (Platform.ofTables [] [] []).md5) s =
      some (.ok (), withoutOwner s₀ alice.userId) := by
  have hplay : (Config.play (exec (Platform.ofTables [] [] []).md5) [0, 1, 1, 2, 2, 3, 3, 4, 4]
      ([], ⟨.empty, fun i => (operations i).run (.ofTables [] [] [])⟩)).map (fun r =>
        let s := stopAfter (exec (Platform.ofTables [] [] []).md5) 4
          (userRemove 3 alice.userId true).run r.2.state
        decide (alice.userId.toString ∈ r.2.state.users ∧ alice.userId.toString ∈ s.users ∧
          s.buckets.size = 2 ∧ s.objects.size = 1 ∧
          s.objects.toList.map (fun r => r.1) = [(bytes "/other", bytes "b")])) =
      some true := by decide +kernel
  obtain ⟨⟨t, x⟩, hr, hx⟩ := Option.map_eq_some_iff.mp hplay
  obtain ⟨huser, hstays, hbuckets, hsize, hobjects⟩ := of_decide_eq_true hx
  have hreachable : Reachable (.ofTables [] [] []) x.state := ⟨operations, t, x, play_trace .nil hr, rfl⟩
  have hattempt : Attempts (exec (Platform.ofTables [] [] []).md5)
      (fun n => (userRemove n alice.userId true).run) x.state _ :=
        .single ⟨3, leaves_stopAfter 4 _ x.state⟩
  refine ⟨x.state, _, hreachable, hattempt, hbuckets, hobjects, ?_⟩
  rcases (purges_restart hreachable).1 alice.userId ⟨by decide, huser⟩ _ hattempt 4
    (by rw [hbuckets, hsize]; decide) with ⟨-, hrun⟩ | ⟨hdone, -⟩
  · exact hrun
  · rw [hdone] at hstays
    simp [withoutOwner] at hstays

end Attempts

end PurgeRestarts
