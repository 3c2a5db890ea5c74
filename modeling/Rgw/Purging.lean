import Rgw.Paging
import Rgw.ReachableStores

/-! # Purging

A purge deletes the entries of the pages that it reads. What a page showed is gone before the
next one is asked for, so the marker stays behind what is left, and the loops end with nothing
left of what they were given and everything else as it was. -/
namespace Purging

open ByteStrings SortedMaps Interaction RgwTypes RgwSal RgwSalSqlite StoreInvariants Http
  RgwAdminOps OwnerIsolation BucketPages ReachableStores

variable {md5 : Str → Str} {s : Tables}

theorem nil_lt {name : Str} (h : name ≠ []) : [] < name := by
  apply lt_of_le_of_ne
  · exact not_lt.mp (List.not_lt_nil name)
  · exact Ne.symm h

/-- A page that ends past the marker lets the reader go on. -/
theorem advances_of_lt {marker next : Str} (h : marker < next) : ¬(next = [] ∨ next = marker) := by
  rintro (hnil | hsame)
  · rw [hnil] at h
    exact List.not_lt_nil _ h
  · rw [hsame] at h
    exact lt_irrefl _ h

section Tables

/-- The tables without some objects. -/
def withoutObjects (s : Tables) (gone : Str × Str → Bool) : Tables :=
  { s with objects := s.objects.filter fun k _ => !gone k }

/-- The tables without some buckets and their objects. -/
def withoutBuckets (s : Tables) (gone : Str → Bool) : Tables :=
  { s with
    buckets := s.buckets.filter fun id _ => !gone id
    objects := s.objects.filter fun k _ => !gone k.1 }

theorem withoutObjects_eq_some {gone : Str × Str → Bool} {k : Str × Str} {row : ObjectCols} :
    (withoutObjects s gone).objects[k]? = some row ↔ s.objects[k]? = some row ∧ gone k = false := by
  simp [withoutObjects, Option.filter_eq_some_iff]

theorem tables_ext {t : Tables} (hu : s.users = t.users) (hk : s.accessKeys = t.accessKeys)
    (hb : ∀ (id : Str) (row : BucketRow), s.buckets[id]? = some row ↔ t.buckets[id]? = some row)
    (ho : ∀ (k : Str × Str) (row : ObjectCols), s.objects[k]? = some row ↔ t.objects[k]? = some row) :
    s = t := by
  obtain ⟨users, keys, buckets, objects⟩ := s
  obtain ⟨users', keys', buckets', objects'⟩ := t
  obtain rfl : users = users' := hu
  obtain rfl : keys = keys' := hk
  congr 1
  · exact Std.ExtTreeMap.ext_getElem? fun id => Option.ext (hb id)
  · exact Std.ExtTreeMap.ext_getElem? fun k => Option.ext (ho k)

theorem withoutBuckets_bucket {gone : Str → Bool} {id : Str} {row : BucketRow} :
    (withoutBuckets s gone).buckets[id]? = some row ↔ s.buckets[id]? = some row ∧ gone id = false := by
  simp [withoutBuckets, Option.filter_eq_some_iff]

theorem withoutBuckets_object {gone : Str → Bool} {k : Str × Str} {row : ObjectCols} :
    (withoutBuckets s gone).objects[k]? = some row ↔ s.objects[k]? = some row ∧ gone k.1 = false := by
  simp [withoutBuckets, Option.filter_eq_some_iff]

theorem wellFormed_withoutObjects (wf : WellFormed md5 s) (gone : Str × Str → Bool) :
    WellFormed md5 (withoutObjects s gone) :=
  ⟨wf.keyIndex, wf.userRows, wf.bucketRows, wf.bucketNames, fun id name row hr =>
    wf.objectRows id name row (withoutObjects_eq_some.mp hr).1⟩

theorem wellFormed_withoutBuckets (wf : WellFormed md5 s) (gone : Str → Bool) :
    WellFormed md5 (withoutBuckets s gone) where
  keyIndex := wf.keyIndex
  userRows := wf.userRows
  bucketRows id row hr := wf.bucketRows id row (withoutBuckets_bucket.mp hr).1
  bucketNames id id' row row' hr hr' :=
    wf.bucketNames id id' row row' (withoutBuckets_bucket.mp hr).1 (withoutBuckets_bucket.mp hr').1
  objectRows id name row hr := by
    obtain ⟨hrow, hkept⟩ := withoutBuckets_object.mp hr
    obtain ⟨hb, hdata⟩ := wf.objectRows id name row hrow
    obtain ⟨bucket, hbucket⟩ := mem_buckets.mp hb
    exact ⟨mem_buckets.mpr ⟨bucket, withoutBuckets_bucket.mpr ⟨hbucket, hkept⟩⟩, hdata⟩

end Tables

section Steps

variable {α : Type} {rounds n : ℕ} {s' : Tables} {r : RgwResult α}

/-- A call that succeeds hands on its answer. -/
theorem settles_invoke_bind {c : DriverCall} {f : c.Answer → Op α} {a : c.Answer} {t : Tables}
    (hc : exec md5 c s = (.ok a, t)) (hf : (f a).run.Settles (exec md5) rounds n t r s') :
    (invoke c >>= f).run.Settles (exec md5) rounds n s r s' := by
  refine settles_except_bind (Or.inl ?_) hf
  rw [run_invoke, run_call, hc, run_done]

theorem settles_attempt_bind {c : DriverCall} {f : Reply c → Op α} {reply : Reply c} {t : Tables}
    (hc : exec md5 c s = (reply, t)) (hf : (f reply).run.Settles (exec md5) rounds n t r s') :
    (attempt c >>= f).run.Settles (exec md5) rounds n s r s' := by
  refine settles_except_bind (a := reply) (Or.inl ?_) hf
  rw [run_attempt, run_call, hc, run_done]

end Steps

section Objects

/-- What a page shows of an object row. -/
def rowObject (r : Str × ObjectCols) : ObjectInfo where
  key := .new r.1
  size := r.2.size.toNat
  etag := r.2.etag
  mtime := r.2.mtime
  owner := ⟨.parse r.2.ownerId, r.2.ownerDisplay⟩
  storageClass := r.2.storageClass
  attrs := r.2.attrs

theorem intoInfo_eq {r : Str × ObjectCols} (hs : 0 ≤ r.2.size) :
    (ObjectRow.fromRow r.1 r.2).intoInfo = .ok (rowObject r) := by
  simp [ObjectRow.intoInfo, ObjectRow.fromRow, toU64, hs, rowObject]

/-- Without a prefix and a delimiter a page takes rows while there is room. -/
theorem listPageLoop_eq (marker : Str) (room : ℕ) (rows : List (Str × ObjectCols))
    (hs : ∀ r ∈ rows, 0 ≤ r.2.size) (objects : List ObjectInfo) (next : Str)
    (hroom : objects.length + room = defaultMaxEntries) :
    listPageLoop ⟨[], [], marker, 0⟩ (rows.map fun r => .fromRow r.1 r.2) ⟨objects, [], false, next⟩
      none = .ok ⟨objects ++ (rows.take room).map rowObject, [], decide (room < rows.length),
        ((rows.take room).getLast?.map Prod.fst).getD next⟩ := by
  induction rows generalizing room objects next with
  | nil => simp [listPageLoop]
  | cons row rows ih =>
    rw [List.forall_mem_cons] at hs
    have hall : (ObjectRow.fromRow row.1 row.2).name.dropPrefix? [] = some row.1 := by
      simp [ObjectRow.fromRow]
    have hflat : commonPrefix ⟨[], [], marker, 0⟩ (ObjectRow.fromRow row.1 row.2).name row.1 = none :=
      if_pos rfl
    rw [List.map_cons, listPageLoop, hall]
    dsimp only
    rw [hflat, intoInfo_eq hs.1]
    have hsize : pageSize 0 = defaultMaxEntries := rfl
    cases room with
    | zero =>
      have hfull : pageSize 0 ≤ objects.length + ([] : List Str).length := by
        rw [hsize, List.length_nil]
        omega
      rw [if_pos hfull]
      simp
    | succ room =>
      have hfree : ¬pageSize 0 ≤ objects.length + ([] : List Str).length := by
        rw [hsize, List.length_nil]
        omega
      have hroom' : (objects ++ [rowObject row]).length + room = defaultMaxEntries := by
        rw [List.length_append, List.length_singleton]
        omega
      rw [if_neg hfree]
      change listPageLoop _ _ ⟨objects ++ [rowObject row], [], false, row.1⟩ none = _
      rw [ih room hs.2 _ _ hroom', List.take_succ_cons, List.map_cons, List.append_assoc,
        List.singleton_append]
      congr 2
      · simp
      · cases hlast : (rows.take room).getLast? <;> simp [List.getLast?_cons, hlast]

/-- A page of a bucket all of whose objects are past the marker. -/
theorem listObjects_page (wf : WellFormed md5 s) {bucket : BucketKey} {marker : Str}
    (hb : bucket.bucketId ∈ s.buckets) (hpast : ∀ (name : Str) (row : ObjectCols),
      s.objects[(bucket.bucketId, name)]? = some row → marker < name) :
    listObjects bucket ⟨[], [], marker, 0⟩ s =
      let rows := s.objectsOf bucket.bucketId
      .ok ⟨(rows.take defaultMaxEntries).map rowObject, [], decide (defaultMaxEntries < rows.length),
        ((rows.take defaultMaxEntries).getLast?.map Prod.fst).getD []⟩ := by
  have hcheck : checkBucket bucket.bucketId s = .ok () := if_pos hb
  have hall : ((s.objectsOf bucket.bucketId).filter fun r => rowFilter ⟨[], [], marker, 0⟩ r.1) =
      s.objectsOf bucket.bucketId := by
    rw [List.filter_eq_self]
    rintro ⟨name, row⟩ hm
    have hlt := hpast name row (mem_objectsOf.mp hm)
    have hle : [] ≤ name := not_lt.mp (List.not_lt_nil _)
    simp [rowFilter, hlt, hle, sqlLength, sqlSubstr]
  have hsizes : ∀ r ∈ s.objectsOf bucket.bucketId, 0 ≤ r.2.size := by
    rintro ⟨name, row⟩ hm
    obtain ⟨-, owner, attrs, data, now, -, rfl⟩ := wf.objectRows _ _ _ (mem_objectsOf.mp hm)
    exact Int.natCast_nonneg _
  rw [listObjects, hcheck]
  change listPage _ _ = _
  rw [hall, listPage]
  exact listPageLoop_eq marker defaultMaxEntries _ hsizes [] [] (Nat.zero_add _)

/-- Deleting an object leaves the tables without it, whether it was there or not. -/
theorem exec_deleteObject_eq {bucket : BucketKey} {key : ObjectKey} (hb : bucket.bucketId ∈ s.buckets) :
    ∃ reply, exec md5 (.deleteObject bucket key) s =
        (reply, withoutObjects s fun k => k = (bucket.bucketId, key.name)) ∧
      (reply = .ok () ∨ reply = .error .noSuchKey) := by
  rw [exec_deleteObject, if_neg (not_not.mpr hb)]
  by_cases ho : (bucket.bucketId, key.name) ∈ s.objects
  · rw [if_neg (not_not.mpr ho)]
    refine ⟨_, Prod.ext rfl ?_, Or.inl rfl⟩
    refine tables_ext rfl rfl (fun _ _ => Iff.rfl) fun k row => ?_
    rw [withoutObjects_eq_some]
    simp only [withoutObject, getElem?_erase_eq]
    by_cases hk : (bucket.bucketId, key.name) = k
    · simp [hk]
    · simp [hk, Ne.symm hk]
  · rw [if_pos ho]
    refine ⟨_, Prod.ext rfl ?_, Or.inr rfl⟩
    refine tables_ext rfl rfl (fun _ _ => Iff.rfl) fun k row => ?_
    rw [withoutObjects_eq_some]
    refine ⟨fun hr => ⟨hr, ?_⟩, fun hr => hr.1⟩
    rw [decide_eq_false_iff_not]
    rintro rfl
    exact ho (Std.ExtTreeMap.mem_iff_isSome_getElem?.mpr (Option.isSome_iff_exists.mpr ⟨row, hr⟩))

theorem withoutObjects_withoutObjects (s : Tables) (gone gone' : Str × Str → Bool) :
    withoutObjects (withoutObjects s gone) gone' = withoutObjects s fun k => gone k || gone' k := by
  refine tables_ext rfl rfl (fun _ _ => Iff.rfl) fun k row => ?_
  rw [withoutObjects_eq_some, withoutObjects_eq_some, withoutObjects_eq_some, and_assoc,
    Bool.or_eq_false_iff]

theorem withoutObjects_none {gone : Str × Str → Bool} (h : ∀ k, gone k = false) :
    withoutObjects s gone = s := by
  refine tables_ext rfl rfl (fun _ _ => Iff.rfl) fun k row => ?_
  rw [withoutObjects_eq_some, and_iff_left (h k)]

/-- Whether an object is one that a page of the bucket showed. -/
def onPage (bucketId : Str) (objects : List ObjectInfo) (k : Str × Str) : Bool :=
  k.1 = bucketId ∧ ∃ o ∈ objects, o.key.name = k.2

theorem onPage_cons (bucketId : Str) (obj : ObjectInfo) (objects : List ObjectInfo) :
    onPage bucketId (obj :: objects) =
      fun k => decide (k = (bucketId, obj.key.name)) || onPage bucketId objects k := by
  funext ⟨id, name⟩
  rw [Bool.eq_iff_iff, Bool.or_eq_true]
  simp only [onPage, List.mem_cons, decide_eq_true_eq, Prod.mk.injEq]
  constructor
  · rintro ⟨hid, o, rfl | ho, hname⟩
    · exact Or.inl ⟨hid, hname.symm⟩
    · exact Or.inr ⟨hid, o, ho, hname⟩
  · rintro (⟨hid, hname⟩ | ⟨hid, o, ho, hname⟩)
    · exact ⟨hid, obj, Or.inl rfl, hname.symm⟩
    · exact ⟨hid, o, Or.inr ho, hname⟩

theorem purgePage_settles {bucket : BucketKey} (objects : List ObjectInfo) {rounds n : ℕ}
    (hb : bucket.bucketId ∈ s.buckets) : (purgePage bucket objects).run.Settles (exec md5) rounds n s
      (.ok ()) (withoutObjects s (onPage bucket.bucketId objects)) := by
  induction objects generalizing s with
  | nil =>
    have hnone : withoutObjects s (onPage bucket.bucketId []) = s := by
      apply withoutObjects_none
      intro k
      simp [onPage]
    rw [hnone]
    exact Or.inl rfl
  | cons obj objects ih =>
    obtain ⟨reply, hexec, hreply⟩ := exec_deleteObject_eq hb
    refine settles_attempt_bind hexec ?_
    have hrest : (purgePage bucket objects).run.Settles (exec md5) rounds n
        (withoutObjects s fun k => k = (bucket.bucketId, obj.key.name)) (.ok ())
        (withoutObjects s (onPage bucket.bucketId (obj :: objects))) := by
      rw [onPage_cons, ← withoutObjects_withoutObjects]
      exact ih hb
    rcases hreply with rfl | rfl
    · exact hrest
    · exact hrest

/-- Whether an object is in the bucket. -/
def ofBucket (bucketId : Str) (k : Str × Str) : Bool := k.1 = bucketId

/-- A page that is not truncated shows the whole bucket. -/
theorem onPage_whole {bucketId : Str} {n : ℕ} (hn : (s.objectsOf bucketId).length ≤ n)
    {k : Str × Str} {row : ObjectCols} (hr : s.objects[k]? = some row) :
    onPage bucketId (((s.objectsOf bucketId).take n).map rowObject) k = ofBucket bucketId k := by
  rw [onPage, ofBucket, decide_eq_decide, List.take_of_length_le hn]
  refine ⟨fun h => h.1, fun hid => ⟨hid, ?_⟩⟩
  obtain ⟨id, name⟩ := k
  obtain rfl : id = bucketId := hid
  exact ⟨rowObject (name, row), List.mem_map_of_mem (mem_objectsOf.mpr hr), rfl⟩

theorem objectsOf_nodup (s : Tables) (bucketId : Str) : (s.objectsOf bucketId).Nodup := by
  have hnames : ((s.objectsOf bucketId).map Prod.fst).Nodup :=
    (objectsOf_sorted bucketId).imp ne_of_lt
  exact hnames.of_map

/-- Emptying a bucket after a page of it was deleted empties it. -/
theorem empty_after_page {bucketId : Str} (objects : List ObjectInfo) :
    withoutObjects (withoutObjects s (onPage bucketId objects)) (ofBucket bucketId) =
      withoutObjects s (ofBucket bucketId) := by
  refine tables_ext rfl rfl (fun _ _ => Iff.rfl) fun k row => ?_
  rw [withoutObjects_eq_some, withoutObjects_eq_some, withoutObjects_eq_some]
  constructor
  · rintro ⟨⟨hr, -⟩, hkept⟩
    exact ⟨hr, hkept⟩
  · rintro ⟨hr, hkept⟩
    refine ⟨⟨hr, ?_⟩, hkept⟩
    rw [ofBucket, decide_eq_false_iff_not] at hkept
    rw [onPage, decide_eq_false_iff_not]
    exact fun hon => hkept hon.1

/-- What the rows of the first page leave is past the page. -/
theorem past_page {bucketId last name : Str} {n : ℕ} {row : ObjectCols}
    (hlast : ((s.objectsOf bucketId).take n).getLast?.map Prod.fst = some last)
    (hr : (withoutObjects s (onPage bucketId (((s.objectsOf bucketId).take n).map rowObject))).objects[
      (bucketId, name)]? = some row) :
    (name, row) ∈ (s.objectsOf bucketId).drop n ∧ last < name := by
  obtain ⟨hrow, hkept⟩ := withoutObjects_eq_some.mp hr
  have hm : (name, row) ∈ s.objectsOf bucketId := mem_objectsOf.mpr hrow
  have hsorted := List.pairwise_map.mp (objectsOf_sorted (s := s) bucketId)
  rw [← List.take_append_drop n (s.objectsOf bucketId)] at hm hsorted
  rcases List.mem_append.mp hm with hm | hm
  · rw [onPage, decide_eq_false_iff_not] at hkept
    exact absurd ⟨rfl, rowObject (name, row), List.mem_map_of_mem hm, rfl⟩ hkept
  · obtain ⟨r, hr, rfl⟩ := Option.map_eq_some_iff.mp hlast
    exact ⟨hm, (List.pairwise_append.mp hsorted).2.2 r (List.mem_of_getLast? hr) (name, row) hm⟩

/-- The loop over the pages ends with nothing of the bucket left. -/
theorem purgeObjects_settles (wf : WellFormed md5 s) {bucket : BucketKey} (fuel : ℕ) {marker : Str}
    (hb : bucket.bucketId ∈ s.buckets) (hpast : ∀ (name : Str) (row : ObjectCols),
      s.objects[(bucket.bucketId, name)]? = some row → marker < name) :
    (purgeObjects bucket fuel marker).run.Settles (exec md5) fuel (s.objectsOf bucket.bucketId).length
      s (.ok ()) (withoutObjects s (ofBucket bucket.bucketId)) := by
  induction fuel generalizing s marker with
  | zero => exact Or.inr ⟨Nat.zero_le _, rfl⟩
  | succ fuel ih =>
    rw [purgeObjects]
    have hexec : exec md5 (.listObjects bucket ⟨[], [], marker, 0⟩) s = (.ok _, s) :=
      Prod.ext (listObjects_page wf hb hpast) rfl
    refine settles_invoke_bind hexec (settles_except_bind (purgePage_settles _ hb) ?_)
    dsimp only
    by_cases hmore : defaultMaxEntries < (s.objectsOf bucket.bucketId).length
    · have hpos : 0 < defaultMaxEntries := by decide
      obtain ⟨r, hr⟩ := exists_last hpos (hpos.trans hmore)
      have hlast : ((s.objectsOf bucket.bucketId).take defaultMaxEntries).getLast?.map Prod.fst =
          some r.1 := by rw [hr, Option.map_some]
      have hlt : marker < r.1 :=
        hpast r.1 r.2 (mem_objectsOf.mp (List.mem_of_mem_take (List.mem_of_getLast? hr)))
      have hadvance := advances_of_lt hlt
      simp only [hmore, decide_true, Bool.not_true, hlast, Option.getD_some, hadvance]
      have hrest := ih (wellFormed_withoutObjects wf (onPage bucket.bucketId
        (((s.objectsOf bucket.bucketId).take defaultMaxEntries).map rowObject))) hb
        fun name row hrow => (past_page hlast hrow).2
      -- what is left was on later pages, so there is less of it
      have hsub : ((withoutObjects s (onPage bucket.bucketId (((s.objectsOf bucket.bucketId).take
          defaultMaxEntries).map rowObject))).objectsOf bucket.bucketId) ⊆
          (s.objectsOf bucket.bucketId).drop defaultMaxEntries := by
        rintro ⟨name, row⟩ hm
        exact (past_page hlast (mem_objectsOf.mp hm)).1
      have hle := ((objectsOf_nodup _ bucket.bucketId).subperm hsub).length_le
      rw [List.length_drop] at hle
      rw [empty_after_page] at hrest
      refine Prog.Settles.turn hrest ?_
      omega
    · simp only [hmore, decide_false, Bool.not_false, ↓reduceIte]
      refine Or.inl (congrArg some (Prod.ext rfl ?_))
      refine tables_ext rfl rfl (fun _ _ => Iff.rfl) fun k row => ?_
      rw [withoutObjects_eq_some, withoutObjects_eq_some]
      apply and_congr_right
      intro hk
      rw [Bool.eq_false_iff, Bool.eq_false_iff, not_iff_not, onPage_whole (Nat.le_of_not_lt hmore) hk]

end Objects

section Buckets

theorem served_withoutBuckets (h : Served md5 s) (gone : Str → Bool) :
    Served md5 (withoutBuckets s gone) where
  plain :=
    { wf := wellFormed_withoutBuckets h.plain.wf gone
      tenant := fun id row hr => h.plain.tenant id row (withoutBuckets_bucket.mp hr).1
      name := fun id row hr => h.plain.name id row (withoutBuckets_bucket.mp hr).1 }
  objectName id name row hr := h.objectName id name row (withoutBuckets_object.mp hr).1
  record := h.record

theorem withoutBuckets_twice (gone gone' : Str → Bool) :
    withoutBuckets (withoutBuckets s gone) gone' = withoutBuckets s fun id => gone id || gone' id := by
  refine tables_ext rfl rfl (fun id row => ?_) fun k row => ?_
  · simp only [withoutBuckets_bucket, Bool.or_eq_false_iff, and_assoc]
  · simp only [withoutBuckets_object, Bool.or_eq_false_iff, and_assoc]

theorem objectsOf_length_le (s : Tables) (bucketId : Str) :
    (s.objectsOf bucketId).length ≤ s.objects.size := by
  rw [Tables.objectsOf, List.length_map, ← Std.ExtTreeMap.length_toList]
  exact List.length_filter_le _ _

/-- An emptied bucket is removed. -/
theorem exec_removeBucket_emptied (wf : WellFormed md5 s) {b : BucketInfo} (hb : Stored s b) :
    exec md5 (.removeBucket b.bucket.tenant b.bucket.name)
      (withoutObjects s (ofBucket b.bucket.bucketId)) =
        (.ok (), withoutBuckets s fun id => id = b.bucket.bucketId) := by
  obtain ⟨row, hn, -⟩ := stored_named wf hb
  have hn' : (withoutObjects s (ofBucket b.bucket.bucketId)).bucketNamed b.bucket.tenant
      b.bucket.name = some (b.bucket.bucketId, row) := hn
  have hempty : (withoutObjects s (ofBucket b.bucket.bucketId)).objectsOf b.bucket.bucketId = [] := by
    rw [List.eq_nil_iff_forall_not_mem]
    rintro ⟨name, row'⟩ hm
    have hkept := (withoutObjects_eq_some.mp (mem_objectsOf.mp hm)).2
    rw [ofBucket, decide_eq_false_iff_not] at hkept
    exact hkept rfl
  rw [exec_removeBucket, hn']
  dsimp only
  rw [if_pos hempty]
  refine Prod.ext rfl (tables_ext rfl rfl (fun id row => ?_) fun k row => ?_)
  · rw [withoutBuckets_bucket]
    simp only [withoutBucket, withoutObjects, getElem?_erase_eq]
    by_cases hid : b.bucket.bucketId = id
    · simp [hid]
    · simp [hid, Ne.symm hid]
  · rw [withoutBuckets_object]
    exact withoutObjects_eq_some

/-- The first page starts before every object. -/
theorem past_start (h : Served md5 s) {bucketId : Str} (name : Str) (row : ObjectCols)
    (hr : s.objects[(bucketId, name)]? = some row) : [] < name :=
  nil_lt (h.objectName bucketId name row hr)

/-- Purging a bucket and removing it. -/
theorem purge_bucket_settles (h : Served md5 s) {b : BucketInfo} (hb : Stored s b) {rounds n : ℕ}
    (hn : s.objects.size ≤ n) {α : Type} {r : RgwResult α} {f : Unit → Op α} {s' : Tables}
    (hf : (f ()).run.Settles (exec md5) rounds n
      (withoutBuckets s fun id => id = b.bucket.bucketId) r s') :
    (do
      purgeObjects b.bucket rounds []
      let u ← invoke (.removeBucket b.bucket.tenant b.bucket.name)
      f u : Op α).run.Settles (exec md5) rounds n s r s' := by
  obtain ⟨row, hrow, hd⟩ := hb
  have hpurge := purgeObjects_settles h.plain.wf rounds (mem_buckets.mpr ⟨row, hrow⟩) (past_start h)
  refine settles_except_bind (hpurge.mono ((objectsOf_length_le s _).trans hn)) ?_
  exact settles_invoke_bind (exec_removeBucket_emptied h.plain.wf ⟨row, hrow, hd⟩) hf

/-- The buckets of a list, by their ids. -/
def listed (buckets : List BucketInfo) (id : Str) : Bool :=
  buckets.any fun b => b.bucket.bucketId = id

/-- The loop over the buckets of one listing, with the loop over the pages of each inside. -/
theorem purgeBuckets_settles (h : Served md5 s) (buckets : List BucketInfo) {rounds n : ℕ}
    (hb : ∀ b ∈ buckets, Stored s b)
    (hids : buckets.Pairwise fun a b => a.bucket.bucketId ≠ b.bucket.bucketId)
    (hn : s.objects.size ≤ n) : (purgeBuckets rounds buckets).run.Settles (exec md5) rounds n s
      (.ok ()) (withoutBuckets s (listed buckets)) := by
  induction buckets generalizing s with
  | nil =>
    refine Or.inl (congrArg some (Prod.ext rfl ?_))
    refine tables_ext rfl rfl (fun id row => ?_) fun k row => ?_
    · simp [withoutBuckets_bucket, listed]
    · simp [withoutBuckets_object, listed]
  | cons b buckets ih =>
    rw [List.forall_mem_cons] at hb
    rw [List.pairwise_cons] at hids
    refine purge_bucket_settles h hb.1 hn (f := fun _ => purgeBuckets rounds buckets) ?_
    have hstored : ∀ b' ∈ buckets, Stored (withoutBuckets s fun id => id = b.bucket.bucketId) b' := by
      intro b' hm
      obtain ⟨row, hr, hd⟩ := hb.2 b' hm
      refine ⟨row, withoutBuckets_bucket.mpr ⟨hr, ?_⟩, hd⟩
      exact decide_eq_false (Ne.symm (hids.1 b' hm))
    have hrest := ih (served_withoutBuckets h _) hstored hids.2
      (Std.ExtTreeMap.size_filter_le_size.trans hn)
    rw [withoutBuckets_twice] at hrest
    have hgone : (fun id => decide (id = b.bucket.bucketId) || listed buckets id) =
        listed (b :: buckets) := by
      funext id
      rw [listed, listed, List.any_cons, decide_eq_decide.mpr eq_comm]
    rwa [hgone] at hrest

end Buckets

section Walks

variable {owner : Option UserId} {marker : Str}

/-- What follows the first rows is what is ahead of the last of them. -/
theorem ahead_drop (h : PlainBuckets md5 s) {n : ℕ} {last : BucketRow}
    (hlast : ((ahead s owner marker).take n).getLast? = some last) :
    ahead s owner last.name = (ahead s owner marker).drop n := by
  have hsorted := ahead_sorted h owner marker
  have hahead := mem_ahead.mp (List.mem_of_mem_take (List.mem_of_getLast? hlast))
  have hirrefl : Std.Irrefl fun a b : BucketRow => a.name < b.name := ⟨fun a => lt_irrefl _⟩
  have hantisymm : Std.Antisymm fun a b : BucketRow => a.name < b.name :=
    ⟨fun a b hab hba => absurd (hab.trans hba) (lt_irrefl _)⟩
  refine (ahead_sorted h owner last.name).eq_of_mem_iff (hsorted.sublist (List.drop_sublist n _))
    fun row => ?_
  rw [Paging.mem_drop_last BucketRow.name hsorted hlast, mem_ahead, mem_ahead]
  constructor
  · rintro ⟨hrow, hlt, howner⟩
    exact ⟨⟨hrow, hahead.2.1.trans hlt, howner⟩, hlt⟩
  · rintro ⟨⟨hrow, -, howner⟩, hlt⟩
    exact ⟨hrow, hlt, howner⟩

/-- One turn of a loop over the pages: the last of them, or one whose marker leaves less ahead. -/
theorem listBuckets_turn (h : PlainBuckets md5 s) (owner : Option UserId) (marker : Str) :
    ∃ page, exec md5 (.listBuckets owner marker 0) s = (.ok page, s) ∧
      (page.isTruncated = false ∧ page.buckets = (ahead s owner marker).map rowInfo ∨
        page.isTruncated = true ∧ marker < page.nextMarker ∧ page.buckets ≠ [] ∧
        page.buckets ++ (ahead s owner page.nextMarker).map rowInfo =
          (ahead s owner marker).map rowInfo) := by
  have hsmall : pageSize 0 + 1 < 2 ^ 63 := by decide
  refine ⟨_, Prod.ext (listBuckets_page h owner marker hsmall) rfl, ?_⟩
  by_cases hmore : pageSize 0 < (ahead s owner marker).length
  · right
    have hpos := pageSize_pos 0
    obtain ⟨last, hlast⟩ := exists_last hpos (hpos.trans hmore)
    have hm := List.mem_of_getLast? hlast
    simp only [hlast, Option.map_some, Option.getD_some]
    refine ⟨decide_eq_true hmore, (mem_ahead.mp (List.mem_of_mem_take hm)).2.1, ?_, ?_⟩
    · exact List.ne_nil_of_mem (List.mem_map_of_mem hm)
    · rw [ahead_drop h hlast, ← List.map_append, List.take_append_drop]
  · left
    refine ⟨decide_eq_false hmore, ?_⟩
    rw [List.take_of_length_le (Nat.le_of_not_lt hmore)]

/-- A page that shows something leaves less for the pages after it. -/
theorem rest_lt {shown rest all : List BucketInfo} (h : shown ++ rest = all) (hs : shown ≠ []) :
    rest.length < all.length := by
  have hpos := List.length_pos_iff.mpr hs
  rw [← h, List.length_append]
  omega

/-- The loop over the pages of buckets ends with every bucket of the owner, by name. -/
theorem listAllBucketsLoop_settles (h : PlainBuckets md5 s) (fuel : ℕ) (marker : Str)
    (out : List BucketInfo) : (listAllBucketsLoop owner fuel marker out).run.Settles (exec md5) fuel
      (ahead s owner marker).length s (.ok (out ++ (ahead s owner marker).map rowInfo)) s := by
  induction fuel generalizing marker out with
  | zero => exact Or.inr ⟨Nat.zero_le _, rfl⟩
  | succ fuel ih =>
    rw [listAllBucketsLoop]
    obtain ⟨page, hexec, ⟨hlast, hall⟩ | ⟨hmore, hlt, hshown, hrest⟩⟩ := listBuckets_turn h owner marker
    · refine settles_invoke_bind hexec ?_
      rw [hlast, hall]
      exact Or.inl rfl
    · refine settles_invoke_bind hexec ?_
      simp only [hmore, Bool.not_true, advances_of_lt hlt]
      have hfew := rest_lt hrest hshown
      rw [List.length_map, List.length_map] at hfew
      have hloop := ih page.nextMarker (out ++ page.buckets)
      rw [List.append_assoc, hrest] at hloop
      exact Prog.Settles.turn hloop hfew

end Walks

section Removals

variable {uid : UserId} {rounds n : ℕ}

/-- A user that the store holds, under an id that the operations accept. -/
def Existing (s : Tables) (uid : UserId) : Prop :=
  uid.isEmpty = false ∧ uid.toString ∈ s.users

/-- Whether a bucket is the user's. -/
def ownedBy (s : Tables) (uid : UserId) (bucketId : Str) : Bool :=
  s.buckets[bucketId]?.any fun row => row.owner = uid.toString

/-- The tables without a user and all that is the user's. -/
def withoutOwner (s : Tables) (uid : UserId) : Tables where
  users := s.users.erase uid.toString
  accessKeys := s.accessKeys.filter fun _ u => u ≠ uid.toString
  buckets := s.buckets.filter fun _ row => row.owner ≠ uid.toString
  objects := s.objects.filter fun k _ => !ownedBy s uid k.1

theorem ownedBy_eq_true {bucketId : Str} : ownedBy s uid bucketId = true ↔
    ∃ row, s.buckets[bucketId]? = some row ∧ row.owner = uid.toString := by
  simp [ownedBy, Option.any_eq_true]

theorem withoutOwner_eq (s : Tables) (uid : UserId) :
    withoutUser (withoutBuckets s (ownedBy s uid)) uid = withoutOwner s uid := by
  refine tables_ext rfl rfl (fun id row => ?_) fun k row => Iff.rfl
  change (withoutBuckets s (ownedBy s uid)).buckets[id]? = some row ↔ _
  rw [withoutBuckets_bucket, Bool.eq_false_iff, ne_eq, ownedBy_eq_true]
  simp only [withoutOwner, Std.ExtTreeMap.getElem?_filter', Option.filter_eq_some_iff,
    decide_eq_true_eq]
  apply and_congr_right
  intro hr
  rw [hr]
  simp

/-- The buckets that a listing of an owner shows are the owner's. -/
theorem listed_ahead (h : PlainBuckets md5 s) :
    listed ((ahead s (some uid) []).map rowInfo) = ownedBy s uid := by
  funext id
  rw [Bool.eq_iff_iff, ownedBy_eq_true, listed, List.any_eq_true]
  constructor
  · rintro ⟨b, hb, hid⟩
    obtain ⟨row, hm, rfl⟩ := List.mem_map.mp hb
    obtain ⟨⟨id', hr⟩, -, howner⟩ := mem_ahead.mp hm
    have hkey := (bucketRow_key h.wf hr).1
    rw [decide_eq_true_eq] at hid
    obtain rfl : id' = id := hkey.trans hid
    exact ⟨row, hr, of_decide_eq_true howner⟩
  · rintro ⟨row, hr, howner⟩
    refine ⟨rowInfo row, List.mem_map_of_mem (mem_ahead.mpr ⟨⟨id, hr⟩, ?_, ?_⟩), ?_⟩
    · exact nil_lt (h.name id row hr)
    · exact decide_eq_true howner
    · exact decide_eq_true (bucketRow_key h.wf hr).1.symm

theorem ahead_stored (h : PlainBuckets md5 s) {owner : Option UserId} {marker : Str} :
    ∀ b ∈ (ahead s owner marker).map rowInfo, Stored s b := by
  intro b hb
  obtain ⟨row, hm, rfl⟩ := List.mem_map.mp hb
  obtain ⟨⟨id, hr⟩, -⟩ := mem_ahead.mp hm
  obtain rfl := (bucketRow_key h.wf hr).1
  exact ⟨row, hr, rfl⟩

theorem ahead_ids (h : PlainBuckets md5 s) {owner : Option UserId} {marker : Str} :
    ((ahead s owner marker).map rowInfo).Pairwise fun a b => a.bucket.bucketId ≠ b.bucket.bucketId := by
  rw [List.pairwise_map]
  refine (ahead_sorted h owner marker).imp_of_mem fun {a b} ha hb hlt hid => ?_
  obtain ⟨⟨ida, hra⟩, -⟩ := mem_ahead.mp ha
  obtain ⟨⟨idb, hrb⟩, -⟩ := mem_ahead.mp hb
  obtain rfl := (bucketRow_key h.wf hra).1
  obtain rfl := (bucketRow_key h.wf hrb).1
  change (rowInfo a).bucket.bucketId = (rowInfo b).bucket.bucketId at hid
  rw [rowInfo, rowInfo] at hid
  rw [hid, hrb] at hra
  obtain rfl := Option.some.inj hra
  exact lt_irrefl _ hlt

theorem ahead_length_le (s : Tables) (owner : Option UserId) (marker : Str) :
    (ahead s owner marker).length ≤ s.buckets.size := by
  rw [ahead, List.length_insertionSort, ← Std.ExtTreeMap.length_toList]
  exact (List.length_filter_le _ _).trans_eq (List.length_map _)

/-- The operations accept the user, and its record is loaded. -/
theorem settles_existing (h : Served md5 s) (hu : Existing s uid) {α : Type} {f : Op α}
    {r : RgwResult α} {s' : Tables} (hf : f.run.Settles (exec md5) rounds n s r s') :
    (do
      requireUid uid
      let _ ← invoke (.loadUser uid)
      f : Op α).run.Settles (exec md5) rounds n s r s' := by
  have hid : (requireUid uid).run.Settles (exec md5) rounds n s (.ok ()) s := by
    rw [requireUid, hu.1]
    exact Or.inl rfl
  obtain ⟨info, hload⟩ := loadUser_served h hu.2
  have hexec : exec md5 (.loadUser uid) s = (.ok info, s) := Prod.ext hload rfl
  exact settles_except_bind hid (settles_invoke_bind hexec hf)

theorem settles_removeUser (hm : uid.toString ∈ s.users) :
    (invoke (.removeUser uid)).run.Settles (exec md5) rounds n s (.ok ()) (withoutUser s uid) := by
  refine Or.inl ?_
  rw [run_invoke, run_call, exec_removeUser, if_pos hm, run_done]

theorem userRemove_purge (h : Served md5 s) (hu : Existing s uid) (fuel : ℕ) :
    (userRemove fuel uid true).run.Settles (exec md5) fuel (s.buckets.size + s.objects.size) s
      (.ok ()) (withoutOwner s uid) := by
  rw [← withoutOwner_eq, ← listed_ahead h.plain]
  refine settles_existing h hu (f := do
    let buckets ← listAllBuckets fuel (some uid)
    purgeBuckets fuel buckets
    invoke (.removeUser uid)) ?_
  have hlist := @listAllBucketsLoop_settles md5 s (some uid) h.plain fuel [] []
  have hpurge := @purgeBuckets_settles md5 s h ((ahead s (some uid) []).map rowInfo) fuel _
    (ahead_stored h.plain) (ahead_ids h.plain) le_rfl
  refine settles_except_bind (hlist.mono ((ahead_length_le s _ _).trans (Nat.le_add_right _ _))) ?_
  refine settles_except_bind (hpurge.mono (Nat.le_add_left _ _)) ?_
  exact settles_removeUser hu.2

/-- Without a purge a user that has buckets stays, and so does everything else. -/
theorem userRemove_keep (h : Served md5 s) (hu : Existing s uid) (fuel : ℕ) :
    (userRemove fuel uid false).run.run (exec md5) s =
      if ahead s (some uid) [] = [] then some (.ok (), withoutUser s uid)
      else some (.error (.invalidRequest (bytes "user has buckets; use purge-data")), s) := by
  have hexec : exec md5 (.listBuckets (some uid) [] 1) s = (.ok _, s) :=
    Prod.ext (listBuckets_page h.plain (some uid) [] (by decide)) rfl
  have hfirst : ((ahead s (some uid) []).take (pageSize 1)).map rowInfo ≠ [] ↔
      ahead s (some uid) [] ≠ [] := by
    cases ahead s (some uid) [] <;> simp [pageSize]
  have hrun : ∀ (r : RgwResult Unit) (s' : Tables), (do
      let first ← invoke (.listBuckets (some uid) [] 1)
      if first.buckets ≠ [] then
        throw (.invalidRequest (bytes "user has buckets; use purge-data"))
      invoke (.removeUser uid) : Op Unit).run.Settles (exec md5) 1 0 s r s' →
      (userRemove fuel uid false).run.run (exec md5) s = some (r, s') :=
    fun r s' hr => (settles_existing h hu hr).run_eq Nat.one_pos
  by_cases hnone : ahead s (some uid) [] = []
  · rw [if_pos hnone]
    refine hrun _ _ (settles_invoke_bind hexec ?_)
    rw [if_neg (fun hb => hfirst.mp hb hnone)]
    exact settles_removeUser hu.2
  · rw [if_neg hnone]
    refine hrun _ _ (settles_invoke_bind hexec ?_)
    rw [if_pos (hfirst.mpr hnone)]
    exact Or.inl rfl

theorem bucketRemove_purge (h : Served md5 s) {tenant name id : Str} {row : BucketRow}
    (hn : s.bucketNamed tenant name = some (id, row)) (fuel : ℕ) :
    (bucketRemove fuel tenant name true).run.Settles (exec md5) fuel s.objects.size s (.ok ())
      (withoutBuckets s fun id' => id' = id) := by
  obtain ⟨hr, rfl, rfl⟩ := bucketNamed_some hn
  obtain ⟨rfl, htenant, hname⟩ := bucketRow_key h.plain.wf hr
  have hrequire : (requireName row.name).run.Settles (exec md5) fuel s.objects.size s (.ok ()) s := by
    rw [requireName, if_neg (h.plain.name _ row hr)]
    exact Or.inl rfl
  have hload : exec md5 (.loadBucket row.tenant row.name) s = (.ok (rowInfo row), s) := by
    refine Prod.ext ?_ rfl
    change loadBucket row.tenant row.name s = _
    rw [loadBucket, hn]
    rfl
  refine settles_except_bind hrequire (settles_invoke_bind hload ?_)
  rw [htenant, hname]
  have hb : Stored s (rowInfo row) := ⟨row, hr, rfl⟩
  have hpurge := @purge_bucket_settles md5 s h _ hb fuel _ le_rfl Unit _ pure _ (Or.inl rfl)
  simp only [bind_pure] at hpurge
  exact hpurge

end Removals

section Purges

/-- A loop over pages gave up. -/
def Stalled {α : Type} (r : RgwResult α) : Prop :=
  r = .error (.internalError (bytes "bucket listing did not advance")) ∨
    r = .error (.internalError (bytes "object listing did not advance"))

/-- A loop never gives up, however many pages it reads. -/
def Advances {α : Type} (md5 : Str → Str) (s : Tables) (loop : ℕ → Op α) : Prop :=
  ∀ rounds r s', (loop rounds).run.run (exec md5) s = some (r, s') → ¬Stalled r

theorem advances_listAllBuckets (h : PlainBuckets md5 s) (owner : Option UserId) :
    Advances md5 s fun rounds => listAllBuckets rounds owner := by
  intro rounds r s' hr
  have hsettles := @listAllBucketsLoop_settles md5 s owner h rounds [] []
  obtain ⟨rfl, rfl⟩ := Prod.mk.inj (hsettles.unique hr)
  rintro (hstalled | hstalled) <;> cases hstalled

theorem advances_purgeObjects (h : Served md5 s) (bucket : BucketKey) :
    Advances md5 s fun rounds => purgeObjects bucket rounds [] := by
  intro rounds r s' hr
  by_cases hb : bucket.bucketId ∈ s.buckets
  · have hsettles := purgeObjects_settles h.plain.wf rounds hb (past_start h)
    obtain ⟨rfl, rfl⟩ := Prod.mk.inj (hsettles.unique hr)
    rintro (hstalled | hstalled) <;> cases hstalled
  · cases rounds with
    | zero => cases hr
    | succ rounds =>
      have hcheck : checkBucket bucket.bucketId s = .error .noSuchBucket := if_neg hb
      have hpage : exec md5 (.listObjects bucket ⟨[], [], [], 0⟩) s = (.error .noSuchBucket, s) := by
        refine Prod.ext ?_ rfl
        change listObjects bucket _ s = _
        rw [listObjects, hcheck]
        rfl
      change (purgeObjects bucket (rounds + 1) []).run.run (exec md5) s = _ at hr
      rw [purgeObjects, run_except_bind, run_invoke, run_call, hpage] at hr
      obtain ⟨rfl, rfl⟩ := Prod.mk.inj (Option.some.inj hr)
      rintro (hstalled | hstalled) <;> cases hstalled

/-- Purging removes what it should and nothing else, however many pages there are. -/
theorem purging {P : Platform} (h : Reachable P s) :
    (∀ uid, Existing s uid →
      (∀ rounds, (userRemove rounds uid true).run.Settles (exec P.md5) rounds
        (s.buckets.size + s.objects.size) s (.ok ()) (withoutOwner s uid)) ∧
      (∀ rounds, (∀ id, ownedBy s uid id = false) →
        (userRemove rounds uid false).run.run (exec P.md5) s = some (.ok (), withoutUser s uid)) ∧
      ∀ rounds id, ownedBy s uid id = true →
        ∃ e, (userRemove rounds uid false).run.run (exec P.md5) s = some (.error e, s)) ∧
    (∀ tenant name id row, s.bucketNamed tenant name = some (id, row) → ∀ rounds,
      (bucketRemove rounds tenant name true).run.Settles (exec P.md5) rounds s.objects.size s
        (.ok ()) (withoutBuckets s fun id' => id' = id)) ∧
    (∀ owner, Advances P.md5 s fun rounds => listAllBuckets rounds owner) ∧
    ∀ bucket, Advances P.md5 s fun rounds => purgeObjects bucket rounds [] := by
  have hs := reachable_served h
  have hnone : ∀ uid, ahead s (some uid) [] = [] ↔ ∀ id, ownedBy s uid id = false := by
    intro uid
    rw [← listed_ahead hs.plain]
    simp [listed, List.eq_nil_iff_forall_not_mem]
  refine ⟨fun uid hu => ⟨userRemove_purge hs hu, fun rounds hno => ?_, fun rounds id hown => ?_⟩,
    fun tenant name id row hn => bucketRemove_purge hs hn, advances_listAllBuckets hs.plain,
    advances_purgeObjects hs⟩
  · rw [userRemove_keep hs hu, if_pos ((hnone uid).mpr hno)]
  · have hsome : ahead s (some uid) [] ≠ [] := by
      intro hnil
      rw [(hnone uid).mp hnil id] at hown
      cases hown
    rw [userRemove_keep hs hu, if_neg hsome]
    exact ⟨_, rfl⟩

/-- Alice is created, and then she and Bob each create a bucket and upload an object. -/
def operations (i : ℕ) : Operation :=
  let put (user : UserInfo) (path : Str) : Operation :=
    .request (drawn path) (.user ⟨user, bytes "AKID"⟩)
      { bareRequest ⟨bytes "PUT", put_token⟩ path with body := bodyFromBytes [] }
  match i with
  | 0 => .account (.create ⟨0, 0, fun _ => [], []⟩
      ⟨alice.userId, bytes "Alice", none, none, none, some false, none, none, none, none, none⟩)
  | 1 => put alice (bytes "/docs")
  | 2 => put alice (bytes "/docs/a")
  | 3 => put bob (bytes "/other")
  | _ => put bob (bytes "/other/b")

/-- Alice goes with her bucket and its object, and what is Bob's stays. -/
theorem purging_alice : ∃ s, Reachable (.ofTables [] [] []) s ∧
    s.objects.toList.map (fun r => r.1) =
      [(bytes "/docs", bytes "a"), (bytes "/other", bytes "b")] ∧
    (userRemove 5 alice.userId true).run.run (exec (Platform.ofTables [] [] []).md5) s =
      some (.ok (), withoutOwner s alice.userId) ∧
    (withoutOwner s alice.userId).buckets.toList.map (fun r => r.1) = [bytes "/other"] ∧
    (withoutOwner s alice.userId).objects.toList.map (fun r => r.1) =
      [(bytes "/other", bytes "b")] := by
  have hplay : (Config.play (exec (Platform.ofTables [] [] []).md5) [0, 1, 1, 2, 2, 3, 3, 4, 4]
      ([], ⟨.empty, fun i => (operations i).run (.ofTables [] [] [])⟩)).map (fun r =>
        decide (alice.userId.toString ∈ r.2.state.users ∧
          r.2.state.buckets.size + r.2.state.objects.size = 4 ∧
          r.2.state.objects.toList.map (fun r => r.1) =
            [(bytes "/docs", bytes "a"), (bytes "/other", bytes "b")] ∧
          (withoutOwner r.2.state alice.userId).buckets.toList.map (fun r => r.1) = [bytes "/other"] ∧
          (withoutOwner r.2.state alice.userId).objects.toList.map (fun r => r.1) =
            [(bytes "/other", bytes "b")])) = some true := by decide +kernel
  obtain ⟨⟨t, x⟩, hr, hx⟩ := Option.map_eq_some_iff.mp hplay
  obtain ⟨huser, hsize, hobjects, hleft⟩ := of_decide_eq_true hx
  have hreachable : Reachable (.ofTables [] [] []) x.state := ⟨operations, t, x, play_trace .nil hr, rfl⟩
  refine ⟨x.state, hreachable, hobjects, ?_, hleft⟩
  have hpurge := ((purging hreachable).1 alice.userId ⟨by decide, huser⟩).1 5
  refine hpurge.run_eq ?_
  rw [hsize]
  decide

end Purges

end Purging
