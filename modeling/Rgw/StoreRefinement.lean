import Rgw.StoreInvariants
import Mathlib.Algebra.BigOperators.Ring.Finset
import Mathlib.Algebra.Order.Ring.Nat
import Mathlib.Algebra.Order.BigOperators.Group.List

/-! # The store as a map of buckets to maps of objects

What the tables are for: each bucket has a name, an owner and its objects. The driver's
calls on the tables are the calls on this map. -/
namespace StoreRefinement

open ByteStrings TextCodecs SortedMaps Interaction RgwTypes RgwSal RgwSalSqlite StoreInvariants

section Abstraction

structure StoredObject where
  data : Str
  owner : Owner
  attrs : Attrs
  /-- The instant of the put. -/
  mtime : Time

structure StoredBucket where
  tenant : Str
  name : Str
  owner : UserId
  objects : Map StoredObject

/-- Buckets by their id. -/
abbrev ObjectStore := Map StoredBucket

/-- What an answered call makes of the store. -/
def update (a : ObjectStore) : (c : DriverCall) → Reply c → ObjectStore
  | .createBucket info, .ok _ =>
    a.insert info.bucket.bucketId ⟨info.bucket.tenant, info.bucket.name, info.owner, ∅⟩
  | .removeBucket tenant name, .ok _ => a.filter fun _ b => ¬(b.tenant = tenant ∧ b.name = name)
  | .putObject bucket key owner attrs body now, .ok _ =>
    match readBody body with
    | .ok data => a.modify bucket.bucketId fun b =>
        { b with objects := b.objects.insert key.name ⟨data, owner, attrs, now⟩ }
    | .error _ => a
  | .deleteObject bucket key, .ok _ =>
    a.modify bucket.bucketId fun b => { b with objects := b.objects.erase key.name }
  | _, _ => a

/-- What is read back of an object. -/
def StoredObject.info (md5 : Str → Str) (name : Str) (o : StoredObject) : ObjectInfo :=
  ⟨.new name, o.data.length, hexEncode (md5 o.data), o.mtime,
    ⟨.parse o.owner.id.toString, o.owner.displayName⟩, standard, o.attrs⟩

def StoredObject.row (md5 : Str → Str) (o : StoredObject) : ObjectCols :=
  objectRow md5 o.owner o.attrs o.data o.mtime

def lookup (a : ObjectStore) (bucketId name : Str) : RgwResult StoredObject :=
  match a[bucketId]? with
  | none => .error .noSuchBucket
  | some b => match b.objects[name]? with
    | none => .error .noSuchKey
    | some o => .ok o

def stats (a : ObjectStore) (bucketId : Str) : RgwResult BucketStats :=
  match a[bucketId]? with
  | none => .error .noSuchBucket
  | some b => .ok ⟨b.objects.toList.length, (b.objects.toList.map fun r => r.2.data.length).sum⟩

end Abstraction

variable {md5 : Str → Str} {s s' : Tables} {a : ObjectStore}

section Simulation

/-- The rows are those of the buckets and objects of the map, and no others. -/
structure Simulates (md5 : Str → Str) (s : Tables) (a : ObjectStore) : Prop where
  buckets : ∀ id : Str, s.buckets[id]?.map (fun r => (r.tenant, r.name, r.owner)) =
    a[id]?.map fun b => (b.tenant, b.name, b.owner.toString)
  objects : ∀ id name : Str, s.objects[(id, name)]? =
    (a[id]?.bind fun b => b.objects[name]?).map (StoredObject.row md5)

theorem simulates_empty : Simulates md5 .empty ∅ where
  buckets id := by simp [Tables.empty]
  objects id name := by simp [Tables.empty]

theorem bucket_none (h : Simulates md5 s a) {id : Str} : a[id]? = none ↔ s.buckets[id]? = none := by
  rw [← Option.map_eq_none_iff, ← h.buckets id, Option.map_eq_none_iff]

theorem bucket_some (h : Simulates md5 s a) {id : Str} {row : BucketRow}
    (hr : s.buckets[id]? = some row) :
    ∃ b, a[id]? = some b ∧ b.tenant = row.tenant ∧ b.name = row.name ∧
      b.owner.toString = row.owner := by
  have hb := h.buckets id
  rw [hr, Option.map_some] at hb
  obtain ⟨b, hb, he⟩ := Option.map_eq_some_iff.mp hb.symm
  simp only [Prod.mk.injEq] at he
  exact ⟨b, hb, he⟩

theorem row_some (h : Simulates md5 s a) {id : Str} {b : StoredBucket} (hb : a[id]? = some b) :
    ∃ row, s.buckets[id]? = some row ∧ row.tenant = b.tenant ∧ row.name = b.name ∧
      row.owner = b.owner.toString := by
  have hr := h.buckets id
  rw [hb, Option.map_some] at hr
  obtain ⟨row, hr, he⟩ := Option.map_eq_some_iff.mp hr
  simp only [Prod.mk.injEq] at he
  exact ⟨row, hr, he⟩

theorem names_unique (wf : WellFormed md5 s) (h : Simulates md5 s a) {id id' : Str}
    {b b' : StoredBucket} (hb : a[id]? = some b) (hb' : a[id']? = some b')
    (ht : b.tenant = b'.tenant) (hn : b.name = b'.name) : id = id' := by
  obtain ⟨row, hr, hrt, hrn, -⟩ := row_some h hb
  obtain ⟨row', hr', hrt', hrn', -⟩ := row_some h hb'
  apply wf.bucketNames id id' row row' hr hr'
  · rw [hrt, ht, hrt']
  · rw [hrn, hn, hrn']

theorem simulates_create (h : Simulates md5 s a) {info : BucketInfo}
    (fresh : info.bucket.bucketId ∉ s.buckets) :
    Simulates md5 (withBucket s info) (a.insert info.bucket.bucketId
      ⟨info.bucket.tenant, info.bucket.name, info.owner, ∅⟩) where
  buckets id := by
    simp only [withBucket, getElem?_insert_eq]
    split
    · rfl
    · exact h.buckets id
  objects id name := by
    rw [getElem?_insert_eq]
    split
    · next hid =>
      subst hid
      have hnone : a[info.bucket.bucketId]? = none :=
        (bucket_none h).mpr (by simpa using fresh)
      have hobjects := h.objects info.bucket.bucketId name
      rw [hnone] at hobjects
      simpa [withBucket] using hobjects
    · exact h.objects id name

/-- No other bucket has the name of one. -/
theorem named_filter (wf : WellFormed md5 s) (h : Simulates md5 s a) {id tenant name : Str}
    {row : BucketRow} (hn : s.bucketNamed tenant name = some (id, row)) (id' : Str) :
    (a.filter fun _ b => ¬(b.tenant = tenant ∧ b.name = name))[id']? =
      if id = id' then none else a[id']? := by
  obtain ⟨hr, ht, hname⟩ := bucketNamed_some hn
  obtain ⟨b, hb, hbt, hbn, -⟩ := bucket_some h hr
  rw [Std.ExtTreeMap.getElem?_filter']
  split
  · next hid =>
    subst hid
    rw [hb]
    simp [Option.filter, hbt, hbn, ht, hname]
  · next hid =>
    cases hb' : a[id']? with
    | none => rfl
    | some b' =>
      apply Option.filter_some_pos
      rw [decide_eq_true_iff]
      rintro ⟨hbt', hbn'⟩
      apply hid
      apply names_unique wf h hb hb'
      · rw [hbt, ht, hbt']
      · rw [hbn, hname, hbn']

theorem simulates_remove (wf : WellFormed md5 s) (h : Simulates md5 s a) {id tenant name : Str}
    {row : BucketRow} (hn : s.bucketNamed tenant name = some (id, row))
    (bare : s.objectsOf id = []) :
    Simulates md5 (withoutBucket s id)
      (a.filter fun _ b => ¬(b.tenant = tenant ∧ b.name = name)) where
  buckets id' := by
    rw [named_filter wf h hn, withoutBucket]
    simp only [getElem?_erase_eq]
    split
    · rfl
    · exact h.buckets id'
  objects id' name' := by
    rw [named_filter wf h hn]
    split
    · next hid =>
      subst hid
      cases ho : s.objects[(id, name')]? with
      | none => exact ho
      | some row' =>
        have hmem := mem_objectsOf.mpr ho
        rw [bare] at hmem
        cases hmem
    · exact h.objects id' name'

/-- The objects of a bucket change with its rows. -/
theorem simulates_modify (h : Simulates md5 s a) {id : Str} {f : Map StoredObject → Map StoredObject}
    (hs : s'.buckets = s.buckets) (hother : ∀ id' name : Str, id ≠ id' →
      s'.objects[(id', name)]? = s.objects[(id', name)]?)
    (hsame : ∀ (b : StoredBucket) (name : Str), a[id]? = some b →
      s'.objects[(id, name)]? = (f b.objects)[name]?.map (StoredObject.row md5))
    (hid : id ∈ s.buckets) :
    Simulates md5 s' (a.modify id fun b => { b with objects := f b.objects }) where
  buckets id' := by
    rw [hs, h.buckets id', getElem?_modify_eq]
    split
    · rw [Option.map_map]
      rfl
    · rfl
  objects id' name := by
    rw [getElem?_modify_eq]
    split
    · next he =>
      subst he
      obtain ⟨row, hr⟩ := Option.isSome_iff_exists.mp
        (Std.ExtTreeMap.mem_iff_isSome_getElem?.mp hid)
      obtain ⟨b, hb, -⟩ := bucket_some h hr
      rw [hb]
      exact hsame b name hb
    · next he => rw [hother id' name he, h.objects id' name]

theorem simulates_put (h : Simulates md5 s a) {id name : Str} (hid : id ∈ s.buckets)
    (o : StoredObject) :
    Simulates md5 (withObject s id name (o.row md5))
      (a.modify id fun b => { b with objects := b.objects.insert name o }) := by
  refine simulates_modify (f := (·.insert name o)) h ?_ ?_ ?_ hid
  · rfl
  · intro id' name' hne
    simp [withObject, getElem?_insert_eq, hne]
  · intro b name' hb
    have hobject := h.objects id name'
    rw [hb, Option.bind_some] at hobject
    simp only [withObject, getElem?_insert_eq, Prod.mk.injEq, true_and]
    split
    · rfl
    · exact hobject

theorem simulates_delete (h : Simulates md5 s a) {id name : Str} (hid : id ∈ s.buckets) :
    Simulates md5 (withoutObject s id name)
      (a.modify id fun b => { b with objects := b.objects.erase name }) := by
  refine simulates_modify (f := (·.erase name)) h ?_ ?_ ?_ hid
  · rfl
  · intro id' name' hne
    simp [withoutObject, getElem?_erase_eq, hne]
  · intro b name' hb
    have hobject := h.objects id name'
    rw [hb, Option.bind_some] at hobject
    simp only [withoutObject, getElem?_erase_eq, Prod.mk.injEq, true_and]
    split
    · rfl
    · exact hobject

/-- A call on the tables is the call on the map. -/
theorem simulates_exec (wf : WellFormed md5 s) (h : Simulates md5 s a) (c : DriverCall) :
    Simulates md5 (exec md5 c s).2 (update a c (exec md5 c s).1) := by
  cases c with
  | createBucket info =>
    rw [exec_createBucket]
    split
    · exact h
    · next hfree =>
      rw [not_or] at hfree
      exact simulates_create h hfree.1
  | removeBucket tenant name =>
    rw [exec_removeBucket]
    cases hn : s.bucketNamed tenant name with
    | none => exact h
    | some r =>
      dsimp only
      split
      · next bare => exact simulates_remove wf h hn bare
      · exact h
  | putObject bucket key owner attrs body now =>
    rw [exec_putObject]
    cases hb : readBody body with
    | error e => exact h
    | ok data =>
      dsimp only
      split
      · exact h
      · split
        · next hid =>
          simp only [update, hb]
          exact simulates_put h hid ⟨data, owner, attrs, now⟩
        · exact h
  | deleteObject bucket key =>
    rw [exec_deleteObject]
    split
    · exact h
    · split
      · exact h
      · next hid _ => exact simulates_delete h (not_not.mp hid)
  | storeUser info exclusive =>
    rw [exec_storeUser]
    split
    · exact h
    · split
      · exact ⟨h.buckets, h.objects⟩
      · exact h
  | removeUser id =>
    rw [exec_removeUser]
    split
    · exact ⟨h.buckets, h.objects⟩
    · exact h
  | _ => exact h

end Simulation

section Reads

theorem checkBucket_eq (h : Simulates md5 s a) (id : Str) :
    checkBucket id s = match a[id]? with
      | none => .error .noSuchBucket
      | some _ => .ok () := by
  cases hb : a[id]? with
  | none =>
    apply if_neg
    rw [Std.ExtTreeMap.mem_iff_isSome_getElem?, (bucket_none h).mp hb]
    simp
  | some b =>
    apply if_pos
    rw [Std.ExtTreeMap.mem_iff_isSome_getElem?, Option.isSome_iff_ne_none, ne_eq,
      ← bucket_none h, hb]
    simp

theorem intoInfo_row (name : Str) (o : StoredObject) :
    (ObjectRow.fromRow name (o.row md5)).intoInfo = .ok (o.info md5 name) := by
  have hsize : toU64 (o.data.length : ℤ) = .ok o.data.length := if_pos (by omega)
  simp only [ObjectRow.intoInfo, ObjectRow.fromRow, StoredObject.row, objectRow, hsize, ok_bind]
  rfl

theorem loadObject_eq (h : Simulates md5 s a) (id name : Str) :
    loadObject id name s = (lookup a id name).map (StoredObject.info md5 name) := by
  rw [loadObject, checkBucket_eq h, lookup, h.objects id name]
  cases a[id]? with
  | none => rfl
  | some b =>
    dsimp only
    rw [ok_bind, Option.bind_some]
    cases b.objects[name]? with
    | none => rfl
    | some o => exact intoInfo_row name o

/-- Objects are small enough for a column to count their bytes. -/
theorem object_small (wf : WellFormed md5 s) (h : Simulates md5 s a) {id name : Str}
    {o : StoredObject} (ho : lookup a id name = .ok o) :
    s.objects[(id, name)]? = some (o.row md5) ∧ o.data.length < 2 ^ 63 := by
  have hrow : s.objects[(id, name)]? = some (o.row md5) := by
    rw [h.objects id name]
    rw [lookup] at ho
    cases hb : a[id]? with
    | none => rw [hb] at ho; cases ho
    | some b =>
      rw [hb] at ho
      dsimp only at ho
      cases hn : b.objects[name]? with
      | none => rw [hn] at ho; cases ho
      | some o' =>
        rw [hn] at ho
        cases ho
        rw [Option.bind_some, hn, Option.map_some]
  refine ⟨hrow, ?_⟩
  obtain ⟨-, owner, attrs, data, now, hsmall, he⟩ := wf.objectRows id name _ hrow
  have hdata : o.data = data := congrArg ObjectCols.data he
  rwa [hdata]

/-- A whole object is read in one piece. -/
theorem getObject_whole {bucket : BucketKey} {key : ObjectKey} {o : StoredObject}
    (hload : loadObject bucket.bucketId key.name s = .ok (o.info md5 key.name))
    (hrow : s.objects[(bucket.bucketId, key.name)]? = some (o.row md5))
    (hsmall : o.data.length < 2 ^ 63) :
    getObject bucket key none s = .ok ⟨o.info md5 key.name, none, bodyFromBytes o.data⟩ := by
  have hlen : toI64 (o.info md5 key.name).size = .ok (o.data.length : ℤ) := if_pos hsmall
  rw [getObject, hload]
  simp only [ok_bind, Option.mapM_none, pure_ok, hlen, hrow]
  split
  · next hzero =>
    have hnil : o.data = [] := List.length_eq_zero_iff.mp (by omega)
    rw [hnil]
  · next hzero =>
    have hne : o.data ≠ [] := by
      rintro hnil
      rw [hnil] at hzero
      exact hzero rfl
    have hall : substrBlob (o.row md5).data 1 o.data.length = .ok o.data := by
      rw [substrBlob, StoredObject.row, objectRow, if_neg hne]
      simp
    rw [hall]
    rfl

theorem getObject_eq (wf : WellFormed md5 s) (h : Simulates md5 s a) (bucket : BucketKey)
    (key : ObjectKey) : getObject bucket key none s =
      (lookup a bucket.bucketId key.name).map fun o =>
        ⟨o.info md5 key.name, none, bodyFromBytes o.data⟩ := by
  have hload := loadObject_eq h bucket.bucketId key.name
  cases ho : lookup a bucket.bucketId key.name with
  | error e =>
    rw [ho] at hload
    rw [getObject, hload]
    rfl
  | ok o =>
    rw [ho] at hload
    obtain ⟨hrow, hsmall⟩ := object_small wf h ho
    exact getObject_whole hload hrow hsmall

/-- The rows of a bucket are its objects in name order. -/
theorem objectsOf_eq (h : Simulates md5 s a) {id : Str} {b : StoredBucket} (hb : a[id]? = some b) :
    s.objectsOf id = b.objects.toList.map fun r => (r.1, r.2.row md5) := by
  apply rows_unique (objectsOf_sorted id)
  · rw [List.map_map, List.pairwise_map]
    exact (rows_sorted (t := b.objects)).imp compare_lt.mp
  · rintro ⟨name, row⟩
    rw [mem_objectsOf, h.objects id name, hb, Option.bind_some, Option.map_eq_some_iff,
      List.mem_map]
    constructor
    · rintro ⟨o, ho, he⟩
      exact ⟨(name, o), mem_rows.mpr ho, by rw [he]⟩
    · rintro ⟨⟨name', o⟩, ho, he⟩
      simp only [Prod.mk.injEq] at he
      obtain ⟨rfl, he⟩ := he
      exact ⟨o, mem_rows.mp ho, he⟩

/-- A bucket is empty when it has no rows. -/
theorem objectsOf_nil (h : Simulates md5 s a) {id : Str} {b : StoredBucket} (hb : a[id]? = some b) :
    s.objectsOf id = [] ↔ b.objects = ∅ := by
  rw [objectsOf_eq h hb, List.map_eq_nil_iff, Std.ExtTreeMap.toList_eq_nil_iff]

theorem removeBucket_notEmpty (wf : WellFormed md5 s) (h : Simulates md5 s a) (tenant name : Str) :
    (exec md5 (.removeBucket tenant name) s).1 = .error .bucketNotEmpty ↔
      ∃ (id : Str) (b : StoredBucket), a[id]? = some b ∧ b.tenant = tenant ∧ b.name = name ∧
        b.objects ≠ ∅ := by
  rw [exec_removeBucket]
  cases hn : s.bucketNamed tenant name with
  | none =>
    constructor
    · intro he
      cases he
    · rintro ⟨id, b, hb, ht, hname, -⟩
      obtain ⟨row, hr, hrt, hrn, -⟩ := row_some h hb
      exact absurd ⟨hrt.trans ht, hrn.trans hname⟩ (bucketNamed_none hn hr)
  | some r =>
    obtain ⟨id, row⟩ := r
    obtain ⟨hr, ht, hname⟩ := bucketNamed_some hn
    obtain ⟨b, hb, hbt, hbn, -⟩ := bucket_some h hr
    dsimp only
    split
    · next bare =>
      constructor
      · intro he
        cases he
      · rintro ⟨id', b', hb', ht', hn', hne⟩
        have hid : id' = id := by
          apply names_unique wf h hb' hb
          · rw [ht', hbt, ht]
          · rw [hn', hbn, hname]
        subst hid
        obtain rfl := Option.some.inj (hb.symm.trans hb')
        exact absurd ((objectsOf_nil h hb).mp bare) hne
    · next bare =>
      constructor
      · intro _
        exact ⟨id, b, hb, hbt.trans ht, hbn.trans hname, fun he => bare ((objectsOf_nil h hb).mpr he)⟩
      · intro _
        rfl

end Reads

section Sizes

/-- The bytes of all objects. -/
def dataSize (s : Tables) : ℕ := (s.objects.toList.map fun r => r.2.data.length).sum

theorem objectsOf_size (s : Tables) (id : Str) :
    ((s.objectsOf id).map fun r => r.2.data.length).sum ≤ dataSize s := by
  rw [Tables.objectsOf, List.map_map]
  exact List.Sublist.sum_le_sum (List.filter_sublist.map _) fun _ _ => Nat.zero_le _

theorem bucketStats_eq (h : Simulates md5 s a) (small : dataSize s < 2 ^ 63) (bucket : BucketKey) :
    bucketStats bucket s = stats a bucket.bucketId := by
  rw [bucketStats, checkBucket_eq h, stats]
  cases hb : a[bucket.bucketId]? with
  | none => rfl
  | some b =>
    have hrows := objectsOf_eq h hb
    have hle := objectsOf_size s bucket.bucketId
    rw [hrows, List.map_map] at hle
    have hsum : ((s.objectsOf bucket.bucketId).map fun r => r.2.size).sum =
        ((b.objects.toList.map fun r => r.2.data.length).sum : ℕ) := by
      rw [hrows, List.map_map, Nat.cast_list_sum, List.map_map]
      rfl
    have hlen : ((s.objectsOf bucket.bucketId).map fun r => r.2.size).length =
        b.objects.toList.length := by
      rw [hrows, List.length_map, List.length_map]
    have hbound : (b.objects.toList.map fun r => r.2.data.length).sum < 2 ^ 63 :=
      lt_of_le_of_lt hle small
    have hcount : toU64 ((b.objects.toList.map fun r => r.2.data.length).sum : ℕ) =
        .ok (b.objects.toList.map fun r => r.2.data.length).sum := if_pos (by omega)
    dsimp only
    rw [ok_bind, hsum, if_neg (by omega), hcount, hlen]
    rfl

end Sizes

section Runs

/-- A call over an engine that holds at most `capacity` bytes of objects. The engine may refuse
any call, and leaves the tables as they were when it does. -/
inductive Step (md5 : Str → Str) (capacity : ℕ) (s : Tables) (c : DriverCall) :
    Reply c → Tables → Prop where
  | answered (fits : dataSize (exec md5 c s).2 ≤ capacity) :
      Step md5 capacity s c (exec md5 c s).1 (exec md5 c s).2
  | refused (what : Str) : Step md5 capacity s c (.error (.internalError what)) s

/-- The tables and the map after the same calls on an empty store. -/
inductive Reaches (md5 : Str → Str) (capacity : ℕ) : Tables → ObjectStore → Prop where
  | start : Reaches md5 capacity .empty ∅
  | step {s s' : Tables} {a : ObjectStore} {c : DriverCall} {r : Reply c}
      (h : Reaches md5 capacity s a) (hs : Step md5 capacity s c r s') :
      Reaches md5 capacity s' (update a c r)

variable {capacity : ℕ}

theorem step_error {c : DriverCall} {r : Reply c} (hs : Step md5 capacity s c r s') {e : RgwError}
    (he : r = .error e) : s' = s := by
  cases hs with
  | answered fits => exact exec_error he
  | refused what => rfl

theorem update_error (a : ObjectStore) (c : DriverCall) (e : RgwError) :
    update a c (.error e) = a := by
  cases c <;> rfl

theorem reaches_simulates (h : Reaches md5 capacity s a) :
    WellFormed md5 s ∧ Simulates md5 s a ∧ dataSize s ≤ capacity := by
  induction h with
  | start => exact ⟨wellFormed_empty, simulates_empty, Nat.zero_le _⟩
  | step h hs ih =>
    obtain ⟨wf, hsim, hsize⟩ := ih
    cases hs with
    | answered fits => exact ⟨exec_wellFormed wf _, simulates_exec wf hsim _, fits⟩
    | refused what =>
      rw [update_error]
      exact ⟨wf, hsim, hsize⟩

/-- Every way to look at the tables shows the map. -/
structure Shows (md5 : Str → Str) (s : Tables) (a : ObjectStore) : Prop where
  simulates : Simulates md5 s a
  names : ∀ (id id' : Str) (row row' : BucketRow), s.buckets[id]? = some row →
    s.buckets[id']? = some row' → row.tenant = row'.tenant → row.name = row'.name → id = id'
  parents : ∀ (id name : Str) (row : ObjectCols), s.objects[(id, name)]? = some row →
    id ∈ s.buckets
  removal : ∀ tenant name, (exec md5 (.removeBucket tenant name) s).1 = .error .bucketNotEmpty ↔
    ∃ (id : Str) (b : StoredBucket), a[id]? = some b ∧ b.tenant = tenant ∧ b.name = name ∧
      b.objects ≠ ∅
  head : ∀ bucket key, (exec md5 (.headObject bucket key) s).1 =
    (lookup a bucket.bucketId key.name).map (StoredObject.info md5 key.name)
  whole : ∀ bucket key, (exec md5 (.getObject bucket key none) s).1 =
    (lookup a bucket.bucketId key.name).map fun o =>
      ⟨o.info md5 key.name, none, bodyFromBytes o.data⟩
  sizes : ∀ bucket, (exec md5 (.bucketStats bucket) s).1 = stats a bucket.bucketId

/-- After any calls, answered or refused, the tables are the map that the answered calls make,
and a call that fails changes nothing. -/
theorem driver_refines_map (md5 : Str → Str) (capacity : ℕ) (small : capacity < 2 ^ 63)
    (s : Tables) (a : ObjectStore) (reached : Reaches md5 capacity s a) :
    Shows md5 s a ∧ ∀ (c : DriverCall) (r : Reply c) (s' : Tables),
      Step md5 capacity s c r s' → ∀ e, r = .error e → s' = s ∧ update a c r = a := by
  obtain ⟨wf, hsim, hsize⟩ := reaches_simulates reached
  constructor
  · exact {
      simulates := hsim
      names := wf.bucketNames
      parents := fun id name row hr => (wf.objectRows id name row hr).1
      removal := removeBucket_notEmpty wf hsim
      head := fun bucket key => loadObject_eq hsim bucket.bucketId key.name
      whole := getObject_eq wf hsim
      sizes := bucketStats_eq hsim (lt_of_le_of_lt hsize small) }
  · rintro c r s' hs e rfl
    exact ⟨step_error hs rfl, update_error a c e⟩

def notes : BucketInfo :=
  ⟨.new [] (bytes "notes") (bytes "id-1"), .new (bytes "alice"), 0, bytes "default", bytes "default",
    0⟩

def writeNote : DriverCall :=
  .putObject notes.bucket (.new (bytes "a")) ⟨notes.owner, []⟩ ∅ (bodyFromBytes (bytes "hello")) 7

def notesTables : Tables := execAll sampleMd5 [.createBucket notes, writeNote] .empty

/-- One bucket with one object. -/
def notesStore : ObjectStore :=
  update (update ∅ (.createBucket notes) (.ok ())) writeNote
    (.ok (objectInfo sampleMd5 (.new (bytes "a")) ⟨notes.owner, []⟩ ∅ (bytes "hello") 7))

theorem driver_refines_map_notes :
    (∀ bucket, (exec sampleMd5 (.bucketStats bucket) notesTables).1 =
        stats notesStore bucket.bucketId) ∧
      stats notesStore (bytes "id-1") = .ok ⟨1, 5⟩ := by
  have reached : Reaches sampleMd5 (2 ^ 48) notesTables notesStore :=
    .step (c := writeNote) (.step (c := .createBucket notes) .start (.answered (by decide +kernel)))
      (.answered (by decide +kernel))
  exact ⟨(driver_refines_map sampleMd5 (2 ^ 48) (by decide) notesTables notesStore
    reached).1.sizes, by decide +kernel⟩

end Runs

end StoreRefinement
