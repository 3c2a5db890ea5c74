import Rgw.SalSqlite

/-! # What the driver calls keep

Each writing call is one equation: its failures, in order, and the tables it leaves. The
invariants of the tables follow from these. -/
namespace StoreInvariants

open ByteStrings TextCodecs SortedMaps Interaction RgwTypes RgwSal RgwSalSqlite

variable {md5 : Str → Str} {s : Tables}

section Effects

/-- No access key of the record is another user's. -/
def keysFree (s : Tables) (info : UserInfo) : Bool :=
  info.accessKeys.keys.all fun k => s.accessKeys[k]?.all (· = info.userId.toString)

/-- The row a user is stored as. -/
def userRow (info : UserInfo) : UserRow := ⟨emailColumn info, info.serialize⟩

/-- The row a bucket is stored as. -/
def bucketRow (info : BucketInfo) : BucketRow :=
  ⟨info.bucket.tenant, info.bucket.name, info.owner.toString, info.serialize⟩

/-- The row an object is stored as. -/
def objectRow (md5 : Str → Str) (owner : Owner) (attrs : Attrs) (data : Str) (now : Time) :
    ObjectCols :=
  ⟨data.length, hexEncode (md5 data), now, owner.id.toString, owner.displayName, standard, attrs,
    data⟩

def withUser (s : Tables) (info : UserInfo) : Tables :=
  { s with
    users := s.users.insert info.userId.toString (userRow info)
    accessKeys := info.accessKeys.keys.foldl (fun t k => t.insert k info.userId.toString)
      (s.accessKeys.filter fun _ u => u ≠ info.userId.toString) }

def withoutUser (s : Tables) (id : UserId) : Tables :=
  { s with
    users := s.users.erase id.toString
    accessKeys := s.accessKeys.filter fun _ u => u ≠ id.toString }

def withBucket (s : Tables) (info : BucketInfo) : Tables :=
  { s with buckets := s.buckets.insert info.bucket.bucketId (bucketRow info) }

def withoutBucket (s : Tables) (id : Str) : Tables := { s with buckets := s.buckets.erase id }

def withObject (s : Tables) (bucketId name : Str) (row : ObjectCols) : Tables :=
  { s with objects := s.objects.insert (bucketId, name) row }

def withoutObject (s : Tables) (bucketId name : Str) : Tables :=
  { s with objects := s.objects.erase (bucketId, name) }

theorem checkKeyOwner_run (uid k : Str) (s : Tables) : (checkKeyOwner uid k).run s =
    if s.accessKeys[k]?.all (· = uid) then .ok ((), s) else .error .keyExists := by
  cases hk : s.accessKeys[k]? with
  | none => simp [checkKeyOwner, hk]
  | some u => by_cases hu : u = uid <;> simp [checkKeyOwner, hk, hu]

theorem checkKeyOwners_run (uid : Str) (ks : List Str) (s : Tables) :
    (forM ks (checkKeyOwner uid)).run s =
      if ks.all fun k => s.accessKeys[k]?.all (· = uid) then .ok ((), s) else .error .keyExists := by
  induction ks with
  | nil => rfl
  | cons k ks ih =>
    rw [List.forM_cons, StateT.run_bind, checkKeyOwner_run]
    by_cases hk : s.accessKeys[k]?.all (· = uid)
    · simp only [hk, ↓reduceIte, List.all_cons, Bool.true_and]
      exact ih
    · simp [hk]

theorem getElem?_foldl_insert (uid k : Str) (ks : List Str) (t : Map Str) :
    (ks.foldl (fun t k => t.insert k uid) t)[k]? = if k ∈ ks then some uid else t[k]? := by
  induction ks generalizing t with
  | nil => simp
  | cons k' ks ih =>
    rw [List.foldl_cons, ih, getElem?_insert_eq]
    by_cases hk : k ∈ ks
    · simp [hk]
    · simp [hk, eq_comm]

/-- Fresh keys of a stored user go in without a constraint in the way. -/
theorem insertAccessKeys_run (uid : Str) (ks : List Str) (s : Tables) (hu : uid ∈ s.users)
    (hks : ks.Nodup) (hf : ∀ k ∈ ks, k ∉ s.accessKeys) :
    (forM ks (insertAccessKey uid)).run s = .ok ((), { s with
      accessKeys := ks.foldl (fun t k => t.insert k uid) s.accessKeys }) := by
  induction ks generalizing s with
  | nil => rfl
  | cons k ks ih =>
    have hk : (insertAccessKey uid k).run s =
        .ok ((), { s with accessKeys := s.accessKeys.insert k uid }) := by
      simp [insertAccessKey, hf k List.mem_cons_self, hu]
    rw [List.forM_cons, StateT.run_bind, hk]
    refine ih _ hu hks.of_cons fun k' hk' hm => ?_
    rw [Std.ExtTreeMap.mem_insert, Std.LawfulEqCmp.compare_eq_iff_eq] at hm
    rcases hm with rfl | hm
    · exact (List.nodup_cons.mp hks).1 hk'
    · exact hf k' (List.mem_cons_of_mem _ hk') hm

/-- Once the user's own rows are gone, no row holds a free key. -/
theorem keysFree_fresh {info : UserInfo} (hf : keysFree s info) (k : Str)
    (hk : k ∈ info.accessKeys.keys) :
    k ∉ s.accessKeys.filter fun _ u => u ≠ info.userId.toString := by
  have hk' := List.all_eq_true.mp hf k hk
  rw [Std.ExtTreeMap.mem_iff_isSome_getElem?, Std.ExtTreeMap.getElem?_filter']
  cases h : s.accessKeys[k]? with
  | none => simp
  | some u =>
    rw [h] at hk'
    simpa [Option.filter] using hk'

theorem exec_storeUser (info : UserInfo) (exclusive : Bool) :
    exec md5 (.storeUser info exclusive) s =
      if exclusive ∧ info.userId.toString ∈ s.users then (.error .userAlreadyExists, s)
      else if keysFree s info then (.ok (), withUser s info)
      else (.error .keyExists, s) := by
  by_cases hx : exclusive ∧ info.userId.toString ∈ s.users
  · simp [exec, withTx, storeUser, hx.1, hx.2]
  have hcheck := checkKeyOwners_run info.userId.toString info.accessKeys.keys s
  by_cases hf : keysFree s info
  · have hinsert := insertAccessKeys_run info.userId.toString info.accessKeys.keys
      { s with
        users := s.users.insert info.userId.toString (userRow info)
        accessKeys := s.accessKeys.filter fun _ u => u ≠ info.userId.toString }
      (by simp) Std.ExtTreeMap.nodup_keys (keysFree_fresh hf)
    rw [if_neg hx, if_pos hf]
    simp only [ne_eq, decide_not, userRow] at hinsert
    simp [exec, withTx, storeUser, if_neg hx, hcheck.trans (if_pos hf), upsertUser,
      deleteAccessKeys, hinsert, withUser, userRow]
  · rw [if_neg hx, if_neg hf]
    simp [exec, withTx, storeUser, if_neg hx, hcheck.trans (if_neg hf)]

theorem exec_removeUser (id : UserId) : exec md5 (.removeUser id) s =
    if id.toString ∈ s.users then (.ok (), withoutUser s id) else (.error .noSuchUser, s) := by
  by_cases h : id.toString ∈ s.users <;> simp [exec, withTx, removeUser, withoutUser, h]

theorem exec_createBucket (info : BucketInfo) : exec md5 (.createBucket info) s =
    if info.bucket.bucketId ∈ s.buckets ∨ (s.bucketNamed info.bucket.tenant info.bucket.name).isSome
    then (.error .bucketAlreadyExists, s) else (.ok (), withBucket s info) := by
  by_cases hi : info.bucket.bucketId ∈ s.buckets
  · simp [exec, withTx, createBucket, hi]
  · by_cases hn : (s.bucketNamed info.bucket.tenant info.bucket.name).isSome <;>
      simp [exec, withTx, createBucket, insertBucket, withBucket, bucketRow, hi, hn]

theorem exec_removeBucket (tenant name : Str) : exec md5 (.removeBucket tenant name) s =
    match s.bucketNamed tenant name with
    | none => (.error .noSuchBucket, s)
    | some (id, _) =>
      if s.objectsOf id = [] then (.ok (), withoutBucket s id)
      else (.error .bucketNotEmpty, s) := by
  cases h : s.bucketNamed tenant name with
  | none => simp [exec, withTx, removeBucket, h]
  | some r => by_cases ho : s.objectsOf r.1 = [] <;>
      simp [exec, withTx, removeBucket, deleteBucket, withoutBucket, h, ho]

def objectInfo (md5 : Str → Str) (key : ObjectKey) (owner : Owner) (attrs : Attrs) (data : Str)
    (now : Time) : ObjectInfo :=
  ⟨.new key.name, data.length, hexEncode (md5 data), now, owner, standard, attrs⟩

theorem exec_putObject (bucket : BucketKey) (key : ObjectKey) (owner : Owner) (attrs : Attrs)
    (body : ObjectBody) (now : Time) :
    exec md5 (.putObject bucket key owner attrs body now) s =
      match readBody body with
      | .error e => (.error (.internalError e), s)
      | .ok data =>
        if 2 ^ 63 ≤ data.length then (.error outOfRange, s)
        else if bucket.bucketId ∈ s.buckets then
          (.ok (objectInfo md5 key owner attrs data now),
            withObject s bucket.bucketId key.name (objectRow md5 owner attrs data now))
        else (.error .noSuchBucket, s) := by
  cases hb : readBody body with
  | error e => simp [exec, withTx, putObject, hb, Except.mapError]
  | ok data =>
    by_cases hl : 2 ^ 63 ≤ data.length
    · have hsize : toI64 data.length = .error outOfRange := if_neg (by omega)
      dsimp only
      rw [if_pos hl]
      simp [exec, withTx, putObject, hb, Except.mapError, hsize]
    · have hsize : toI64 data.length = .ok data.length := if_pos (by omega)
      dsimp only
      rw [if_neg hl]
      by_cases hi : bucket.bucketId ∈ s.buckets <;>
        simp [exec, withTx, putObject, hb, Except.mapError, hsize, checkBucket, replaceObject,
          hi, withObject, objectRow, objectInfo, ObjectKey.new]

theorem exec_deleteObject (bucket : BucketKey) (key : ObjectKey) :
    exec md5 (.deleteObject bucket key) s =
      if bucket.bucketId ∉ s.buckets then (.error .noSuchBucket, s)
      else if (bucket.bucketId, key.name) ∉ s.objects then (.error .noSuchKey, s)
      else (.ok (), withoutObject s bucket.bucketId key.name) := by
  by_cases hb : bucket.bucketId ∈ s.buckets
  · by_cases ho : (bucket.bucketId, key.name) ∈ s.objects <;>
      simp [exec, withTx, deleteObject, checkBucket, withoutObject, hb, ho]
  · simp [exec, withTx, deleteObject, checkBucket, hb]

end Effects

section Changes

theorem bucketNamed_some {tenant name id : Str} {row : BucketRow}
    (h : s.bucketNamed tenant name = some (id, row)) :
    s.buckets[id]? = some row ∧ row.tenant = tenant ∧ row.name = name := by
  have hp := List.find?_some h
  simp only [decide_eq_true_eq] at hp
  exact ⟨mem_rows.mp (List.mem_of_find?_eq_some h), hp⟩

theorem bucketNamed_none {tenant name id : Str} {row : BucketRow}
    (h : s.bucketNamed tenant name = none) (hr : s.buckets[id]? = some row) :
    ¬(row.tenant = tenant ∧ row.name = name) := by
  have hp := List.find?_eq_none.mp h (id, row) (mem_rows.mpr hr)
  simpa using hp

theorem mem_buckets {id : Str} : id ∈ s.buckets ↔ ∃ row, s.buckets[id]? = some row := by
  rw [Std.ExtTreeMap.mem_iff_isSome_getElem?, Option.isSome_iff_exists]

theorem mem_objectsOf {id name : Str} {row : ObjectCols} :
    (name, row) ∈ s.objectsOf id ↔ s.objects[(id, name)]? = some row := by
  rw [← mem_rows, Tables.objectsOf, List.mem_map]
  constructor
  · rintro ⟨⟨⟨i, n⟩, r⟩, hm, he⟩
    simp only [List.mem_filter, decide_eq_true_eq] at hm
    simp only [Prod.mk.injEq] at he
    obtain ⟨hm, rfl⟩ := hm
    obtain ⟨rfl, rfl⟩ := he
    exact hm
  · intro hm
    exact ⟨((id, name), row), List.mem_filter.mpr ⟨hm, by simp⟩, rfl⟩

theorem objectsOf_sorted (bucketId : Str) :
    ((s.objectsOf bucketId).map Prod.fst).Pairwise (· < ·) := by
  rw [Tables.objectsOf, List.map_map, List.pairwise_map]
  refine ((rows_sorted (t := s.objects)).filter _).imp_of_mem fun {a b} ha hb hab => ?_
  have ha' : a.1.1 = bucketId := by simpa using (List.mem_filter.mp ha).2
  have hb' : b.1.1 = bucketId := by simpa using (List.mem_filter.mp hb).2
  rcases comparePair_lt.mp hab with h | h
  · rw [ha', hb'] at h
    exact absurd h (lt_irrefl _)
  · exact h.2

/-- The rows of a bucket depend on nothing else. -/
theorem objectsOf_congr {s' : Tables} {id : Str}
    (h : ∀ name : Str, s.objects[(id, name)]? = s'.objects[(id, name)]?) :
    s.objectsOf id = s'.objectsOf id := by
  refine rows_unique (objectsOf_sorted id) (objectsOf_sorted id) ?_
  rintro ⟨name, row⟩
  rw [mem_objectsOf, mem_objectsOf, h name]

/-- Everything a call can do to the tables. -/
inductive Change (md5 : Str → Str) (s : Tables) : Tables → Prop where
  | same : Change md5 s s
  | user (info : UserInfo) (free : keysFree s info) : Change md5 s (withUser s info)
  | noUser (id : UserId) (stored : id.toString ∈ s.users) : Change md5 s (withoutUser s id)
  | bucket (info : BucketInfo) (fresh : info.bucket.bucketId ∉ s.buckets)
      (free : s.bucketNamed info.bucket.tenant info.bucket.name = none) :
      Change md5 s (withBucket s info)
  | noBucket (id : Str) (row : BucketRow) (stored : s.buckets[id]? = some row)
      (bare : s.objectsOf id = []) : Change md5 s (withoutBucket s id)
  | object (id name : Str) (owner : Owner) (attrs : Attrs) (data : Str) (now : Time)
      (stored : id ∈ s.buckets) (small : data.length < 2 ^ 63) :
      Change md5 s (withObject s id name (objectRow md5 owner attrs data now))
  | noObject (id name : Str) (stored : (id, name) ∈ s.objects) :
      Change md5 s (withoutObject s id name)

theorem exec_change (c : DriverCall) : Change md5 s (exec md5 c s).2 := by
  cases c with
  | storeUser info exclusive =>
    rw [exec_storeUser]
    split
    · exact .same
    · split
      · exact .user info ‹_›
      · exact .same
  | removeUser id =>
    rw [exec_removeUser]
    split
    · exact .noUser id ‹_›
    · exact .same
  | createBucket info =>
    rw [exec_createBucket]
    split
    · exact .same
    · next h =>
      rw [not_or, Option.not_isSome_iff_eq_none] at h
      exact .bucket info h.1 h.2
  | removeBucket tenant name =>
    rw [exec_removeBucket]
    cases h : s.bucketNamed tenant name with
    | none => exact .same
    | some r =>
      obtain ⟨id, row⟩ := r
      dsimp only
      split
      · exact .noBucket id row (bucketNamed_some h).1 ‹_›
      · exact .same
  | putObject bucket key owner attrs body now =>
    rw [exec_putObject]
    cases readBody body with
    | error e => exact .same
    | ok data =>
      dsimp only
      split
      · exact .same
      · split
        · exact .object _ _ owner attrs data now ‹_› (by omega)
        · exact .same
  | deleteObject bucket key =>
    rw [exec_deleteObject]
    split
    · exact .same
    · split
      · exact .same
      · next h => exact .noObject _ _ (not_not.mp h)
  | _ => exact .same

/-- A call that fails leaves the tables as they were. -/
theorem exec_error {c : DriverCall} {e : RgwError} (h : (exec md5 c s).1 = .error e) :
    (exec md5 c s).2 = s := by
  have htx : ∀ {α : Type} (f : Tx α), (withTx f s).1 = .error e → (withTx f s).2 = s := by
    intro α f hf
    rw [withTx] at hf ⊢
    cases hr : f.run s with
    | error e' => rfl
    | ok r => rw [hr] at hf; cases hf
  cases c <;> first
    | rfl
    | exact htx _ h

end Changes

section Frames

variable {c : DriverCall}

theorem exec_buckets (hc : ∀ info, c ≠ .createBucket info)
    (hr : ∀ tenant name, c ≠ .removeBucket tenant name) : (exec md5 c s).2.buckets = s.buckets := by
  cases c with
  | storeUser info exclusive =>
    rw [exec_storeUser]
    split
    · rfl
    · split <;> rfl
  | removeUser id =>
    rw [exec_removeUser]
    split <;> rfl
  | createBucket info => exact absurd rfl (hc info)
  | removeBucket tenant name => exact absurd rfl (hr tenant name)
  | putObject bucket key owner attrs body now =>
    rw [exec_putObject]
    cases readBody body with
    | error e => rfl
    | ok data =>
      dsimp only
      split
      · rfl
      · split <;> rfl
  | deleteObject bucket key =>
    rw [exec_deleteObject]
    split
    · rfl
    · split <;> rfl
  | _ => rfl

/-- Only a removal takes a bucket row away. -/
theorem exec_buckets_grow (hr : ∀ tenant name, c ≠ .removeBucket tenant name) {id : Str}
    {row : BucketRow} (h : s.buckets[id]? = some row) :
    (exec md5 c s).2.buckets[id]? = some row := by
  by_cases hc : ∃ info, c = .createBucket info
  · obtain ⟨info, rfl⟩ := hc
    rw [exec_createBucket]
    split
    · exact h
    · next hn =>
      rw [not_or] at hn
      have hne : info.bucket.bucketId ≠ id := by
        rintro rfl
        exact hn.1 (Std.ExtTreeMap.mem_iff_isSome_getElem?.mpr (by simp [h]))
      simp [withBucket, getElem?_insert_eq, hne, h]
  · rw [exec_buckets (fun info he => hc ⟨info, he⟩) hr]
    exact h

/-- A bucket row was there before, or is the one a creation stores. -/
theorem exec_buckets_new {id : Str} {row : BucketRow}
    (h : (exec md5 c s).2.buckets[id]? = some row) :
    s.buckets[id]? = some row ∨ ∃ info, c = .createBucket info ∧ info.bucket.bucketId = id := by
  by_cases hc : ∃ info, c = .createBucket info
  · obtain ⟨info, rfl⟩ := hc
    rw [exec_createBucket] at h
    split at h
    · exact Or.inl h
    · simp only [withBucket, getElem?_insert_eq] at h
      split at h
      · next he => exact Or.inr ⟨info, rfl, he⟩
      · exact Or.inl h
  · by_cases hr : ∃ tenant name, c = .removeBucket tenant name
    · obtain ⟨tenant, name, rfl⟩ := hr
      rw [exec_removeBucket] at h
      cases hn : s.bucketNamed tenant name with
      | none => rw [hn] at h; exact Or.inl h
      | some r =>
        rw [hn] at h
        dsimp only at h
        split at h
        · simp only [withoutBucket, getElem?_erase_eq] at h
          split at h
          · cases h
          · exact Or.inl h
        · exact Or.inl h
    · rw [exec_buckets (fun info he => hc ⟨info, he⟩) fun t n he => hr ⟨t, n, he⟩] at h
      exact Or.inl h

/-- A call about one bucket's objects touches nothing else. -/
theorem exec_object_frame {bucket : BucketKey} (hk : objectBucket c = some bucket) :
    (exec md5 c s).2.users = s.users ∧ (exec md5 c s).2.accessKeys = s.accessKeys ∧
    (exec md5 c s).2.buckets = s.buckets ∧ ∀ id name : Str, id ≠ bucket.bucketId →
      (exec md5 c s).2.objects[(id, name)]? = s.objects[(id, name)]? := by
  cases c with
  | putObject b key owner attrs body now =>
    cases hk
    rw [exec_putObject]
    cases readBody body with
    | error e => exact ⟨rfl, rfl, rfl, fun _ _ _ => rfl⟩
    | ok data =>
      dsimp only
      split
      · exact ⟨rfl, rfl, rfl, fun _ _ _ => rfl⟩
      · split
        · refine ⟨rfl, rfl, rfl, fun id name hne => ?_⟩
          simp [withObject, getElem?_insert_eq, Ne.symm hne]
        · exact ⟨rfl, rfl, rfl, fun _ _ _ => rfl⟩
  | deleteObject b key =>
    cases hk
    rw [exec_deleteObject]
    split
    · exact ⟨rfl, rfl, rfl, fun _ _ _ => rfl⟩
    · split
      · exact ⟨rfl, rfl, rfl, fun _ _ _ => rfl⟩
      · refine ⟨rfl, rfl, rfl, fun id name hne => ?_⟩
        simp [withoutObject, getElem?_erase_eq, Ne.symm hne]
  | bucketStats _ | listObjects _ _ | headObject _ _ | getObject _ _ _ =>
    exact ⟨rfl, rfl, rfl, fun _ _ _ => rfl⟩
  | _ => cases hk

/-- Without its bucket such a call fails and changes nothing. -/
theorem exec_object_absent {bucket : BucketKey} (hk : objectBucket c = some bucket)
    (ha : bucket.bucketId ∉ s.buckets) (hw : ∀ body, writtenBody c = some body →
      ∃ data, readBody body = .ok data ∧ data.length < 2 ^ 63) :
    exec md5 c s = (.error .noSuchBucket, s) := by
  have hc : checkBucket bucket.bucketId s = .error .noSuchBucket := if_neg ha
  cases c with
  | bucketStats _ =>
    cases hk
    simp [exec, query, bucketStats, hc]
  | listObjects _ params =>
    cases hk
    simp [exec, query, listObjects, hc]
  | headObject _ key =>
    cases hk
    simp [exec, query, headObject, loadObject, hc]
  | getObject _ key range =>
    cases hk
    simp [exec, query, getObject, loadObject, hc]
  | putObject _ key owner attrs body now =>
    cases hk
    obtain ⟨data, hd, hl⟩ := hw body rfl
    rw [exec_putObject, hd]
    dsimp only
    rw [if_neg (by omega), if_neg ha]
  | deleteObject _ key =>
    cases hk
    rw [exec_deleteObject, if_pos ha]
  | _ => cases hk

/-- A call about one bucket's objects depends on the bucket rows and on these objects alone. -/
theorem exec_object_congr {s' : Tables} {bucket : BucketKey} (hk : objectBucket c = some bucket)
    (hb : s.buckets = s'.buckets) (ho : ∀ name : Str,
      s.objects[(bucket.bucketId, name)]? = s'.objects[(bucket.bucketId, name)]?) :
    (exec md5 c s).1 = (exec md5 c s').1 ∧ ∀ name : Str,
      (exec md5 c s).2.objects[(bucket.bucketId, name)]? =
        (exec md5 c s').2.objects[(bucket.bucketId, name)]? := by
  have hrows := objectsOf_congr ho
  have hload : ∀ name, loadObject bucket.bucketId name s = loadObject bucket.bucketId name s' := by
    intro name
    rw [loadObject, loadObject, checkBucket, checkBucket, hb, ho name]
  cases c with
  | bucketStats _ =>
    cases hk
    refine ⟨?_, ho⟩
    change bucketStats bucket s = bucketStats bucket s'
    rw [bucketStats, bucketStats, checkBucket, checkBucket, hb, hrows]
  | listObjects _ params =>
    cases hk
    refine ⟨?_, ho⟩
    change listObjects bucket params s = listObjects bucket params s'
    rw [listObjects, listObjects, checkBucket, checkBucket, hb, hrows]
  | headObject _ key =>
    cases hk
    exact ⟨hload key.name, ho⟩
  | getObject _ key range =>
    cases hk
    refine ⟨?_, ho⟩
    change getObject bucket key range s = getObject bucket key range s'
    rw [getObject, getObject, hload key.name, ho key.name]
  | putObject _ key owner attrs body now =>
    cases hk
    rw [exec_putObject, exec_putObject, ← hb]
    cases readBody body with
    | error e => exact ⟨rfl, ho⟩
    | ok data =>
      dsimp only
      split
      · exact ⟨rfl, ho⟩
      · split
        · refine ⟨rfl, fun name => ?_⟩
          simp only [withObject, getElem?_insert_eq, ho name]
        · exact ⟨rfl, ho⟩
  | deleteObject _ key =>
    cases hk
    have hmem : (bucket.bucketId, key.name) ∈ s.objects ↔ (bucket.bucketId, key.name) ∈ s'.objects := by
      rw [Std.ExtTreeMap.mem_iff_isSome_getElem?, Std.ExtTreeMap.mem_iff_isSome_getElem?,
        ho key.name]
    rw [exec_deleteObject, exec_deleteObject, ← hb]
    simp only [hmem]
    split
    · exact ⟨rfl, ho⟩
    · split
      · exact ⟨rfl, ho⟩
      · refine ⟨rfl, fun name => ?_⟩
        simp only [withoutObject, getElem?_erase_eq, ho name]
  | _ => cases hk

end Frames

section KeyIndex

/-- The key table is the inverse of the user records. -/
def KeyIndex (s : Tables) : Prop :=
  ∀ k uid : Str, s.accessKeys[k]? = some uid ↔
    ∃ row : UserRow, s.users[uid]? = some row ∧ k ∈ row.info.accessKeys

theorem withUser_accessKeys {info : UserInfo} (k : Str) :
    (withUser s info).accessKeys[k]? = if k ∈ info.accessKeys then some info.userId.toString
      else s.accessKeys[k]?.filter (· ≠ info.userId.toString) := by
  rw [withUser, getElem?_foldl_insert, Std.ExtTreeMap.getElem?_filter']
  simp only [Std.ExtTreeMap.mem_keys]

/-- The stored user takes the keys of its record; the others had none of these. -/
theorem keyIndex_withUser {info : UserInfo} (h : KeyIndex s) (hf : keysFree s info) :
    KeyIndex (withUser s info) := by
  intro k uid
  rw [withUser_accessKeys]
  simp only [withUser, getElem?_insert_eq]
  by_cases hu : info.userId.toString = uid
  · subst hu
    by_cases hk : k ∈ info.accessKeys
    · simp [hk, userRow, UserInfo.serialize]
    · simp [hk, userRow, UserInfo.serialize, Option.filter_eq_some_iff]
  · simp only [hu, ↓reduceIte]
    rw [← h k uid]
    by_cases hk : k ∈ info.accessKeys
    · have hfree := List.all_eq_true.mp hf k (Std.ExtTreeMap.mem_keys.mpr hk)
      simp only [hk, ↓reduceIte, Option.some.injEq, hu, false_iff]
      intro hs
      rw [hs, Option.all_some, decide_eq_true_eq] at hfree
      exact hu hfree.symm
    · simp only [hk, ↓reduceIte, Option.filter_eq_some_iff, decide_eq_true_eq]
      exact ⟨fun hs => hs.1, fun hs => ⟨hs, Ne.symm hu⟩⟩

theorem keyIndex_withoutUser {id : UserId} (h : KeyIndex s) : KeyIndex (withoutUser s id) := by
  intro k uid
  simp only [withoutUser, getElem?_erase_eq, Std.ExtTreeMap.getElem?_filter',
    Option.filter_eq_some_iff, decide_eq_true_eq]
  by_cases hu : id.toString = uid
  · simp [hu]
  · simp only [hu, ↓reduceIte, h k uid]
    exact ⟨fun hs => hs.1, fun hs => ⟨hs, Ne.symm hu⟩⟩

theorem exec_keyIndex (h : KeyIndex s) (c : DriverCall) : KeyIndex (exec md5 c s).2 := by
  have hc : Change md5 s (exec md5 c s).2 := exec_change c
  generalize (exec md5 c s).2 = s' at hc
  cases hc with
  | user info free => exact keyIndex_withUser h free
  | noUser id stored => exact keyIndex_withoutUser h
  | _ => exact h

theorem keyIndex_empty : KeyIndex .empty := fun k uid => by simp [Tables.empty]

end KeyIndex

section Rows

/-- Rows are the rows of stored values, bucket names are unique, and no object is without
its bucket. -/
structure WellFormed (md5 : Str → Str) (s : Tables) : Prop where
  keyIndex : KeyIndex s
  userRows : ∀ (uid : Str) (row : UserRow), s.users[uid]? = some row →
    ∃ info, row = userRow info ∧ uid = info.userId.toString
  bucketRows : ∀ (id : Str) (row : BucketRow), s.buckets[id]? = some row →
    ∃ info, row = bucketRow info ∧ id = info.bucket.bucketId
  bucketNames : ∀ (id id' : Str) (row row' : BucketRow), s.buckets[id]? = some row →
    s.buckets[id']? = some row' → row.tenant = row'.tenant → row.name = row'.name → id = id'
  objectRows : ∀ (id name : Str) (row : ObjectCols), s.objects[(id, name)]? = some row → id ∈ s.buckets ∧
    ∃ owner attrs data now, data.length < 2 ^ 63 ∧ row = objectRow md5 owner attrs data now

theorem wellFormed_empty : WellFormed md5 .empty where
  keyIndex := keyIndex_empty
  userRows _ _ h := by simp [Tables.empty] at h
  bucketRows _ _ h := by simp [Tables.empty] at h
  bucketNames _ _ _ _ h := by simp [Tables.empty] at h
  objectRows _ _ _ h := by simp [Tables.empty] at h

theorem wellFormed_change {s' : Tables} (h : WellFormed md5 s) (hc : Change md5 s s') :
    WellFormed md5 s' := by
  cases hc with
  | same => exact h
  | user info free =>
    refine ⟨keyIndex_withUser h.keyIndex free, fun uid row hr => ?_, h.bucketRows, h.bucketNames,
      h.objectRows⟩
    simp only [withUser, getElem?_insert_eq] at hr
    split at hr
    · next hu => exact ⟨info, (Option.some.inj hr).symm, hu.symm⟩
    · exact h.userRows uid row hr
  | noUser id stored =>
    refine ⟨keyIndex_withoutUser h.keyIndex, fun uid row hr => ?_, h.bucketRows, h.bucketNames,
      h.objectRows⟩
    simp only [withoutUser, getElem?_erase_eq] at hr
    split at hr
    · cases hr
    · exact h.userRows uid row hr
  | bucket info fresh free =>
    have hrow : ∀ (id : Str) (row : BucketRow), (withBucket s info).buckets[id]? = some row →
        (id = info.bucket.bucketId ∧ row = bucketRow info) ∨ s.buckets[id]? = some row := by
      intro id row hr
      simp only [withBucket, getElem?_insert_eq] at hr
      split at hr
      · next hi => exact Or.inl ⟨hi.symm, (Option.some.inj hr).symm⟩
      · exact Or.inr hr
    refine ⟨h.keyIndex, h.userRows, fun id row hr => ?_, fun id id' row row' hr hr' ht hn => ?_,
      fun id name row hr => ?_⟩
    · rcases hrow id row hr with ⟨hi, rfl⟩ | hr
      · exact ⟨info, rfl, hi⟩
      · exact h.bucketRows id row hr
    · rcases hrow id row hr with ⟨rfl, rfl⟩ | hr <;> rcases hrow id' row' hr' with ⟨rfl, rfl⟩ | hr'
      · rfl
      · exact absurd ⟨ht.symm, hn.symm⟩ (bucketNamed_none free hr')
      · exact absurd ⟨ht, hn⟩ (bucketNamed_none free hr)
      · exact h.bucketNames id id' row row' hr hr' ht hn
    · obtain ⟨hb, hd⟩ := h.objectRows id name row hr
      exact ⟨Std.ExtTreeMap.mem_insert.mpr (Or.inr hb), hd⟩
  | noBucket id row stored bare =>
    have hrow : ∀ (id' : Str) (row' : BucketRow), (withoutBucket s id).buckets[id']? = some row' →
        id ≠ id' ∧ s.buckets[id']? = some row' := by
      intro id' row' hr
      simp only [withoutBucket, getElem?_erase_eq] at hr
      split at hr
      · cases hr
      · next hi => exact ⟨hi, hr⟩
    refine ⟨h.keyIndex, h.userRows, fun id' row' hr => h.bucketRows id' row' (hrow id' row' hr).2,
      fun i i' r r' hr hr' => h.bucketNames i i' r r' (hrow i r hr).2 (hrow i' r' hr').2,
      fun id' name row' hr => ?_⟩
    obtain ⟨hb, hd⟩ := h.objectRows id' name row' hr
    have hne : id ≠ id' := by
      rintro rfl
      have hm : (name, row') ∈ s.objectsOf id := mem_objectsOf.mpr hr
      rw [bare] at hm
      cases hm
    refine ⟨?_, hd⟩
    rw [Std.ExtTreeMap.mem_iff_isSome_getElem?] at hb ⊢
    simpa [withoutBucket, getElem?_erase_eq, hne] using hb
  | object id name owner attrs data now stored small =>
    refine ⟨h.keyIndex, h.userRows, h.bucketRows, h.bucketNames, fun id' name' row hr => ?_⟩
    simp only [withObject, getElem?_insert_eq] at hr
    split at hr
    · next hk =>
      simp only [Prod.mk.injEq] at hk
      obtain ⟨rfl, rfl⟩ := hk
      exact ⟨stored, owner, attrs, data, now, small, (Option.some.inj hr).symm⟩
    · exact h.objectRows id' name' row hr
  | noObject id name stored =>
    refine ⟨h.keyIndex, h.userRows, h.bucketRows, h.bucketNames, fun id' name' row hr => ?_⟩
    simp only [withoutObject, getElem?_erase_eq] at hr
    split at hr
    · cases hr
    · exact h.objectRows id' name' row hr

theorem exec_wellFormed (h : WellFormed md5 s) (c : DriverCall) :
    WellFormed md5 (exec md5 c s).2 := wellFormed_change h (exec_change c)

/-- The tables a driver can be over. -/
abbrev Store (md5 : Str → Str) := { s : Tables // WellFormed md5 s }

end Rows

section Loads

/-- The bucket is stored as it was loaded. -/
def Stored (s : Tables) (b : BucketInfo) : Prop :=
  ∃ row, s.buckets[b.bucket.bucketId]? = some row ∧ BucketInfo.deserialize row.info = b

theorem bucketRow_key (h : WellFormed md5 s) {id : Str} {row : BucketRow}
    (hr : s.buckets[id]? = some row) : id = (BucketInfo.deserialize row.info).bucket.bucketId ∧
      row.tenant = (BucketInfo.deserialize row.info).bucket.tenant ∧
      row.name = (BucketInfo.deserialize row.info).bucket.name := by
  obtain ⟨info, rfl, rfl⟩ := h.bucketRows id row hr
  exact ⟨rfl, rfl, rfl⟩

theorem loadBucket_stored (h : WellFormed md5 s) {tenant name : Str} {b : BucketInfo}
    (hl : loadBucket tenant name s = .ok b) : Stored s b := by
  rw [loadBucket] at hl
  cases hn : s.bucketNamed tenant name with
  | none => rw [hn] at hl; cases hl
  | some r =>
    obtain ⟨id, row⟩ := r
    rw [hn] at hl
    obtain rfl := Except.ok.inj hl
    have hr := (bucketNamed_some hn).1
    exact ⟨row, (bucketRow_key h hr).1 ▸ hr, rfl⟩

/-- A stored bucket is the one of its name. -/
theorem stored_named (h : WellFormed md5 s) {b : BucketInfo} (hb : Stored s b) :
    ∃ row, s.bucketNamed b.bucket.tenant b.bucket.name = some (b.bucket.bucketId, row) ∧
      BucketInfo.deserialize row.info = b := by
  obtain ⟨row, hr, hd⟩ := hb
  obtain ⟨-, ht, hname⟩ := bucketRow_key h hr
  rw [hd] at ht hname
  cases hn : s.bucketNamed b.bucket.tenant b.bucket.name with
  | none => exact absurd ⟨ht, hname⟩ (bucketNamed_none hn hr)
  | some r =>
    obtain ⟨id, row'⟩ := r
    obtain ⟨hr', ht', hname'⟩ := bucketNamed_some hn
    have hid := h.bucketNames _ _ _ _ hr' hr (ht'.trans ht.symm) (hname'.trans hname.symm)
    subst hid
    rw [hr] at hr'
    exact ⟨row', rfl, Option.some.inj hr' ▸ hd⟩

end Loads

section Runs

/-- The tables after a sequence of calls. -/
def execAll (md5 : Str → Str) (calls : List DriverCall) (s : Tables) : Tables :=
  calls.foldl (fun s c => (exec md5 c s).2) s

theorem execAll_invariant (inv : Tables → Prop) (keep : ∀ s c, inv s → inv (exec md5 c s).2)
    (calls : List DriverCall) (h : inv s) : inv (execAll md5 calls s) := by
  induction calls generalizing s with
  | nil => exact h
  | cons c calls ih => exact ih (keep s c h)

theorem execAll_wellFormed (calls : List DriverCall) : WellFormed md5 (execAll md5 calls .empty) :=
  execAll_invariant (WellFormed md5) (fun _ c h => exec_wellFormed h c) calls wellFormed_empty

theorem fromJson_ne_noSuchUser (doc : UserDoc) : fromJson doc ≠ .error .noSuchUser := by
  rw [fromJson]
  cases UserInfo.deserialize doc <;> simp [Except.mapError]

/-- After any calls, failed ones included: a key row is there exactly when its user's record
holds the key, so a key has one user and loading by it reads that user's record. -/
theorem access_key_index (md5 : Str → Str) (calls : List DriverCall) :
    let s := execAll md5 calls .empty
    (∀ k uid : Str, s.accessKeys[k]? = some uid ↔
      ∃ row : UserRow, s.users[uid]? = some row ∧ k ∈ row.info.accessKeys) ∧
    (∀ (k uid uid' : Str) (row row' : UserRow), s.users[uid]? = some row →
      s.users[uid']? = some row' → k ∈ row.info.accessKeys → k ∈ row'.info.accessKeys →
      uid = uid') ∧
    (∀ (k uid : Str) (row : UserRow), s.users[uid]? = some row → k ∈ row.info.accessKeys →
      exec md5 (.loadUserByAccessKey k) s = (fromJson row.info, s)) ∧
    (∀ k : Str, (exec md5 (.loadUserByAccessKey k) s).1 = .error .noSuchUser ↔
      ∀ (uid : Str) (row : UserRow), s.users[uid]? = some row → k ∉ row.info.accessKeys) ∧
    ∀ c e, (exec md5 c s).1 = .error e → (exec md5 c s).2 = s := by
  intro s
  have h : KeyIndex s :=
    execAll_invariant KeyIndex (fun _ c hs => exec_keyIndex hs c) calls keyIndex_empty
  have hload : ∀ (k uid : Str) (row : UserRow), s.users[uid]? = some row →
      k ∈ row.info.accessKeys → loadUserByAccessKey k s = fromJson row.info := by
    intro k uid row hr hk
    rw [loadUserByAccessKey, (h k uid).mpr ⟨row, hr, hk⟩, Option.bind_some, hr, userBy]
  refine ⟨h, fun k uid uid' row row' hr hr' hk hk' => ?_, fun k uid row hr hk => ?_, fun k => ?_,
    fun c e => exec_error⟩
  · have hu := (h k uid).mpr ⟨row, hr, hk⟩
    rw [(h k uid').mpr ⟨row', hr', hk'⟩] at hu
    exact (Option.some.inj hu).symm
  · exact Prod.ext (hload k uid row hr hk) rfl
  · constructor
    · intro he uid row hr hk
      exact fromJson_ne_noSuchUser row.info ((hload k uid row hr hk).symm.trans he)
    · intro hn
      cases hk : s.accessKeys[k]? with
      | none => change loadUserByAccessKey k s = _; rw [loadUserByAccessKey, hk]; rfl
      | some uid =>
        obtain ⟨row, hr, hm⟩ := (h k uid).mp hk
        exact absurd hm (hn uid row hr)

end Runs

end StoreInvariants
