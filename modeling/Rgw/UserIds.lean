import Rgw.AdminOps
import Rgw.RestS3Handlers
import Rgw.StoreInvariants

/-! # The string form of a user id as a key

Parsing splits at the first separator and printing leaves it out before an empty tenant, so
the two undo each other except on ids whose text begins with a separator and has another. -/
namespace UserIds

open ByteStrings TextCodecs SortedMaps Interaction RgwTypes RgwSal RgwSalSqlite StoreInvariants
  RgwAuth RgwAdminOps RestS3Handlers

section RoundTrip

/-- Not a leading separator with another one after it. -/
def Faithful (s : Str) : Prop := ¬∃ rest, s = 36 :: rest ∧ (36 : UInt8) ∈ rest

theorem parse_plain {s : Str} (h : (36 : UInt8) ∉ s) : UserId.parse s = ⟨[], s⟩ := by
  rw [UserId.parse, splitOnce_none.mpr h]
  rfl

theorem parse_cut {tenant id : Str} (h : (36 : UInt8) ∉ tenant) :
    UserId.parse (tenant ++ 36 :: id) = ⟨tenant, id⟩ := by
  rw [UserId.parse, splitOnce_some.mpr ⟨rfl, h⟩]
  rfl

/-- An id without a separator in either part. -/
def DollarFree (uid : UserId) : Prop := (36 : UInt8) ∉ uid.tenant ∧ (36 : UInt8) ∉ uid.id

theorem parse_dollarFree {uid : UserId} (h : DollarFree uid) :
    UserId.parse uid.toString = uid := by
  rw [UserId.toString]
  split
  · next ht =>
    rw [parse_plain h.2, ← ht]
  · exact parse_cut h.1

theorem parse_eq_new {s : Str} : UserId.parse s = ⟨[], s⟩ ↔ (36 : UInt8) ∉ s := by
  refine ⟨fun h hm => ?_, parse_plain⟩
  cases hs : splitOnce 36 s with
  | none => exact splitOnce_none.mp hs hm
  | some cut =>
    obtain ⟨tenant, id⟩ := cut
    obtain ⟨rfl, hn⟩ := splitOnce_some.mp hs
    rw [parse_cut hn, UserId.mk.injEq] at h
    have hlen := congrArg List.length h.2
    simp only [List.length_append, List.length_cons] at hlen
    omega

/-- Printing and parsing again gives the same id exactly off the doubled separators. -/
theorem parse_toString_iff (s : Str) :
    UserId.parse (UserId.parse s).toString = UserId.parse s ↔ Faithful s := by
  cases hs : splitOnce 36 s with
  | none =>
    have hn := splitOnce_none.mp hs
    have hp := parse_plain hn
    have hf : Faithful s := by
      rintro ⟨rest, rfl, -⟩
      exact hn List.mem_cons_self
    simp [hp, UserId.toString, hf]
  | some cut =>
    obtain ⟨tenant, id⟩ := cut
    obtain ⟨rfl, hn⟩ := splitOnce_some.mp hs
    rw [parse_cut hn]
    cases tenant with
    | nil =>
      -- printing drops the separator, so what is parsed again is the id alone
      have hf : Faithful ([] ++ 36 :: id) ↔ (36 : UInt8) ∉ id := by
        simp [Faithful]
      rw [hf, UserId.toString, if_pos rfl]
      exact parse_eq_new
    | cons b tenant =>
      have hf : Faithful (b :: tenant ++ 36 :: id) := by
        rintro ⟨rest, h, -⟩
        rw [List.cons_append, List.cons.injEq] at h
        exact hn (h.1 ▸ List.mem_cons_self)
      rw [UserId.toString, if_neg (by simp), parse_cut hn]
      simp only [hf]

/-- A stored uid that stands for an id it can be read back as. -/
def StoredAs (uid : Str) : Prop := ∃ s, Faithful s ∧ uid = (UserId.parse s).toString

theorem storedAs_toString {uid : Str} (h : StoredAs uid) : (UserId.parse uid).toString = uid := by
  obtain ⟨s, hf, rfl⟩ := h
  rw [(parse_toString_iff s).mpr hf]

theorem toString_injective {s t : Str} (hs : Faithful s) (ht : Faithful t)
    (h : (UserId.parse s).toString = (UserId.parse t).toString) :
    UserId.parse s = UserId.parse t := by
  rw [← (parse_toString_iff s).mpr hs, h, (parse_toString_iff t).mpr ht]

theorem parse_injective {uid uid' : Str} (h : StoredAs uid) (h' : StoredAs uid')
    (hp : UserId.parse uid = UserId.parse uid') : uid = uid' := by
  rw [← storedAs_toString h, hp, storedAs_toString h']

end RoundTrip

section Records

variable {md5 : Str → Str} {s : Tables}

theorem deserialize_userId {doc : UserDoc} {info : UserInfo}
    (h : UserInfo.deserialize doc = .ok info) : info.userId = UserId.parse doc.userId := by
  rw [UserInfo.deserialize] at h
  obtain ⟨caps, -, h⟩ := bind_eq_ok.mp h
  cases h
  rfl

/-- A document that is read gives its fields, the uid and the caps parsed. -/
theorem fromJson_eq_ok {doc : UserDoc} {info : UserInfo} :
    fromJson doc = .ok info ↔ ∃ caps, UserCaps.deserialize doc.caps = .ok caps ∧
      info = ⟨.parse doc.userId, doc.displayName, doc.userEmail, doc.accessKeys, caps,
        doc.suspended, doc.maxBuckets, doc.system, doc.admin, doc.createDate⟩ := by
  rw [fromJson, UserInfo.deserialize]
  cases UserCaps.deserialize doc.caps with
  | error e => simp [Except.mapError]
  | ok caps => simp [Except.mapError, eq_comm]

theorem fromJson_userId {doc : UserDoc} {info : UserInfo} (h : fromJson doc = .ok info) :
    info.userId = UserId.parse doc.userId := by
  obtain ⟨caps, -, rfl⟩ := fromJson_eq_ok.mp h
  rfl

/-- Every user row is the row of a record, under its uid. -/
def UserRows (s : Tables) : Prop := ∀ (uid : Str) (row : UserRow), s.users[uid]? = some row →
  ∃ info, row = userRow info ∧ uid = info.userId.toString

/-- What is loaded is read from the row of a record under the uid that it was loaded as. -/
theorem loadUser_row (rows : UserRows s) {uid : UserId} {loaded : UserInfo}
    (h : loadUser uid s = .ok loaded) : ∃ row, s.users[uid.toString]? = some row ∧
      fromJson row.info = .ok loaded ∧ loaded.userId = .parse uid.toString := by
  rw [loadUser] at h
  cases hr : s.users[uid.toString]? with
  | none => rw [hr] at h; cases h
  | some row =>
    rw [hr] at h
    obtain ⟨info, rfl, hu⟩ := rows _ row hr
    refine ⟨_, rfl, h, ?_⟩
    rw [fromJson_userId h, hu]
    rfl

/-- What is loaded after a store has the id that the stored one's text parses to. -/
theorem reload_userId {info reloaded : UserInfo} {exclusive : Bool}
    (hs : (exec md5 (.storeUser info exclusive) s).1 = .ok ())
    (hl : (exec md5 (.loadUser info.userId) (exec md5 (.storeUser info exclusive) s).2).1 =
      .ok reloaded) : reloaded.userId = UserId.parse info.userId.toString := by
  have htables : (exec md5 (.storeUser info exclusive) s).2 = withUser s info := by
    rw [exec_storeUser] at hs ⊢
    split at hs
    · cases hs
    · next hx =>
      rw [if_neg hx]
      split at hs
      · next hf => rw [if_pos hf]
      · cases hs
  rw [htables] at hl
  have hrow : (withUser s info).users[info.userId.toString]? = some (userRow info) := by
    simp [withUser]
  have hload : (exec md5 (.loadUser info.userId) (withUser s info)).1 =
      fromJson info.serialize := by
    change loadUser info.userId (withUser s info) = _
    rw [loadUser, hrow]
    rfl
  rw [hload] at hl
  exact fromJson_userId hl

end Records

section Listing

variable {md5 : Str → Str} {s : Tables}

def listLimit (max : ℕ) : ℕ := if max = 0 then defaultMaxEntries else min max defaultMaxEntries

/-- The uids a listing is of. -/
def listed (marker : Str) (s : Tables) : List Str := s.users.keys.filter (marker < ·)

theorem exec_listUsers (marker : Str) {max : ℕ} (h : max < 2 ^ 62) (hz : max ≠ 0) :
    exec md5 (.listUsers marker max) s =
      (.ok (((listed marker s).take max).map UserId.parse), s) := by
  have hlimit : toI64 (pageSize max) = .ok (max : ℤ) := by
    rw [pageSize, if_neg hz, toI64, if_pos (by omega)]
  simp [exec, query, listUsers, hlimit, listed]

/-- The page an admin listing returns; its marker is the stored uid of its last row. -/
theorem userList_run (hs : ∀ uid ∈ s.users, StoredAs uid) (marker : Str) (max : ℕ) :
    (userList marker max).run.run (exec md5) s =
      some (.ok ⟨((listed marker s).take (listLimit max)).map UserId.parse,
        decide (listLimit max < (listed marker s).length),
        if listLimit max < (listed marker s).length then
          ((listed marker s).take (listLimit max)).getLast?.getD [] else []⟩, s) := by
  have hmax : listLimit max ≤ 1000 := by
    rw [listLimit, defaultMaxEntries]
    split <;> omega
  have hexec : exec md5 (.listUsers marker (listLimit max + 1)) s =
      (.ok (((listed marker s).take (listLimit max + 1)).map UserId.parse), s) :=
    exec_listUsers marker (by omega) (by omega)
  have htake : (((listed marker s).take (listLimit max + 1)).map UserId.parse).take
      (listLimit max) = ((listed marker s).take (listLimit max)).map UserId.parse := by
    rw [← List.map_take, List.take_take, Nat.min_eq_left (Nat.le_succ _)]
  have hcount : listLimit max < (((listed marker s).take (listLimit max + 1)).map
      UserId.parse).length ↔ listLimit max < (listed marker s).length := by
    rw [List.length_map, List.length_take]
    omega
  rw [userList, run_except_bind, run_invoke, run_call]
  change Option.bind (some (exec md5 (.listUsers marker (listLimit max + 1)) s)) _ = _
  rw [hexec, Option.bind_some]
  dsimp only
  rw [run_ok, run_done]
  have hlimit : (if max = 0 then defaultMaxEntries else min max defaultMaxEntries) =
      listLimit max := rfl
  simp only [hlimit, htake, hcount]
  refine congrArg (fun m => some (Except.ok (UserList.mk _ _ m), s)) ?_
  rw [List.getLast?_map]
  cases hl : ((listed marker s).take (listLimit max)).getLast? with
  | none => simp
  | some uid =>
    have hmem : uid ∈ s.users := by
      have hm := List.mem_of_mem_take (List.mem_of_getLast? hl)
      exact Std.ExtTreeMap.mem_keys.mp (List.mem_filter.mp hm).1
    simp [storedAs_toString (hs uid hmem)]

end Listing

section Faithful

variable {md5 : Str → Str}

/-- A user is let in as the owner exactly when the two stored uids are one. -/
theorem access_by_uid {doc : UserDoc} {bucket : BucketDoc} {info : UserInfo} (accessKeyId : Str)
    (h : UserInfo.deserialize doc = .ok info) (hu : StoredAs doc.userId)
    (ho : StoredAs bucket.owner) :
    verifyBucketAccess (.user ⟨info, accessKeyId⟩) (.deserialize bucket) = .ok () ↔
      info.system = true ∨ info.admin = true ∨ doc.userId = bucket.owner := by
  have hid := deserialize_userId h
  have howner : info.userId = (BucketInfo.deserialize bucket).owner ↔
      doc.userId = bucket.owner := by
    rw [hid]
    exact ⟨parse_injective hu ho, fun he => congrArg UserId.parse he⟩
  rw [verifyBucketAccess]
  simp only [Identity.userInfo, howner, Bool.or_eq_true, decide_eq_true_eq, or_assoc]
  by_cases hc : info.system = true ∨ info.admin = true ∨ doc.userId = bucket.owner
  · simp [hc]
  · simp [hc]

/-- The string form is a faithful key of the ids that are not doubly separated: there and only
there it is read back as the id it prints, a stored record is reloaded under its own id, and on
these ids uids, paging markers and ownership tell users apart. -/
theorem uid_faithful (md5 : Str → Str) :
    (∀ s : Str, (UserId.parse s).isEmpty = false →
      (UserId.parse (UserId.parse s).toString = UserId.parse s ↔ Faithful s)) ∧
    (∀ (s : Str) (t : Tables) (info reloaded : UserInfo) (exclusive : Bool),
      info.userId = UserId.parse s → (exec md5 (.storeUser info exclusive) t).1 = .ok () →
      (exec md5 (.loadUser info.userId) (exec md5 (.storeUser info exclusive) t).2).1 =
        .ok reloaded → (reloaded.userId = info.userId ↔ Faithful s)) ∧
    (∀ s t : Str, Faithful s → Faithful t →
      (UserId.parse s).toString = (UserId.parse t).toString → UserId.parse s = UserId.parse t) ∧
    (∀ (t : Tables) (marker : Str) (max : ℕ), (∀ uid ∈ t.users, StoredAs uid) →
      (userList marker max).run.run (exec md5) t =
        some (.ok ⟨((listed marker t).take (listLimit max)).map UserId.parse,
          decide (listLimit max < (listed marker t).length),
          if listLimit max < (listed marker t).length then
            ((listed marker t).take (listLimit max)).getLast?.getD [] else []⟩, t)) ∧
    ∀ (doc : UserDoc) (bucket : BucketDoc) (info : UserInfo) (accessKeyId : Str),
      UserInfo.deserialize doc = .ok info → StoredAs doc.userId → StoredAs bucket.owner →
      (verifyBucketAccess (.user ⟨info, accessKeyId⟩) (.deserialize bucket) = .ok () ↔
        info.system = true ∨ info.admin = true ∨ doc.userId = bucket.owner) := by
  refine ⟨fun s _ => parse_toString_iff s, fun s t info reloaded exclusive hid hs hl => ?_,
    fun s t hs ht h => toString_injective hs ht h, fun t marker max h => userList_run h marker max,
    fun doc bucket info accessKeyId h hu ho => access_by_uid accessKeyId h hu ho⟩
  rw [reload_userId hs hl, hid]
  exact parse_toString_iff s

/-- Under `$a$b` a record is stored as the user `b` of the tenant `a`. -/
theorem doubled_separator :
    ¬∀ s : Str, (UserId.parse s).isEmpty = false →
      UserId.parse (UserId.parse s).toString = UserId.parse s := by
  intro h
  have hs := h (bytes "$a$b") (by decide)
  revert hs
  decide

def acme : UserInfo := .new (.parse (bytes "acme$alice")) (bytes "Alice") 0
def acmeTables : Tables := (exec sampleMd5 (.storeUser acme true) .empty).2
def acmeBucket : BucketInfo :=
  ⟨.new [] (bytes "docs") (bytes "id-1"), acme.userId, 0, defaultPlacement, defaultZonegroup, 0⟩

theorem uid_faithful_acme :
    (UserId.parse (UserId.parse (bytes "acme$alice")).toString =
      UserId.parse (bytes "acme$alice") ↔ Faithful (bytes "acme$alice")) ∧
    (acme.userId = acme.userId ↔ Faithful (bytes "acme$alice")) ∧
    (UserId.parse (bytes "acme$alice") = UserId.parse (bytes "acme$alice")) ∧
    (∃ page, (userList [] 5).run.run (exec sampleMd5) acmeTables = some (.ok page, acmeTables)) ∧
    (verifyBucketAccess (.user ⟨acme, []⟩) (.deserialize acmeBucket.serialize) = .ok () ↔
      acme.system = true ∨ acme.admin = true ∨
        acme.serialize.userId = acmeBucket.serialize.owner) := by
  have hf : Faithful (bytes "acme$alice") := by
    rintro ⟨rest, h, -⟩
    have hhead := congrArg List.head? h
    revert hhead
    simp only [List.head?_cons]
    decide
  have hstored : StoredAs (bytes "acme$alice") := ⟨_, hf, by decide⟩
  have husers : ∀ uid ∈ acmeTables.users, StoredAs uid := by
    intro uid hm
    have hkeys : acmeTables.users.keys = [bytes "acme$alice"] := by decide +kernel
    rw [← Std.ExtTreeMap.mem_keys, hkeys, List.mem_singleton] at hm
    rwa [hm]
  have h := uid_faithful sampleMd5
  refine ⟨h.1 _ (by decide), ?_, h.2.2.1 _ _ hf hf rfl, ⟨_, h.2.2.2.1 _ _ _ husers⟩, ?_⟩
  · exact h.2.1 _ .empty acme acme true rfl (by decide +kernel) (by decide +kernel)
  · exact h.2.2.2.2 _ _ _ _ (by decide +kernel) hstored hstored

end Faithful

end UserIds
