import Rgw.EmailClashes
import Rgw.StoredCaps

/-! # What one operation on a user leaves

An operation reads until its one write. When it fails, the tables that hold users are as they
were; when it succeeds, one record and the rows of its keys are new, and in the record only what
the operation names. -/
namespace UserAtomicity

open ByteStrings TextCodecs SortedMaps Interaction RgwTypes RgwSal RgwSalSqlite StoreInvariants
  RgwAdminOps UserIds UserMutations UserConcurrency StoredCaps
open EmailClashes (Account)

section Records

variable {draws : Draws} {accessKey secretKey : Option Str} {generate : Bool}
  {before info : UserInfo} {m : Mutation}

/-- All keys but one are as they were; the one is that which is named, if any is. -/
def OneKey (named : Option Str) (before info : UserInfo) : Prop :=
  ∃ id : Str, (∀ n, named = some n → id = n) ∧
    ∀ k : Str, k ≠ id → info.accessKeys[k]? = before.accessKeys[k]?

/-- A modification keeps each field that it is not given, and all keys but the one it adds. -/
structure ModifyKeeps (params : UserModifyParams) (before info : UserInfo) : Prop where
  userId : info.userId = before.userId
  createDate : info.createDate = before.createDate
  caps : info.caps = before.caps
  displayName : params.displayName = none → info.displayName = before.displayName
  email : params.email = none → info.userEmail = before.userEmail
  maxBuckets : params.maxBuckets = none → info.maxBuckets = before.maxBuckets
  suspended : params.suspended = none → info.suspended = before.suspended
  system : params.system = none → info.system = before.system
  admin : params.admin = none → info.admin = before.admin
  keys : OneKey (nonempty params.accessKey) before info
  noKey : nonempty params.accessKey = none → nonempty params.secretKey = none →
    params.generateKey = false → info.accessKeys = before.accessKeys

/-- What an operation does not name stays as it was in the record. -/
def Keeps : Mutation → UserInfo → UserInfo → Prop
  | .userModify _ params, before, info => ModifyKeeps params before info
  | .keyCreate _ accessKey _ _, before, info =>
    info = { before with accessKeys := info.accessKeys } ∧ OneKey (nonempty accessKey) before info
  | .keyRemove accessKey, before, info =>
    info = { before with accessKeys := info.accessKeys } ∧ OneKey (some accessKey) before info
  | .capsAdd _, before, info | .capsRemove _, before, info =>
    info = { before with caps := info.caps }
  | .userRemove _ _, _, _ => True

theorem keyed_oneKey (h : Keyed draws accessKey secretKey generate before info) :
    OneKey accessKey before info := by
  obtain ⟨id, key, hid, -, rfl⟩ := h
  refine ⟨id, fun n hn => ?_, fun k hk => ?_⟩
  · rcases hid with hid | ⟨hnone, -⟩
    · exact Option.some.inj (hid.symm.trans hn)
    · rw [hnone] at hn
      cases hn
  · rw [UserInfo.addAccessKey, getElem?_insert_eq, if_neg (Ne.symm hk)]

/-- Whatever its keys become, a modified record keeps the fields that are not given. -/
theorem modified_keeps {params : UserModifyParams} {keys : Map AccessKey}
    (hk : OneKey (nonempty params.accessKey) before
      { modified params before with accessKeys := keys })
    (hn : nonempty params.accessKey = none → nonempty params.secretKey = none →
      params.generateKey = false → keys = before.accessKeys) :
    ModifyKeeps params before { modified params before with accessKeys := keys } where
  userId := rfl
  createDate := rfl
  caps := rfl
  displayName h := by simp [modified, h]
  email h := by simp [modified, h]
  maxBuckets h := by simp [modified, h]
  suspended h := by simp [modified, h]
  system h := by simp [modified, h]
  admin h := by simp [modified, h]
  keys := hk
  noKey := hn

theorem edit_keeps (h : Edit m before (some info)) : Keeps m before info := by
  cases m with
  | userModify draws params =>
    rcases h with ⟨-, -, -, rfl⟩ | hkeyed
    · exact modified_keeps ⟨(nonempty params.accessKey).getD [], by simp +contextual, fun _ _ => rfl⟩
        fun _ _ _ => rfl
    · have hone : OneKey (nonempty params.accessKey) (modified params before) info :=
        keyed_oneKey hkeyed
      obtain ⟨id, key, hid, hkey, rfl⟩ := hkeyed
      refine modified_keeps hone fun ha hs hg => ?_
      rcases hid with hid | ⟨-, hgen, -⟩
      · rw [ha] at hid
        cases hid
      · rw [hg] at hgen
        cases hgen
  | keyCreate draws accessKey secretKey generate =>
    have hone : OneKey (nonempty accessKey) before info := keyed_oneKey h
    obtain ⟨id, key, -, -, rfl⟩ := h
    exact ⟨rfl, hone⟩
  | keyRemove accessKey =>
    obtain ⟨-, rfl⟩ := h
    refine ⟨rfl, accessKey, fun n hn => Option.some.inj hn, fun k hk => ?_⟩
    rw [getElem?_erase_eq, if_neg (Ne.symm hk)]
  | capsAdd caps =>
    obtain ⟨parsed, added, -, -, rfl⟩ := h
    rfl
  | capsRemove caps =>
    obtain ⟨parsed, -, rfl⟩ := h
    rfl
  | userRemove fuel purgeData => cases h

end Records

section Runs

variable {md5 : Str → Str} {s s' st : Tables} {h : History} {W : Writing} {op : Account}
  {r : RgwResult (Option UserInfo)} {info : UserInfo}

/-- Where an operation that began on `s` stands after its calls so far. -/
structure Stage (md5 : Str → Str) (s : Tables) (W : Writing) (h : History) (st : Tables) : Prop where
  loads : ∀ uid loaded, (⟨.loadUser uid, .ok loaded⟩ : Event DriverCall Reply) ∈ h →
    loadUser uid s = .ok loaded
  unwritten : (∀ e ∈ h, committed e = none) → SameUsers st s
  written : ∀ e h' w, h = e :: h' → committed e = some w → W h' e.1 w ∧
    ∃ st₀, SameUsers st₀ s ∧ exec md5 e.1 st₀ = (e.2, st)

theorem stage_start : Stage md5 s W [] s where
  loads _ _ hm := by cases hm
  unwritten _ := ⟨rfl, rfl⟩
  written _ _ _ he := by cases he

theorem writeOf_committed {e : Event DriverCall Reply} {w : Option UserInfo}
    (h : committed e = some w) : writeOf e.1 = some w := by
  obtain ⟨c, r⟩ := e
  cases c with
  | storeUser info exclusive =>
    cases r with
    | ok _ => exact h
    | error e => cases h
  | removeUser id =>
    cases r with
    | ok _ => exact h
    | error e => cases h
  | _ => cases h

/-- A call that commits no write leaves the users as they were. -/
theorem exec_uncommitted {c : DriverCall} (h : committed ⟨c, (exec md5 c st).1⟩ = none) :
    SameUsers (exec md5 c st).2 st := by
  cases hw : writeOf c with
  | none => exact exec_users hw
  | some w =>
    have herror : ∃ e, (exec md5 c st).1 = .error e := by
      cases c with
      | storeUser info exclusive =>
        cases hr : (exec md5 (.storeUser info exclusive) st).1 with
        | ok _ =>
          rw [hr] at h
          cases h
        | error e => exact ⟨e, rfl⟩
      | removeUser id =>
        cases hr : (exec md5 (.removeUser id) st).1 with
        | ok _ =>
          rw [hr] at h
          cases h
        | error e => exact ⟨e, rfl⟩
      | _ => cases hw
    obtain ⟨e, he⟩ := herror
    rw [exec_error he]
    exact ⟨rfl, rfl⟩

theorem stage_call {c : DriverCall} (hs : Stage md5 s W h st)
    (hc : (writeDiscipline W).allowed h c) :
    Stage md5 s W (⟨c, (exec md5 c st).1⟩ :: h) (exec md5 c st).2 := by
  obtain ⟨hn, hw⟩ := hc
  have hsame : SameUsers st s := hs.unwritten fun e he => committed_none (hn e he)
  refine ⟨fun uid loaded hm => ?_, fun hnone => ?_, fun e h' w he hcom => ?_⟩
  · rcases List.mem_cons.mp hm with he | hm
    · obtain ⟨rfl, hreply⟩ := Sigma.mk.inj_iff.mp he
      rw [← loadUser_congr hsame]
      exact (eq_of_heq hreply).symm
    · exact hs.loads uid loaded hm
  · have hcall := exec_uncommitted (hnone _ List.mem_cons_self)
    exact ⟨hcall.1.trans hsame.1, hcall.2.trans hsame.2⟩
  · obtain ⟨rfl, rfl⟩ := List.cons.inj he
    exact ⟨hw w (writeOf_committed hcom), st, hsame, rfl⟩

/-- An operation ends with the outcome of its last call, whatever it came to. -/
theorem account_stage (run : op.run.run.run (exec md5) s = some (r, s')) :
    ∃ h, Stage md5 s op.writing h s' ∧ Outcome h r :=
  run_invariant (Stage md5 s op.writing) (fun _ _ _ hs hc => stage_call hs hc) stage_start op.obeys
    run

/-- A success is one store, on tables that hold the users the operation began from. -/
theorem account_stored (run : op.run.run.run (exec md5) s = some (.ok (some info), s')) :
    ∃ h exclusive, op.writing h (.storeUser info exclusive) (some info) ∧
      (∀ uid loaded, (⟨.loadUser uid, .ok loaded⟩ : Event DriverCall Reply) ∈ h →
        loadUser uid s = .ok loaded) ∧
      (exclusive = true → info.userId.toString ∉ s.users) ∧ keysFree s info = true ∧
      SameUsers s' (withUser s info) := by
  obtain ⟨h, hs, e, h', rfl, hcom⟩ := account_stage run
  obtain ⟨hw, st, hsame, hexec⟩ := hs.written e h' _ rfl hcom
  have hloads : ∀ uid loaded, (⟨.loadUser uid, .ok loaded⟩ : Event DriverCall Reply) ∈ h' →
      loadUser uid s = .ok loaded := fun uid loaded hm =>
    hs.loads uid loaded (List.mem_cons_of_mem _ hm)
  have hcall := writeOf_committed hcom
  obtain ⟨c, reply⟩ := e
  cases c with
  | storeUser stored exclusive =>
    obtain rfl : stored = info := by simpa [writeOf] using hcall
    dsimp only at hexec hw
    rw [exec_storeUser] at hexec
    by_cases hx : exclusive = true ∧ stored.userId.toString ∈ st.users
    · rw [if_pos hx] at hexec
      obtain ⟨rfl, -⟩ := Prod.mk.inj hexec
      cases hcom
    · rw [if_neg hx] at hexec
      by_cases hf : keysFree st stored = true
      · rw [if_pos hf] at hexec
        obtain ⟨rfl, rfl⟩ := Prod.mk.inj hexec
        refine ⟨h', exclusive, hw, hloads, fun he hm => hx ⟨he, hsame.1 ▸ hm⟩, ?_, ?_⟩
        · rw [← hf]
          exact keysFree_congr fun k => by rw [hsame.2]
        · exact withUser_congr (fun u _ => by rw [hsame.1]) fun k => by rw [hsame.2]
      · rw [if_neg hf] at hexec
        obtain ⟨rfl, -⟩ := Prod.mk.inj hexec
        cases hcom
  | removeUser id => simp [writeOf] at hcall
  | _ => cases hcall

/-- A failure wrote nothing. -/
theorem account_failed {e : RgwError}
    (run : op.run.run.run (exec md5) s = some (.error e, s')) : SameUsers s' s := by
  obtain ⟨h, hs, ho⟩ := account_stage run
  exact hs.unwritten ho

/-- Without an id every operation fails. -/
theorem account_nameless (he : op.uid.isEmpty = true) :
    ∃ e, op.run.run.run (exec md5) s = some (.error e, s) := by
  have hreq : requireUid op.uid = throw (.invalidArgument (bytes "uid is required")) := if_pos he
  refine ⟨.invalidArgument (bytes "uid is required"), ?_⟩
  cases op with
  | create draws params =>
    rw [Account.uid] at hreq
    rw [Account.run, userCreate, hreq]
    rfl
  | change uid m =>
    rw [Account.uid] at hreq
    cases m with
    | userModify draws params =>
      rw [Account.run, Mutation.run, userModify, hreq]
      rfl
    | keyCreate draws accessKey secretKey generate =>
      rw [Account.run, Mutation.run, keyCreate, hreq]
      rfl
    | keyRemove accessKey =>
      rw [Account.run, Mutation.run, keyRemove, hreq]
      rfl
    | capsAdd caps =>
      rw [Account.run, Mutation.run, capsAdd, hreq]
      rfl
    | capsRemove caps =>
      rw [Account.run, Mutation.run, capsRemove, hreq]
      rfl
    | userRemove fuel purgeData =>
      rw [Account.run, Mutation.run, userRemove, hreq]
      rfl

/-- The record of a user, read on its own. -/
theorem userInfo_run {uid : UserId} (he : uid.isEmpty = false) :
    (userInfo uid).run.run (exec md5) s = some (loadUser uid s, s) := by
  have hreq : requireUid uid = pure () := if_neg (by simp [he])
  rw [userInfo, hreq]
  rfl

end Runs

section Effects

variable {md5 : Str → Str} {s s' : Tables} {op : Account} {r : RgwResult (Option UserInfo)}
  {info : UserInfo}

/-- What a stored record was made from, and what was kept of it. -/
def MadeFrom (md5 : Str → Str) (s : Tables) (info : UserInfo) : Account → Prop
  | .create draws params => params.uid.toString ∉ s.users ∧ Created draws params info
  | .change uid m => ∃ before, (userInfo uid).run.run (exec md5) s = some (.ok before, s) ∧
      Edit m before (some info) ∧ Keeps m before info

/-- What an operation leaves when it returns a record. -/
structure Succeeded (md5 : Str → Str) (s s' : Tables) (op : Account) (info : UserInfo) : Prop where
  stored : s'.users[op.uid.toString]? = some (userRow info)
  reported : (userInfo op.uid).run.run (exec md5) s' = some (.ok info, s')
  otherRecords : ∀ uid : Str, uid ≠ op.uid.toString → s'.users[uid]? = s.users[uid]?
  otherKeys : ∀ k uid : Str, uid ≠ op.uid.toString →
    (s'.accessKeys[k]? = some uid ↔ s.accessKeys[k]? = some uid)
  ownKeys : ∀ k : Str, s'.accessKeys[k]? = some op.uid.toString ↔ k ∈ info.accessKeys
  madeFrom : MadeFrom md5 s info op

/-- A record that was loaded has capabilities that are read back. -/
theorem loaded_caps (rows : UserRows s) {uid : UserId} (h : loadUser uid s = .ok info) :
    GoodCaps info.caps := by
  obtain ⟨row, -, hread, -⟩ := loadUser_row rows h
  obtain ⟨caps, hcaps, rfl⟩ := fromJson_eq_ok.mp hread
  exact goodCaps_deserialize hcaps

/-- The record that an operation stores is its own user's, and can be read back. -/
theorem written_record (rows : UserRows s) {h : History} {exclusive : Bool}
    (plain : DollarFree op.uid) (named : op.uid.isEmpty = false)
    (hw : op.writing h (.storeUser info exclusive) (some info))
    (loads : ∀ uid loaded, (⟨.loadUser uid, .ok loaded⟩ : Event DriverCall Reply) ∈ h →
      loadUser uid s = .ok loaded)
    (fresh : exclusive = true → info.userId.toString ∉ s.users) :
    info.userId = op.uid ∧ GoodCaps info.caps ∧ MadeFrom md5 s info op := by
  cases op with
  | create draws params =>
    obtain ⟨stored, hsome, hcall, hcreated, -⟩ := hw
    obtain rfl := Option.some.inj hsome
    obtain ⟨-, rfl⟩ := DriverCall.storeUser.inj hcall
    have hid : info.userId = params.uid := created_userId hcreated
    exact ⟨hid, created_caps hcreated, hid ▸ fresh rfl, hcreated⟩
  | change uid m =>
    obtain ⟨-, loaded, hm, hedit, -⟩ := hw
    have hload := loads uid loaded hm
    obtain ⟨row, -, -, hparsed⟩ := loadUser_row rows hload
    refine ⟨?_, edit_caps hedit (loaded_caps rows hload), loaded, ?_, hedit, edit_keeps hedit⟩
    · rw [edit_userId hedit, hparsed]
      exact parse_dollarFree plain
    · rw [@userInfo_run md5 s uid named, hload]

theorem row_read (hid : DollarFree info.userId) (hc : GoodCaps info.caps) :
    fromJson (userRow info).info = .ok info := by
  refine fromJson_eq_ok.mpr ⟨info.caps, deserialize_serialize hc, ?_⟩
  have hparse : UserId.parse (userRow info).info.userId = info.userId := parse_dollarFree hid
  rw [hparse]
  rfl

theorem account_succeeded (rows : UserRows s) (plain : DollarFree op.uid)
    (run : op.run.run.run (exec md5) s = some (.ok (some info), s')) :
    Succeeded md5 s s' op info := by
  have named : op.uid.isEmpty = false := by
    by_contra hne
    obtain ⟨e, hrun⟩ := @account_nameless md5 s op (by simpa using hne)
    rw [run] at hrun
    cases hrun
  obtain ⟨h, exclusive, hw, loads, fresh, hf, hsame⟩ := account_stored run
  obtain ⟨hid, hcaps, hfrom⟩ :=
    @written_record md5 s op info rows h exclusive plain named hw loads fresh
  rw [← hid] at plain named
  have hrow : s'.users[info.userId.toString]? = some (userRow info) := by
    rw [hsame.1, withUser, getElem?_insert_eq, if_pos rfl]
  have hkeys : ∀ k : Str, s'.accessKeys[k]? = if k ∈ info.accessKeys then
      some info.userId.toString else s.accessKeys[k]?.filter (· ≠ info.userId.toString) := by
    intro k
    rw [hsame.2, withUser_accessKeys]
  refine ⟨hid ▸ hrow, ?_, fun uid hne => ?_, fun k uid hne => ?_, fun k => ?_, hfrom⟩
  · rw [← hid, userInfo_run named, loadUser, hrow, userBy, row_read plain hcaps]
  · rw [← hid] at hne
    rw [hsame.1, withUser, getElem?_insert_eq, if_neg (Ne.symm hne)]
  · rw [← hid] at hne
    rw [hkeys k]
    by_cases hk : k ∈ info.accessKeys
    · have hfree := List.all_eq_true.mp hf k (Std.ExtTreeMap.mem_keys.mpr hk)
      rw [if_pos hk, Option.some.injEq]
      constructor
      · intro he
        exact absurd he.symm hne
      · intro he
        rw [he, Option.all_some, decide_eq_true_eq] at hfree
        exact absurd hfree hne
    · rw [if_neg hk, Option.filter_eq_some_iff, decide_eq_true_eq]
      exact ⟨fun he => he.1, fun he => ⟨he, hne⟩⟩
  · rw [← hid, hkeys k]
    by_cases hk : k ∈ info.accessKeys
    · simp [hk]
    · simp [hk, Option.filter_eq_some_iff]

/-- An operation that fails leaves the users and their keys as they were; one that returns a
record has stored it and touched nothing that it does not name. -/
theorem user_operation_atomic (rows : UserRows s) (op : Account)
    (run : op.run.run.run (exec md5) s = some (r, s')) :
    (∀ e, r = .error e → s'.users = s.users ∧ s'.accessKeys = s.accessKeys) ∧
    ∀ info, r = .ok (some info) → DollarFree op.uid → Succeeded md5 s s' op info := by
  constructor
  · rintro e rfl
    exact account_failed run
  · rintro info rfl plain
    exact account_succeeded rows plain run

def acmeDraws : Draws := ⟨1, 2, fun i => bytes "AKACME" ++ decimal i, bytes "generated"⟩

/-- A modification that generates a key and renames the user. -/
def renameAcme : Account :=
  .change acme.userId (.userModify acmeDraws
    ⟨acme.userId, some (bytes "A. Smith"), none, none, some true, none, none, none, none, true⟩)

/-- The removal of a key that the user does not hold. -/
def unkeyAcme : Account := .change acme.userId (.keyRemove (bytes "AKNONE"))

def renamed : UserInfo × Tables :=
  match renameAcme.run.run.run (exec sampleMd5) acmeTables with
  | some (.ok (some info), s) => (info, s)
  | _ => (acme, .empty)

theorem user_operation_atomic_acme :
    Succeeded sampleMd5 acmeTables renamed.2 renameAcme renamed.1 ∧
      ∃ s, unkeyAcme.run.run.run (exec sampleMd5) acmeTables =
          some (.error .invalidAccessKeyId, s) ∧
        s.users = acmeTables.users ∧ s.accessKeys = acmeTables.accessKeys := by
  have rows : UserRows acmeTables :=
    (@exec_wellFormed sampleMd5 .empty wellFormed_empty (.storeUser acme true)).userRows
  have run : renameAcme.run.run.run (exec sampleMd5) acmeTables =
      some (.ok (some renamed.1), renamed.2) := by decide +kernel
  have failed : unkeyAcme.run.run.run (exec sampleMd5) acmeTables =
      some (.error .invalidAccessKeyId, acmeTables) := by decide +kernel
  have plain : DollarFree acme.userId := by
    constructor <;> decide
  refine ⟨(user_operation_atomic rows renameAcme run).2 _ rfl plain, acmeTables, failed, ?_⟩
  exact (user_operation_atomic rows unkeyAcme failed).1 _ rfl

end Effects

end UserAtomicity
