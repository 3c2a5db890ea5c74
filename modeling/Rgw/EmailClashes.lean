import Rgw.UserConcurrency

/-! # Emails under concurrent operations

An operation looks an email up in one transaction and stores the record in a later one. The
email is still free there when nobody took it in between. -/
namespace EmailClashes

open ByteStrings TextCodecs SortedMaps Interaction RgwTypes RgwSal RgwSalSqlite StoreInvariants
  RgwAdminOps UserIds UserMutations UserConcurrency OwnerIsolation

section Accounts

/-- An operation that creates, changes or removes a user. -/
inductive Account where
  | create (draws : Draws) (params : UserCreateParams)
  | change (uid : UserId) (m : Mutation)

namespace Account

def uid : Account → UserId
  | create _ params => params.uid
  | change uid _ => uid

def run : Account → Op (Option UserInfo)
  | create draws params => some <$> userCreate draws params
  | change uid m => m.run uid

def writing : Account → Writing
  | create draws params => creationWriting draws params
  | change uid m => mutationWriting uid m

theorem obeys (op : Account) : op.run.run.Obeys (writeDiscipline op.writing) Outcome [] := by
  cases op with
  | create draws params => exact (obeys_map some).mpr (userCreate_edits draws params)
  | change uid m => exact run_obeys uid m

end Account

end Accounts

variable {md5 : Str → Str} {s s' : Tables} {id : UserId} {email : Str}

section Emails

/-- No two users have one email. -/
def UniqueEmails (s : Tables) : Prop :=
  ∀ (uid uid' : Str) (row row' : UserRow), s.users[uid]? = some row → s.users[uid']? = some row' →
    row.info.userEmail ≠ [] → row.info.userEmail = row'.info.userEmail → uid = uid'

/-- Nobody but one user has the email. -/
def NoOther (s : Tables) (id : UserId) (email : Str) : Prop :=
  ∀ (uid : Str) (row : UserRow), s.users[uid]? = some row → row.info.userEmail = email →
    uid = id.toString

/-- The users are stored under ids that are read back. -/
def PlainRows (s : Tables) : Prop :=
  ∀ (uid : Str) (row : UserRow), s.users[uid]? = some row →
    ∃ info, row = userRow info ∧ uid = info.userId.toString ∧ DollarFree info.userId

/-- What tells an operation on `id` that nobody else has the email: no other user is found by
it, or the user itself has it. -/
def Checks (id : UserId) (email : Str) (e : Event DriverCall Reply) : Prop :=
  (∃ r, e = ⟨.loadUserByEmail email, r⟩ ∧
    (r = .error .noSuchUser ∨ ∃ other, r = .ok other ∧ other.userId = id)) ∨
  ∃ loaded, e = ⟨.loadUser id, .ok loaded⟩ ∧ loaded.userEmail = email

/-- Another user was stored with the email. -/
def Takes (id : UserId) (email : Str) (e : Event DriverCall Reply) : Prop :=
  ∃ info, committed e = some (some info) ∧ info.userEmail = email ∧ info.userId ≠ id

theorem row_email (hp : PlainRows s) {uid : Str} {row : UserRow} (hr : s.users[uid]? = some row)
    (he : email ≠ []) : row.email = some email ↔ row.info.userEmail = email := by
  obtain ⟨info, rfl, -, -⟩ := hp uid row hr
  change emailColumn info = some email ↔ info.userEmail = email
  rw [emailColumn]
  split
  · next hnil =>
    rw [hnil]
    constructor
    · intro h
      cases h
    · intro h
      exact absurd h.symm he
  · exact ⟨Option.some.inj, congrArg some⟩

/-- A record that is read from a row has its email and, being plain, its id. -/
theorem read_row (hp : PlainRows s) {uid : Str} {row : UserRow} (hr : s.users[uid]? = some row)
    {loaded : UserInfo} (hl : fromJson row.info = .ok loaded) :
    loaded.userEmail = row.info.userEmail ∧ loaded.userId.toString = uid := by
  obtain ⟨info, rfl, rfl, hplain⟩ := hp uid row hr
  obtain ⟨caps, -, rfl⟩ := fromJson_eq_ok.mp hl
  exact ⟨rfl, congrArg UserId.toString (parse_dollarFree hplain)⟩

/-- A check tells what it should of the tables it reads. -/
theorem checks_noOther (hp : PlainRows s) (hu : UniqueEmails s) (he : email ≠ []) {c : DriverCall}
    (hc : Checks id email ⟨c, (exec md5 c s).1⟩) : NoOther s id email := by
  rcases hc with ⟨r, hev, hr⟩ | ⟨loaded, hev, hl⟩
  · obtain ⟨rfl, hreply⟩ := Sigma.mk.inj_iff.mp hev
    have hlookup : loadUserByEmail email s = r := eq_of_heq hreply
    rw [loadUserByEmail, if_neg he] at hlookup
    cases hf : s.users.toList.find? fun r => r.2.email = some email with
    | none =>
      intro uid row hrow hemail
      have hnone := List.find?_eq_none.mp hf (uid, row) (mem_rows.mpr hrow)
      simp only [decide_eq_true_eq] at hnone
      exact absurd ((row_email hp hrow he).mpr hemail) hnone
    | some found =>
      obtain ⟨uid₀, row₀⟩ := found
      have hrow₀ : s.users[uid₀]? = some row₀ := mem_rows.mp (List.mem_of_find?_eq_some hf)
      have hemail₀ : row₀.info.userEmail = email :=
        (row_email hp hrow₀ he).mp (by simpa using List.find?_some hf)
      rw [hf, Option.map_some, userBy] at hlookup
      have hother : ∃ other, fromJson row₀.info = .ok other ∧ other.userId = id := by
        rcases hr with rfl | ⟨other, rfl, hid⟩
        · exact absurd hlookup (fromJson_ne_noSuchUser _)
        · exact ⟨other, hlookup, hid⟩
      obtain ⟨other, hread, rfl⟩ := hother
      intro uid row hrow hemail
      rw [(read_row hp hrow₀ hread).2]
      apply hu uid uid₀ row row₀ hrow hrow₀
      · rwa [hemail]
      · rw [hemail, hemail₀]
  · obtain ⟨rfl, hreply⟩ := Sigma.mk.inj_iff.mp hev
    have hload : loadUser id s = .ok loaded := eq_of_heq hreply
    rw [loadUser] at hload
    cases hr : s.users[id.toString]? with
    | none => rw [hr] at hload; cases hload
    | some row₀ =>
      rw [hr] at hload
      have hemail₀ := (read_row hp hr hload).1
      intro uid row hrow hemail
      apply hu uid id.toString row row₀ hrow hr
      · rwa [hemail]
      · rw [hemail, ← hemail₀, hl]

end Emails

section Writes

/-- What a call does to the users: nothing, or the one write that it commits. -/
theorem exec_cases (c : DriverCall) :
    (committed ⟨c, (exec md5 c s).1⟩ = none ∧ (exec md5 c s).2.users = s.users) ∨
    (∃ info exclusive, c = .storeUser info exclusive ∧
      committed ⟨c, (exec md5 c s).1⟩ = some (some info) ∧ (exec md5 c s).2 = withUser s info) ∨
    ∃ id, c = .removeUser id ∧ committed ⟨c, (exec md5 c s).1⟩ = some none ∧
      (exec md5 c s).2 = withoutUser s id := by
  cases hw : writeOf c with
  | none => exact Or.inl ⟨committed_none hw, (exec_users hw).1⟩
  | some w =>
    cases c with
    | storeUser info exclusive =>
      rw [exec_storeUser]
      split
      · exact Or.inl ⟨rfl, rfl⟩
      · split
        · exact Or.inr (Or.inl ⟨info, exclusive, rfl, rfl, rfl⟩)
        · exact Or.inl ⟨rfl, rfl⟩
    | removeUser id =>
      rw [exec_removeUser]
      split
      · exact Or.inr (Or.inr ⟨id, rfl, rfl, rfl⟩)
      · exact Or.inl ⟨rfl, rfl⟩
    | _ => cases hw

theorem withUser_row {info : UserInfo} {uid : Str} {row : UserRow}
    (hr : (withUser s info).users[uid]? = some row) :
    (uid = info.userId.toString ∧ row = userRow info) ∨ s.users[uid]? = some row := by
  simp only [withUser, getElem?_insert_eq] at hr
  split at hr
  · next he => exact Or.inl ⟨he.symm, (Option.some.inj hr).symm⟩
  · exact Or.inr hr

theorem withoutUser_row {uid : Str} {row : UserRow}
    (hr : (withoutUser s id).users[uid]? = some row) : s.users[uid]? = some row := by
  simp only [withoutUser, getElem?_erase_eq] at hr
  split at hr
  · cases hr
  · exact hr

theorem noOther_exec {c : DriverCall} (hn : NoOther s id email)
    (ht : ¬Takes id email ⟨c, (exec md5 c s).1⟩) : NoOther (exec md5 c s).2 id email := by
  intro uid row hr he
  rcases @exec_cases md5 s c with ⟨-, hs⟩ | ⟨info, -, -, hcom, hs⟩ | ⟨id', -, -, hs⟩
  · rw [hs] at hr
    exact hn uid row hr he
  · rw [hs] at hr
    rcases withUser_row hr with ⟨rfl, rfl⟩ | hr
    · by_contra hne
      exact ht ⟨info, hcom, he, fun hid => hne (congrArg UserId.toString hid)⟩
    · exact hn uid row hr he
  · rw [hs] at hr
    exact hn uid row (withoutUser_row hr) he

theorem uniqueEmails_withUser (hu : UniqueEmails s) {info : UserInfo}
    (hn : info.userEmail ≠ [] → NoOther s info.userId info.userEmail) :
    UniqueEmails (withUser s info) := by
  intro uid uid' row row' hr hr' hne he
  rcases withUser_row hr with ⟨rfl, rfl⟩ | hr
  · rcases withUser_row hr' with ⟨rfl, -⟩ | hr'
    · rfl
    · exact (hn hne uid' row' hr' he.symm).symm
  · rcases withUser_row hr' with ⟨rfl, rfl⟩ | hr'
    · apply hn (by rwa [he] at hne) uid row hr he
    · exact hu uid uid' row row' hr hr' hne he

end Writes

section Runs

variable {ι : Type} [DecidableEq ι] {ops : ι → Account}
  {t : List (ι × Event DriverCall Reply)}
  {x y : Config DriverCall Reply (RgwResult (Option UserInfo)) Tables ι}

/-- The operations at their start, over an empty store. -/
def start (ops : ι → Account) : Config DriverCall Reply (RgwResult (Option UserInfo)) Tables ι :=
  ⟨.empty, fun i => (ops i).run.run⟩

/-- An email that another user took since an operation's latest check of it is no longer
another's when the operation stores it. -/
def Unraced (t : List (ι × Event DriverCall Reply))
    (x : Config DriverCall Reply (RgwResult (Option UserInfo)) Tables ι)
    (e : ι × Event DriverCall Reply)
    (_ : Config DriverCall Reply (RgwResult (Option UserInfo)) Tables ι) : Prop :=
  ∀ info, committed e.2 = some (some info) → info.userEmail ≠ [] →
    ∀ e', Since (fun m => m.1 = e.1 ∧ Checks info.userId info.userEmail m.2) t e' →
      Takes info.userId info.userEmail e'.2 → NoOther x.state info.userId info.userEmail

/-- Where a run stands: what was checked holds until somebody takes the email. -/
structure Stands (t : List (ι × Event DriverCall Reply)) (s : Tables) : Prop where
  plain : PlainRows s
  unique : UniqueEmails s
  loaded : ∀ i id info, DollarFree id → (i, ⟨.loadUser id, .ok info⟩) ∈ t → info.userId = id
  checked : ∀ i id email after ck before, email ≠ [] → t = after ++ (i, ck) :: before →
    Checks id email ck → (∀ e ∈ after, ¬Takes id email e.2) → NoOther s id email

/-- An edit gives a record the email it was asked to, or leaves the one that it had. -/
theorem edit_email {m : Mutation} {loaded info : UserInfo} (h : Edit m loaded (some info)) :
    info.userEmail = loaded.userEmail ∨
      ∃ draws params, m = .userModify draws params ∧ params.email = some info.userEmail := by
  cases m with
  | userModify draws params =>
    have hmail : info.userEmail = params.email.getD loaded.userEmail := by
      rcases h with ⟨-, -, -, rfl⟩ | ⟨id, key, -, -, rfl⟩ <;> rfl
    cases he : params.email with
    | none =>
      rw [he] at hmail
      exact Or.inl hmail
    | some email =>
      rw [he] at hmail
      exact Or.inr ⟨draws, params, rfl, by rw [he, hmail, Option.getD_some]⟩
  | keyCreate draws accessKey secretKey generate =>
    obtain ⟨id, key, -, -, rfl⟩ := h
    exact Or.inl rfl
  | keyRemove accessKey =>
    obtain ⟨-, rfl⟩ := h
    exact Or.inl rfl
  | capsAdd caps =>
    obtain ⟨parsed, added, -, -, rfl⟩ := h
    exact Or.inl rfl
  | capsRemove caps =>
    obtain ⟨parsed, -, rfl⟩ := h
    exact Or.inl rfl
  | userRemove fuel purgeData => cases h

theorem lookedUp_checks {h : History} (hl : LookedUp h id email) : ∃ e ∈ h, Checks id email e := by
  obtain ⟨r, hm, hr⟩ := hl
  exact ⟨_, hm, Or.inl ⟨r, rfl, hr⟩⟩

/-- What an operation stores is under its own id, and its email was checked. -/
theorem writing_checked {op : Account} {h : History} {info : UserInfo} {exclusive : Bool}
    (hload : ∀ loaded, (⟨.loadUser op.uid, .ok loaded⟩ : Event DriverCall Reply) ∈ h →
      loaded.userId = op.uid)
    (hw : op.writing h (.storeUser info exclusive) (some info)) :
    info.userId = op.uid ∧ (info.userEmail ≠ [] → ∃ e ∈ h, Checks info.userId info.userEmail e) := by
  cases op with
  | create draws params =>
    obtain ⟨info', hinfo, -, hcreated, hlook⟩ := hw
    obtain rfl := Option.some.inj hinfo
    have hid := created_userId hcreated
    refine ⟨hid, fun hne => ?_⟩
    rw [hid]
    exact lookedUp_checks (hlook hne)
  | change uid m =>
    obtain ⟨-, loaded, hl, hedit, hclear⟩ := hw
    have hown : loaded.userId = uid := hload loaded hl
    have hid : info.userId = uid := (edit_userId hedit).trans hown
    refine ⟨hid, fun hne => ?_⟩
    rcases edit_email hedit with hsame | ⟨draws, params, rfl, hparam⟩
    · exact ⟨_, hl, Or.inr ⟨loaded, by rw [hid], hsame.symm⟩⟩
    · rw [edit_userId hedit]
      exact lookedUp_checks (hclear _ hparam hne)

omit [DecidableEq ι] in
theorem stands_start : Stands ([] : List (ι × Event DriverCall Reply)) Tables.empty where
  plain uid row hr := by simp [Tables.empty] at hr
  unique uid uid' row row' hr := by simp [Tables.empty] at hr
  loaded i id info _ hm := by cases hm
  checked i id email after ck before _ ht := by simp at ht

/-- A stored email was checked, and nobody else has it: the operation saw to the first, the
schedule to the second. -/
theorem stored_free {i : ι} {c : DriverCall} {info : UserInfo} {exclusive : Bool}
    (plain : DollarFree (ops i).uid) (h : Stands t s)
    (hc : (writeDiscipline (ops i).writing).allowed (seen i t) c)
    (he : c = .storeUser info exclusive)
    (hcom : committed ⟨c, (exec md5 c s).1⟩ = some (some info))
    (unraced : Unraced t x (i, ⟨c, (exec md5 c s).1⟩) y) (hx : x.state = s) :
    DollarFree info.userId ∧ (info.userEmail ≠ [] → NoOther s info.userId info.userEmail) := by
  subst he
  obtain ⟨hid, hchecked⟩ := writing_checked
    (fun loaded hm => h.loaded i _ loaded plain (mem_seen.mp hm)) (hc.2 _ rfl)
  refine ⟨hid ▸ plain, fun hne => ?_⟩
  obtain ⟨e, hm, he⟩ := hchecked hne
  have hlatest : ∃ m ∈ t, m.1 = i ∧ Checks info.userId info.userEmail m.2 :=
    ⟨(i, e), mem_seen.mp hm, rfl, he⟩
  obtain ⟨after, ⟨j, ck⟩, before, rfl, ⟨rfl, hck⟩, hnone⟩ := latest_split hlatest
  by_cases htaken : ∃ e ∈ after, Takes info.userId info.userEmail e.2
  · obtain ⟨e', he', htakes⟩ := htaken
    rw [← hx]
    exact unraced info hcom hne e' ⟨after, (j, ck), before, rfl, ⟨rfl, hck⟩, hnone, he'⟩ htakes
  · apply h.checked j info.userId info.userEmail after ck before hne rfl hck
    intro e' he' htakes
    exact htaken ⟨e', he', htakes⟩

/-- A record that is loaded under a plain id is that user's. -/
theorem loaded_userId (hp : PlainRows s) {id : UserId} {info : UserInfo} (plain : DollarFree id)
    (hl : loadUser id s = .ok info) : info.userId = id := by
  rw [loadUser] at hl
  cases hr : s.users[id.toString]? with
  | none =>
    rw [hr] at hl
    cases hl
  | some row =>
    rw [hr] at hl
    obtain ⟨stored, rfl, hid, hs⟩ := hp _ row hr
    have hinfo : info.userId = UserId.parse stored.userId.toString := fromJson_userId hl
    rw [hinfo, ← hid, parse_dollarFree plain]

theorem rows_exec {i : ι} {c : DriverCall} (plain : DollarFree (ops i).uid) (h : Stands t s)
    (hc : (writeDiscipline (ops i).writing).allowed (seen i t) c)
    (unraced : Unraced t x (i, ⟨c, (exec md5 c s).1⟩) y) (hx : x.state = s) :
    PlainRows (exec md5 c s).2 ∧ UniqueEmails (exec md5 c s).2 := by
  rcases @exec_cases md5 s c with ⟨-, hs⟩ | ⟨info, exclusive, he, hcom, hs⟩ | ⟨id, -, -, hs⟩
  · constructor
    · intro uid row hr
      rw [hs] at hr
      exact h.plain uid row hr
    · intro uid uid' row row' hr hr'
      rw [hs] at hr hr'
      exact h.unique uid uid' row row' hr hr'
  · obtain ⟨hid, hfree⟩ := stored_free plain h hc he hcom unraced hx
    rw [hs]
    refine ⟨fun uid row hr => ?_, uniqueEmails_withUser h.unique hfree⟩
    rcases withUser_row hr with ⟨rfl, rfl⟩ | hr
    · exact ⟨info, rfl, rfl, hid⟩
    · exact h.plain uid row hr
  · rw [hs]
    constructor
    · intro uid row hr
      exact h.plain uid row (withoutUser_row hr)
    · intro uid uid' row row' hr hr'
      exact h.unique uid uid' row row' (withoutUser_row hr) (withoutUser_row hr')

theorem stands_step {i : ι} {c : DriverCall} (plain : DollarFree (ops i).uid) (h : Stands t s)
    (hc : (writeDiscipline (ops i).writing).allowed (seen i t) c)
    (unraced : Unraced t x (i, ⟨c, (exec md5 c s).1⟩) y) (hx : x.state = s) :
    Stands ((i, ⟨c, (exec md5 c s).1⟩) :: t) (exec md5 c s).2 := by
  have hrows := rows_exec plain h hc unraced hx
  refine ⟨hrows.1, hrows.2, fun j id info hplain hm => ?_, ?_⟩
  · rcases List.mem_cons.mp hm with he | hm
    · obtain ⟨rfl, hreply⟩ := Sigma.mk.inj_iff.mp (Prod.mk.inj he).2
      exact loaded_userId h.plain hplain (eq_of_heq hreply).symm
    · exact h.loaded j id info hplain hm
  · intro j id email after ck before hne ht hck hquiet
    rcases after with - | ⟨e, after⟩
    · obtain ⟨he, rfl⟩ := List.cons.inj ht
      obtain ⟨rfl, rfl⟩ := Prod.mk.inj he
      -- a check is a read, so it speaks of the tables it leaves as well
      have hsame : (exec md5 c s).2 = s := by
        rcases hck with ⟨r, hev, -⟩ | ⟨loaded, hev, -⟩
        · obtain ⟨rfl, -⟩ := Sigma.mk.inj_iff.mp hev
          rfl
        · obtain ⟨rfl, -⟩ := Sigma.mk.inj_iff.mp hev
          rfl
      rw [hsame]
      exact checks_noOther h.plain h.unique hne hck
    · rw [List.cons_append, List.cons.injEq] at ht
      obtain ⟨rfl, rfl⟩ := ht
      rw [List.forall_mem_cons] at hquiet
      apply noOther_exec _ hquiet.1
      exact h.checked j id email after ck before hne rfl hck hquiet.2

theorem loadUserByEmail_unique (hp : PlainRows s) (hu : UniqueEmails s) {uid : Str} {row : UserRow}
    (hr : s.users[uid]? = some row) (he : row.info.userEmail ≠ []) :
    loadUserByEmail row.info.userEmail s = fromJson row.info := by
  have hemail := (row_email hp hr he).mpr rfl
  rw [loadUserByEmail, if_neg he]
  cases hf : s.users.toList.find? fun r => r.2.email = some row.info.userEmail with
  | none =>
    have hnone := List.find?_eq_none.mp hf (uid, row) (mem_rows.mpr hr)
    simp only [decide_eq_true_eq] at hnone
    exact absurd hemail hnone
  | some found =>
    obtain ⟨uid', row'⟩ := found
    have hr' : s.users[uid']? = some row' := mem_rows.mp (List.mem_of_find?_eq_some hf)
    have hemail' : row'.info.userEmail = row.info.userEmail :=
      (row_email hp hr' he).mp (by simpa using List.find?_some hf)
    obtain rfl := hu uid uid' row row' hr hr' he hemail'.symm
    rw [hr] at hr'
    obtain rfl := Option.some.inj hr'
    rfl

/-- No two users have one email, and a lookup by email finds the one user who has it. -/
def Unambiguous (s : Tables) : Prop :=
  UniqueEmails s ∧ ∀ (uid : Str) (row : UserRow), s.users[uid]? = some row →
    row.info.userEmail ≠ [] → loadUserByEmail row.info.userEmail s = fromJson row.info

/-- Where emails are still unique after a store, nobody else had the email that it stored. -/
theorem unraced_step {e : ι × Event DriverCall Reply} (step : Step (exec md5) x e y)
    (unique : UniqueEmails y.state) : Unraced t x e y := by
  intro info hcom hne e' _ _ uid row hrow he
  cases step with
  | call s p i c k hi =>
    have hnew : (exec md5 c s).2 = withUser s info := by
      rcases @exec_cases md5 s c with ⟨hcom', -⟩ | ⟨info', -, -, hcom', hs⟩ | ⟨id, -, hcom', -⟩
      · cases hcom'.symm.trans hcom
      · cases hcom'.symm.trans hcom
        exact hs
      · cases hcom'.symm.trans hcom
    by_contra hother
    have hstays : (withUser s info).users[uid]? = some row := by
      rw [withUser, getElem?_insert_eq, if_neg (Ne.symm hother)]
      exact hrow
    have hstored : (withUser s info).users[info.userId.toString]? = some (userRow info) := by
      rw [withUser, getElem?_insert_eq, if_pos rfl]
    have hunique : UniqueEmails (withUser s info) := hnew ▸ unique
    refine hother (hunique uid _ row (userRow info) hstays hstored ?_ ?_)
    · rwa [he]
    · rw [he]
      rfl

/-- While an email that is taken between another operation's check of it and its store is given
up again in time, no two users have one email, and a lookup by email finds the one user who has
it. Where that holds after every step, no email was taken so. -/
theorem emails_unique (md5 : Str → Str) (ops : ι → Account) (plain : ∀ i, DollarFree (ops i).uid) :
    (Along (exec md5) Unraced (start ops) t x → Unambiguous x.state) ∧
    (Along (exec md5) (fun _ _ _ y => Unambiguous y.state) (start ops) t x →
      Along (exec md5) Unraced (start ops) t x) := by
  constructor
  · intro run
    have stands : Stands t x.state := by
      refine along_invariant (d := fun i => writeDiscipline (ops i).writing)
        (fun t s => Stands t s) ?_ run (fun i => (ops i).obeys) stands_start
      intro t y i e z h step unraced hc
      cases step with
      | call s p i c k hi => exact stands_step (plain i) h hc unraced rfl
    exact ⟨stands.unique, fun uid row hr he =>
      loadUserByEmail_unique stands.plain stands.unique hr he⟩
  · intro run
    exact run.mono fun _ _ _ _ _ step unambiguous => unraced_step step unambiguous.1

def mailbox : Str := bytes "team@example.com"

/-- Two users are created with one email. -/
def sharers (i : Bool) : Account :=
  .create ⟨0, 0, fun _ => [], []⟩
    ⟨.new (if i then bytes "alice" else bytes "bob"), bytes "Team", some mailbox, none, none,
      some false, none, none, none, none, none⟩

/-- One after the other, the second finds the email taken. -/
theorem emails_unique_sharers : ∃ t x, Along (exec sampleMd5) Unraced (start sharers) t x ∧
    t.length = 3 ∧ UniqueEmails x.state := by
  have hplay : (Config.play (exec sampleMd5) [false, false, true] ([], start sharers)).map
      (fun r => r.1.map fun e => (committed e.2).isSome) = some [false, true, false] := by
    decide +kernel
  obtain ⟨⟨t, x⟩, hr, ht⟩ := Option.map_eq_some_iff.mp hplay
  simp only [List.map_eq_cons_iff, List.map_eq_nil_iff] at ht
  obtain ⟨e₃, -, rfl, h₃, e₂, -, rfl, h₂, e₁, -, rfl, h₁, rfl⟩ := ht
  have run : Along (exec sampleMd5) Unraced (start sharers) [e₃, e₂, e₁] x := by
    apply (play_trace .nil hr).along_of_suffix
    intro e before hsuffix y z info hcom hne e' hsince htakes
    obtain ⟨after, m, earlier, rfl, -, -, he'⟩ := hsince
    have hcommit : (committed e.2).isSome := by rw [hcom]; rfl
    rcases List.suffix_cons_iff.mp hsuffix with he | hsuffix
    · obtain ⟨rfl, -⟩ := List.cons.inj he
      rw [h₃] at hcommit
      cases hcommit
    · -- only one call comes before the store, and nothing after it
      have hlength := hsuffix.length_le
      have hpos := List.length_pos_of_mem he'
      simp only [List.length_cons, List.length_append, List.length_nil] at hlength
      omega
  refine ⟨_, x, run, rfl, ?_⟩
  exact ((emails_unique sampleMd5 sharers
    (fun i => by cases i <;> exact ⟨by decide, by decide⟩)).1 run).1

/-- Both look the email up before either is stored, and both have it. -/
theorem email_shared : ¬∀ (md5 : Str → Str) (ops : Bool → Account)
    (t : List (Bool × Event DriverCall Reply))
    (x : Config DriverCall Reply (RgwResult (Option UserInfo)) Tables Bool),
    (∀ i, DollarFree (ops i).uid) → Trace (exec md5) (start ops) t x → UniqueEmails x.state := by
  intro claim
  have hplay : ((Config.play (exec sampleMd5) [false, true, false, true]
      ([], start sharers)).map fun r => (r.2.state.users[bytes "alice"]?.map (·.info.userEmail),
        r.2.state.users[bytes "bob"]?.map (·.info.userEmail))) =
      some (some mailbox, some mailbox) := by decide +kernel
  obtain ⟨⟨t, x⟩, hr, hx⟩ := Option.map_eq_some_iff.mp hplay
  rw [Prod.mk.injEq] at hx
  obtain ⟨alice, ha, hamail⟩ := Option.map_eq_some_iff.mp hx.1
  obtain ⟨bob, hb, hbmail⟩ := Option.map_eq_some_iff.mp hx.2
  have hplain : ∀ i, DollarFree (sharers i).uid := by
    intro i
    cases i <;> exact ⟨by decide, by decide⟩
  have hunique := claim _ sharers t x hplain (play_trace .nil hr)
  have hsame := hunique _ _ alice bob ha hb (by rw [hamail]; decide) (hamail.trans hbmail.symm)
  revert hsame
  decide

end Runs

end EmailClashes
