import Rgw.CapTexts
import Rgw.UserAtomicity

/-! # Capabilities over the calls on a user

After any calls a user holds the bits that some string granted and no later one took, and the
record that says so is read back. -/
namespace CapGrants

open ByteStrings TextCodecs SortedMaps Interaction RgwTypes RgwSal RgwSalSqlite StoreInvariants
  RgwAdminOps UserIds UserMutations UserConcurrency StoredCaps CapTexts UserAtomicity
open EmailClashes (Account)

section Strings

variable {text : Str} {parsed : UserCaps} {c : Str} {b : CapBit}

/-- What a string grants. -/
def Grants (text : Str) (c : Str) (b : CapBit) : Prop := ∃ items, Spells items text ∧ Gives items c b

/-- A string that is read is read as what it grants. -/
theorem grants_read (h : UserCaps.new.addFromString text = .ok parsed) :
    Holds parsed c b ↔ Grants text c b := by
  have hspelled : ∀ items, Spells items text → (Holds parsed c b ↔ Gives items c b) := by
    intro items hitems
    obtain ⟨caps, hadd, hholds⟩ := addFromString_spelled hitems .new
    rw [h] at hadd
    rw [Except.ok.inj hadd, hholds c b, or_iff_right holds_new]
  constructor
  · intro hheld
    obtain ⟨items, hitems⟩ := (accepted_iff .new text).mp ⟨parsed, h⟩
    exact ⟨items, hitems, (hspelled items hitems).mp hheld⟩
  · rintro ⟨items, hitems, hgives⟩
    exact (hspelled items hitems).mpr hgives

theorem parseCaps_read (h : parseCaps text = .ok parsed) : Holds parsed c b ↔ Grants text c b := by
  rw [parseCaps] at h
  split at h
  · cases h
  · exact grants_read h

/-- What a list of capabilities holds, entry by entry. -/
theorem holds_entries : (∃ e ∈ parsed.iter, c = e.1 ∧ e.2.contains b.perm = true) ↔
    Holds parsed c b := by
  rw [holds_iff]
  constructor
  · rintro ⟨⟨cap, p⟩, he, rfl, hp⟩
    exact ⟨p, mem_rows.mp he, hp⟩
  · rintro ⟨p, hp, hb⟩
    exact ⟨(c, p), mem_rows.mpr hp, rfl, hb⟩

theorem holds_addAll {entries : List (Str × CapPerm)} {caps caps' : UserCaps}
    (h : entries.foldlM (fun caps e => UserCaps.add caps e.1 e.2) caps = .ok caps') :
    Holds caps' c b ↔ Holds caps c b ∨ ∃ e ∈ entries, c = e.1 ∧ e.2.contains b.perm = true := by
  induction entries generalizing caps with
  | nil =>
    cases h
    simp
  | cons e entries ih =>
    rw [List.foldlM_cons] at h
    obtain ⟨caps₁, hadd, h⟩ := bind_eq_ok.mp h
    rw [ih h, holds_add hadd]
    simp [or_assoc]

theorem holds_removeAll {entries : List (Str × CapPerm)} {caps : UserCaps} :
    Holds (entries.foldl (fun caps e => UserCaps.remove caps e.1 e.2) caps) c b ↔
      Holds caps c b ∧ ¬∃ e ∈ entries, c = e.1 ∧ e.2.contains b.perm = true := by
  induction entries generalizing caps with
  | nil => simp
  | cons e entries ih =>
    rw [List.foldl_cons, ih, holds_remove]
    simp [and_assoc]

end Strings

section Calls

/-- A call that creates the user, or gives it capabilities or takes them. -/
inductive CapCall where
  | userCreate (draws : Draws) (params : UserCreateParams)
  | capsAdd (caps : Str)
  | capsRemove (caps : Str)

namespace CapCall

def account (uid : UserId) : CapCall → Account
  | userCreate draws params => .create draws { params with uid := uid }
  | capsAdd caps => .change uid (.capsAdd caps)
  | capsRemove caps => .change uid (.capsRemove caps)

/-- What the string of a call grants. -/
def Gives : CapCall → Str × CapBit → Prop
  | userCreate _ params, x => ∃ text, params.caps = some text ∧ Grants text x.1 x.2
  | capsAdd text, x => Grants text x.1 x.2
  | capsRemove _, _ => False

def Takes : CapCall → Str × CapBit → Prop
  | capsRemove text, x => Grants text x.1 x.2
  | _, _ => False

end CapCall

/-- Calls with what they returned, latest first. -/
abbrev Log := List (CapCall × RgwResult (Option UserInfo))

/-- The calls one after another, each on the store that the last one left. -/
def playCalls (md5 : Str → Str) (uid : UserId) : List CapCall → Log × Tables → Option (Log × Tables)
  | [], r => some r
  | call :: calls, (log, s) => ((call.account uid).run.run.run (exec md5) s).bind fun r =>
    playCalls md5 uid calls ((call, r.1) :: log, r.2)

def Succeeds (r : RgwResult (Option UserInfo)) : Prop := ∃ info, r = .ok info

/-- A bit that some successful call granted and no later successful one took. -/
def Granted (log : Log) (c : Str) (b : CapBit) : Prop :=
  Remaining (fun e x => Succeeds e.2 ∧ e.1.Gives x) (fun e x => Succeeds e.2 ∧ e.1.Takes x) log (c, b)

variable {md5 : Str → Str} {uid : UserId} {s s' : Tables} {log : Log} {call : CapCall}
  {r : RgwResult (Option UserInfo)} {info : UserInfo} {c : Str} {b : CapBit}

theorem account_uid (call : CapCall) (uid : UserId) : (call.account uid).uid = uid := by
  cases call <;> rfl

theorem granted_cons : Granted ((call, r) :: log) c b ↔
    Succeeds r ∧ call.Gives (c, b) ∨ Granted log c b ∧ ¬(Succeeds r ∧ call.Takes (c, b)) :=
  remaining_cons

theorem granted_failed (hr : ¬Succeeds r) : Granted ((call, r) :: log) c b ↔ Granted log c b := by
  rw [granted_cons]
  simp [hr]

theorem granted_succeeded (hr : Succeeds r) : Granted ((call, r) :: log) c b ↔
    call.Gives (c, b) ∨ Granted log c b ∧ ¬call.Takes (c, b) := by
  rw [granted_cons]
  simp [hr]

theorem not_granted (h : ∀ e ∈ log, ¬Succeeds e.2) : ¬Granted log c b := by
  rintro ⟨after, m, before, rfl, hm, -⟩
  exact h m (by simp) hm.1

/-- Every call returns. -/
theorem call_returns (call : CapCall) (uid : UserId) (s : Tables) :
    ∃ r, (call.account uid).run.run.run (exec md5) s = some r := by
  have permits : Permits (uncut DriverCall Reply) := by
    constructor <;> intros <;> trivial
  have hwhole : Anytime (uncut DriverCall Reply) (call.account uid).run := by
    cases call with
    | userCreate draws params => exact anytime_map _ (anytime_userCreate permits draws _)
    | capsAdd caps => exact anytime_map _ (anytime_capsAdd permits caps)
    | capsRemove caps => exact anytime_map _ (anytime_capsRemove permits caps)
  exact run_uncut (hwhole []) s

/-- A success returns a record. -/
theorem call_record {w : Option UserInfo}
    (run : (call.account uid).run.run.run (exec md5) s = some (.ok w, s')) : ∃ info, w = some info := by
  have hmapped : ∀ x : Op UserInfo, (some <$> x).run.run (exec md5) s = some (.ok w, s') →
      ∃ info, w = some info := by
    intro x hx
    rw [map_eq_pure_bind, run_except_bind] at hx
    obtain ⟨⟨r, t⟩, -, hx⟩ := Option.bind_eq_some_iff.mp hx
    cases r with
    | error e => cases hx
    | ok info =>
      cases hx
      exact ⟨info, rfl⟩
  cases call with
  | userCreate draws params => exact hmapped _ run
  | capsAdd caps => exact hmapped _ run
  | capsRemove caps => exact hmapped _ run

end Calls

section Runs

variable {md5 : Str → Str} {uid : UserId} {s s' : Tables} {log : Log} {call : CapCall}
  {r : RgwResult (Option UserInfo)} {info : UserInfo} {c : Str} {b : CapBit}

/-- What the calls so far leave of the user. -/
structure Standing (uid : UserId) (log : Log) (s : Tables) : Prop where
  rows : UserRows s
  absent : s.users[uid.toString]? = none → ∀ e ∈ log, ¬Succeeds e.2
  present : ∀ row, s.users[uid.toString]? = some row → ∃ info, row = userRow info ∧
    info.userId = uid ∧ GoodCaps info.caps ∧ ∀ c b, Holds info.caps c b ↔ Granted log c b

/-- The record is loaded as it was stored. -/
theorem Standing.loaded (h : Standing uid log s) (plain : DollarFree uid)
    (hload : loadUser uid s = .ok info) :
    info.userId = uid ∧ GoodCaps info.caps ∧ ∀ c b, Holds info.caps c b ↔ Granted log c b := by
  obtain ⟨row, hrow, hread, -⟩ := loadUser_row h.rows hload
  obtain ⟨stored, rfl, hid, hgood, hholds⟩ := h.present row hrow
  rw [row_read (hid ▸ plain) hgood] at hread
  obtain rfl := Except.ok.inj hread
  exact ⟨hid, hgood, hholds⟩

/-- A new record holds what the string of its creation grants. -/
theorem created_holds {draws : Draws} {params : UserCreateParams} (h : Created draws params info) :
    Holds info.caps c b ↔ ∃ text, params.caps = some text ∧ Grants text c b := by
  obtain ⟨caps, hcaps, hinfo⟩ := h
  have hsame : info.caps = caps := by
    rcases hinfo with ⟨-, -, -, rfl⟩ | ⟨id, key, -, -, rfl⟩ <;> rfl
  rw [hsame]
  cases hparam : params.caps with
  | none =>
    rw [hparam] at hcaps
    cases hcaps
    simp [holds_new]
  | some text =>
    have hread : UserCaps.new.addFromString text = .ok caps := by
      by_cases hnil : text = []
      · rw [hparam, hnil] at hcaps
        rw [hnil]
        exact hcaps
      · have hgiven : nonempty (some text) = some text := by simp [nonempty, hnil]
        rwa [hparam, hgiven] at hcaps
    simp [grants_read hread]

/-- What a call that returns a record made of the capabilities. -/
theorem made_caps (h : Standing uid log s) (plain : DollarFree uid) (nonempty : uid.isEmpty = false)
    (hmade : MadeFrom md5 s info (call.account uid)) : info.userId = uid ∧ GoodCaps info.caps ∧
      ∀ c b, Holds info.caps c b ↔ call.Gives (c, b) ∨ Granted log c b ∧ ¬call.Takes (c, b) := by
  have hbefore : ∀ {before : UserInfo} {m : Mutation},
      (userInfo uid).run.run (exec md5) s = some (.ok before, s) → Edit m before (some info) →
      info.userId = uid ∧ GoodCaps info.caps ∧ ∀ c b, Holds before.caps c b ↔ Granted log c b := by
    intro before m hrun hedit
    rw [userInfo_run nonempty, Option.some.injEq, Prod.mk.injEq] at hrun
    obtain ⟨hid, hgood, hholds⟩ := h.loaded plain hrun.1
    exact ⟨(edit_userId hedit).trans hid, edit_caps hedit hgood, hholds⟩
  cases call with
  | userCreate draws params =>
    obtain ⟨hfresh, hcreated⟩ := hmade
    have hnone : s.users[uid.toString]? = none := Std.ExtTreeMap.getElem?_eq_none hfresh
    refine ⟨created_userId hcreated, created_caps hcreated, fun c b => ?_⟩
    have hholds := @created_holds info c b draws _ hcreated
    rw [hholds, or_iff_left fun hlog => not_granted (h.absent hnone) hlog.1]
    rfl
  | capsAdd text =>
    obtain ⟨before, hrun, hedit, -⟩ := hmade
    obtain ⟨hid, hgood, hholds⟩ := hbefore hrun hedit
    obtain ⟨parsed, added, hparsed, hadded, rfl⟩ := hedit
    refine ⟨hid, hgood, fun c b => ?_⟩
    change Holds added c b ↔ Grants text c b ∨ Granted log c b ∧ ¬False
    rw [holds_addAll hadded, holds_entries, hholds c b, parseCaps_read hparsed, not_false_eq_true,
      and_true, or_comm]
  | capsRemove text =>
    obtain ⟨before, hrun, hedit, -⟩ := hmade
    obtain ⟨hid, hgood, hholds⟩ := hbefore hrun hedit
    obtain ⟨parsed, hparsed, rfl⟩ := hedit
    refine ⟨hid, hgood, fun c b => ?_⟩
    change Holds (parsed.iter.foldl (fun caps e => UserCaps.remove caps e.1 e.2) before.caps) c b ↔
      False ∨ Granted log c b ∧ ¬Grants text c b
    rw [holds_removeAll, holds_entries, hholds c b, parseCaps_read hparsed, false_or]

theorem standing_call (h : Standing uid log s) (plain : DollarFree uid)
    (run : (call.account uid).run.run.run (exec md5) s = some (r, s')) :
    Standing uid ((call, r) :: log) s' := by
  have hcall := user_operation_atomic h.rows (call.account uid) run
  cases r with
  | error e =>
    have hfailed : ¬Succeeds (.error e) := by
      rintro ⟨w, hw⟩
      cases hw
    have husers : s'.users = s.users := (hcall.1 e rfl).1
    refine ⟨fun uid' row hr => h.rows uid' row (husers ▸ hr), fun hn => ?_, fun row hr => ?_⟩
    · exact List.forall_mem_cons.mpr ⟨hfailed, h.absent (husers ▸ hn)⟩
    · obtain ⟨info, hrow, hid, hgood, hholds⟩ := h.present row (husers ▸ hr)
      exact ⟨info, hrow, hid, hgood, fun c b => (hholds c b).trans (granted_failed hfailed).symm⟩
  | ok w =>
    obtain ⟨info, rfl⟩ := call_record run
    have hsucceeds : Succeeds (.ok (some info)) := ⟨_, rfl⟩
    obtain ⟨hstored, hreported, hothers, -, -, hmade⟩ :=
      hcall.2 info rfl ((account_uid call uid).symm ▸ plain)
    rw [account_uid] at hstored hreported hothers
    have hnamed : uid.isEmpty = false := by
      by_contra hne
      obtain ⟨e, hrun⟩ := @account_nameless md5 s (call.account uid)
        (by rw [account_uid]; simpa using hne)
      rw [run] at hrun
      cases hrun
    obtain ⟨hid, hgood, hholds⟩ := made_caps h plain hnamed hmade
    refine ⟨fun uid' row hr => ?_, fun hn => ?_, fun row hr => ?_⟩
    · by_cases hu : uid' = uid.toString
      · rw [hu, hstored] at hr
        exact ⟨info, (Option.some.inj hr).symm, by rw [hu, hid]⟩
      · rw [hothers uid' hu] at hr
        exact h.rows uid' row hr
    · rw [hstored] at hn
      cases hn
    · rw [hstored] at hr
      refine ⟨info, (Option.some.inj hr).symm, hid, hgood, fun c b => ?_⟩
      rw [hholds c b, granted_succeeded hsucceeds]

theorem standing_calls (plain : DollarFree uid) (calls : List CapCall) (h : Standing uid log s) :
    ∃ log' s', playCalls md5 uid calls (log, s) = some (log', s') ∧ Standing uid log' s' := by
  induction calls generalizing log s with
  | nil => exact ⟨log, s, rfl, h⟩
  | cons call calls ih =>
    obtain ⟨⟨r, s₁⟩, hrun⟩ := @call_returns md5 call uid s
    obtain ⟨log', s', hplay, hstanding⟩ := ih (standing_call h plain hrun)
    refine ⟨log', s', ?_, hstanding⟩
    rw [playCalls, hrun]
    exact hplay

/-- A stored record and the capabilities it is read back with: entries of known types with
permissions that have a text, the same after another round, and in them the bits of the log. -/
structure HoldsGrants (log : Log) (row : UserRow) (info : UserInfo) : Prop where
  stored : row.info.caps = info.caps.serialize
  loaded : fromJson row.info = .ok info
  entries : ∀ (cap : Str) (p : CapPerm), info.caps.entries[cap]? = some p →
    cap ∈ validCapTypes ∧ Usable p
  reread : UserCaps.deserialize info.caps.serialize = .ok info.caps
  checks : ∀ (cap : Str) (p : CapPerm), Usable p → (info.caps.checkCap cap p = true ↔
    ∀ b : CapBit, p.contains b.perm = true → Granted log cap b)

theorem Standing.grants (h : Standing uid log s) (plain : DollarFree uid) {row : UserRow}
    (hrow : s.users[uid.toString]? = some row) : ∃ info, HoldsGrants log row info := by
  obtain ⟨info, rfl, hid, hgood, hholds⟩ := h.present row hrow
  refine ⟨info, rfl, row_read (hid ▸ plain) hgood, hgood, deserialize_serialize hgood,
    fun cap p hp => ?_⟩
  rw [checkCap_iff hp]
  exact forall₂_congr fun b _ => hholds cap b

/-- After any calls that create a user, give it capabilities and take them, failed ones included,
its record is read back with the bits that the strings granted and no later one took. Exactly the
spelled strings are accepted, and strings that grant the same are read as the same. -/
theorem capabilities_are_grants (md5 : Str → Str) (earlier : List DriverCall) (uid : UserId)
    (plain : DollarFree uid) (absent : uid.toString ∉ (execAll md5 earlier .empty).users)
    (calls : List CapCall) :
    (∃ log s', playCalls md5 uid calls ([], execAll md5 earlier .empty) = some (log, s') ∧
      (s'.users[uid.toString]? = none → ∀ e ∈ log, ¬Succeeds e.2) ∧
      ∀ row, s'.users[uid.toString]? = some row → ∃ info, HoldsGrants log row info) ∧
    (∀ text, (∃ caps, UserCaps.new.addFromString text = .ok caps) ↔ ∃ items, Spells items text) ∧
    ∀ items items' text text', Spells items text → Spells items' text' →
      (∀ c b, CapTexts.Gives items c b ↔ CapTexts.Gives items' c b) →
      UserCaps.new.addFromString text = UserCaps.new.addFromString text' := by
  have hstart : Standing uid [] (execAll md5 earlier .empty) := by
    refine ⟨(execAll_wellFormed earlier).userRows, fun _ => List.forall_mem_nil _, fun row hr => ?_⟩
    rw [Std.ExtTreeMap.getElem?_eq_none absent] at hr
    cases hr
  obtain ⟨log, s', hplay, hstanding⟩ := standing_calls plain calls hstart
  refine ⟨⟨log, s', hplay, hstanding.absent, fun row => hstanding.grants plain⟩, accepted_iff .new,
    fun items items' text text' h h' hsame => ?_⟩
  exact addFromString_congr h h' hsame goodCaps_new

/-- A creation, a string that fails, one that grants what is there already, and a removal. -/
def acmeCalls : List CapCall :=
  [.userCreate acmeDraws ⟨acme.userId, bytes "Acme", none, none, none, none,
      some (bytes "users=read; buckets = write ,read"), none, none, none, none⟩,
    .capsAdd (bytes "usage=*;bogus=read"), .capsAdd (bytes "usage=write;; users=read"),
    .capsRemove (bytes "buckets=write")]

def acmePlayed : Log × Tables :=
  (playCalls sampleMd5 acme.userId acmeCalls ([], .empty)).getD ([], .empty)

theorem capabilities_are_grants_acme : ∃ row info,
    acmePlayed.2.users[acme.userId.toString]? = some row ∧ HoldsGrants acmePlayed.1 row info ∧
      info.caps.serialize = [⟨bytes "buckets", bytes "read"⟩, ⟨bytes "usage", bytes "write"⟩,
        ⟨bytes "users", bytes "read"⟩] := by
  have plain : DollarFree acme.userId := by
    constructor <;> decide
  obtain ⟨⟨log, s', hplay, -, hrows⟩, -⟩ :=
    capabilities_are_grants sampleMd5 [] acme.userId plain (by decide) acmeCalls
  have hplayed : acmePlayed = (log, s') := by
    have hstart : execAll sampleMd5 [] .empty = .empty := rfl
    rw [hstart] at hplay
    rw [acmePlayed, hplay]
    rfl
  have hstored : acmePlayed.2.users[acme.userId.toString]?.map (fun row => row.info.caps) =
      some [⟨bytes "buckets", bytes "read"⟩, ⟨bytes "usage", bytes "write"⟩,
        ⟨bytes "users", bytes "read"⟩] := by decide +kernel
  obtain ⟨row, hrow, hcaps⟩ := Option.map_eq_some_iff.mp hstored
  rw [hplayed] at hrow ⊢
  obtain ⟨info, hinfo⟩ := hrows row hrow
  exact ⟨row, info, hrow, hinfo, hinfo.stored.symm.trans hcaps⟩

end Runs

end CapGrants
