import Rgw.OwnerIsolation
import Rgw.StoreInvariants
import Rgw.UserIds
import Rgw.UserMutations

/-! # Operations on one user at once

Each write replaces the whole record by an edit of the one that was loaded, so of several
operations the last write stands alone, on whatever record it began from. -/
namespace UserConcurrency

open ByteStrings TextCodecs SortedMaps Interaction RgwTypes RgwSal RgwSalSqlite StoreInvariants
  RgwAdminOps UserMutations OwnerIsolation

variable {md5 : Str → Str} {s s' : Tables} {uid : UserId}

section Tables

/-- The two tables that hold users agree. -/
def SameUsers (s s' : Tables) : Prop := s.users = s'.users ∧ s.accessKeys = s'.accessKeys

/-- What a write leaves of the tables. -/
def afterWrite (s : Tables) (uid : UserId) : Option (Option UserInfo) → Tables
  | none => s
  | some (some info) => withUser s info
  | some none => withoutUser s uid

/-- A write of the user's record that takes no other user's key. -/
def ValidWrite (s : Tables) (uid : UserId) : Option (Option UserInfo) → Prop
  | some (some info) => info.userId = uid ∧ keysFree s info = true
  | _ => True

theorem exec_users {c : DriverCall} (hc : writeOf c = none) : SameUsers (exec md5 c s).2 s := by
  cases c with
  | storeUser info exclusive => cases hc
  | removeUser id => cases hc
  | createBucket info =>
    rw [exec_createBucket]
    split <;> exact ⟨rfl, rfl⟩
  | removeBucket tenant name =>
    rw [exec_removeBucket]
    cases s.bucketNamed tenant name with
    | none => exact ⟨rfl, rfl⟩
    | some r =>
      dsimp only
      split <;> exact ⟨rfl, rfl⟩
  | putObject bucket key owner attrs body now =>
    obtain ⟨hu, hk, -⟩ := @exec_object_frame md5 s
      (.putObject bucket key owner attrs body now) bucket rfl
    exact ⟨hu, hk⟩
  | deleteObject bucket key =>
    obtain ⟨hu, hk, -⟩ := @exec_object_frame md5 s (.deleteObject bucket key) bucket rfl
    exact ⟨hu, hk⟩
  | _ => exact ⟨rfl, rfl⟩

/-- The user's own keys aside, a valid write leaves the key table as it was. -/
theorem afterWrite_keys {w : Option (Option UserInfo)} (hw : ValidWrite s uid w) (k : Str) :
    (afterWrite s uid w).accessKeys[k]?.filter (· ≠ uid.toString) =
      s.accessKeys[k]?.filter (· ≠ uid.toString) := by
  rcases w with - | - | info
  · rfl
  · simp only [afterWrite, withoutUser, Std.ExtTreeMap.getElem?_filter']
    cases s.accessKeys[k]? with
    | none => rfl
    | some u => by_cases hu : u = uid.toString <;> simp [Option.filter, hu]
  · obtain ⟨rfl, hf⟩ := hw
    rw [afterWrite, withUser_accessKeys]
    by_cases hk : k ∈ info.accessKeys
    · have hfree := List.all_eq_true.mp hf k (Std.ExtTreeMap.mem_keys.mpr hk)
      cases hs : s.accessKeys[k]? with
      | none => simp [hk, Option.filter]
      | some u =>
        rw [hs, Option.all_some, decide_eq_true_eq] at hfree
        simp [hk, hfree, Option.filter]
    · cases hs : s.accessKeys[k]? with
      | none => simp [hk, Option.filter]
      | some u => by_cases hu : u = info.userId.toString <;> simp [hk, hu, Option.filter]

/-- Whether keys are free does not depend on the user's own rows. -/
theorem keysFree_congr {info : UserInfo} (h : ∀ k : Str,
    s.accessKeys[k]?.filter (· ≠ info.userId.toString) =
      s'.accessKeys[k]?.filter (· ≠ info.userId.toString)) : keysFree s info = keysFree s' info := by
  have hall : ∀ o : Option Str, o.all (· = info.userId.toString) =
      (o.filter (· ≠ info.userId.toString)).isNone := by
    intro o
    cases o with
    | none => rfl
    | some u => by_cases hu : u = info.userId.toString <;> simp [hu, Option.filter]
  rw [keysFree, keysFree]
  refine congrArg _ (funext fun k => ?_)
  rw [hall, hall, h k]

theorem withUser_congr {info : UserInfo}
    (hu : ∀ u : Str, u ≠ info.userId.toString → s.users[u]? = s'.users[u]?)
    (hk : ∀ k : Str, s.accessKeys[k]?.filter (· ≠ info.userId.toString) =
      s'.accessKeys[k]?.filter (· ≠ info.userId.toString)) :
    SameUsers (withUser s info) (withUser s' info) := by
  refine ⟨Std.ExtTreeMap.ext_getElem? fun u => ?_, Std.ExtTreeMap.ext_getElem? fun k => ?_⟩
  · simp only [withUser, getElem?_insert_eq]
    by_cases he : info.userId.toString = u
    · simp [he]
    · simp [he, hu u (Ne.symm he)]
  · rw [withUser_accessKeys, withUser_accessKeys, hk k]

theorem withoutUser_congr (hu : ∀ u : Str, u ≠ uid.toString → s.users[u]? = s'.users[u]?)
    (hk : ∀ k : Str, s.accessKeys[k]?.filter (· ≠ uid.toString) =
      s'.accessKeys[k]?.filter (· ≠ uid.toString)) :
    SameUsers (withoutUser s uid) (withoutUser s' uid) := by
  refine ⟨Std.ExtTreeMap.ext_getElem? fun u => ?_, Std.ExtTreeMap.ext_getElem? fun k => ?_⟩
  · simp only [withoutUser, getElem?_erase_eq]
    by_cases he : uid.toString = u
    · simp [he]
    · simp [he, hu u (Ne.symm he)]
  · simp only [withoutUser, Std.ExtTreeMap.getElem?_filter']
    exact hk k

theorem afterWrite_users {w : Option (Option UserInfo)} (hw : ValidWrite s uid w) {u : Str}
    (hu : u ≠ uid.toString) : (afterWrite s uid w).users[u]? = s.users[u]? := by
  rcases w with - | - | info
  · rfl
  · simp [afterWrite, withoutUser, getElem?_erase_eq, Ne.symm hu]
  · obtain ⟨rfl, -⟩ := hw
    simp [afterWrite, withUser, getElem?_insert_eq, Ne.symm hu]

theorem validWrite_congr {w : Option (Option UserInfo)}
    (hk : ∀ k : Str, s.accessKeys[k]?.filter (· ≠ uid.toString) =
      s'.accessKeys[k]?.filter (· ≠ uid.toString)) (hw : ValidWrite s uid w) :
    ValidWrite s' uid w := by
  rcases w with - | - | info
  · exact trivial
  · exact trivial
  · obtain ⟨rfl, hf⟩ := hw
    exact ⟨rfl, (keysFree_congr hk).symm.trans hf⟩

theorem afterWrite_congr {w : Option UserInfo} (h : SameUsers s s')
    (hw : ValidWrite s uid (some w)) :
    SameUsers (afterWrite s uid (some w)) (afterWrite s' uid (some w)) := by
  cases w with
  | none => exact withoutUser_congr (fun u _ => by rw [h.1]) fun k => by rw [h.2]
  | some info =>
    obtain ⟨rfl, -⟩ := hw
    exact withUser_congr (fun u _ => by rw [h.1]) fun k => by rw [h.2]

/-- A write stands alone, whatever was written before it. -/
theorem overwrite {w w' : Option (Option UserInfo)} (hw : ValidWrite s uid w)
    (hw' : ValidWrite s uid w') (hn : w' ≠ none) :
    SameUsers (afterWrite (afterWrite s uid w) uid w') (afterWrite s uid w') := by
  rcases w' with - | - | info
  · exact absurd rfl hn
  · exact withoutUser_congr (fun u hu => afterWrite_users hw hu) (afterWrite_keys hw)
  · obtain ⟨rfl, -⟩ := hw'
    exact withUser_congr (fun u hu => afterWrite_users hw hu) (afterWrite_keys hw)

end Tables

section Runs

variable {ι : Type} [DecidableEq ι] {ops : ι → Mutation}
  {t : List (ι × Event DriverCall Reply)}
  {x y : Config DriverCall Reply (RgwResult (Option UserInfo)) Tables ι}

/-- Operations on one user, each at its start. -/
def start (uid : UserId) (ops : ι → Mutation) (s : Tables) :
    Config DriverCall Reply (RgwResult (Option UserInfo)) Tables ι :=
  ⟨s, fun i => ((ops i).run uid).run⟩

/-- The latest write of a run. -/
def lastWrite : List (ι × Event DriverCall Reply) → Option (Option UserInfo)
  | [] => none
  | e :: t => (committed e.2).or (lastWrite t)

/-- A load reads what the last write left. -/
def LoadsLast (s : Tables) (uid : UserId) (t : List (ι × Event DriverCall Reply))
    (_ : Config DriverCall Reply (RgwResult (Option UserInfo)) Tables ι)
    (e : ι × Event DriverCall Reply)
    (_ : Config DriverCall Reply (RgwResult (Option UserInfo)) Tables ι) : Prop :=
  ∀ r, e.2 = ⟨.loadUser uid, r⟩ → r = loadUser uid (afterWrite s uid (lastWrite t))

/-- A write is an operation's first, and its edit of a record that it loaded. -/
def WritesEdit (uid : UserId) (ops : ι → Mutation) (t : List (ι × Event DriverCall Reply))
    (_ : Config DriverCall Reply (RgwResult (Option UserInfo)) Tables ι)
    (e : ι × Event DriverCall Reply)
    (_ : Config DriverCall Reply (RgwResult (Option UserInfo)) Tables ι) : Prop :=
  ∀ w, committed e.2 = some w → (∀ e' ∈ seen e.1 t, committed e' = none) ∧
    ∃ loaded, ⟨.loadUser uid, .ok loaded⟩ ∈ seen e.1 t ∧ Edit (ops e.1) loaded w

/-- Where a run stands. -/
structure Stands (md5 : Str → Str) (s : Tables) (uid : UserId)
    (t : List (ι × Event DriverCall Reply)) (st : Tables) : Prop where
  wf : WellFormed md5 st
  valid : ValidWrite s uid (lastWrite t)
  same : SameUsers st (afterWrite s uid (lastWrite t))
  owner : ∀ i loaded, (⟨.loadUser uid, .ok loaded⟩ : Event DriverCall Reply) ∈ seen i t →
    loaded.userId = uid

/-- A loaded record is the user's whose it was loaded as. -/
theorem loadUser_userId (stable : UserId.parse uid.toString = uid) (wf : WellFormed md5 s)
    {loaded : UserInfo} (h : loadUser uid s = .ok loaded) : loaded.userId = uid := by
  obtain ⟨row, -, -, hid⟩ := UserIds.loadUser_row wf.userRows h
  rw [hid, stable]

theorem loadUser_congr (h : SameUsers s s') : loadUser uid s = loadUser uid s' := by
  rw [loadUser, loadUser, h.1]

theorem exec_write {w : Option UserInfo} (hw : ∀ info, w = some info → info.userId = uid) :
    (committed ⟨writeCall uid w, (exec md5 (writeCall uid w) s).1⟩ = none ∧
      (exec md5 (writeCall uid w) s).2 = s) ∨
    (committed ⟨writeCall uid w, (exec md5 (writeCall uid w) s).1⟩ = some w ∧
      ValidWrite s uid (some w) ∧
      (exec md5 (writeCall uid w) s).2 = afterWrite s uid (some w)) := by
  cases w with
  | none =>
    by_cases hm : uid.toString ∈ s.users
    · have he := (@exec_removeUser md5 s uid).trans (if_pos hm)
      refine Or.inr ?_
      rw [writeCall, he]
      exact ⟨rfl, trivial, rfl⟩
    · have he := (@exec_removeUser md5 s uid).trans (if_neg hm)
      refine Or.inl ?_
      rw [writeCall, he]
      exact ⟨rfl, rfl⟩
  | some info =>
    have he := @exec_storeUser md5 s info false
    simp only [Bool.false_eq_true, false_and, ↓reduceIte] at he
    by_cases hf : keysFree s info = true
    · rw [if_pos hf] at he
      refine Or.inr ?_
      rw [writeCall, he]
      exact ⟨rfl, ⟨hw info rfl, hf⟩, rfl⟩
    · rw [if_neg hf] at he
      refine Or.inl ?_
      rw [writeCall, he]
      exact ⟨rfl, rfl⟩

theorem stands_call (stable : UserId.parse uid.toString = uid) {i : ι} {st : Tables}
    {c : DriverCall} (h : Stands md5 s uid t st)
    (hc : (mutationDiscipline uid (ops i)).allowed (seen i t) c) :
    Stands md5 s uid ((i, ⟨c, (exec md5 c st).1⟩) :: t) (exec md5 c st).2 := by
  have howner : ∀ j loaded, (⟨.loadUser uid, .ok loaded⟩ : Event DriverCall Reply) ∈
      seen j ((i, ⟨c, (exec md5 c st).1⟩) :: t) → loaded.userId = uid := by
    intro j loaded hm
    rw [mem_seen] at hm
    rcases List.mem_cons.mp hm with he | hm
    · obtain ⟨rfl, hreply⟩ := Sigma.mk.inj_iff.mp (Prod.mk.inj he).2
      exact loadUser_userId stable h.wf (eq_of_heq hreply).symm
    · exact h.owner j loaded (mem_seen.mpr hm)
  cases hw : writeOf c with
  | none =>
    have hlast : lastWrite ((i, ⟨c, (exec md5 c st).1⟩) :: t) = lastWrite t := by
      rw [lastWrite, committed_none hw]
      rfl
    have hsame := @exec_users md5 st _ hw
    refine ⟨exec_wellFormed h.wf c, hlast ▸ h.valid, ?_, howner⟩
    rw [hlast]
    exact ⟨hsame.1.trans h.same.1, hsame.2.trans h.same.2⟩
  | some w =>
    obtain ⟨rfl, loaded, hl, he, -⟩ := hc.2 w hw
    have hid : ∀ info, w = some info → info.userId = uid := by
      rintro info rfl
      rw [edit_userId he, h.owner i loaded hl]
    rcases @exec_write md5 st _ _ hid with ⟨hcom, hst⟩ | ⟨hcom, hvalid, hst⟩
    · have hlast : lastWrite ((i, ⟨writeCall uid w, (exec md5 (writeCall uid w) st).1⟩) :: t) =
          lastWrite t := by
        rw [lastWrite, hcom]
        rfl
      refine ⟨exec_wellFormed h.wf _, hlast ▸ h.valid, ?_, howner⟩
      rw [hlast, hst]
      exact h.same
    · have hlast : lastWrite ((i, ⟨writeCall uid w, (exec md5 (writeCall uid w) st).1⟩) :: t) =
          some w := by
        rw [lastWrite, hcom]
        rfl
      have hkeys : ∀ k : Str, st.accessKeys[k]?.filter (· ≠ uid.toString) =
          s.accessKeys[k]?.filter (· ≠ uid.toString) := by
        intro k
        rw [h.same.2]
        exact afterWrite_keys h.valid k
      have hvalid' : ValidWrite s uid (some w) := validWrite_congr hkeys hvalid
      refine ⟨exec_wellFormed h.wf _, hlast ▸ hvalid', ?_, howner⟩
      rw [hlast, hst]
      have hafter := afterWrite_congr h.same hvalid
      have hover := overwrite h.valid hvalid' (by simp)
      exact ⟨hafter.1.trans hover.1, hafter.2.trans hover.2⟩

theorem stands_run (stable : UserId.parse uid.toString = uid) (store : Store md5)
    (run : Trace (exec md5) (start uid ops store.1) t x) : Stands md5 store.1 uid t x.state := by
  have begin : Stands md5 store.1 uid ([] : List (ι × Event DriverCall Reply)) store.1 :=
    { wf := store.2
      valid := trivial
      same := ⟨rfl, rfl⟩
      owner := by
        rintro i loaded hm
        cases hm }
  exact trace_invariant (d := fun i => mutationDiscipline uid (ops i))
    (fun t st => Stands md5 store.1 uid t st)
    (fun t st i c h hc => stands_call stable h hc) run (fun i => run_obeys uid (ops i)) begin

theorem loads_last (stable : UserId.parse uid.toString = uid) (store : Store md5)
    (run : Trace (exec md5) (start uid ops store.1) t x) {e : ι × Event DriverCall Reply}
    (step : Step (exec md5) x e y) : LoadsLast store.1 uid t x e y := by
  rintro r he
  cases step with
  | call st p i c k hi =>
    obtain ⟨rfl, hreply⟩ := Sigma.mk.inj_iff.mp he
    rw [← eq_of_heq hreply]
    exact loadUser_congr (stands_run stable store run).same

theorem writes_edit (store : Store md5) (run : Trace (exec md5) (start uid ops store.1) t x)
    {e : ι × Event DriverCall Reply} (step : Step (exec md5) x e y) :
    WritesEdit uid ops t x e y := by
  intro w hw
  obtain ⟨i, e⟩ := e
  obtain ⟨hn, hwrite⟩ := (step_obeys step (trace_obeys run fun i => run_obeys uid (ops i))).1
  refine ⟨fun e' he' => committed_none (hn e' he'), ?_⟩
  have hof : writeOf e.1 = some w := by
    obtain ⟨c, r⟩ := e
    cases c with
    | storeUser info exclusive => cases r <;> first | exact hw | cases hw
    | removeUser id => cases r <;> first | exact hw | cases hw
    | _ => cases hw
  obtain ⟨-, loaded, hl, he, -⟩ := hwrite w hof
  exact ⟨loaded, hl, he⟩

/-- Of operations at once on one user the last to write wins, whole: the tables are as if it
alone had written, and what it wrote is its edit of the record that it loaded. -/
theorem last_write_wins (store : Store md5) (uid : UserId) (ops : ι → Mutation)
    (stable : UserId.parse uid.toString = uid)
    (run : Trace (exec md5) (start uid ops store.1) t x) :
    SameUsers x.state (afterWrite store.1 uid (lastWrite t)) ∧
    (∀ u, u ≠ uid.toString → x.state.users[u]? = store.1.users[u]?) ∧
    (∀ k : Str, x.state.accessKeys[k]?.filter (· ≠ uid.toString) =
      store.1.accessKeys[k]?.filter (· ≠ uid.toString)) ∧
    Along (exec md5) (LoadsLast store.1 uid) (start uid ops store.1) t x ∧
    Along (exec md5) (WritesEdit uid ops) (start uid ops store.1) t x ∧
    ∀ i r, x.threads i = .done r → Outcome (seen i t) r := by
  have hs := stands_run stable store run
  refine ⟨hs.same, fun u hu => ?_, fun k => ?_, ?_, ?_, fun i r hr => ?_⟩
  · rw [hs.same.1]
    exact afterWrite_users hs.valid hu
  · rw [hs.same.2]
    exact afterWrite_keys hs.valid k
  · exact run.along fun t y e z hy hstep => loads_last stable store hy hstep
  · exact run.along fun t y e z hy hstep => writes_edit store hy hstep
  · have ho := trace_obeys run (fun i => run_obeys uid (ops i)) i
    rw [hr] at ho
    exact ho

def aliceTables : Store sampleMd5 :=
  ⟨execAll sampleMd5 [.storeUser alice true] .empty, execAll_wellFormed _⟩

def grants (i : Bool) : Mutation := .capsAdd (if i then bytes "buckets=read" else bytes "users=read")

theorem last_write_wins_grants : ∃ t x,
    Trace (exec sampleMd5) (start alice.userId grants aliceTables.1) t x ∧ t.length = 4 ∧
    SameUsers x.state (afterWrite aliceTables.1 alice.userId (lastWrite t)) ∧
    ∀ i r, x.threads i = .done r → Outcome (seen i t) r := by
  have hplay : ((Config.play (exec sampleMd5) [false, true, false, true]
      ([], start alice.userId grants aliceTables.1)).map fun r => r.1.length) = some 4 := by
    decide +kernel
  obtain ⟨⟨t, x⟩, hr, hlen⟩ := Option.map_eq_some_iff.mp hplay
  have run := play_trace .nil hr
  obtain ⟨hsame, -, -, -, -, hout⟩ :=
    last_write_wins aliceTables alice.userId grants (by decide) run
  exact ⟨t, x, run, hlen, hsame, hout⟩

/-- Two operations one after the other, `first` first. -/
def inTurn (md5 : Str → Str) (uid : UserId) (ops : Bool → Mutation) (first : Bool) (s : Tables) :
    Option ((Bool → RgwResult (Option UserInfo)) × Tables) := do
  let (r, s) ← ((ops first).run uid).run.run (exec md5) s
  let (r', s) ← ((ops !first).run uid).run.run (exec md5) s
  return (fun i => if i = first then r else r', s)

def grantedTo (uid : UserId) (s : Tables) : Option (List CapEntry) :=
  s.users[uid.toString]?.map fun row => row.info.caps

/-- Two grants that load before either stores leave one of them, though both are answered. -/
theorem grant_lost : ¬∀ (md5 : Str → Str) (store : Store md5) (uid : UserId)
    (ops : Bool → Mutation) (t : List (Bool × Event DriverCall Reply))
    (x : Config DriverCall Reply (RgwResult (Option UserInfo)) Tables Bool)
    (r : Bool → RgwResult (Option UserInfo)),
    Trace (exec md5) (start uid ops store.1) t x → (∀ i, x.threads i = .done (r i)) →
      ∃ first s', inTurn md5 uid ops first store.1 = some (r, s') ∧ SameUsers x.state s' := by
  intro claim
  have hplay : ((Config.play (exec sampleMd5) [false, true, false, true]
      ([], start alice.userId grants aliceTables.1)).map fun r =>
        ((r.2.threads false).result.isSome, (r.2.threads true).result.isSome,
          (grantedTo alice.userId r.2.state).map List.length)) =
      some (true, true, some 1) := by decide +kernel
  have hturn : ∀ first, ((inTurn sampleMd5 alice.userId grants first aliceTables.1).bind
      fun r => (grantedTo alice.userId r.2).map List.length) = some 2 := by decide +kernel
  obtain ⟨⟨t, x⟩, hr, hx⟩ := Option.map_eq_some_iff.mp hplay
  obtain ⟨hfalse, htrue, hone⟩ : _ ∧ _ ∧ _ := by simpa only [Prod.mk.injEq] using hx
  obtain ⟨rf, hrf⟩ := Option.isSome_iff_exists.mp hfalse
  obtain ⟨rt, hrt⟩ := Option.isSome_iff_exists.mp htrue
  have hdone : ∀ i, x.threads i = .done (if i then rt else rf) := by
    intro i
    cases i with
    | false => exact result_eq_some.mp hrf
    | true => exact result_eq_some.mp hrt
  obtain ⟨first, s', hin, hsame⟩ :=
    claim _ aliceTables alice.userId grants t x _ (play_trace .nil hr) hdone
  have htwo := hturn first
  rw [hin, Option.bind_some] at htwo
  have hgranted : grantedTo alice.userId x.state = grantedTo alice.userId s' := by
    rw [grantedTo, grantedTo, hsame.1]
  rw [← hgranted, hone] at htwo
  exact absurd htwo (by decide)

end Runs

end UserConcurrency
