import Rgw.AdminOps
import Rgw.SalSqlite

/-! # The operations that change one user

Each loads the record once, makes its edit, and writes once, as its last call. -/
namespace UserMutations

open ByteStrings Interaction RgwTypes RgwSal RgwAdminOps

abbrev History := List (Event DriverCall Reply)

section Edits

/-- An operation on a user with all it is given but the uid. -/
inductive Mutation where
  | userModify (draws : Draws) (params : UserModifyParams)
  | keyCreate (draws : Draws) (accessKey secretKey : Option Str) (generate : Bool)
  | keyRemove (accessKey : Str)
  | capsAdd (caps : Str)
  | capsRemove (caps : Str)
  | userRemove (fuel : ℕ) (purgeData : Bool)

/-- The record the operation returns; none for a removal. -/
def Mutation.run (uid : UserId) : Mutation → Op (Option UserInfo)
  | userModify draws params => some <$> RgwAdminOps.userModify draws { params with uid := uid }
  | keyCreate draws accessKey secretKey generate =>
    some <$> RgwAdminOps.keyCreate draws uid accessKey secretKey generate
  | keyRemove accessKey => some <$> RgwAdminOps.keyRemove uid accessKey
  | capsAdd caps => some <$> RgwAdminOps.capsAdd uid caps
  | capsRemove caps => some <$> RgwAdminOps.capsRemove uid caps
  | userRemove fuel purgeData => (fun _ => none) <$> RgwAdminOps.userRemove fuel uid purgeData

/-- The record with one more key, the halves given or generated. -/
def Keyed (draws : Draws) (accessKey secretKey : Option Str) (generate : Bool)
    (info info' : UserInfo) : Prop :=
  ∃ id key, (accessKey = some id ∨ accessKey = none ∧ generate = true ∧ ∃ i, id = draws.accessKey i) ∧
    (secretKey = some key ∨ secretKey = none ∧ generate = true ∧ key = draws.secretKey) ∧
    info' = info.addAccessKey ⟨id, key, [], true, draws.keyNow⟩

/-- The fields that a modification sets. -/
def modified (params : UserModifyParams) (info : UserInfo) : UserInfo :=
  { info with
    displayName := params.displayName.getD info.displayName
    userEmail := params.email.getD info.userEmail
    maxBuckets := params.maxBuckets.getD info.maxBuckets
    suspended := params.suspended.getD info.suspended
    system := params.system.getD info.system
    admin := params.admin.getD info.admin }

/-- What an operation makes of the record it loaded. -/
def Edit : Mutation → UserInfo → Option UserInfo → Prop
  | .userModify draws params, info, some info' =>
    (nonempty params.accessKey = none ∧ nonempty params.secretKey = none ∧
      params.generateKey = false ∧ info' = modified params info) ∨
    Keyed draws (nonempty params.accessKey) (nonempty params.secretKey) params.generateKey
      (modified params info) info'
  | .keyCreate draws accessKey secretKey generate, info, some info' =>
    Keyed draws (nonempty accessKey) (nonempty secretKey) generate info info'
  | .keyRemove accessKey, info, some info' =>
    accessKey ∈ info.accessKeys ∧
      info' = { info with accessKeys := info.accessKeys.erase accessKey }
  | .capsAdd caps, info, some info' => ∃ parsed added, parseCaps caps = .ok parsed ∧
      parsed.iter.foldlM (fun caps e => caps.add e.1 e.2) info.caps = .ok added ∧
      info' = { info with caps := added }
  | .capsRemove caps, info, some info' => ∃ parsed, parseCaps caps = .ok parsed ∧
      info' = { info with caps := parsed.iter.foldl (fun caps e => caps.remove e.1 e.2) info.caps }
  | .userRemove _ _, _, none => True
  | _, _, _ => False

/-- The record that a creation sets up, but for its key. -/
def created (draws : Draws) (params : UserCreateParams) (caps : UserCaps) : UserInfo :=
  { UserInfo.new params.uid params.displayName draws.now with
    caps := caps
    userEmail := (nonempty params.email).getD []
    maxBuckets := params.maxBuckets.getD rgwDefaultMaxBuckets
    suspended := params.suspended.getD false
    system := params.system.getD false
    admin := params.admin.getD false }

def generates (params : UserCreateParams) : Bool :=
  params.generateKey.getD
    ((nonempty params.accessKey).isNone && (nonempty params.secretKey).isNone)

/-- What a creation stores. -/
def Created (draws : Draws) (params : UserCreateParams) (info : UserInfo) : Prop :=
  ∃ caps, (nonempty params.caps).elim (.ok .new) UserCaps.new.addFromString = .ok caps ∧
    ((nonempty params.accessKey = none ∧ nonempty params.secretKey = none ∧
      generates params = false ∧ info = created draws params caps) ∨
    Keyed draws (nonempty params.accessKey) (nonempty params.secretKey) (generates params)
      (created draws params caps) info)

/-- An edit never changes whose record it is. -/
theorem edit_userId {m : Mutation} {info info' : UserInfo} (h : Edit m info (some info')) :
    info'.userId = info.userId := by
  cases m with
  | userModify draws params =>
    rcases h with ⟨-, -, -, rfl⟩ | ⟨id, key, -, -, rfl⟩ <;> rfl
  | keyCreate draws accessKey secretKey generate =>
    obtain ⟨id, key, -, -, rfl⟩ := h
    rfl
  | keyRemove accessKey =>
    obtain ⟨-, rfl⟩ := h
    rfl
  | capsAdd caps =>
    obtain ⟨parsed, added, -, -, rfl⟩ := h
    rfl
  | capsRemove caps =>
    obtain ⟨parsed, -, rfl⟩ := h
    rfl
  | userRemove fuel purgeData => cases h

end Edits

section Writes

/-- The record a call writes, or that it removes one. -/
def writeOf : DriverCall → Option (Option UserInfo)
  | .storeUser info _ => some (some info)
  | .removeUser _ => some none
  | _ => none

/-- The call an operation on `uid` writes with. -/
def writeCall (uid : UserId) : Option UserInfo → DriverCall
  | some info => .storeUser info false
  | none => .removeUser uid

/-- The write a call made. -/
def committed : Event DriverCall Reply → Option (Option UserInfo)
  | ⟨.storeUser info _, .ok _⟩ => some (some info)
  | ⟨.removeUser _, .ok _⟩ => some none
  | _ => none

def NoWrite (h : History) : Prop := ∀ e ∈ h, writeOf e.1 = none

theorem noWrite_nil : NoWrite [] := fun _ he => by cases he

theorem noWrite_cons {h : History} {c : DriverCall} {r : Reply c} (hh : NoWrite h)
    (hc : writeOf c = none) : NoWrite (⟨c, r⟩ :: h) := by
  intro e he
  rcases List.mem_cons.mp he with rfl | he
  · exact hc
  · exact hh e he

theorem committed_none {e : Event DriverCall Reply} (h : writeOf e.1 = none) :
    committed e = none := by
  obtain ⟨c, r⟩ := e
  cases c <;> first | rfl | cases h

/-- Which write may come after the calls so far. -/
abbrev Writing := History → DriverCall → Option UserInfo → Prop

/-- An operation reads and purges as it likes, then makes one write. -/
def writeDiscipline (W : Writing) : Discipline DriverCall Reply where
  allowed h c := NoWrite h ∧ ∀ w, writeOf c = some w → W h c w
  mayCut _ := True

abbrev readDiscipline : Discipline DriverCall Reply := writeDiscipline fun _ _ _ => False

/-- The email was looked up, and no other user had it. -/
def LookedUp (h : History) (id : UserId) (email : Str) : Prop :=
  ∃ r, (⟨.loadUserByEmail email, r⟩ : Event DriverCall Reply) ∈ h ∧
    (r = .error .noSuchUser ∨ ∃ other, r = .ok other ∧ other.userId = id)

/-- A new email was looked up. -/
def Cleared (h : History) (info : UserInfo) : Mutation → Prop
  | .userModify _ params =>
    ∀ email, params.email = some email → email ≠ [] → LookedUp h info.userId email
  | _ => True

/-- The write of a record that was loaded and edited. -/
def mutationWriting (uid : UserId) (m : Mutation) : Writing := fun h c w =>
  c = writeCall uid w ∧ ∃ loaded, (⟨.loadUser uid, .ok loaded⟩ : Event DriverCall Reply) ∈ h ∧
    Edit m loaded w ∧ Cleared h loaded m

abbrev mutationDiscipline (uid : UserId) (m : Mutation) : Discipline DriverCall Reply :=
  writeDiscipline (mutationWriting uid m)

/-- The write of a new record. -/
def creationWriting (draws : Draws) (params : UserCreateParams) : Writing := fun h c w =>
  ∃ info, w = some info ∧ c = .storeUser info true ∧ Created draws params info ∧
    (info.userEmail ≠ [] → LookedUp h params.uid info.userEmail)

/-- The outcome agrees with what was written. -/
def Outcome (h : History) : RgwResult (Option UserInfo) → Prop
  | .ok w => ∃ e h', h = e :: h' ∧ committed e = some w
  | .error _ => ∀ e ∈ h, committed e = none

end Writes

section Parts

/-- The part of `putKey` after the access key is chosen. -/
def putSecret (draws : Draws) (info : UserInfo) (secretKey : Option Str) (generate : Bool) (id : Str) :
    Op UserInfo := do
  let key ← match secretKey with
    | some key => pure key
    | none =>
      if generate then pure draws.secretKey
      else throw (.invalidArgument (bytes "secret-key is required"))
  return info.addAccessKey ⟨id, key, [], true, draws.keyNow⟩

/-- The part of `userCreate` from the email on. -/
def createFrom (draws : Draws) (params : UserCreateParams) (key : Option KeyRequest)
    (info : UserInfo) : Op UserInfo := do
  let info ← match nonempty params.email with
    | none => pure info
    | some email => do
      ensureEmailFree info.userId email
      pure { info with userEmail := email }
  let info := { info with
    maxBuckets := params.maxBuckets.getD info.maxBuckets
    suspended := params.suspended.getD false
    system := params.system.getD false
    admin := params.admin.getD false }
  let info ← putRequestedKey draws info key
  invoke (.storeUser info true)
  return info

/-- The part of `userModify` from the email on. -/
def modifyFrom (draws : Draws) (params : UserModifyParams) (key : Option KeyRequest)
    (info : UserInfo) : Op UserInfo := do
  let info ← match params.email with
    | none => pure info
    | some email => do
      if email ≠ [] then ensureEmailFree info.userId email
      pure { info with userEmail := email }
  let info := { info with
    maxBuckets := params.maxBuckets.getD info.maxBuckets
    suspended := params.suspended.getD info.suspended
    system := params.system.getD info.system
    admin := params.admin.getD info.admin }
  let info ← putRequestedKey draws info key
  invoke (.storeUser info false)
  return info

end Parts

section Reading

variable {h : History} {α β ε : Type}

theorem read_allowed {W : Writing} {c : DriverCall} (hn : NoWrite h) (hc : writeOf c = none) :
    (writeDiscipline W).allowed h c := by
  refine ⟨hn, fun w hw => ?_⟩
  rw [hc] at hw
  cases hw

theorem reading {W : Writing} {p : Prog DriverCall Reply α} {Q : History → α → Prop}
    (hp : p.Obeys readDiscipline Q h) : p.Obeys (writeDiscipline W) Q h := by
  refine hp.weaken (fun h' c hc => ⟨hc.1, fun w hw => ?_⟩) fun _ _ => trivial
  exact (hc.2 w hw).elim

/-- A part of an operation that writes no user. -/
def Reads (h : History) (p : Prog DriverCall Reply α) : Prop :=
  p.Obeys readDiscipline (fun h' _ => NoWrite h') h

theorem reads_done (hn : NoWrite h) (a : α) : Reads h (.done a) := hn

theorem reads_bind {x : OpT ε α} {f : α → OpT ε β} (hx : Reads h x.run)
    (hf : ∀ h' a, NoWrite h' → Reads h' (f a).run) : Reads h (x >>= f).run := by
  refine obeys_except_bind.mpr (hx.mono fun h' r _ hn => ?_)
  cases r with
  | ok a => exact hf h' a hn
  | error e => exact hn

theorem reads_attempt (hn : NoWrite h) {c : DriverCall} (hc : writeOf c = none) :
    Reads h (attempt c : OpT ε (Reply c)).run :=
  ⟨read_allowed hn hc, fun _ => noWrite_cons hn hc⟩

theorem reads_invoke (hn : NoWrite h) {c : DriverCall} (hc : writeOf c = none) :
    Reads h (invoke c).run := ⟨read_allowed hn hc, fun _ => noWrite_cons hn hc⟩

theorem ensureEmailFree_obeys (hn : NoWrite h) (id : UserId) (email : Str) :
    (ensureEmailFree id email).run.Obeys readDiscipline
      (fun h' r => NoWrite h' ∧ (r = .ok () → LookedUp h' id email)) h := by
  refine obeys_except_bind.mpr ⟨read_allowed hn rfl, fun r => ?_⟩
  have hn' : NoWrite (⟨.loadUserByEmail email, r⟩ :: h) := noWrite_cons hn rfl
  cases r with
  | ok other =>
    rw [obeys_done]
    dsimp only
    by_cases ho : other.userId = id
    · rw [if_neg (not_not.mpr ho)]
      exact ⟨hn', fun _ => ⟨_, List.mem_cons_self, Or.inr ⟨other, rfl, ho⟩⟩⟩
    · rw [if_pos ho]
      exact ⟨hn', fun hr => by cases hr⟩
  | error e =>
    cases e with
    | noSuchUser => exact ⟨hn', fun _ => ⟨_, List.mem_cons_self, Or.inl rfl⟩⟩
    | _ => exact ⟨hn', fun hr => by cases hr⟩

theorem ensureKeyFree_reads (hn : NoWrite h) (id : UserId) (accessKey : Str) :
    Reads h (ensureKeyFree id accessKey).run := by
  apply reads_bind (reads_attempt hn rfl)
  intro h' r hn'
  cases r with
  | ok other =>
    by_cases ho : other.userId = id
    · simp only [ne_eq, ho, not_true_eq_false, ↓reduceIte]
      exact reads_done hn' _
    · simp only [ne_eq, ho, not_false_eq_true, ↓reduceIte]
      exact reads_done hn' _
  | error e => cases e <;> exact reads_done hn' _

theorem unusedAccessKeyLoop_obeys (draws : Draws) (attempts i : ℕ) (hn : NoWrite h) :
    (unusedAccessKeyLoop draws attempts i).run.Obeys readDiscipline
      (fun h' r => NoWrite h' ∧ ∀ id, r = .ok id → ∃ j, id = draws.accessKey j) h := by
  induction attempts generalizing h i with
  | zero => exact ⟨hn, fun id hid => by cases hid⟩
  | succ attempts ih =>
    rw [unusedAccessKeyLoop]
    refine obeys_except_bind.mpr ((reads_attempt hn rfl).mono fun h' r _ hn' => ?_)
    cases r with
    | error e => exact ⟨hn', fun id hid => by cases hid⟩
    | ok reply =>
      cases reply with
      | ok other => exact ih (i + 1) hn'
      | error e =>
        cases e with
        | noSuchUser =>
          refine ⟨hn', fun id hid => ?_⟩
          cases hid
          exact ⟨i, rfl⟩
        | _ => exact ⟨hn', fun id hid => by cases hid⟩

theorem putKey_obeys (draws : Draws) (info : UserInfo) (accessKey secretKey : Option Str)
    (generate : Bool) (hn : NoWrite h) :
    (putKey draws info accessKey secretKey generate).run.Obeys readDiscipline
      (fun h' r => NoWrite h' ∧ ∀ info', r = .ok info' →
        Keyed draws accessKey secretKey generate info info') h := by
  have hsecret : ∀ h' id, NoWrite h' →
      (accessKey = some id ∨ accessKey = none ∧ generate = true ∧ ∃ i, id = draws.accessKey i) →
      (putSecret draws info secretKey generate id).run.Obeys readDiscipline
        (fun h' r => NoWrite h' ∧ ∀ info', r = .ok info' →
          Keyed draws accessKey secretKey generate info info') h' := by
    intro h' id hn' hid
    unfold putSecret
    cases secretKey with
    | some key =>
      refine ⟨hn', fun info' hr => ?_⟩
      cases hr
      exact ⟨id, key, hid, Or.inl rfl, rfl⟩
    | none =>
      by_cases hg : generate = true
      · simp only [hg, ↓reduceIte]
        refine ⟨hn', fun info' hr => ?_⟩
        cases hr
        exact ⟨id, draws.secretKey, hg ▸ hid, Or.inr ⟨rfl, rfl, rfl⟩, rfl⟩
      · simp only [hg]
        exact ⟨hn', fun info' hr => by cases hr⟩
  unfold putKey
  cases accessKey with
  | some id =>
    refine obeys_except_bind.mpr ((ensureKeyFree_reads hn info.userId id).mono fun h' r _ hn' => ?_)
    cases r with
    | ok _ => exact hsecret h' id hn' (Or.inl rfl)
    | error e => exact ⟨hn', fun info' hr => by cases hr⟩
  | none =>
    by_cases hg : generate = true
    · simp only [hg, ↓reduceIte]
      refine obeys_except_bind.mpr ((unusedAccessKeyLoop_obeys draws keygenAttempts 0 hn).mono
        fun h' r _ hh => ?_)
      cases r with
      | ok id =>
        have hs := hsecret h' id hh.1 (Or.inr ⟨rfl, hg, hh.2 id rfl⟩)
        simp only [hg] at hs
        exact hs
      | error e => exact ⟨hh.1, fun info' hr => by cases hr⟩
    · simp only [hg]
      exact ⟨hn, fun info' hr => by cases hr⟩

theorem keyRequest_obeys (accessKey secretKey : Option Str) (generate : Bool) (hn : NoWrite h) :
    (keyRequest accessKey secretKey generate).run.Obeys readDiscipline
      (fun h' r => NoWrite h' ∧ ∀ key, r = .ok key →
        key = none ∧ accessKey = none ∧ secretKey = none ∧ generate = false ∨
        key = some (accessKey, secretKey, generate)) h := by
  rw [keyRequest.eq_def]
  split
  · refine ⟨hn, fun key hr => ?_⟩
    cases hr
    exact Or.inl ⟨rfl, rfl, rfl, rfl⟩
  · exact ⟨hn, fun key hr => by cases hr⟩
  · exact ⟨hn, fun key hr => by cases hr⟩
  · refine ⟨hn, fun key hr => ?_⟩
    cases hr
    exact Or.inr rfl

theorem putRequestedKey_obeys (draws : Draws) (info : UserInfo) {accessKey secretKey : Option Str}
    {generate : Bool} {key : Option KeyRequest} (hn : NoWrite h)
    (hkey : key = none ∧ accessKey = none ∧ secretKey = none ∧ generate = false ∨
      key = some (accessKey, secretKey, generate)) :
    (putRequestedKey draws info key).run.Obeys readDiscipline (fun h' r => NoWrite h' ∧
      ∀ info', r = .ok info' →
        (accessKey = none ∧ secretKey = none ∧ generate = false ∧ info' = info) ∨
        Keyed draws accessKey secretKey generate info info') h := by
  rcases hkey with ⟨rfl, ha, hs, hg⟩ | rfl
  · refine ⟨hn, fun info' hr => ?_⟩
    cases hr
    exact Or.inl ⟨ha, hs, hg, rfl⟩
  · apply (putKey_obeys draws info accessKey secretKey generate hn).mono
    intro h' r _ hh
    exact ⟨hh.1, fun info' hr => Or.inr (hh.2 info' hr)⟩

theorem purgePage_reads (hn : NoWrite h) (bucket : BucketKey) (objects : List ObjectInfo) :
    Reads h (purgePage bucket objects).run := by
  induction objects generalizing h with
  | nil => exact reads_done hn _
  | cons obj objects ih =>
    rw [purgePage]
    apply reads_bind (reads_attempt hn rfl)
    intro h' r hn'
    cases r with
    | ok _ => exact ih hn'
    | error e => cases e <;> first | exact ih hn' | exact reads_done hn' _

theorem purgeObjects_reads (bucket : BucketKey) (fuel : ℕ) (marker : Str) (hn : NoWrite h) :
    Reads h (purgeObjects bucket fuel marker).run := by
  induction fuel generalizing h marker with
  | zero => exact trivial
  | succ fuel ih =>
    rw [purgeObjects]
    apply reads_bind (reads_invoke hn rfl)
    intro h' page hn'
    apply reads_bind (purgePage_reads hn' bucket page.objects)
    intro h'' _ hn''
    cases page.isTruncated with
    | false => exact reads_done hn'' _
    | true =>
      simp only [Bool.not_true]
      by_cases hm : page.nextMarker = [] ∨ page.nextMarker = marker
      · simp only [hm, ↓reduceIte]
        exact reads_done hn'' _
      · simp only [hm]
        exact ih page.nextMarker hn''

theorem listAllBucketsLoop_reads (owner : Option UserId) (fuel : ℕ) (marker : Str)
    (out : List BucketInfo) (hn : NoWrite h) :
    Reads h (listAllBucketsLoop owner fuel marker out).run := by
  induction fuel generalizing h marker out with
  | zero => exact trivial
  | succ fuel ih =>
    rw [listAllBucketsLoop]
    apply reads_bind (reads_invoke hn rfl)
    intro h' page hn'
    cases page.isTruncated with
    | false => exact reads_done hn' _
    | true =>
      simp only [Bool.not_true]
      by_cases hm : page.nextMarker = [] ∨ page.nextMarker = marker
      · simp only [hm, ↓reduceIte]
        exact reads_done hn' _
      · simp only [hm]
        exact ih page.nextMarker _ hn'

theorem purgeBuckets_reads (fuel : ℕ) (buckets : List BucketInfo) (hn : NoWrite h) :
    Reads h (purgeBuckets fuel buckets).run := by
  induction buckets generalizing h with
  | nil => exact reads_done hn _
  | cons bucket buckets ih =>
    rw [purgeBuckets]
    apply reads_bind (purgeObjects_reads bucket.bucket fuel [] hn)
    intro h' _ hn'
    exact reads_bind (reads_invoke hn' rfl) fun h'' _ hn'' => ih hn''

end Reading

section Operations

variable {W : Writing} {uid : UserId} {h : History} {α : Type}

/-- A part of an operation that ends with the write of the record it returns. -/
def Edits (W : Writing) (h : History) (p : Prog DriverCall Reply (RgwResult UserInfo)) : Prop :=
  p.Obeys (writeDiscipline W) (fun h' r => Outcome h' (r.map some)) h

theorem outcome_error (hn : NoWrite h) (e : RgwError) : Outcome h (.error e) :=
  fun ev he => committed_none (hn ev he)

theorem edits_error (hn : NoWrite h) (e : RgwError) : Edits W h (.done (.error e)) :=
  outcome_error hn e

theorem edits_bind {x : Op α} {f : α → Op UserInfo}
    (hx : x.run.Obeys (writeDiscipline W)
      (fun h' r => NoWrite h' ∧ ∀ a, r = .ok a → h <:+ h' → Edits W h' (f a).run) h) :
    Edits W h (x >>= f).run := by
  refine obeys_except_bind.mpr (hx.mono fun h' r hs hr => ?_)
  cases r with
  | ok a => exact hr.2 a rfl hs
  | error e => exact outcome_error hr.1 e

theorem edits_lift_bind {x : RgwResult α} {f : α → Op UserInfo} (hn : NoWrite h)
    (hf : ∀ a, x = .ok a → Edits W h (f a).run) :
    Edits W h ((liftM x : Op α) >>= f).run :=
  edits_bind ⟨hn, fun a hx _ => hf a hx⟩

theorem edits_requireUid_bind {f : Unit → Op UserInfo} (hf : Edits W [] (f ()).run) :
    Edits W [] (requireUid uid >>= f).run := by
  rw [requireUid]
  by_cases he : uid.isEmpty = true
  · rw [if_pos he]
    exact edits_error noWrite_nil _
  · rw [if_neg he]
    exact hf

theorem edits_load_bind {f : UserInfo → Op UserInfo} (hn : NoWrite h)
    (hf : ∀ h' loaded, NoWrite h' → ⟨.loadUser uid, .ok loaded⟩ ∈ h' →
      Edits W h' (f loaded).run) : Edits W h (invoke (.loadUser uid) >>= f).run := by
  refine edits_bind ⟨read_allowed hn rfl, fun r => ⟨noWrite_cons hn rfl, ?_⟩⟩
  intro loaded hr _
  subst hr
  exact hf _ loaded (noWrite_cons hn rfl) List.mem_cons_self

theorem edits_store {info : UserInfo} {exclusive : Bool} (hn : NoWrite h)
    (hw : W h (.storeUser info exclusive) (some info)) :
    Edits W h (do invoke (.storeUser info exclusive); return info : Op UserInfo).run := by
  refine obeys_except_bind.mpr ⟨⟨hn, fun w he => ?_⟩, fun r => ?_⟩
  · cases he
    exact hw
  · cases r with
    | ok _ => exact ⟨_, _, rfl, rfl⟩
    | error e =>
      intro ev hev
      rcases List.mem_cons.mp hev with rfl | hev
      · rfl
      · exact committed_none (hn ev hev)

theorem edits_edited {m : Mutation} {loaded info : UserInfo} (hn : NoWrite h)
    (hl : (⟨.loadUser uid, .ok loaded⟩ : Event DriverCall Reply) ∈ h)
    (he : Edit m loaded (some info)) (hc : Cleared h loaded m) :
    Edits (mutationWriting uid m) h
      (do invoke (.storeUser info false); return info : Op UserInfo).run :=
  edits_store hn ⟨rfl, loaded, hl, he, hc⟩

theorem keyCreate_edits (draws : Draws) (accessKey secretKey : Option Str) (generate : Bool) :
    Edits (mutationWriting uid (.keyCreate draws accessKey secretKey generate)) []
      (keyCreate draws uid accessKey secretKey generate).run := by
  refine edits_requireUid_bind (edits_load_bind noWrite_nil fun h' loaded hn hl => edits_bind ?_)
  refine (reading (putKey_obeys draws loaded _ _ generate hn)).mono fun h'' r _ hh =>
    ⟨hh.1, fun info hr hs => ?_⟩
  exact edits_edited hh.1 (hs.mem hl) (hh.2 info hr) trivial

theorem keyRemove_edits (accessKey : Str) :
    Edits (mutationWriting uid (.keyRemove accessKey)) [] (keyRemove uid accessKey).run := by
  refine edits_requireUid_bind ?_
  by_cases hk : accessKey = []
  · rw [if_pos hk]
    exact edits_error noWrite_nil _
  rw [if_neg hk]
  apply edits_load_bind noWrite_nil
  intro h' loaded hn hl
  by_cases hm : accessKey ∉ loaded.accessKeys
  · rw [if_pos hm]
    exact edits_error hn _
  · rw [if_neg hm]
    exact edits_edited hn hl ⟨not_not.mp hm, rfl⟩ trivial

/-- A fold of checks is the check of the fold. -/
theorem foldlM_lift {γ : Type} (f : α → γ → RgwResult α) (l : List γ) (a : α) :
    (l.foldlM (fun a e => (liftM (f a e) : Op α)) a) = liftM (l.foldlM f a) := by
  induction l generalizing a with
  | nil => rfl
  | cons e l ih =>
    rw [List.foldlM_cons, List.foldlM_cons]
    cases f a e with
    | ok a' => exact ih a'
    | error e' => rfl

theorem capsAdd_edits (caps : Str) :
    Edits (mutationWriting uid (.capsAdd caps)) [] (capsAdd uid caps).run := by
  refine edits_requireUid_bind (edits_lift_bind noWrite_nil fun parsed hp =>
    edits_load_bind noWrite_nil fun h' loaded hn hl => ?_)
  rw [foldlM_lift]
  refine edits_lift_bind hn fun added ha => ?_
  have he : Edit (.capsAdd caps) loaded (some { loaded with caps := added }) :=
    ⟨parsed, added, hp, ha, rfl⟩
  exact edits_edited hn hl he trivial

theorem capsRemove_edits (caps : Str) :
    Edits (mutationWriting uid (.capsRemove caps)) [] (capsRemove uid caps).run :=
  edits_requireUid_bind (edits_lift_bind noWrite_nil fun parsed hp =>
    edits_load_bind noWrite_nil fun _ _ hn hl => edits_edited hn hl ⟨parsed, hp, rfl⟩ trivial)

theorem userModify_edits (draws : Draws) (params : UserModifyParams) :
    Edits (mutationWriting uid (.userModify draws params)) []
      (userModify draws { params with uid := uid }).run := by
  refine edits_requireUid_bind (edits_bind ((reading (keyRequest_obeys _ _ _ noWrite_nil)).mono
    fun h₁ r _ hkey => ⟨hkey.1, fun key hr _ => edits_load_bind hkey.1 fun h₂ loaded hn hl => ?_⟩))
  have hfields : ∀ (h₃ : History) (info : UserInfo), NoWrite h₃ → h₂ <:+ h₃ →
      Cleared h₃ loaded (.userModify draws params) →
      { info with
        maxBuckets := params.maxBuckets.getD info.maxBuckets
        suspended := params.suspended.getD info.suspended
        system := params.system.getD info.system
        admin := params.admin.getD info.admin } = modified params loaded →
      Edits (mutationWriting uid (.userModify draws params)) h₃ (do
        let info ← putRequestedKey draws { info with
          maxBuckets := params.maxBuckets.getD info.maxBuckets
          suspended := params.suspended.getD info.suspended
          system := params.system.getD info.system
          admin := params.admin.getD info.admin } key
        invoke (.storeUser info false)
        return info : Op UserInfo).run := by
    intro h₃ info hn₃ hs hc he
    rw [he]
    refine edits_bind ((reading (putRequestedKey_obeys draws _ hn₃ (hkey.2 key hr))).mono
      fun h₄ r' hs' hh => ⟨hh.1, fun info' hr' _ => ?_⟩)
    refine edits_edited hh.1 ((hs.trans hs').mem hl) (hh.2 info' hr') fun email hemail hne => ?_
    obtain ⟨reply, hm, hreply⟩ := hc email hemail hne
    exact ⟨reply, hs'.mem hm, hreply⟩
  have hemail : ∀ info : UserInfo, info = { loaded with
      displayName := params.displayName.getD loaded.displayName } →
      Edits (mutationWriting uid (.userModify draws params)) h₂
        (modifyFrom draws params key info).run := by
    rintro info rfl
    unfold modifyFrom
    cases he : params.email with
    | none =>
      refine hfields h₂ _ hn List.suffix_rfl (fun email hemail _ => ?_) (by simp [modified, he])
      rw [he] at hemail
      cases hemail
    | some email =>
      by_cases hempty : email = []
      · simp only [hempty, ne_eq, not_true_eq_false, ↓reduceIte]
        refine hfields h₂ _ hn List.suffix_rfl (fun email' hemail hne => ?_)
          (by simp [modified, he, hempty])
        rw [he, hempty] at hemail
        exact absurd (Option.some.inj hemail).symm hne
      · simp only [hempty, ne_eq, not_false_eq_true, ↓reduceIte]
        refine edits_bind ((reading (ensureEmailFree_obeys hn _ email)).mono
          fun h₃ r' hs hh => ⟨hh.1, fun _ hr' _ => ?_⟩)
        refine hfields h₃ _ hh.1 hs (fun email' hemail _ => ?_) (by simp [modified, he])
        rw [he] at hemail
        obtain rfl := Option.some.inj hemail
        exact hh.2 hr'
  cases hd : params.displayName with
  | none => exact hemail _ (by simp [hd])
  | some name =>
    by_cases hname : name = []
    · simp only [hname, ↓reduceIte]
      exact edits_error hn _
    · simp only [hname, ↓reduceIte]
      exact hemail _ (by simp [hd])

theorem ownUid_edits (draws : Draws) (params : UserModifyParams) :
    Edits (mutationWriting params.uid (.userModify draws params)) []
      (userModify draws params).run := userModify_edits draws params

theorem created_userId {draws : Draws} {params : UserCreateParams} {info : UserInfo}
    (h : Created draws params info) : info.userId = params.uid := by
  obtain ⟨caps, -, ⟨-, -, -, rfl⟩ | ⟨id, key, -, -, rfl⟩⟩ := h <;> rfl

theorem userCreate_edits (draws : Draws) (params : UserCreateParams) :
    Edits (creationWriting draws params) [] (userCreate draws params).run := by
  refine edits_requireUid_bind ?_
  by_cases hname : params.displayName = []
  · rw [if_pos hname]
    exact edits_error noWrite_nil _
  rw [if_neg hname]
  refine edits_bind ((reading (keyRequest_obeys _ _ _ noWrite_nil)).mono fun h₁ r _ hkey =>
    ⟨hkey.1, fun key hr _ => ?_⟩)
  -- the fields after the email, whatever the lookup added to the history
  have hfields : ∀ (h₂ : History) (info : UserInfo) (caps : UserCaps), NoWrite h₂ →
      (nonempty params.caps).elim (.ok .new) UserCaps.new.addFromString = .ok caps →
      ((nonempty params.email).getD [] ≠ [] →
        LookedUp h₂ params.uid ((nonempty params.email).getD [])) →
      { info with
        maxBuckets := params.maxBuckets.getD info.maxBuckets
        suspended := params.suspended.getD false
        system := params.system.getD false
        admin := params.admin.getD false } = created draws params caps →
      Edits (creationWriting draws params) h₂ (do
        let info ← putRequestedKey draws { info with
          maxBuckets := params.maxBuckets.getD info.maxBuckets
          suspended := params.suspended.getD false
          system := params.system.getD false
          admin := params.admin.getD false } key
        invoke (.storeUser info true)
        return info : Op UserInfo).run := by
    intro h₂ info caps hn₂ hcaps hlook he
    rw [he]
    refine edits_bind ((reading (putRequestedKey_obeys draws _ hn₂ (hkey.2 key hr))).mono
      fun h₃ r' hs hh => ⟨hh.1, fun info' hr' _ => ?_⟩)
    refine edits_store hh.1 ⟨info', rfl, rfl, ⟨caps, hcaps, hh.2 info' hr'⟩, fun hne => ?_⟩
    have hmail : info'.userEmail = (nonempty params.email).getD [] := by
      rcases hh.2 info' hr' with ⟨-, -, -, rfl⟩ | ⟨id, k, -, -, rfl⟩ <;> rfl
    rw [hmail] at hne ⊢
    obtain ⟨reply, hm, hreply⟩ := hlook hne
    exact ⟨reply, hs.mem hm, hreply⟩
  have hemail : ∀ (info : UserInfo) (caps : UserCaps),
      (nonempty params.caps).elim (.ok .new) UserCaps.new.addFromString = .ok caps →
      info = { UserInfo.new params.uid params.displayName draws.now with caps := caps } →
      Edits (creationWriting draws params) h₁ (createFrom draws params key info).run := by
    rintro info caps hcaps rfl
    unfold createFrom
    cases he : nonempty params.email with
    | none =>
      refine hfields h₁ _ caps hkey.1 hcaps (fun hne => ?_) (by simp [created, he, UserInfo.new])
      rw [he] at hne
      exact absurd rfl hne
    | some email =>
      refine edits_bind ((reading (ensureEmailFree_obeys hkey.1 _ email)).mono
        fun h₂ r' _ hh => ⟨hh.1, fun _ hr' _ => ?_⟩)
      refine hfields h₂ _ caps hh.1 hcaps (fun _ => ?_) (by simp [created, he, UserInfo.new])
      rw [he]
      exact hh.2 hr'
  cases hc : nonempty params.caps with
  | none => exact hemail _ .new (by simp [hc]) rfl
  | some caps =>
    apply edits_lift_bind hkey.1
    intro added ha
    refine hemail _ added ?_ rfl
    rw [hc]
    exact ha

theorem obeys_map {β : Type} {d : Discipline DriverCall Reply} (f : α → β) {x : Op α}
    {Q : History → RgwResult β → Prop} :
    (f <$> x).run.Obeys d Q h ↔ x.run.Obeys d (fun h' r => Q h' (r.map f)) h := by
  rw [map_eq_pure_bind, obeys_except_bind]
  constructor <;> intro hx <;> refine hx.mono fun h' r _ hr => ?_ <;> cases r <;> exact hr

/-- A removal ends with the call that removes the user. -/
theorem userRemove_obeys (fuel : ℕ) (purgeData : Bool) :
    (userRemove fuel uid purgeData).run.Obeys (mutationDiscipline uid (.userRemove fuel purgeData))
      (fun h' r => Outcome h' (r.map fun _ => none)) [] := by
  rw [userRemove, requireUid]
  by_cases he : uid.isEmpty = true
  · rw [if_pos he]
    intro ev hev
    cases hev
  rw [if_neg he]
  refine obeys_except_bind.mpr ⟨read_allowed noWrite_nil rfl, fun r => ?_⟩
  have hn : NoWrite [⟨.loadUser uid, r⟩] := noWrite_cons noWrite_nil rfl
  cases r with
  | error e => exact outcome_error hn e
  | ok loaded =>
    have hend : ∀ h', NoWrite h' → [⟨.loadUser uid, .ok loaded⟩] <:+ h' →
        (invoke (.removeUser uid)).run.Obeys (mutationDiscipline uid (.userRemove fuel purgeData))
          (fun h' r => Outcome h' (r.map fun _ => none)) h' := by
      refine fun h' hn' hs => ⟨⟨hn', fun w hw => ?_⟩, fun r => ?_⟩
      · cases hw
        exact ⟨rfl, loaded, hs.mem List.mem_cons_self, trivial, trivial⟩
      · cases r with
        | ok _ => exact ⟨_, _, rfl, rfl⟩
        | error e =>
          intro ev hev
          rcases List.mem_cons.mp hev with rfl | hev
          · rfl
          · exact committed_none (hn' ev hev)
    cases purgeData with
    | false =>
      refine obeys_except_bind.mpr ((reading (reads_invoke hn rfl)).mono fun h₁ r hs hn₁ => ?_)
      cases r with
      | error e => exact outcome_error hn₁ e
      | ok first =>
        by_cases hb : first.buckets = []
        · simp only [hb, ne_eq, not_true_eq_false, ↓reduceIte]
          exact hend h₁ hn₁ hs
        · simp only [hb, ne_eq, not_false_eq_true, ↓reduceIte]
          exact outcome_error hn₁ (.invalidRequest (bytes "user has buckets; use purge-data"))
    | true =>
      refine obeys_except_bind.mpr ((reading (listAllBucketsLoop_reads (some uid) fuel [] [] hn)).mono
        fun h₁ r hs hn₁ => ?_)
      cases r with
      | error e => exact outcome_error hn₁ e
      | ok buckets =>
        refine obeys_except_bind.mpr ((reading (purgeBuckets_reads fuel buckets hn₁)).mono
          fun h₂ r hs' hn₂ => ?_)
        cases r with
        | error e => exact outcome_error hn₂ e
        | ok _ => exact hend h₂ hn₂ (hs.trans hs')

/-- Every operation keeps to its discipline, and its outcome tells what it wrote. -/
theorem run_obeys (uid : UserId) (m : Mutation) :
    (m.run uid).run.Obeys (mutationDiscipline uid m) Outcome [] := by
  cases m with
  | userModify draws params =>
    exact (obeys_map some).mpr (userModify_edits draws params)
  | keyCreate draws accessKey secretKey generate =>
    exact (obeys_map some).mpr (keyCreate_edits draws accessKey secretKey generate)
  | keyRemove accessKey => exact (obeys_map some).mpr (keyRemove_edits accessKey)
  | capsAdd caps => exact (obeys_map some).mpr (capsAdd_edits caps)
  | capsRemove caps => exact (obeys_map some).mpr (capsRemove_edits caps)
  | userRemove fuel purgeData => exact (obeys_map _).mpr (userRemove_obeys fuel purgeData)

end Operations

section Anytime

variable {d : Discipline DriverCall Reply} {α β : Type} {uid : UserId}

/-- A program keeps to a discipline, whatever was called before. -/
def Anytime (d : Discipline DriverCall Reply) (x : Op α) : Prop := ∀ h, Keeps d h x.run

/-- A discipline lets users be looked up and stored at any time. -/
structure Permits (d : Discipline DriverCall Reply) : Prop where
  load : ∀ id h, d.allowed h (.loadUser id)
  byAccessKey : ∀ accessKey h, d.allowed h (.loadUserByAccessKey accessKey)
  byEmail : ∀ email h, d.allowed h (.loadUserByEmail email)
  store : ∀ info exclusive h, d.allowed h (.storeUser info exclusive)

theorem anytime_pure (a : α) : Anytime d (pure a) := fun _ => keeps_done _
theorem anytime_throw (e : RgwError) : Anytime d (throw e : Op α) := fun _ => keeps_done _
theorem anytime_lift (x : RgwResult α) : Anytime d (liftM x : Op α) := fun _ => keeps_done _

theorem anytime_bind {x : Op α} {f : α → Op β} (hx : Anytime d x) (hf : ∀ a, Anytime d (f a)) :
    Anytime d (x >>= f) :=
  fun h => keeps_bind ((hx h).mono fun h' _ _ _ a _ => hf a h')

theorem anytime_invoke {c : DriverCall} (hc : ∀ h, d.allowed h c) : Anytime d (invoke c) :=
  fun h => keeps_invoke (hc h)

theorem anytime_attempt {c : DriverCall} (hc : ∀ h, d.allowed h c) :
    Anytime d (attempt c : Op (Reply c)) := fun h => ⟨hc h, fun _ => trivial⟩

theorem anytime_ite {p : Prop} [Decidable p] {x y : Op α} (hx : Anytime d x) (hy : Anytime d y) :
    Anytime d (if p then x else y) := by
  split
  · exact hx
  · exact hy

theorem anytime_map (f : α → β) {x : Op α} (hx : Anytime d x) : Anytime d (f <$> x) := by
  rw [map_eq_pure_bind]
  exact anytime_bind hx fun _ => anytime_pure _

theorem anytime_requireUid : Anytime d (requireUid uid) :=
  anytime_ite (anytime_throw _) (anytime_pure _)

theorem anytime_ensureEmailFree (hd : Permits d) (email : Str) :
    Anytime d (ensureEmailFree uid email) := by
  refine anytime_bind (anytime_attempt (hd.byEmail email)) fun r => ?_
  split
  · exact anytime_ite (anytime_throw _) (anytime_pure _)
  · exact anytime_pure _
  · exact anytime_throw _

theorem anytime_ensureKeyFree (hd : Permits d) (accessKey : Str) :
    Anytime d (ensureKeyFree uid accessKey) := by
  refine anytime_bind (anytime_attempt (hd.byAccessKey accessKey)) fun r => ?_
  split
  · exact anytime_ite (anytime_throw _) (anytime_pure _)
  · exact anytime_pure _
  · exact anytime_throw _

theorem anytime_unusedAccessKeyLoop (hd : Permits d) (draws : Draws) (attempts i : ℕ) :
    Anytime d (unusedAccessKeyLoop draws attempts i) := by
  induction attempts generalizing i with
  | zero => exact anytime_throw _
  | succ attempts ih =>
    refine anytime_bind (anytime_attempt (hd.byAccessKey _)) fun r => ?_
    split
    · exact anytime_pure _
    · exact ih (i + 1)
    · exact anytime_throw _

theorem anytime_putKey (hd : Permits d) (draws : Draws) (info : UserInfo)
    (accessKey secretKey : Option Str) (generate : Bool) :
    Anytime d (putKey draws info accessKey secretKey generate) := by
  have hsecret : ∀ id, Anytime d (putSecret draws info secretKey generate id) := by
    intro id
    unfold putSecret
    cases secretKey with
    | some key => exact anytime_pure _
    | none => exact anytime_ite (anytime_pure _) (anytime_throw _)
  unfold putKey
  cases accessKey with
  | some id => exact anytime_bind (anytime_ensureKeyFree hd id) fun _ => hsecret id
  | none =>
    refine anytime_ite ?_ (anytime_throw _)
    exact anytime_bind (anytime_unusedAccessKeyLoop hd draws keygenAttempts 0) hsecret

theorem anytime_keyRequest (accessKey secretKey : Option Str) (generate : Bool) :
    Anytime d (keyRequest accessKey secretKey generate) := by
  rw [keyRequest.eq_def]
  split
  · exact anytime_pure _
  · exact anytime_throw _
  · exact anytime_throw _
  · exact anytime_pure _

theorem anytime_putRequestedKey (hd : Permits d) (draws : Draws) (info : UserInfo)
    (key : Option KeyRequest) : Anytime d (putRequestedKey draws info key) := by
  cases key with
  | none => exact anytime_pure _
  | some key => exact anytime_putKey hd draws info _ _ _

theorem anytime_store (hd : Permits d) (info : UserInfo) (exclusive : Bool) :
    Anytime d (do invoke (.storeUser info exclusive); return info : Op UserInfo) :=
  anytime_bind (anytime_invoke (hd.store info exclusive)) fun _ => anytime_pure _

theorem anytime_userCreate (hd : Permits d) (draws : Draws) (params : UserCreateParams) :
    Anytime d (userCreate draws params) := by
  refine anytime_bind anytime_requireUid fun _ => anytime_ite (anytime_throw _) ?_
  refine anytime_bind (anytime_keyRequest _ _ _) fun key => ?_
  have hstore : ∀ info : UserInfo, Anytime d (do
      let info ← putRequestedKey draws info key
      invoke (.storeUser info true)
      return info : Op UserInfo) :=
    fun info => anytime_bind (anytime_putRequestedKey hd draws info key) fun info =>
      anytime_store hd info true
  have hemail : ∀ info : UserInfo, Anytime d (createFrom draws params key info) := by
    intro info
    unfold createFrom
    cases nonempty params.email with
    | none => exact hstore _
    | some email => exact anytime_bind (anytime_ensureEmailFree hd email) fun _ => hstore _
  cases nonempty params.caps with
  | none => exact hemail _
  | some caps => exact anytime_bind (anytime_lift _) fun _ => hemail _

theorem anytime_userModify (hd : Permits d) (draws : Draws) (params : UserModifyParams) :
    Anytime d (userModify draws params) := by
  refine anytime_bind anytime_requireUid fun _ => anytime_bind (anytime_keyRequest _ _ _) fun key => ?_
  refine anytime_bind (anytime_invoke (hd.load params.uid)) fun info => ?_
  have hstore : ∀ info : UserInfo, Anytime d (do
      let info ← putRequestedKey draws info key
      invoke (.storeUser info false)
      return info : Op UserInfo) :=
    fun info => anytime_bind (anytime_putRequestedKey hd draws info key) fun info =>
      anytime_store hd info false
  have hemail : ∀ info : UserInfo, Anytime d (modifyFrom draws params key info) := by
    intro info
    unfold modifyFrom
    cases params.email with
    | none => exact hstore _
    | some email =>
      exact anytime_ite (anytime_bind (anytime_ensureEmailFree hd email) fun _ => hstore _) (hstore _)
  cases params.displayName with
  | none => exact hemail info
  | some name => exact anytime_ite (anytime_throw _) (hemail _)

theorem anytime_keyCreate (hd : Permits d) (draws : Draws) (accessKey secretKey : Option Str)
    (generate : Bool) : Anytime d (keyCreate draws uid accessKey secretKey generate) := by
  refine anytime_bind anytime_requireUid fun _ => anytime_bind (anytime_invoke (hd.load uid)) fun _ => ?_
  exact anytime_bind (anytime_putKey hd draws _ _ _ _) fun info => anytime_store hd info false

theorem anytime_keyRemove (hd : Permits d) (accessKey : Str) : Anytime d (keyRemove uid accessKey) := by
  refine anytime_bind anytime_requireUid fun _ => anytime_ite (anytime_throw _) ?_
  refine anytime_bind (anytime_invoke (hd.load uid)) fun _ => anytime_ite (anytime_throw _) ?_
  exact anytime_store hd _ false

theorem anytime_capsAdd (hd : Permits d) (caps : Str) : Anytime d (capsAdd uid caps) := by
  refine anytime_bind anytime_requireUid fun _ => anytime_bind (anytime_lift _) fun parsed => ?_
  refine anytime_bind (anytime_invoke (hd.load uid)) fun info => ?_
  rw [foldlM_lift]
  exact anytime_bind (anytime_lift _) fun _ => anytime_store hd _ false

theorem anytime_capsRemove (hd : Permits d) (caps : Str) : Anytime d (capsRemove uid caps) := by
  refine anytime_bind anytime_requireUid fun _ => anytime_bind (anytime_lift _) fun parsed => ?_
  exact anytime_bind (anytime_invoke (hd.load uid)) fun _ => anytime_store hd _ false

end Anytime

end UserMutations
