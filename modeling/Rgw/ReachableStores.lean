import Rgw.BucketPages
import Rgw.EmailClashes
import Rgw.RequestCalls
import Rgw.StoredCaps

/-! # Stores that requests and operations reach

From the empty store, by any requests and any operations of an administrator, interleaved call
by call. Buckets are then in the empty tenant, buckets and objects have names, and every user's
document is read back. -/
namespace ReachableStores

open ByteStrings SortedMaps Interaction RgwTypes RgwSal RgwSalSqlite StoreInvariants Http RgwAuth
  RestS3Wire RestS3Handlers RgwAdminOps UserMutations EmailClashes BucketPages RequestCalls
  StoredCaps

section Calls

/-- An operation of an administrator creates no bucket and writes no object. -/
def adminCalls : Discipline DriverCall Reply where
  allowed _
    | .createBucket _ | .putObject _ _ _ _ _ _ => False
    | _ => True
  mayCut _ := True

/-- Whatever was called before, a part of an operation calls as operations do. -/
def Admin {α : Type} (x : Op α) : Prop := ∀ h, Keeps adminCalls h x.run

variable {α : Type} {uid : UserId}

theorem admin_permits : Permits adminCalls where
  load _ _ := trivial
  byAccessKey _ _ := trivial
  byEmail _ _ := trivial
  store _ _ _ := trivial

theorem admin_cut : Admin (outOfFuel : Op α) := fun _ => trivial

theorem admin_purgePage (bucket : BucketKey) (objects : List ObjectInfo) :
    Admin (purgePage bucket objects) := by
  induction objects with
  | nil => exact anytime_pure _
  | cons obj objects ih =>
    refine anytime_bind (anytime_attempt fun _ => trivial) fun r => ?_
    split
    · exact ih
    · exact ih
    · exact anytime_throw _

theorem admin_purgeObjects (bucket : BucketKey) (fuel : ℕ) (marker : Str) :
    Admin (purgeObjects bucket fuel marker) := by
  induction fuel generalizing marker with
  | zero => exact admin_cut
  | succ fuel ih =>
    refine anytime_bind (anytime_invoke fun _ => trivial) fun page => ?_
    refine anytime_bind (admin_purgePage bucket page.objects) fun _ => ?_
    exact anytime_ite (anytime_pure _) (anytime_ite (anytime_throw _) (ih page.nextMarker))

theorem admin_listAllBucketsLoop (owner : Option UserId) (fuel : ℕ) (marker : Str)
    (out : List BucketInfo) : Admin (listAllBucketsLoop owner fuel marker out) := by
  induction fuel generalizing marker out with
  | zero => exact admin_cut
  | succ fuel ih =>
    refine anytime_bind (anytime_invoke fun _ => trivial) fun page => ?_
    exact anytime_ite (anytime_pure _) (anytime_ite (anytime_throw _) (ih page.nextMarker _))

theorem admin_purgeBuckets (fuel : ℕ) (buckets : List BucketInfo) :
    Admin (purgeBuckets fuel buckets) := by
  induction buckets with
  | nil => exact anytime_pure _
  | cons bucket buckets ih =>
    apply anytime_bind (admin_purgeObjects bucket.bucket fuel [])
    intro _
    exact anytime_bind (anytime_invoke fun _ => trivial) fun _ => ih

theorem admin_bucketRemove (fuel : ℕ) (tenant name : Str) (purge : Bool) :
    Admin (bucketRemove fuel tenant name purge) := by
  refine anytime_bind (anytime_ite (anytime_throw _) (anytime_pure _)) fun _ => ?_
  have hremove : Admin (invoke (.removeBucket tenant name)) := anytime_invoke fun _ => trivial
  refine anytime_ite (anytime_bind (anytime_invoke fun _ => trivial) fun info => ?_) hremove
  exact anytime_bind (admin_purgeObjects info.bucket fuel []) fun _ => hremove

theorem admin_userRemove (fuel : ℕ) (purgeData : Bool) : Admin (userRemove fuel uid purgeData) := by
  refine anytime_bind anytime_requireUid fun _ =>
    anytime_bind (anytime_invoke fun _ => trivial) fun _ => ?_
  have hremove : Admin (invoke (.removeUser uid)) := anytime_invoke fun _ => trivial
  refine anytime_ite (anytime_bind (anytime_invoke fun _ => trivial) fun first => ?_) ?_
  · exact anytime_ite (anytime_throw _) hremove
  · refine anytime_bind (admin_listAllBucketsLoop _ fuel [] []) fun buckets => ?_
    exact anytime_bind (admin_purgeBuckets fuel buckets) fun _ => hremove

theorem admin_mutation (uid : UserId) (m : Mutation) : Admin (m.run uid) := by
  cases m with
  | userModify draws params => exact anytime_map _ (anytime_userModify admin_permits draws _)
  | keyCreate draws accessKey secretKey generate =>
    exact anytime_map _ (anytime_keyCreate admin_permits draws accessKey secretKey generate)
  | keyRemove accessKey => exact anytime_map _ (anytime_keyRemove admin_permits accessKey)
  | capsAdd caps => exact anytime_map _ (anytime_capsAdd admin_permits caps)
  | capsRemove caps => exact anytime_map _ (anytime_capsRemove admin_permits caps)
  | userRemove fuel purgeData => exact anytime_map _ (admin_userRemove fuel purgeData)

theorem admin_account (op : Account) : Admin op.run := by
  cases op with
  | create draws params => exact anytime_map _ (anytime_userCreate admin_permits draws params)
  | change uid m => exact admin_mutation uid m

end Calls

section Stores

variable {md5 : Str → Str} {s : Tables}

/-- What the tables hold when only requests and operations wrote to them. -/
structure Served (md5 : Str → Str) (s : Tables) : Prop where
  plain : PlainBuckets md5 s
  objectName : ∀ (id name : Str) (row : ObjectCols), s.objects[(id, name)]? = some row → name ≠ []
  record : ∀ (uid : Str) (row : UserRow), s.users[uid]? = some row →
    ∃ info, row = userRow info ∧ GoodCaps info.caps

/-- The calls that keep it so. -/
def Sound : DriverCall → Prop
  | .createBucket info => info.bucket.tenant = [] ∧ info.bucket.name ≠ []
  | .putObject _ key _ _ _ _ => key.name ≠ []
  | .storeUser info _ => GoodCaps info.caps
  | _ => True

theorem served_empty : Served md5 .empty where
  plain := plainBuckets_empty
  objectName _ _ _ hr := by simp [Tables.empty] at hr
  record _ _ hr := by simp [Tables.empty] at hr

/-- Every object row after a call was there before, but for the one that it wrote. -/
theorem exec_object_row {c : DriverCall} {id name : Str} {row : ObjectCols}
    (hr : (exec md5 c s).2.objects[(id, name)]? = some row) :
    s.objects[(id, name)]? = some row ∨ ∃ bucket key owner attrs body now,
      c = .putObject bucket key owner attrs body now ∧ name = key.name := by
  cases c with
  | storeUser info exclusive =>
    rw [exec_storeUser] at hr
    split at hr
    · exact Or.inl hr
    · split at hr <;> exact Or.inl hr
  | removeUser uid =>
    rw [exec_removeUser] at hr
    split at hr <;> exact Or.inl hr
  | createBucket info =>
    rw [exec_createBucket] at hr
    split at hr <;> exact Or.inl hr
  | removeBucket tenant bucketName =>
    rw [exec_removeBucket] at hr
    split at hr
    · exact Or.inl hr
    · split at hr <;> exact Or.inl hr
  | putObject bucket key owner attrs body now =>
    by_cases hn : name = key.name
    · exact Or.inr ⟨bucket, key, owner, attrs, body, now, rfl, hn⟩
    · left
      rw [exec_putObject] at hr
      split at hr
      · exact hr
      · split at hr
        · exact hr
        · split at hr
          · simp only [withObject, getElem?_insert_eq, Prod.mk.injEq] at hr
            rwa [if_neg (fun he => hn he.2.symm)] at hr
          · exact hr
  | deleteObject bucket key =>
    left
    rw [exec_deleteObject] at hr
    split at hr
    · exact hr
    · split at hr
      · exact hr
      · simp only [withoutObject, getElem?_erase_eq] at hr
        split at hr
        · cases hr
        · exact hr
  | _ => exact Or.inl hr

theorem served_exec (h : Served md5 s) {c : DriverCall} (hc : Sound c) :
    Served md5 (exec md5 c s).2 := by
  refine ⟨plainBuckets_exec h.plain fun info he => ?_, fun id name row hr => ?_, fun uid row hr => ?_⟩
  · subst he
    exact hc
  · rcases exec_object_row hr with hr | ⟨bucket, key, owner, attrs, body, now, rfl, rfl⟩
    · exact h.objectName id name row hr
    · exact hc
  · rcases @exec_cases md5 s c with ⟨-, hs⟩ | ⟨info, exclusive, rfl, -, hs⟩ | ⟨id, -, -, hs⟩
    · rw [hs] at hr
      exact h.record uid row hr
    · rw [hs] at hr
      rcases withUser_row hr with ⟨-, rfl⟩ | hr
      · exact ⟨info, rfl, hc⟩
      · exact h.record uid row hr
    · rw [hs] at hr
      exact h.record uid row (withoutUser_row hr)

/-- Every user of such a store is loaded. -/
theorem loadUser_served (h : Served md5 s) {id : UserId} (hm : id.toString ∈ s.users) :
    ∃ info, loadUser id s = .ok info := by
  rw [Std.ExtTreeMap.mem_iff_isSome_getElem?, Option.isSome_iff_exists] at hm
  obtain ⟨row, hr⟩ := hm
  obtain ⟨info, rfl, hgood⟩ := h.record _ row hr
  have hcaps := deserialize_serialize hgood
  exact ⟨_, by rw [loadUser, hr]; exact UserIds.fromJson_eq_ok.mpr ⟨info.caps, hcaps, rfl⟩⟩

end Stores

section Runs

/-- A request, or an operation of an administrator that writes to the store. -/
inductive Operation where
  | request (env : ReqEnv) (identity : Identity) (req : Request)
  | account (op : Account)
  | bucketRemove (fuel : ℕ) (tenant name : Str) (purge : Bool)

namespace Operation

def run (P : Platform) : Operation → Prog DriverCall Reply Unit
  | request env identity req => handle P env identity req >>= fun _ => pure ()
  | account op => op.run.run >>= fun _ => pure ()
  | bucketRemove fuel tenant name purge =>
    (RgwAdminOps.bucketRemove fuel tenant name purge).run >>= fun _ => pure ()

def writing : Operation → Writing
  | account op => op.writing
  | _ => fun _ _ _ => False

def discipline : Operation → Discipline DriverCall Reply
  | request _ _ _ => requestCalls
  | op => adminCalls.both (writeDiscipline op.writing)

end Operation

/-- The stores that requests and operations reach from the empty one, in any order of their
calls. -/
def Reachable (P : Platform) (s : Tables) : Prop :=
  ∃ (ops : ℕ → Operation) (t : List (ℕ × Event DriverCall Reply))
    (x : Config DriverCall Reply Unit Tables ℕ),
    Trace (exec P.md5) ⟨.empty, fun i => (ops i).run P⟩ t x ∧ x.state = s

theorem bucketRemove_reads (fuel : ℕ) (tenant name : Str) (purge : Bool) :
    Reads [] (bucketRemove fuel tenant name purge).run := by
  have hremove : ∀ h, NoWrite h → Reads h (invoke (.removeBucket tenant name)).run :=
    fun h hn => reads_invoke hn rfl
  refine reads_bind ?_ fun h₁ _ hn₁ => ?_
  · rw [requireName]
    by_cases he : name = []
    · rw [if_pos he]
      exact reads_done noWrite_nil _
    · rw [if_neg he]
      exact reads_done noWrite_nil _
  · cases purge with
    | false => exact hremove h₁ hn₁
    | true =>
      apply reads_bind (reads_invoke hn₁ rfl)
      intro h₂ info hn₂
      exact reads_bind (purgeObjects_reads info.bucket fuel [] hn₂) fun h₃ _ hn₃ => hremove h₃ hn₃

theorem operation_keeps (P : Platform) (op : Operation) : Keeps op.discipline [] (op.run P) := by
  have hadmin : ∀ {β : Type} {x : Op β} {W : Writing} {Q : History → RgwResult β → Prop}, Admin x →
      x.run.Obeys (writeDiscipline W) Q [] →
      Keeps (adminCalls.both (writeDiscipline W)) [] (x.run >>= fun _ => pure ()) :=
    fun hx hw => obeys_bind.mpr (((hx []).and hw).mono fun _ _ _ _ => trivial)
  cases op with
  | request env identity req =>
    exact obeys_bind.mpr ((handle_calls P env identity req).mono fun _ _ _ _ => trivial)
  | account op => exact hadmin (admin_account op) op.obeys
  | bucketRemove fuel tenant name purge =>
    exact hadmin (admin_bucketRemove fuel tenant name purge) (bucketRemove_reads fuel tenant name purge)

/-- An operation calls soundly when the records that it loaded are good. -/
theorem operation_sound {op : Operation} {h : History} {c : DriverCall}
    (hl : ∀ id info, (⟨.loadUser id, .ok info⟩ : Event DriverCall Reply) ∈ h → GoodCaps info.caps)
    (hc : op.discipline.allowed h c) : Sound c := by
  have hadmin : ∀ W : Writing, (∀ info exclusive, W h (.storeUser info exclusive) (some info) →
      GoodCaps info.caps) → (adminCalls.both (writeDiscipline W)).allowed h c → Sound c := by
    intro W hW hc
    cases c with
    | createBucket info => exact hc.1.elim
    | putObject bucket key owner attrs body now => exact hc.1.elim
    | storeUser info exclusive => exact hW info exclusive (hc.2.2 _ rfl)
    | _ => exact trivial
  cases op with
  | request env identity req =>
    cases c with
    | createBucket info => exact hc
    | putObject bucket key owner attrs body now => exact hc
    | storeUser info exclusive => exact hc.elim
    | _ => exact trivial
  | account op =>
    refine hadmin op.writing (fun info exclusive hw => ?_) hc
    cases op with
    | create draws params =>
      obtain ⟨info', he, -, hcreated, -⟩ := hw
      obtain rfl := Option.some.inj he
      exact created_caps hcreated
    | change uid m =>
      obtain ⟨-, loaded, hm, hedit, -⟩ := hw
      exact edit_caps hedit (hl _ loaded hm)
  | bucketRemove fuel tenant name purge =>
    exact hadmin _ (fun info exclusive hw => hw.elim) hc

/-- What a reachable store holds. -/
theorem reachable_served {P : Platform} {s : Tables} (h : Reachable P s) : Served P.md5 s := by
  obtain ⟨ops, t, x, run, rfl⟩ := h
  have hinv := trace_invariant (d := fun i => (ops i).discipline) (Q := fun _ _ _ => True)
    (fun t s => Served P.md5 s ∧ ∀ i id info, (i, ⟨.loadUser id, .ok info⟩) ∈ t →
      GoodCaps info.caps) ?_ run (fun i => operation_keeps P (ops i)) ⟨served_empty, ?_⟩
  · exact hinv.1
  · rintro t s i c ⟨hs, hl⟩ hc
    refine ⟨served_exec hs (operation_sound (fun id info hm => hl i id info (mem_seen.mp hm)) hc),
      fun j id info hm => ?_⟩
    rcases List.mem_cons.mp hm with he | hm
    · obtain ⟨rfl, hreply⟩ := Sigma.mk.inj_iff.mp (Prod.mk.inj he).2
      have hload : loadUser id s = .ok info := (eq_of_heq hreply).symm
      rw [loadUser] at hload
      cases hr : s.users[id.toString]? with
      | none =>
        rw [hr] at hload
        cases hload
      | some row =>
        rw [hr] at hload
        obtain ⟨caps, hcaps, rfl⟩ := UserIds.fromJson_eq_ok.mp hload
        exact goodCaps_deserialize hcaps
    · exact hl j id info hm
  · intro i id info hm
    cases hm

end Runs

end ReachableStores
