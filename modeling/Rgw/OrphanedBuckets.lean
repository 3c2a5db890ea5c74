import Rgw.AdminOps
import Rgw.BucketPages
import Rgw.RequestCalls

/-! # Removing a user while buckets are created

A removal lists the user's buckets, removes what the listing showed and then the user. A bucket
that comes in at a name the listing already went past stays behind without an owner. -/
namespace OrphanedBuckets

open ByteStrings TextCodecs Interaction RgwTypes RgwSal RgwSalSqlite StoreInvariants RgwAuth
  RestS3Wire RestS3Handlers RgwAdminOps S3Discipline RequestCalls OwnerIsolation BucketPages

variable {md5 : Str → Str} {s : Tables} {uid : UserId} {h : History}

section Removals

/-- The listing was read through, and what it showed was removed but for what is left. -/
structure Left (uid : UserId) (h : History) (left : List BucketInfo) : Prop where
  read : Reached uid h none
  parts : (left.map named ++ h.filterMap removed).Perm ((shown h).map named)

/-- A removal creates nothing, lists the user's buckets page after page, and then removes each
that it was shown. -/
def removalDiscipline (uid : UserId) : Discipline DriverCall Reply where
  allowed h
    | .createBucket _ => False
    | .listBuckets owner marker max =>
      owner = some uid ∧ Reached uid h (some marker) ∧ pageSize max + 1 < 2 ^ 63
    | .removeBucket tenant name => ∃ b left, Left uid h (b :: left) ∧ named b = (tenant, name)
    | _ => True
  mayCut _ := True

theorem pageBuckets_nil {e : Event DriverCall Reply} (hq : ¬Listing e.1) : pageBuckets e = [] := by
  obtain ⟨c, r⟩ := e
  cases c with
  | listBuckets owner marker max => exact absurd ⟨owner, marker, max, rfl⟩ hq
  | _ => rfl

theorem Left.cons {left : List BucketInfo} (hl : Left uid h left) {e : Event DriverCall Reply}
    (hq : ¬Listing e.1) (hr : removed e = none) : Left uid (e :: h) left := by
  refine ⟨.other hl.read hq, ?_⟩
  rw [shown_cons, pageBuckets_nil hq, List.nil_append, List.filterMap_cons_none hr]
  exact hl.parts

/-- Of what was to be removed there is one less. -/
theorem Left.remove {b : BucketInfo} {left : List BucketInfo} (hl : Left uid h (b :: left)) :
    Left uid (⟨.removeBucket b.bucket.tenant b.bucket.name, .ok ()⟩ :: h) left := by
  have hq : ¬Listing (.removeBucket b.bucket.tenant b.bucket.name) := fun ⟨_, _, _, hc⟩ => nomatch hc
  refine ⟨.other hl.read hq, ?_⟩
  rw [shown_cons, pageBuckets_nil hq, List.nil_append]
  exact List.perm_middle.trans hl.parts

theorem obeys_listAllBucketsLoop (fuel : ℕ) {marker : Str} {out : List BucketInfo}
    (hr : Reached uid h (some marker)) (ho : (shown h).Perm out) :
    (listAllBucketsLoop (some uid) fuel marker out).run.Obeys (removalDiscipline uid)
      (fun h' r => ∀ buckets, r = .ok buckets → Left uid h' buckets) h := by
  induction fuel generalizing h marker out with
  | zero => exact trivial
  | succ fuel ih =>
    rw [listAllBucketsLoop]
    refine obeys_except_bind.mpr ⟨⟨rfl, hr, by decide⟩, fun r => ?_⟩
    cases r with
    | error e =>
      intro buckets hok
      cases hok
    | ok page =>
      rw [obeys_done]
      dsimp only
      have hshown : (shown (⟨.listBuckets (some uid) marker 0, .ok page⟩ :: h)).Perm
          (out ++ page.buckets) := by
        rw [shown_cons]
        exact List.perm_append_comm.trans (ho.append_right _)
      by_cases ht : page.isTruncated = true
      · simp only [ht, Bool.not_true]
        by_cases hn : page.nextMarker = [] ∨ page.nextMarker = marker
        · simp only [hn, ↓reduceIte]
          intro buckets hok
          cases hok
        · simp only [hn, ↓reduceIte]
          exact ih (.page hr (by decide) ht (Or.inl rfl)) hshown
      · simp only [ht]
        intro buckets hok
        obtain rfl := Except.ok.inj hok
        refine ⟨.last hr (by decide) (Or.inl (Bool.eq_false_of_not_eq_true ht)), ?_⟩
        have hnone : h.filterMap removed = [] := List.filterMap_eq_nil_iff.mpr (reached_quiet hr)
        rw [List.filterMap_cons_none rfl, hnone, List.append_nil]
        exact (hshown.map named).symm

theorem obeys_purgePage {left : List BucketInfo} (bucket : BucketKey) (objects : List ObjectInfo)
    (hl : Left uid h left) : (purgePage bucket objects).run.Obeys (removalDiscipline uid)
      (fun h' _ => Left uid h' left) h := by
  induction objects generalizing h with
  | nil => exact hl
  | cons obj objects ih =>
    rw [purgePage]
    refine obeys_except_bind.mpr ⟨trivial, fun r => ?_⟩
    have hl' : Left uid (⟨.deleteObject bucket obj.key, r⟩ :: h) left := by
      refine hl.cons ?_ rfl
      rintro ⟨_, _, _, hc⟩
      cases hc
    cases r with
    | ok _ => exact ih hl'
    | error e => cases e with
      | noSuchKey => exact ih hl'
      | _ => exact hl'

theorem obeys_purgeObjects {left : List BucketInfo} (bucket : BucketKey) (fuel : ℕ) (marker : Str)
    (hl : Left uid h left) : (purgeObjects bucket fuel marker).run.Obeys (removalDiscipline uid)
      (fun h' _ => Left uid h' left) h := by
  induction fuel generalizing h marker with
  | zero => exact trivial
  | succ fuel ih =>
    rw [purgeObjects]
    refine obeys_except_bind.mpr ⟨trivial, fun r => ?_⟩
    have hl' : Left uid (⟨.listObjects bucket ⟨[], [], marker, 0⟩, r⟩ :: h) left := by
      refine hl.cons ?_ rfl
      rintro ⟨_, _, _, hc⟩
      cases hc
    cases r with
    | error e => exact hl'
    | ok page =>
      refine obeys_except_bind.mpr ((obeys_purgePage bucket page.objects hl').mono fun h₁ r _ hl₁ => ?_)
      cases r with
      | error e => exact hl₁
      | ok _ =>
        by_cases ht : page.isTruncated = true
        · simp only [ht, Bool.not_true]
          by_cases hn : page.nextMarker = [] ∨ page.nextMarker = marker
          · simp only [hn, ↓reduceIte]
            exact hl₁
          · simp only [hn, ↓reduceIte]
            exact ih page.nextMarker hl₁
        · simp only [ht]
          exact hl₁

theorem obeys_purgeBuckets (fuel : ℕ) (buckets : List BucketInfo) (hl : Left uid h buckets) :
    (purgeBuckets fuel buckets).run.Obeys (removalDiscipline uid)
      (fun h' r => r = .ok () → Left uid h' []) h := by
  induction buckets generalizing h with
  | nil => exact fun _ => hl
  | cons bucket buckets ih =>
    rw [purgeBuckets]
    refine obeys_except_bind.mpr ((obeys_purgeObjects bucket.bucket fuel [] hl).mono
      fun h₁ r _ hl₁ => ?_)
    cases r with
    | error e =>
      intro hok
      cases hok
    | ok _ =>
      refine obeys_except_bind.mpr ⟨⟨bucket, buckets, hl₁, rfl⟩, fun r => ?_⟩
      cases r with
      | error e =>
        intro hok
        cases hok
      | ok _ => exact ih hl₁.remove

theorem userRemove_obeys (fuel : ℕ) (purgeData : Bool) :
    (userRemove fuel uid purgeData).run.Obeys (removalDiscipline uid)
      (fun h' r => r = .ok () → Left uid h' []) [] := by
  rw [userRemove, requireUid]
  by_cases he : uid.isEmpty = true
  · rw [if_pos he]
    intro hok
    cases hok
  rw [if_neg he]
  refine obeys_except_bind.mpr ⟨trivial, fun r => ?_⟩
  cases r with
  | error e =>
    intro hok
    cases hok
  | ok loaded =>
    have hstart : Reached uid [⟨.loadUser uid, .ok loaded⟩] (some []) := by
      refine .start fun e hm => ?_
      obtain rfl := List.mem_singleton.mp hm
      exact ⟨fun ⟨_, _, _, hc⟩ => (nomatch hc), rfl⟩
    have hend : ∀ h', Left uid h' [] → (invoke (.removeUser uid)).run.Obeys (removalDiscipline uid)
        (fun h' r => r = .ok () → Left uid h' []) h' := by
      refine fun h' hl => ⟨trivial, fun r _ => ?_⟩
      exact hl.cons (fun ⟨_, _, _, hc⟩ => nomatch hc) rfl
    cases purgeData with
    | false =>
      have hsmall : pageSize 1 + 1 < 2 ^ 63 := by decide
      refine obeys_except_bind.mpr ⟨⟨rfl, hstart, hsmall⟩, fun r => ?_⟩
      cases r with
      | error e =>
        intro hok
        cases hok
      | ok first =>
        rw [obeys_done]
        dsimp only
        by_cases hb : first.buckets = []
        · simp only [hb, ne_eq, not_true_eq_false, ↓reduceIte]
          refine hend _ ⟨.last hstart hsmall (Or.inr hb), ?_⟩
          rw [shown_cons, pageBuckets, hb]
          exact .nil
        · simp only [hb, ne_eq, not_false_eq_true, ↓reduceIte]
          intro hok
          cases hok
    | true =>
      have hnone : (shown [⟨.loadUser uid, .ok loaded⟩]).Perm [] := .nil
      refine obeys_except_bind.mpr ((obeys_listAllBucketsLoop fuel hstart hnone).mono
        fun h₁ r _ hl => ?_)
      cases r with
      | error e =>
        intro hok
        cases hok
      | ok buckets =>
        refine obeys_except_bind.mpr ((obeys_purgeBuckets fuel buckets (hl buckets rfl)).mono
          fun h₂ r _ hl₂ => ?_)
        cases r with
        | error e =>
          intro hok
          cases hok
        | ok _ => exact hend h₂ (hl₂ rfl)

end Removals

section Creations

/-- A creation removes nothing. -/
def creationCalls : Discipline DriverCall Reply where
  allowed h c := requestCalls.allowed h c ∧ ∀ tenant name, c ≠ .removeBucket tenant name
  mayCut _ := True

/-- The quota is checked for a user that is named, not identified, so the pages are all it
could be allowed. -/
theorem checkQuota_creates (env : ReqEnv) (user : UserInfo) :
    Keeps creationCalls [] (checkQuota env user).run := by
  have hkeeps : ∀ bucketId, Keeps (s3Discipline (fun _ => False) .anonymous
      { env with bucketId := bucketId }) [] (checkQuota env user).run := fun bucketId =>
    (obeys_checkQuota { env with bucketId := bucketId } user).mono fun _ _ _ _ => trivial
  have hboth := (keeps_unwriting .anonymous env hkeeps).and (hkeeps [])
  refine (hboth.weaken (fun h c hc => ?_) fun _ _ => trivial).mono fun _ _ _ _ => trivial
  refine ⟨hc.1, ?_⟩
  rintro tenant name rfl
  obtain ⟨-, -, hcalls⟩ := hc
  generalize hcall : DriverCall.removeBucket tenant name = call at hcalls
  cases hcalls with
  | removeBucket b loaded => cases loaded.2
  | object c b loaded key body =>
    subst hcall
    cases key
  | _ => cases hcall

theorem createBucket_creates {env : ReqEnv} {identity : Identity} {name : Str} :
    Keeps creationCalls [] (createBucket env identity name).run := by
  refine keeps_create fun user _ hname => (checkQuota_creates env user).mono fun _ _ _ _ _ => ?_
  refine ⟨⟨⟨rfl, validated_ne_nil hname⟩, fun _ _ hc => nomatch hc⟩, fun _ => ⟨trivial, ?_⟩⟩
  exact fun _ _ hc => nomatch hc

end Creations

section Runs

variable {κ : Type} [DecidableEq κ]

/-- A user's removal beside requests of the user that create buckets. -/
structure Removal (κ : Type) where
  md5 : Str → Str
  store : Tables
  plain : PlainBuckets md5 store
  uid : UserId
  purgeData : Bool
  fuel : ℕ
  user : κ → AuthedUser
  env : κ → ReqEnv
  name : κ → Str
  sameUser : ∀ k, (user k).info.userId.toString = uid.toString

/-- What a thread ends with. -/
abbrev Ends := RgwResult Unit ⊕ Except OpError Response

namespace Removal

variable (R : Removal κ)

/-- The removal, and the requests. -/
def threads : Option κ → Prog DriverCall Reply Ends
  | none => (userRemove R.fuel R.uid R.purgeData).run >>= fun r => pure (.inl r)
  | some k => (createBucket (R.env k) (.user (R.user k)) (R.name k)).run >>= fun r => pure (.inr r)

def start : Config DriverCall Reply Ends Tables (Option κ) := ⟨R.store, R.threads⟩

/-- No bucket of the user is created at a name that the removal's listing went past. -/
def InTime (t : List (Option κ × Event DriverCall Reply))
    (_ : Config DriverCall Reply Ends Tables (Option κ))
    (e : Option κ × Event DriverCall Reply)
    (_ : Config DriverCall Reply Ends Tables (Option κ)) : Prop :=
  ∀ info, created e.2 = some info → info.owner.toString = R.uid.toString →
    ∀ p, Reached R.uid (seen none t) p → ¬Behind p info.bucket.name

/-- What each thread keeps to. -/
def discipline : Option κ → Discipline DriverCall Reply
  | none => removalDiscipline R.uid
  | some _ => creationCalls

end Removal

variable {R : Removal κ} {t : List (Option κ × Event DriverCall Reply)}
  {x y : Config DriverCall Reply Ends Tables (Option κ)} {i : Option κ}

/-- Where a run stands: the listing shows what it went past, and what was removed is gone. -/
structure Clears (R : Removal κ) (h : History) (s : Tables) : Prop where
  plain : PlainBuckets R.md5 s
  covered : ∀ p, Reached R.uid h p → Covers R.uid h p s
  gone : Reached R.uid h none → ∀ e ∈ h, ∀ tenant name, removed e = some (tenant, name) →
    ∀ (id : Str) (row : BucketRow), s.buckets[id]? = some row → row.owner = R.uid.toString →
      ¬(row.tenant = tenant ∧ row.name = name)

omit [DecidableEq κ] in
theorem clears_own {c : DriverCall} (hs : Clears R h s)
    (hc : (removalDiscipline R.uid).allowed h c) :
    Clears R (⟨c, (exec R.md5 c s).1⟩ :: h) (exec R.md5 c s).2 := by
  have hnone : ∀ info, created ⟨c, (exec R.md5 c s).1⟩ ≠ some info := by
    intro info hcre
    obtain rfl : c = .createBucket info := created_call hcre
    exact hc
  refine ⟨plainBuckets_exec hs.plain fun info he => ?_, fun p hr => ?_, ?_⟩
  · subst he
    exact hc.elim
  · exact covers_own hs.plain hs.covered (Option.eq_none_iff_forall_ne_some.mpr hnone) hr
  · intro hr e he tenant name hrem id row hrow ho
    rcases List.mem_cons.mp he with rfl | he
    · exact exec_removed hs.plain.wf hrem hrow
    · have hrow' : s.buckets[id]? = some row := by
        rcases exec_row hrow with hrow | ⟨info, hcre, -⟩
        · exact hrow
        · exact absurd hcre (hnone info)
      generalize (⟨c, (exec R.md5 c s).1⟩ : Event DriverCall Reply) = e' at hr
      cases hr with
      | last before small ends =>
        rw [reached_quiet before e he] at hrem
        cases hrem
      | other before quiet => exact hs.gone before e he tenant name hrem id row hrow' ho

omit [DecidableEq κ] in
theorem clears_other {c : DriverCall} (hs : Clears R h s) (hc : requestCalls.allowed h c)
    (intime : ∀ info, created ⟨c, (exec R.md5 c s).1⟩ = some info →
      info.owner.toString = R.uid.toString → ∀ p, Reached R.uid h p → ¬Behind p info.bucket.name) :
    Clears R h (exec R.md5 c s).2 := by
  refine ⟨plainBuckets_exec hs.plain fun info he => ?_, fun p hr => ?_, ?_⟩
  · subst he
    exact hc
  · exact covers_other (hs.covered p hr) fun info hcre ho => intime info hcre ho p hr
  · intro hr e he tenant name hrem id row hrow ho
    rcases exec_row hrow with hrow | ⟨info, hcre, -, rfl⟩
    · exact hs.gone hr e he tenant name hrem id row hrow ho
    · exact absurd trivial (intime info hcre ho none hr)

/-- What a thread's end tells of its calls. -/
def Told (uid : UserId) : Option κ → History → Ends → Prop
  | none, h, r => r = .inl (.ok ()) → Left uid h []
  | some _, _, _ => True

omit [DecidableEq κ] in
theorem threads_obey (R : Removal κ) (i : Option κ) :
    (R.threads i).Obeys (R.discipline i) (Told R.uid i) [] := by
  cases i with
  | none =>
    refine obeys_bind.mpr ((userRemove_obeys R.fuel R.purgeData).mono fun h' r _ hl hr => ?_)
    exact hl (Sum.inl.inj hr)
  | some k => exact obeys_bind.mpr (createBucket_creates.mono fun _ _ _ _ => trivial)

theorem clears_along (run : Along (exec R.md5) R.InTime R.start t x) :
    Clears R (seen none t) x.state := by
  refine along_invariant (d := R.discipline) (fun t s => Clears R (seen none t) s) ?_ run
    (threads_obey R) ⟨R.plain, fun p hr => ?_, fun _ e he => by cases he⟩
  · intro t y i e z hs step intime hc
    cases step with
    | call s p i c k hi =>
      cases i with
      | none =>
        rw [seen_cons_self]
        exact clears_own hs hc
      | some k =>
        rw [seen_cons_ne (Option.some_ne_none k)]
        exact clears_other hs hc.1 intime
  · intro id row hrow _ hb
    rcases reached_first hr with rfl | ⟨max, r, hm⟩
    · exact absurd hb (not_behind_start (R.plain.name id row hrow))
    · cases hm

/-- Where every run stands: the pages follow one another, and what they showed was removed or is
still stored. -/
structure Standing (uid : UserId) (h : History) (s : Tables) : Prop where
  resumes : ∀ e ∈ h, Resumes e
  past : ∀ p, Reached uid h p → ∀ b ∈ shown h, Behind p b.bucket.name
  distinct : ((shown h).map named).Nodup
  stored : ∀ b ∈ shown h, named b ∈ h.filterMap removed ∨
    ∃ (id : Str) (row : BucketRow), s.buckets[id]? = some row ∧ (row.tenant, row.name) = named b

/-- A call of the removal shows nothing or one more page. -/
theorem removal_page (hp : PlainBuckets md5 s) {c : DriverCall}
    (hc : (removalDiscipline uid).allowed h c) : pageBuckets ⟨c, (exec md5 c s).1⟩ = [] ∨
      ∃ marker max page, Reached uid h (some marker) ∧ PageOf s (some uid) marker page ∧
        (⟨c, (exec md5 c s).1⟩ : Event DriverCall Reply) =
          ⟨.listBuckets (some uid) marker max, .ok page⟩ := by
  cases c with
  | listBuckets owner marker max =>
    obtain ⟨rfl, hreached, small⟩ := hc
    obtain ⟨page, hl, hpage⟩ := listBuckets_pageOf hp (some uid) marker small
    have he : (exec md5 (.listBuckets (some uid) marker max) s).1 = .ok page := hl
    rw [he]
    exact Or.inr ⟨marker, max, page, hreached, hpage, rfl⟩
  | _ => exact Or.inl rfl

theorem removal_resumes (hp : PlainBuckets md5 s) {c : DriverCall}
    (hc : (removalDiscipline uid).allowed h c) : Resumes ⟨c, (exec md5 c s).1⟩ := by
  cases c with
  | listBuckets owner marker max =>
    obtain ⟨page, hl, hpage⟩ := listBuckets_pageOf hp owner marker hc.2.2
    have he : (exec md5 (.listBuckets owner marker max) s).1 = .ok page := hl
    rw [he]
    exact hpage.resumes
  | _ => exact trivial

theorem standing_nil : Standing uid [] s where
  resumes _ he := by cases he
  past _ _ _ hb := by cases hb
  distinct := .nil
  stored _ hb := by cases hb

theorem removed_cons {k : Str × Str} (e : Event DriverCall Reply) (hk : k ∈ h.filterMap removed) :
    k ∈ (e :: h).filterMap removed :=
  ((List.sublist_cons_self e h).filterMap removed).subset hk

/-- A call takes what it removes, and nothing else that was shown. -/
theorem Standing.kept (hs : Standing uid h s) (c : DriverCall) {b : BucketInfo} (hb : b ∈ shown h) :
    named b ∈ (⟨c, (exec md5 c s).1⟩ :: h).filterMap removed ∨
      ∃ (id : Str) (row : BucketRow), (exec md5 c s).2.buckets[id]? = some row ∧
        (row.tenant, row.name) = named b := by
  rcases hs.stored b hb with hgone | ⟨id, row, hr, hname⟩
  · exact Or.inl (removed_cons _ hgone)
  · rcases exec_kept hr with hkept | hgone
    · exact Or.inr ⟨id, row, hkept, hname⟩
    · rw [hname] at hgone
      exact Or.inl (List.mem_filterMap.mpr ⟨_, List.mem_cons_self, hgone⟩)

theorem standing_own (hp : PlainBuckets md5 s) {c : DriverCall} (hs : Standing uid h s)
    (hc : (removalDiscipline uid).allowed h c) :
    Standing uid (⟨c, (exec md5 c s).1⟩ :: h) (exec md5 c s).2 := by
  have hresumes := removal_resumes hp hc
  have hpast : ∀ p, Reached uid (⟨c, (exec md5 c s).1⟩ :: h) p → ∀ b ∈ shown h,
      Behind p b.bucket.name := by
    intro p hr b hb
    exact reached_past hr hresumes fun p hr => hs.past p hr b hb
  rcases removal_page hp hc with hnone | ⟨marker, max, page, hreached, hpage, he⟩
  · have hshown : shown (⟨c, (exec md5 c s).1⟩ :: h) = shown h := by
      rw [shown_cons, hnone, List.nil_append]
    refine ⟨List.forall_mem_cons.mpr ⟨hresumes, hs.resumes⟩, ?_, ?_, ?_⟩
    · rwa [hshown]
    · rw [hshown]
      exact hs.distinct
    · rw [hshown]
      exact fun b hb => hs.kept c hb
  · have hshown : shown (⟨c, (exec md5 c s).1⟩ :: h) = page.buckets ++ shown h := by
      rw [shown_cons, he]
      rfl
    refine ⟨List.forall_mem_cons.mpr ⟨hresumes, hs.resumes⟩, fun p hr b hb => ?_, ?_, fun b hb => ?_⟩
    · rw [hshown, List.mem_append] at hb
      rcases hb with hb | hb
      · rw [he] at hr
        exact reached_within hr hpage hb
      · exact hpast p hr b hb
    · rw [hshown, List.map_append, List.nodup_append']
      refine ⟨hpage.names_nodup, hs.distinct, List.disjoint_left.mpr fun k hnew hold => ?_⟩
      obtain ⟨b, hb, rfl⟩ := List.mem_map.mp hold
      exact hpage.names_past hp hnew (hs.past _ hreached b hb)
    · rw [hshown, List.mem_append] at hb
      rcases hb with hb | hb
      · obtain ⟨rfl, -⟩ := Sigma.mk.inj_iff.mp he
        exact Or.inr (hpage.stored hp hb).2
      · exact hs.kept c hb

theorem standing_other {c : DriverCall} (hs : Standing uid h s)
    (hc : ∀ tenant name, c ≠ .removeBucket tenant name) : Standing uid h (exec md5 c s).2 := by
  refine ⟨hs.resumes, hs.past, hs.distinct, fun b hb => ?_⟩
  rcases hs.stored b hb with hgone | ⟨id, row, hr, hname⟩
  · exact Or.inl hgone
  · exact Or.inr ⟨id, row, exec_buckets_grow hc hr, hname⟩

/-- A bucket of the user's that the removal is past: it neither was shown nor will be, or it came
in after the removal of its name. -/
structure Lost (uid : UserId) (h : History) (s : Tables) (id : Str) (row : BucketRow) : Prop where
  stored : s.buckets[id]? = some row
  owner : row.owner = uid.toString
  past : ∀ p, Reached uid h p → Behind p row.name
  spared : (row.tenant, row.name) ∈ (shown h).map named →
    (row.tenant, row.name) ∈ h.filterMap removed

theorem lost_created {c : DriverCall} {info : BucketInfo} {p : Option Str} (hs : Standing uid h s)
    (hcre : created ⟨c, (exec md5 c s).1⟩ = some info) (ho : info.owner.toString = uid.toString)
    (hr : Reached uid h p) (hb : Behind p info.bucket.name) :
    Lost uid h (exec md5 c s).2 info.bucket.bucketId (bucketRow info) := by
  obtain ⟨-, hfree, hstate⟩ := exec_created hcre
  refine ⟨?_, ho, fun p' hr' => ?_, fun hshown => ?_⟩
  · rw [hstate, withBucket]
    simp
  · rw [reached_unique hr' hr hs.resumes]
    exact hb
  · obtain ⟨b, hm, hname⟩ := List.mem_map.mp hshown
    rcases hs.stored b hm with hgone | ⟨id, row, hrow, hkey⟩
    · rwa [← hname]
    · exact absurd (Prod.mk.inj (hkey.trans hname)) (bucketNamed_none hfree hrow)

theorem lost_own {c : DriverCall} {id : Str} {row : BucketRow} (hp : PlainBuckets md5 s)
    (hs : Standing uid h s) (hc : (removalDiscipline uid).allowed h c) (hl : Lost uid h s id row) :
    Lost uid (⟨c, (exec md5 c s).1⟩ :: h) (exec md5 c s).2 id row := by
  refine ⟨?_, hl.owner, fun p hr => reached_past hr (removal_resumes hp hc) hl.past, fun hshown => ?_⟩
  · rcases exec_kept hl.stored with hkept | hgone
    · exact hkept
    · -- the removal takes a name that it was shown only once, and this one was taken before
      obtain rfl : c = .removeBucket row.tenant row.name := removed_call hgone
      obtain ⟨b, left, hleft, hname⟩ := hc
      have hdistinct := hleft.parts.nodup_iff.mpr hs.distinct
      have hm : (row.tenant, row.name) ∈ (b :: left).map named := by
        rw [← hname]
        exact List.mem_map_of_mem List.mem_cons_self
      have hshown := hleft.parts.subset (List.mem_append_left _ hm)
      exact absurd (hl.spared hshown) (List.disjoint_left.mp (List.nodup_append'.mp hdistinct).2.2 hm)
  · have hold : (row.tenant, row.name) ∈ (shown h).map named := by
      rcases removal_page hp hc with hnone | ⟨marker, max, page, hreached, hpage, he⟩
      · rwa [shown_cons, hnone, List.nil_append] at hshown
      · rw [he, shown_cons, List.map_append, List.mem_append] at hshown
        rcases hshown with hm | hm
        · exact absurd (hl.past _ hreached) (hpage.names_past hp hm)
        · exact hm
    exact removed_cons _ (hl.spared hold)

/-- In every run the removal's listing is borne out by the store. -/
theorem standing_along (run : Trace (exec R.md5) R.start t x) :
    PlainBuckets R.md5 x.state ∧ Standing R.uid (seen none t) x.state := by
  refine trace_invariant (d := R.discipline)
    (fun t s => PlainBuckets R.md5 s ∧ Standing R.uid (seen none t) s) (fun t s i c hs hc => ?_) run
    (threads_obey R) ⟨R.plain, standing_nil⟩
  cases i with
  | none =>
    rw [seen_cons_self]
    refine ⟨plainBuckets_exec hs.1 fun info he => ?_, standing_own hs.1 hs.2 hc⟩
    subst he
    exact hc.elim
  | some k =>
    rw [seen_cons_ne (Option.some_ne_none k)]
    refine ⟨plainBuckets_exec hs.1 fun info he => ?_, standing_other hs.2 hc.2⟩
    subst he
    exact hc.1

/-- A bucket that is created too late stays to the end. -/
theorem inTime_or_lost (run : Trace (exec R.md5) R.start t x) :
    Along (exec R.md5) R.InTime R.start t x ∨
      ∃ id row, Lost R.uid (seen none t) x.state id row := by
  induction run with
  | nil => exact Or.inl .nil
  | @snoc t y e z hr hs ih =>
    obtain ⟨i, e⟩ := e
    obtain ⟨hplain, hstanding⟩ := standing_along hr
    have hc := (step_obeys hs (trace_obeys hr (threads_obey R))).1
    rcases ih with hin | ⟨id, row, hl⟩
    · by_cases hlate : R.InTime t y (i, e) z
      · exact Or.inl (.snoc hin hs hlate)
      · right
        simp only [Removal.InTime, not_forall, not_not] at hlate
        obtain ⟨info, hcre, ho, p, hreached, hb⟩ := hlate
        cases hs with
        | call s p i c k hi =>
          cases i with
          | none =>
            obtain rfl : c = .createBucket info := created_call hcre
            exact hc.elim
          | some k =>
            rw [seen_cons_ne (Option.some_ne_none k)]
            exact ⟨_, _, lost_created hstanding hcre ho hreached hb⟩
    · right
      cases hs with
      | call s p i c k hi =>
        cases i with
        | none =>
          rw [seen_cons_self]
          exact ⟨id, row, lost_own hplain hstanding hc hl⟩
        | some k =>
          rw [seen_cons_ne (Option.some_ne_none k)]
          exact ⟨id, row, exec_buckets_grow hc.2 hl.stored, hl.owner, hl.past, hl.spared⟩

/-- A removal that succeeds leaves no bucket of the user exactly when none was created at a name
that the removal's listing went past. -/
theorem no_orphans (R : Removal κ) (t : List (Option κ × Event DriverCall Reply))
    (x : Config DriverCall Reply Ends Tables (Option κ)) (run : Trace (exec R.md5) R.start t x)
    (removed : x.threads none = .done (.inl (.ok ()))) :
    Along (exec R.md5) R.InTime R.start t x ↔
      ∀ (id : Str) (row : BucketRow), x.state.buckets[id]? = some row → row.owner ≠ R.uid.toString := by
  constructor
  · intro intime id row hrow ho
    have hs := clears_along intime
    have hend := trace_obeys run (threads_obey R) none
    rw [removed] at hend
    have hleft : Left R.uid (seen none t) [] := hend rfl
    have hshown := hs.covered none hleft.read id row hrow ho trivial
    obtain ⟨-, htenant, hname⟩ := bucketRow_key hs.plain.wf hrow
    have hgone := hleft.parts.symm.subset (List.mem_map_of_mem hshown)
    obtain ⟨e, he, hrem⟩ := List.mem_filterMap.mp hgone
    exact hs.gone hleft.read e he _ _ hrem id row hrow ho ⟨htenant, hname⟩
  · intro hnone
    rcases inTime_or_lost run with intime | ⟨id, row, hl⟩
    · exact intime
    · exact absurd hl.owner (hnone id row hl.stored)

def carol : UserInfo := { UserInfo.new (.new (bytes "carol")) [] 0 with maxBuckets := 0 }

/-- A user is removed while she creates a bucket. -/
def departure (purgeData : Bool) : Removal Unit where
  md5 := sampleMd5
  store := (exec sampleMd5 (.storeUser carol false) .empty).2
  plain := plainBuckets_exec plainBuckets_empty fun _ hc => nomatch hc
  uid := carol.userId
  purgeData := purgeData
  fuel := 2
  user := fun _ => ⟨carol, []⟩
  env := fun _ => drawn (bytes "id-1")
  name := fun _ => bytes "bk1"
  sameUser := fun _ => rfl

/-- The removal of the user has succeeded. -/
def succeeded (p : Prog DriverCall Reply Ends) : Bool :=
  match p with
  | .done (.inl (.ok ())) => true
  | _ => false

theorem succeeded_eq {p : Prog DriverCall Reply Ends} (h : succeeded p = true) :
    p = .done (.inl (.ok ())) := by
  unfold succeeded at h
  split at h
  · rfl
  · cases h

/-- A bucket that comes in before the listing goes with its owner. -/
theorem no_orphans_departure : ∃ t x, Along (exec sampleMd5) (departure true).InTime
      (departure true).start t x ∧ t.length = 6 ∧
    ∀ (id : Str) (row : BucketRow), x.state.buckets[id]? = some row →
      row.owner ≠ carol.userId.toString := by
  have hplay : (Config.play (exec sampleMd5) [some (), none, none, none, none, none]
      ([], (departure true).start)).map (fun r =>
        (r.1.map fun e => (created e.2).map fun info => info.bucket.name,
          succeeded (r.2.threads none))) =
      some ([none, none, none, none, none, some (bytes "bk1")], true) := by decide +kernel
  obtain ⟨⟨t, x⟩, hr, ht⟩ := Option.map_eq_some_iff.mp hplay
  rw [Prod.mk.injEq] at ht
  have hlength := congrArg List.length ht.1
  rw [List.length_map] at hlength
  have run : Along (exec sampleMd5) (departure true).InTime (departure true).start t x := by
    apply (play_trace .nil hr).along_of_suffix
    intro e before hsuffix y z info hcre _ p hreach hb
    -- the one call that creates is the first of the run
    have hcalls := hsuffix.map fun e => (created e.2).map fun info => info.bucket.name
    rw [ht.1, List.map_cons, hcre, Option.map_some] at hcalls
    simp only [List.suffix_cons_iff, List.suffix_nil, List.cons.injEq, reduceCtorEq, false_and,
      false_or, or_false, Option.some.injEq, List.map_eq_nil_iff] at hcalls
    obtain ⟨hname, rfl⟩ := hcalls
    rcases reached_first hreach with rfl | ⟨max, r, hm⟩
    · rw [hname] at hb
      exact not_behind_start (by decide) hb
    · cases hm
  have hnone := (no_orphans (departure true) t x run.trace (succeeded_eq ht.2)).mp run
  exact ⟨t, x, run, hlength, hnone⟩

/-- A bucket that comes in after the listing stays when its owner is gone. -/
theorem bucket_orphaned : ¬∀ (R : Removal Unit) (t : List (Option Unit × Event DriverCall Reply))
    (x : Config DriverCall Reply Ends Tables (Option Unit)), Trace (exec R.md5) R.start t x →
    x.threads none = .done (.inl (.ok ())) → (∀ k, ∃ r, x.threads (some k) = .done r) →
    ∀ (id : Str) (row : BucketRow), x.state.buckets[id]? = some row →
      row.owner ≠ R.uid.toString := by
  intro claim
  have hplay : (Config.play (exec sampleMd5) [none, none, some (), none]
      ([], (departure false).start)).map (fun r => (succeeded (r.2.threads none),
        ((r.2.threads (some ())).result).isSome,
        (r.2.state.buckets[bytes "id-1"]?).map BucketRow.owner)) =
      some (true, true, some carol.userId.toString) := by decide +kernel
  obtain ⟨⟨t, x⟩, hr, hx⟩ := Option.map_eq_some_iff.mp hplay
  rw [Prod.mk.injEq, Prod.mk.injEq] at hx
  obtain ⟨hdone, hfinished, hrow⟩ := hx
  obtain ⟨row, hrow, howner⟩ := Option.map_eq_some_iff.mp hrow
  refine claim (departure false) t x (play_trace .nil hr) (succeeded_eq hdone) (fun k => ?_) _ row
    hrow howner
  obtain ⟨r, hresult⟩ := Option.isSome_iff_exists.mp hfinished
  exact ⟨r, result_eq_some.mp hresult⟩

end Runs

end OrphanedBuckets
