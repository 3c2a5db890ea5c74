import Rgw.BucketPages
import Rgw.RequestCalls

/-! # The bucket quota under concurrent requests

A request counts the user's buckets page by page and inserts its own in a later transaction.
What it counted is all there is unless another bucket came in meanwhile. -/
namespace BucketQuota

open ByteStrings TextCodecs SortedMaps Interaction RgwTypes RgwSal RgwSalSqlite StoreInvariants RgwAuth
  RestS3Wire RestS3Handlers S3Discipline RequestCalls OwnerIsolation BucketPages

variable {md5 : Str → Str} {s s' : Tables} {uid : UserId}

section Counting

/-- The rows of a user's buckets. -/
def ownedRows (s : Tables) (uid : UserId) : List (Str × BucketRow) :=
  s.buckets.toList.filter fun r => r.2.owner = uid.toString

def ownedCount (s : Tables) (uid : UserId) : ℕ := (ownedRows s uid).length

theorem mem_ownedRows {r : Str × BucketRow} :
    r ∈ ownedRows s uid ↔ s.buckets[r.1]? = some r.2 ∧ r.2.owner = uid.toString := by
  rw [ownedRows, List.mem_filter, decide_eq_true_eq, ← mem_rows]

theorem ownedRows_nodup (s : Tables) (uid : UserId) : ((ownedRows s uid).map Prod.fst).Nodup := by
  rw [List.Nodup, List.pairwise_map]
  refine (rows_sorted.filter _).imp fun {a b} hab he => ?_
  have hlt : a.1 < b.1 := compare_lt.mp hab
  rw [he] at hlt
  exact lt_irrefl _ hlt

/-- A call adds the bucket that it creates to the count, and no other. -/
theorem ownedCount_exec (c : DriverCall) : ownedCount (exec md5 c s).2 uid ≤ ownedCount s uid +
    if (created ⟨c, (exec md5 c s).1⟩).isSome then 1 else 0 := by
  have hnodup := (ownedRows_nodup (exec md5 c s).2 uid).of_map
  cases hcre : created ⟨c, (exec md5 c s).1⟩ with
  | none =>
    refine (hnodup.subperm fun r hr => ?_).length_le
    obtain ⟨hrow, ho⟩ := mem_ownedRows.mp hr
    rcases exec_row hrow with hrow | ⟨info, hinfo, -, -⟩
    · exact mem_ownedRows.mpr ⟨hrow, ho⟩
    · rw [hcre] at hinfo
      cases hinfo
  | some info =>
    have hsub : ownedRows (exec md5 c s).2 uid ⊆
        (info.bucket.bucketId, bucketRow info) :: ownedRows s uid := by
      intro r hr
      obtain ⟨hrow, ho⟩ := mem_ownedRows.mp hr
      rcases exec_row hrow with hrow | ⟨info', hinfo, hid, hrow⟩
      · exact List.mem_cons_of_mem _ (mem_ownedRows.mpr ⟨hrow, ho⟩)
      · rw [hcre] at hinfo
        obtain rfl := Option.some.inj hinfo
        rw [List.mem_cons]
        exact Or.inl (Prod.ext hid hrow)
    exact (hnodup.subperm hsub).length_le

/-- A bucket created for the user does add to the count. -/
theorem ownedCount_created {c : DriverCall} {info : BucketInfo}
    (hcre : created ⟨c, (exec md5 c s).1⟩ = some info) (ho : info.owner = uid) :
    ownedCount s uid < ownedCount (exec md5 c s).2 uid := by
  obtain ⟨hfresh, -, hs⟩ := exec_created hcre
  have hnew : (info.bucket.bucketId, bucketRow info) ∉ ownedRows s uid := by
    intro hm
    exact hfresh (mem_buckets.mpr ⟨_, (mem_ownedRows.mp hm).1⟩)
  have hnodup := List.nodup_cons.mpr ⟨hnew, (ownedRows_nodup s uid).of_map⟩
  refine Nat.lt_of_succ_le (hnodup.subperm fun r hr => ?_).length_le
  rw [mem_ownedRows, hs]
  simp only [withBucket, getElem?_insert_eq]
  rcases List.mem_cons.mp hr with rfl | hr
  · simp only [↓reduceIte, true_and]
    exact congrArg UserId.toString ho
  · obtain ⟨hrow, howner⟩ := mem_ownedRows.mp hr
    have hne : info.bucket.bucketId ≠ r.1 := by
      intro he
      exact hfresh (mem_buckets.mpr ⟨_, he ▸ hrow⟩)
    rw [if_neg hne]
    exact ⟨hrow, howner⟩

/-- Rows that were all shown are no more than was shown. -/
theorem ownedCount_le_shown (wf : WellFormed md5 s) {h : History} (hc : Covers uid h none s) :
    ownedCount s uid ≤ (shown h).length := by
  have hsub : (ownedRows s uid).map Prod.fst ⊆ (shown h).map fun b => b.bucket.bucketId := by
    intro id hid
    obtain ⟨r, hr, rfl⟩ := List.mem_map.mp hid
    obtain ⟨hrow, ho⟩ := mem_ownedRows.mp hr
    exact List.mem_map.mpr ⟨rowInfo r.2, hc r.1 r.2 hrow ho trivial, (bucketRow_key wf hrow).1.symm⟩
  have hle := ((ownedRows_nodup s uid).subperm hsub).length_le
  simpa [ownedCount] using hle

end Counting

section Requests

/-- A request that creates or deletes a bucket. -/
inductive BucketRequest where
  | create (env : ReqEnv) (name : Str)
  | delete (name : Str)

def BucketRequest.run (user : AuthedUser) : BucketRequest → S3Op Response
  | create env name => createBucket env (.user user) name
  | delete name => deleteBucket (.user user) name

/-- Fewer buckets than the quota were there, as far as the pages show. -/
def Counted (uid : UserId) (quota : ℕ) (h : History) : Prop :=
  Reached uid h none ∧ (shown h).length < quota

/-- A bucket goes in only after the user's buckets were counted. -/
def quotaDiscipline (uid : UserId) (quota : ℕ) : Discipline DriverCall Reply where
  allowed h
    | .createBucket info => info.bucket.tenant = [] ∧ info.bucket.name ≠ [] ∧ info.owner = uid ∧
      Counted uid quota h
    | _ => True
  mayCut _ := True

variable {quota : ℕ} {h : History} {env : ReqEnv} {user : AuthedUser} {name : Str}

theorem obeys_listOwnedBucketsLoop (fuel : ℕ) {marker : Str} {out : List BucketInfo}
    (hr : Reached uid h (some marker)) (ho : out.length = (shown h).length) :
    (listOwnedBucketsLoop uid (some quota) fuel marker out).run.Obeys (quotaDiscipline uid quota)
      (fun h' r => ∀ owned, r = .ok owned → owned.length < quota → Counted uid quota h') h := by
  induction fuel generalizing h marker out with
  | zero => exact trivial
  | succ fuel ih =>
    rw [listOwnedBucketsLoop]
    refine obeys_except_bind.mpr ⟨trivial, fun r => ?_⟩
    cases r with
    | error e =>
      intro owned hok
      cases hok
    | ok page =>
      rw [obeys_done]
      dsimp only
      have hlen : (out ++ page.buckets).length =
          (shown (⟨.listBuckets (some uid) marker 0, .ok page⟩ :: h)).length := by
        rw [shown_cons, List.length_append, List.length_append, ho, Nat.add_comm]
        rfl
      have hlast : page.isTruncated = false ∨ page.buckets = [] →
          ∀ owned, (Except.ok (out ++ page.buckets) : RgwResult (List BucketInfo)) = .ok owned →
            owned.length < quota →
              Counted uid quota (⟨.listBuckets (some uid) marker 0, .ok page⟩ :: h) := by
        intro hends owned hok hlt
        obtain rfl := Except.ok.inj hok
        rw [hlen] at hlt
        exact ⟨.last hr (by decide) hends, hlt⟩
      by_cases hl : (some quota).any (fun l => l ≤ (out ++ page.buckets).length) = true
      · simp only [hl, ↓reduceIte]
        intro owned hok hlt
        obtain rfl := Except.ok.inj hok
        rw [Option.any_some, decide_eq_true_eq] at hl
        exact absurd hlt (not_lt_of_ge hl)
      · simp only [hl]
        cases hlastb : page.buckets.getLast? with
        | none => exact hlast (Or.inr (List.getLast?_eq_none_iff.mp hlastb))
        | some last =>
          by_cases ht : page.isTruncated = true
          · simp only [ht, ↓reduceIte]
            refine ih (.page hr (by decide) ht ?_) hlen
            by_cases hn : page.nextMarker = []
            · exact Or.inr hn
            · rw [if_neg hn]
              exact Or.inl rfl
          · simp only [ht]
            exact hlast (Or.inl (Bool.eq_false_of_not_eq_true ht))

theorem obeys_checkQuota (hu : user.info.userId = uid) (hq : user.info.maxBuckets = quota)
    (hpos : 0 < quota) : (checkQuota env user.info).run.Obeys (quotaDiscipline uid quota)
      (fun h' r => r = .ok () → Counted uid quota h') [] := by
  have hn : ¬user.info.maxBuckets < 0 := by omega
  have hp : user.info.maxBuckets > 0 := by omega
  have hnat : user.info.maxBuckets.toNat = quota := by omega
  rw [checkQuota]
  simp only [hn, ↓reduceIte, hp, hnat, hu]
  have hstart : Reached uid [] (some []) := .start fun e he => by cases he
  refine obeys_except_bind.mpr ((obeys_listOwnedBucketsLoop env.fuel hstart rfl).mono
    fun h' r _ hh => ?_)
  cases r with
  | error e =>
    intro hok
    cases hok
  | ok owned =>
    by_cases hm : quota ≤ owned.length
    · simp only [hm, ↓reduceIte]
      intro hok
      cases hok
    · simp only [hm, ↓reduceIte]
      intro _
      exact hh owned rfl (Nat.lt_of_not_le hm)

theorem run_keeps (request : BucketRequest) (hu : user.info.userId = uid)
    (hq : user.info.maxBuckets = quota) (hpos : 0 < quota) :
    Keeps (quotaDiscipline uid quota) [] (request.run user).run := by
  cases request with
  | create env name =>
    apply keeps_create
    intro info hinfo hname
    obtain rfl := Except.ok.inj hinfo
    refine (obeys_checkQuota hu hq hpos).mono fun h' r _ hcounted hr => ⟨?_, fun _ => trivial⟩
    exact ⟨rfl, validated_ne_nil hname, hu, hcounted hr⟩
  | delete name =>
    refine keeps_plain (keeps_load_bind trivial fun r bucket => ?_)
    exact keeps_invoke_bind trivial fun _ => keeps_done _

end Requests

section Runs

variable {ι : Type} [DecidableEq ι]

/-- Requests of one user to create and to delete buckets. -/
structure Requests (ι : Type) where
  md5 : Str → Str
  store : Tables
  plain : PlainBuckets md5 store
  uid : UserId
  maxBuckets : ℕ
  limited : 0 < maxBuckets
  within : ownedCount store uid ≤ maxBuckets
  user : ι → AuthedUser
  request : ι → BucketRequest
  sameUser : ∀ i, (user i).info.userId = uid
  sameQuota : ∀ i, (user i).info.maxBuckets = maxBuckets

namespace Requests

variable (R : Requests ι)

def start : Config DriverCall Reply (Except OpError Response) Tables ι :=
  ⟨R.store, fun i => ((R.request i).run (R.user i)).run⟩

/-- Since the request asked for its first page of buckets, a bucket of the user was created. -/
def Overtaken (i : ι) (t : List (ι × Event DriverCall Reply)) : Prop :=
  ∃ after e before, t = after ++ e :: before ∧
    (∃ info, created e.2 = some info ∧ info.owner = R.uid) ∧
    ∃ max r, (i, ⟨.listBuckets (some R.uid) [] max, r⟩) ∈ before

/-- No request that was overtaken creates a bucket while the user has all that the quota
allows. -/
def Unraced (t : List (ι × Event DriverCall Reply))
    (x : Config DriverCall Reply (Except OpError Response) Tables ι)
    (e : ι × Event DriverCall Reply)
    (_ : Config DriverCall Reply (Except OpError Response) Tables ι) : Prop :=
  ∀ info, created e.2 = some info → info.owner = R.uid →
    ¬(R.Overtaken e.1 t ∧ R.maxBuckets ≤ ownedCount x.state R.uid)

/-- The user has no more buckets than the quota allows after a step. -/
def Within (_ : List (ι × Event DriverCall Reply))
    (_ : Config DriverCall Reply (Except OpError Response) Tables ι)
    (_ : ι × Event DriverCall Reply)
    (x : Config DriverCall Reply (Except OpError Response) Tables ι) : Prop :=
  ownedCount x.state R.uid ≤ R.maxBuckets

end Requests

variable {R : Requests ι} {t : List (ι × Event DriverCall Reply)} {i : ι}
  {e : ι × Event DriverCall Reply}
  {x y : Config DriverCall Reply (Except OpError Response) Tables ι}

omit [DecidableEq ι] in
theorem Requests.Overtaken.cons (h : R.Overtaken i t) : R.Overtaken i (e :: t) := by
  obtain ⟨after, e', before, rfl, hcre, hfirst⟩ := h
  exact ⟨e :: after, e', before, rfl, hcre, hfirst⟩

/-- What a bucket's creation goes past, it overtakes. -/
theorem overtaken_created {p : Option Str} {info : BucketInfo} (hr : Reached R.uid (seen i t) p)
    (hb : Behind p info.bucket.name) (hn : info.bucket.name ≠ [])
    (hcre : created e.2 = some info) (ho : info.owner = R.uid) : R.Overtaken i (e :: t) := by
  rcases reached_first hr with rfl | ⟨max, r, hm⟩
  · exact absurd hb (not_behind_start hn)
  · exact ⟨[], e, t, rfl, ⟨info, hcre, ho⟩, max, r, mem_seen.mp hm⟩

/-- Where a run stands: requests that were not overtaken were shown what is there. -/
structure Counts (R : Requests ι) (t : List (ι × Event DriverCall Reply)) (s : Tables) :
    Prop where
  plain : PlainBuckets R.md5 s
  covered : ∀ i, ¬R.Overtaken i t → ∀ p, Reached R.uid (seen i t) p →
    Covers R.uid (seen i t) p s
  within : ownedCount s R.uid ≤ R.maxBuckets

theorem counts_step {c : DriverCall} (h : Counts R t s)
    (hc : (quotaDiscipline R.uid R.maxBuckets).allowed (seen i t) c)
    (unraced : ∀ info, created ⟨c, (exec R.md5 c s).1⟩ = some info → info.owner = R.uid →
      ¬(R.Overtaken i t ∧ R.maxBuckets ≤ ownedCount s R.uid)) :
    Counts R ((i, ⟨c, (exec R.md5 c s).1⟩) :: t) (exec R.md5 c s).2 := by
  have hcreated : ∀ info, created ⟨c, (exec R.md5 c s).1⟩ = some info →
      info.bucket.name ≠ [] ∧ info.owner = R.uid ∧ Counted R.uid R.maxBuckets (seen i t) := by
    intro info hcre
    obtain rfl : c = .createBucket info := created_call hcre
    exact hc.2
  refine ⟨plainBuckets_exec h.plain fun info he => ?_, fun j hj p hr => ?_, ?_⟩
  · subst he
    exact ⟨hc.1, hc.2.1⟩
  · have hj' : ¬R.Overtaken j t := fun ho => hj ho.cons
    by_cases hij : j = i
    · subst j
      rw [seen_cons_self] at hr ⊢
      refine covers_own h.plain (h.covered i hj') ?_ hr
      rw [Option.eq_none_iff_forall_ne_some]
      intro info hcre
      obtain ⟨hname, howner, hcounted⟩ := hcreated info hcre
      exact hj (overtaken_created hcounted.1 trivial hname hcre howner)
    · rw [seen_cons_ne (Ne.symm hij)] at hr ⊢
      apply covers_other (h.covered j hj' p hr)
      intro info hcre _ hb
      obtain ⟨hname, howner, -⟩ := hcreated info hcre
      exact hj (overtaken_created hr hb hname hcre howner)
  · have hle := @ownedCount_exec R.md5 s R.uid c
    cases hcre : created ⟨c, (exec R.md5 c s).1⟩ with
    | none =>
      rw [hcre] at hle
      exact hle.trans h.within
    | some info =>
      rw [hcre] at hle
      obtain ⟨-, howner, hcounted⟩ := hcreated info hcre
      have hlt : ownedCount s R.uid < R.maxBuckets := by
        by_cases ho : R.Overtaken i t
        · by_contra hge
          exact unraced info hcre howner ⟨ho, Nat.le_of_not_lt hge⟩
        · have hshown := ownedCount_le_shown h.plain.wf (h.covered i ho none hcounted.1)
          exact lt_of_le_of_lt hshown hcounted.2
      simp only [Option.isSome_some, ↓reduceIte] at hle
      omega

theorem counts_along (run : Along (exec R.md5) R.Unraced R.start t x) : Counts R t x.state := by
  refine along_invariant (d := fun _ => quotaDiscipline R.uid R.maxBuckets) (Counts R) ?_ run
    (fun i => run_keeps (R.request i) (R.sameUser i) (R.sameQuota i) R.limited) ?_
  · intro t y i e z h step unraced hc
    cases step with
    | call s p i c k hi => exact counts_step h hc unraced
  · refine ⟨R.plain, fun i _ p hr id row hrow _ hb => ?_, R.within⟩
    rcases reached_first hr with rfl | ⟨max, r, hm⟩
    · exact absurd hb (not_behind_start (R.plain.name id row hrow))
    · cases hm

/-- The quota holds after every step of a run exactly when no request that was overtaken
creates a bucket past it. -/
theorem quota_held (R : Requests ι) (t : List (ι × Event DriverCall Reply))
    (x : Config DriverCall Reply (Except OpError Response) Tables ι) :
    Along (exec R.md5) R.Unraced R.start t x ↔ Along (exec R.md5) R.Within R.start t x := by
  constructor
  · intro run
    induction run with
    | nil => exact .nil
    | snoc hr hs hS ih => exact .snoc ih hs (counts_along (.snoc hr hs hS)).within
  · intro run
    apply run.mono
    intro t y e z _ hs hwithin info hcre ho hrace
    cases hs with
    | call s p i c k hi =>
      have hgrow := ownedCount_created hcre ho
      have hfull : R.maxBuckets ≤ ownedCount s R.uid := hrace.2
      have hle : ownedCount (exec R.md5 c s).2 R.uid ≤ R.maxBuckets := hwithin
      omega

def carol : AuthedUser := ⟨{ UserInfo.new (.new (bytes "carol")) [] 0 with maxBuckets := 1 }, []⟩

/-- Two requests of a user who may have one bucket. -/
def twoCreations : Requests Bool where
  md5 := sampleMd5
  store := .empty
  plain := plainBuckets_empty
  uid := .new (bytes "carol")
  maxBuckets := 1
  limited := Nat.one_pos
  within := by decide
  user := fun _ => carol
  request := fun i =>
    if i then .create (drawn (bytes "id-1")) (bytes "bk1") else .create (drawn (bytes "id-2"))
      (bytes "bk2")
  sameUser := fun _ => rfl
  sameQuota := fun _ => rfl

/-- Both requests count before either creates, and the user has two buckets. -/
theorem quota_exceeded : ¬∀ (R : Requests Bool) (t : List (Bool × Event DriverCall Reply))
    (x : Config DriverCall Reply (Except OpError Response) Tables Bool),
    Trace (exec R.md5) R.start t x → ownedCount x.state R.uid ≤ R.maxBuckets := by
  intro claim
  have hplay : (Config.play (exec twoCreations.md5) [true, false, true, false]
      ([], twoCreations.start)).map (fun r => ownedCount r.2.state twoCreations.uid) = some 2 := by
    decide +kernel
  obtain ⟨⟨t, x⟩, hr, hcount⟩ := Option.map_eq_some_iff.mp hplay
  have hle := claim twoCreations t x (play_trace .nil hr)
  rw [hcount] at hle
  revert hle
  decide

end Runs

end BucketQuota
