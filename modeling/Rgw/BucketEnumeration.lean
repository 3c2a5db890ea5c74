import Rgw.Purging
import Rgw.RestS3Handlers

/-! # Enumerating buckets

Two loops page through the buckets of an owner. They stop on different grounds, and end with
the same list: every bucket of the owner once, by name. A loop with a limit ends with a first
part of that list that tells whether the limit is reached. -/
namespace BucketEnumeration

open ByteStrings TextCodecs SortedMaps Interaction RgwTypes RgwSal RgwSalSqlite StoreInvariants
  RgwAdminOps RestS3Handlers OwnerIsolation BucketPages Purging

variable {md5 : Str → Str} {s : Tables}

section Lists

/-- All that the pages of an owner, or of everyone, show. -/
def enumerated (s : Tables) (owner : Option UserId) : List BucketInfo :=
  (ahead s owner []).map rowInfo

/-- A list of buckets by name, each there once. -/
structure ByName (s : Tables) (owner : Option UserId) (buckets : List BucketInfo) : Prop where
  ascending : buckets.Pairwise fun a b => a.bucket.name < b.bucket.name
  complete : ∀ b, b ∈ buckets ↔ Stored s b ∧ owner.all fun uid => ownedBy s uid b.bucket.bucketId

theorem enumerated_byName (h : PlainBuckets md5 s) (owner : Option UserId) :
    ByName s owner (enumerated s owner) where
  ascending := by
    rw [enumerated, List.pairwise_map]
    refine (ahead_sorted h owner []).imp_of_mem fun {a b} ha hb hlt => ?_
    obtain ⟨⟨ida, hra⟩, -⟩ := mem_ahead.mp ha
    obtain ⟨⟨idb, hrb⟩, -⟩ := mem_ahead.mp hb
    rwa [(bucketRow_key h.wf hra).2.2, (bucketRow_key h.wf hrb).2.2] at hlt
  complete b := by
    constructor
    · intro hb
      refine ⟨ahead_stored h b hb, ?_⟩
      cases owner with
      | none => rfl
      | some uid =>
        rw [Option.all_some, ← listed_ahead h, listed, List.any_eq_true]
        exact ⟨b, hb, decide_eq_true rfl⟩
    · rintro ⟨⟨row, hr, rfl⟩, howner⟩
      refine List.mem_map_of_mem (mem_ahead.mpr ⟨⟨_, hr⟩, nil_lt (h.name _ row hr), ?_⟩)
      cases owner with
      | none => rfl
      | some uid =>
        rw [Option.all_some, ownedBy_eq_true] at howner
        obtain ⟨row', hr', hown⟩ := howner
        rw [hr] at hr'
        obtain rfl := Option.some.inj hr'
        exact decide_eq_true hown

end Lists

section Loops

variable {uid : UserId} {limit : Option ℕ}

/-- A loop with a limit stops with what it has: everything, or at least as much as the limit. -/
def Enough (limit : Option ℕ) (out rest shown : List BucketInfo) : Prop :=
  shown <+: rest ∧ (shown = rest ∨ ∃ l, limit = some l ∧ l ≤ (out ++ shown).length)

/-- What is enough after a page is enough with the page. -/
theorem Enough.page {out page rest shown : List BucketInfo}
    (h : Enough limit (out ++ page) rest shown) : Enough limit out (page ++ rest) (page ++ shown) := by
  obtain ⟨hfront, hall | ⟨l, hl, hle⟩⟩ := h
  · exact ⟨(List.prefix_append_right_inj page).mpr hfront, Or.inl (congrArg _ hall)⟩
  · refine ⟨(List.prefix_append_right_inj page).mpr hfront, Or.inr ⟨l, hl, ?_⟩⟩
    rwa [List.append_assoc] at hle

/-- The loop stops when the limit is in hand, and else with the last page. -/
theorem listOwnedBucketsLoop_settles (h : PlainBuckets md5 s) (marker : Str) (out : List BucketInfo) :
    ∃ shown, Enough limit out ((ahead s (some uid) marker).map rowInfo) shown ∧
      ∀ fuel, (listOwnedBucketsLoop uid limit fuel marker out).run.Settles (exec md5) fuel
        (ahead s (some uid) marker).length s (.ok (out ++ shown)) s := by
  -- induction on what is ahead of the marker: a page that is not the last leaves less of it
  induction hn : (ahead s (some uid) marker).length using Nat.strong_induction_on
    generalizing marker out with
  | _ n ih =>
    subst hn
    obtain ⟨page, hexec, hpage⟩ := listBuckets_turn h (some uid) marker
    by_cases hl : limit.any (fun l => l ≤ (out ++ page.buckets).length) = true
    · refine ⟨page.buckets, ⟨?_, Or.inr ?_⟩, settles_rounds rfl fun fuel => ?_⟩
      · rcases hpage with ⟨-, hall⟩ | ⟨-, -, -, hrest⟩
        · rw [hall]
        · exact ⟨_, hrest⟩
      · obtain ⟨l, hlimit, hle⟩ := (Option.any_eq_true _ _).mp hl
        exact ⟨l, hlimit, of_decide_eq_true hle⟩
      · rw [listOwnedBucketsLoop]
        refine settles_invoke_bind hexec ?_
        simp only [hl, ↓reduceIte]
        exact Or.inl rfl
    · rcases hpage with ⟨hlast, hall⟩ | ⟨hmore, hlt, hshown, hrest⟩
      · refine ⟨page.buckets, ⟨by rw [hall], Or.inl hall⟩, settles_rounds rfl fun fuel => ?_⟩
        rw [listOwnedBucketsLoop]
        refine settles_invoke_bind hexec ?_
        simp only [hl, hlast]
        cases page.buckets.getLast? <;> exact Or.inl rfl
      · have hfew := rest_lt hrest hshown
        rw [List.length_map, List.length_map] at hfew
        obtain ⟨shown, henough, hloop⟩ := ih _ hfew page.nextMarker (out ++ page.buckets) rfl
        refine ⟨page.buckets ++ shown, hrest ▸ henough.page, settles_rounds rfl fun fuel => ?_⟩
        rw [listOwnedBucketsLoop]
        refine settles_invoke_bind hexec ?_
        obtain ⟨last, hlastb⟩ : ∃ last, page.buckets.getLast? = some last := by
          rw [← Option.isSome_iff_exists, List.getLast?_isSome]
          exact hshown
        have hnext : page.nextMarker ≠ [] := fun hnil => advances_of_lt hlt (Or.inl hnil)
        simp only [hl, hlastb, hmore, hnext, ↓reduceIte]
        rw [← List.append_assoc]
        exact Prog.Settles.turn (hloop fuel) hfew

/-- The loop with a limit shows as much as the limit, or everything. -/
theorem listOwnedBuckets_limited (h : PlainBuckets md5 s) (uid : UserId) (l : ℕ) :
    ∃ shown, shown <+: enumerated s (some uid) ∧
      min l (enumerated s (some uid)).length ≤ shown.length ∧
      ∀ fuel, (listOwnedBuckets fuel uid (some l)).run.Settles (exec md5) fuel s.buckets.size s
        (.ok shown) s := by
  obtain ⟨shown, ⟨hfront, hstop⟩, hloop⟩ := @listOwnedBucketsLoop_settles md5 s uid (some l) h [] []
  refine ⟨shown, hfront, ?_, fun fuel => (hloop fuel).mono (ahead_length_le s _ _)⟩
  rcases hstop with hall | ⟨l', hl, hle⟩
  · rw [hall]
    exact Nat.min_le_right _ _
  · obtain rfl := Option.some.inj hl
    exact (Nat.min_le_left _ _).trans hle

theorem listOwnedBuckets_whole (h : PlainBuckets md5 s) (uid : UserId) (fuel : ℕ) :
    (listOwnedBuckets fuel uid none).run.Settles (exec md5) fuel s.buckets.size s
      (.ok (enumerated s (some uid))) s := by
  obtain ⟨shown, ⟨-, hstop⟩, hloop⟩ := @listOwnedBucketsLoop_settles md5 s uid none h [] []
  obtain rfl : shown = enumerated s (some uid) := by
    rcases hstop with hall | ⟨l, hl, -⟩
    · exact hall
    · cases hl
  exact (hloop fuel).mono (ahead_length_le s _ _)

theorem listAllBuckets_whole (h : PlainBuckets md5 s) (owner : Option UserId) (fuel : ℕ) :
    (listAllBuckets fuel owner).run.Settles (exec md5) fuel s.buckets.size s
      (.ok (enumerated s owner)) s :=
  (listAllBucketsLoop_settles h fuel [] []).mono (ahead_length_le s _ _)

/-- The first part of the list that the quota is compared with reaches it when the list does. -/
theorem checkQuota_settles (h : PlainBuckets md5 s) (env : ReqEnv) {user : UserInfo}
    (hpos : 0 < user.maxBuckets) :
    (checkQuota env user).run.Settles (exec md5) env.fuel s.buckets.size s
      (if user.maxBuckets ≤ (enumerated s (some user.userId)).length then .error .tooManyBuckets
        else .ok ()) s := by
  obtain ⟨shown, hfront, hmin, hloop⟩ :=
    listOwnedBuckets_limited h user.userId user.maxBuckets.toNat
  have hle := hfront.length_le
  have hreached : user.maxBuckets.toNat ≤ shown.length ↔
      user.maxBuckets ≤ (enumerated s (some user.userId)).length := by omega
  have hn : ¬user.maxBuckets < 0 := by omega
  rw [checkQuota]
  simp only [hn, ↓reduceIte, gt_iff_lt, hpos]
  refine settles_except_bind (hloop env.fuel) ?_
  by_cases hr : user.maxBuckets.toNat ≤ shown.length
  · simp only [hr, ↓reduceIte, hreached.mp hr]
    exact Or.inl rfl
  · simp only [hr, ↓reduceIte, mt hreached.mpr hr]
    exact Or.inl rfl

end Loops

section Enumeration

/-- Whatever the driver was called with, while buckets are in the empty tenant and have names:
the loops end, agree, and show every bucket once by name; the quota is compared right. -/
theorem buckets_enumerated (md5 : Str → Str) (calls : List DriverCall)
    (plain : ∀ (id : Str) (row : BucketRow),
      (execAll md5 calls .empty).buckets[id]? = some row → row.tenant = [] ∧ row.name ≠ []) :
    let s := execAll md5 calls .empty
    (∃ buckets, ByName s none buckets ∧ ∀ fuel,
      (listAllBuckets fuel none).run.Settles (exec md5) fuel s.buckets.size s (.ok buckets) s) ∧
    ∀ uid, ∃ owned, ByName s (some uid) owned ∧
      (∀ fuel, (listAllBuckets fuel (some uid)).run.Settles (exec md5) fuel s.buckets.size s
          (.ok owned) s ∧
        (listOwnedBuckets fuel uid none).run.Settles (exec md5) fuel s.buckets.size s
          (.ok owned) s) ∧
      (∀ l, ∃ shown, shown <+: owned ∧ min l owned.length ≤ shown.length ∧ ∀ fuel,
        (listOwnedBuckets fuel uid (some l)).run.Settles (exec md5) fuel s.buckets.size s
          (.ok shown) s) ∧
      ∀ env user, user.userId = uid → 0 < user.maxBuckets →
        (checkQuota env user).run.Settles (exec md5) env.fuel s.buckets.size s
          (if user.maxBuckets ≤ owned.length then .error .tooManyBuckets else .ok ()) s := by
  intro s
  have h : PlainBuckets md5 s :=
    ⟨execAll_wellFormed calls, fun id row hr => (plain id row hr).1,
      fun id row hr => (plain id row hr).2⟩
  refine ⟨⟨_, enumerated_byName h none, listAllBuckets_whole h none⟩, fun uid => ?_⟩
  refine ⟨_, enumerated_byName h (some uid), fun fuel => ⟨?_, ?_⟩, ?_, ?_⟩
  · exact listAllBuckets_whole h (some uid) fuel
  · exact listOwnedBuckets_whole h uid fuel
  · exact listOwnedBuckets_limited h uid
  · rintro env user rfl hpos
    exact checkQuota_settles h env hpos

def apps : BucketInfo := newBucket (drawn (bytes "id-3")) alice.userId (bytes "apps")

/-- Alice, who may have two buckets. -/
def aliceOfTwo : UserInfo := { alice with maxBuckets := 2 }

def threeBuckets : List DriverCall := [.createBucket docs, .createBucket vault, .createBucket apps]

/-- Alice has both of her buckets, and may not have a third. -/
theorem buckets_enumerated_alice :
    let s := execAll sampleMd5 threeBuckets .empty
    ∃ owned, ByName s (some alice.userId) owned ∧
      (listOwnedBuckets 4 alice.userId none).run.run (exec sampleMd5) s = some (.ok owned, s) ∧
      owned.map (fun b => b.bucket.name) = [bytes "apps", bytes "docs"] ∧
      (checkQuota ⟨[], 0, [], 4⟩ aliceOfTwo).run.run (exec sampleMd5) s =
        some (.error .tooManyBuckets, s) := by
  intro s
  have plain : ∀ (id : Str) (row : BucketRow), s.buckets[id]? = some row →
      row.tenant = [] ∧ row.name ≠ [] := by
    have hrows : ∀ r ∈ s.buckets.toList, r.2.tenant = [] ∧ r.2.name ≠ [] := by decide +kernel
    exact fun id row hr => hrows (id, row) (mem_rows.mpr hr)
  obtain ⟨owned, hby, hboth, -, hquota⟩ :=
    (buckets_enumerated sampleMd5 threeBuckets plain).2 alice.userId
  have hsize : s.buckets.size < 4 := by decide +kernel
  have hrun := (hboth 4).2.run_eq hsize
  have hnames : ((listOwnedBuckets 4 alice.userId none).run.run (exec sampleMd5) s).map
      (fun r => r.1.map fun bs => bs.map fun b => b.bucket.name) =
      some (.ok [bytes "apps", bytes "docs"]) := by decide +kernel
  rw [hrun] at hnames
  have hshown : owned.map (fun b => b.bucket.name) = [bytes "apps", bytes "docs"] :=
    Except.ok.inj (Option.some.inj hnames)
  refine ⟨owned, hby, hrun, hshown, ?_⟩
  have hlen : owned.length = 2 := by
    have hmap := congrArg List.length hshown
    rwa [List.length_map] at hmap
  have hreject := (hquota ⟨[], 0, [], 4⟩ aliceOfTwo rfl (by decide)).run_eq hsize
  rw [hlen] at hreject
  exact hreject

end Enumeration

end BucketEnumeration
