import Rgw.OwnerIsolation

/-! # Pages of buckets

Where every bucket is in the empty tenant, names are unique: a page shows the next buckets of
its owner by name, and a walk that resumes at its marker misses none. -/
namespace BucketPages

open ByteStrings SortedMaps Interaction RgwTypes RgwSal RgwSalSqlite StoreInvariants S3Discipline
  OwnerIsolation

variable {md5 : Str → Str} {s : Tables} {owner : Option UserId} {marker : Str} {max : ℕ}

section Rows

/-- The bucket that a call created. -/
def created : Event DriverCall Reply → Option BucketInfo
  | ⟨.createBucket info, .ok _⟩ => some info
  | _ => none

/-- The tenant and the name of the bucket that a call removed. -/
def removed : Event DriverCall Reply → Option (Str × Str)
  | ⟨.removeBucket tenant name, .ok _⟩ => some (tenant, name)
  | _ => none

/-- The tenant and the name of a bucket. -/
def named (b : BucketInfo) : Str × Str := (b.bucket.tenant, b.bucket.name)

theorem created_call {e : Event DriverCall Reply} {info : BucketInfo} (h : created e = some info) :
    e.1 = .createBucket info := by
  rcases e with ⟨c, r⟩
  cases c with
  | createBucket info' => cases r with
    | error _ => cases h
    | ok _ =>
      cases h
      rfl
  | _ => cases h

theorem removed_call {e : Event DriverCall Reply} {tenant name : Str}
    (h : removed e = some (tenant, name)) : e.1 = .removeBucket tenant name := by
  rcases e with ⟨c, r⟩
  cases c with
  | removeBucket tenant' name' => cases r with
    | error _ => cases h
    | ok _ =>
      cases h
      rfl
  | _ => cases h

theorem exec_created {c : DriverCall} {info : BucketInfo}
    (h : created ⟨c, (exec md5 c s).1⟩ = some info) :
    info.bucket.bucketId ∉ s.buckets ∧ s.bucketNamed info.bucket.tenant info.bucket.name = none ∧
      (exec md5 c s).2 = withBucket s info := by
  obtain rfl : c = .createBucket info := created_call h
  rw [exec_createBucket] at h ⊢
  split at h
  · cases h
  · next hfree =>
    rw [if_neg hfree]
    rw [not_or, Option.not_isSome_iff_eq_none] at hfree
    exact ⟨hfree.1, hfree.2, rfl⟩

/-- Every row after a call was there before or is the one that it created. -/
theorem exec_row {c : DriverCall} {id : Str} {row : BucketRow}
    (hr : (exec md5 c s).2.buckets[id]? = some row) : s.buckets[id]? = some row ∨
      ∃ info, created ⟨c, (exec md5 c s).1⟩ = some info ∧ id = info.bucket.bucketId ∧
        row = bucketRow info := by
  by_cases hc : ∃ info, c = .createBucket info
  · obtain ⟨info, rfl⟩ := hc
    rw [exec_createBucket] at hr ⊢
    split at hr
    · exact Or.inl hr
    · next hfree =>
      rw [if_neg hfree]
      simp only [withBucket, getElem?_insert_eq] at hr
      split at hr
      · next hid => exact Or.inr ⟨info, rfl, hid.symm, (Option.some.inj hr).symm⟩
      · exact Or.inl hr
  · by_cases hrem : ∃ tenant name, c = .removeBucket tenant name
    · obtain ⟨tenant, name, rfl⟩ := hrem
      left
      rw [exec_removeBucket] at hr
      cases hn : s.bucketNamed tenant name with
      | none =>
        rw [hn] at hr
        exact hr
      | some r =>
        rw [hn] at hr
        dsimp only at hr
        split at hr
        · simp only [withoutBucket, getElem?_erase_eq] at hr
          split at hr
          · cases hr
          · exact hr
        · exact hr
    · rw [exec_buckets (fun info he => hc ⟨info, he⟩)
        (fun tenant name he => hrem ⟨tenant, name, he⟩)] at hr
      exact Or.inl hr

/-- A row stays unless the call removes the bucket of its name. -/
theorem exec_kept {c : DriverCall} {id : Str} {row : BucketRow} (hr : s.buckets[id]? = some row) :
    (exec md5 c s).2.buckets[id]? = some row ∨
      removed ⟨c, (exec md5 c s).1⟩ = some (row.tenant, row.name) := by
  by_cases hrem : ∃ tenant name, c = .removeBucket tenant name
  · obtain ⟨tenant, name, rfl⟩ := hrem
    rw [exec_removeBucket]
    cases hn : s.bucketNamed tenant name with
    | none => exact Or.inl hr
    | some r =>
      obtain ⟨id₀, row₀⟩ := r
      dsimp only
      split
      · simp only [withoutBucket, getElem?_erase_eq]
        by_cases hid : id₀ = id
        · subst hid
          obtain ⟨hrow₀, rfl, rfl⟩ := bucketNamed_some hn
          obtain rfl := Option.some.inj (hr.symm.trans hrow₀)
          exact Or.inr rfl
        · rw [if_neg hid]
          exact Or.inl hr
      · exact Or.inl hr
  · exact Or.inl (exec_buckets_grow (fun tenant name he => hrem ⟨tenant, name, he⟩) hr)

/-- After a removal no bucket has the name. -/
theorem exec_removed (wf : WellFormed md5 s) {c : DriverCall} {tenant name : Str}
    (h : removed ⟨c, (exec md5 c s).1⟩ = some (tenant, name)) {id : Str} {row : BucketRow}
    (hr : (exec md5 c s).2.buckets[id]? = some row) : ¬(row.tenant = tenant ∧ row.name = name) := by
  obtain rfl : c = .removeBucket tenant name := removed_call h
  rw [exec_removeBucket] at h hr
  cases hn : s.bucketNamed tenant name with
  | none =>
    rw [hn] at h
    cases h
  | some r =>
    obtain ⟨id₀, row₀⟩ := r
    rw [hn] at h hr
    dsimp only at h hr
    obtain ⟨hrow₀, ht₀, hname₀⟩ := bucketNamed_some hn
    split at h
    · next hbare =>
      rw [if_pos hbare] at hr
      simp only [withoutBucket, getElem?_erase_eq] at hr
      split at hr
      · cases hr
      · next hne =>
        rintro ⟨ht, hname⟩
        exact hne (wf.bucketNames _ _ _ _ hrow₀ hr (ht₀.trans ht.symm) (hname₀.trans hname.symm))
    · cases h

end Rows

section Plain

/-- The buckets are such as requests create: in the empty tenant, under a name. -/
structure PlainBuckets (md5 : Str → Str) (s : Tables) : Prop where
  wf : WellFormed md5 s
  tenant : ∀ (id : Str) (row : BucketRow), s.buckets[id]? = some row → row.tenant = []
  name : ∀ (id : Str) (row : BucketRow), s.buckets[id]? = some row → row.name ≠ []

theorem plainBuckets_empty : PlainBuckets md5 .empty where
  wf := wellFormed_empty
  tenant _ _ hr := by simp [Tables.empty] at hr
  name _ _ hr := by simp [Tables.empty] at hr

theorem plainBuckets_exec (h : PlainBuckets md5 s) {c : DriverCall}
    (hc : ∀ info, c = .createBucket info → info.bucket.tenant = [] ∧ info.bucket.name ≠ []) :
    PlainBuckets md5 (exec md5 c s).2 := by
  refine ⟨exec_wellFormed h.wf c, fun id row hr => ?_, fun id row hr => ?_⟩
  · rcases exec_row hr with hr | ⟨info, he, -, rfl⟩
    · exact h.tenant id row hr
    · exact (hc info (created_call he)).1
  · rcases exec_row hr with hr | ⟨info, he, -, rfl⟩
    · exact h.name id row hr
    · exact (hc info (created_call he)).2

end Plain

section Pages

/-- What a bucket row is read as. -/
def rowInfo (row : BucketRow) : BucketInfo := .deserialize row.info

/-- The rows that pages from a marker on are made of, in the order of the pages. -/
def ahead (s : Tables) (owner : Option UserId) (marker : Str) : List BucketRow :=
  ((s.buckets.toList.map Prod.snd).filter fun r =>
    marker < r.name ∧ owner.all fun u => r.owner = u.toString).insertionSort nameTenantLe

theorem mem_ahead {row : BucketRow} : row ∈ ahead s owner marker ↔
    (∃ id : Str, s.buckets[id]? = some row) ∧ marker < row.name ∧
      owner.all (fun u => row.owner = u.toString) := by
  rw [ahead, List.mem_insertionSort, List.mem_filter, List.mem_map, decide_eq_true_eq]
  constructor
  · rintro ⟨⟨⟨id, row'⟩, hm, rfl⟩, hp⟩
    exact ⟨⟨id, mem_rows.mp hm⟩, hp⟩
  · rintro ⟨⟨id, hr⟩, hp⟩
    exact ⟨⟨(id, row), mem_rows.mpr hr, rfl⟩, hp⟩

instance : Std.Total nameTenantLe where
  total a b := by
    rcases lt_trichotomy a.name b.name with hlt | heq | hgt
    · exact Or.inl (Or.inl hlt)
    · rcases le_total a.tenant b.tenant with hle | hge
      · exact Or.inl (Or.inr ⟨heq, hle⟩)
      · exact Or.inr (Or.inr ⟨heq.symm, hge⟩)
    · exact Or.inr (Or.inl hgt)

instance : IsTrans BucketRow nameTenantLe where
  trans a b c hab hbc := by
    rcases hab with hlt | ⟨heq, hle⟩
    · rcases hbc with hlt' | ⟨heq', -⟩
      · exact Or.inl (hlt.trans hlt')
      · exact Or.inl (heq' ▸ hlt)
    · rcases hbc with hlt' | ⟨heq', hle'⟩
      · exact Or.inl (heq ▸ hlt')
      · exact Or.inr ⟨heq.trans heq', hle.trans hle'⟩

/-- Names are unique, so the order of the pages is strict. -/
theorem ahead_sorted (h : PlainBuckets md5 s) (owner : Option UserId) (marker : Str) :
    (ahead s owner marker).Pairwise fun a b => a.name < b.name := by
  have hkeys : (s.buckets.toList.map Prod.snd).Pairwise fun a b => a.name ≠ b.name := by
    rw [List.pairwise_map]
    refine rows_sorted.imp_of_mem fun {a b} ha hb hab hname => ?_
    have hra := mem_rows.mp ha
    have hrb := mem_rows.mp hb
    have htenant := (h.tenant _ _ hra).trans (h.tenant _ _ hrb).symm
    have hlt : a.1 < b.1 := compare_lt.mp hab
    rw [h.wf.bucketNames _ _ _ _ hra hrb htenant hname] at hlt
    exact lt_irrefl _ hlt
  have hdistinct : (ahead s owner marker).Pairwise fun a b => a.name ≠ b.name :=
    (hkeys.filter _).perm (List.perm_insertionSort _ _).symm fun hab => hab.symm
  have hle : (ahead s owner marker).Pairwise nameTenantLe := List.pairwise_insertionSort _ _
  refine (hle.and hdistinct).imp fun {a b} hab => ?_
  rcases hab.1 with hlt | ⟨heq, -⟩
  · exact hlt
  · exact absurd heq hab.2

/-- A page takes rows while there is room, and tells when some are left. -/
theorem bucketPage_eq (room : ℕ) (rows : List BucketRow) (shown : List BucketInfo) (next : Str) :
    bucketPage (shown.length + room) rows ⟨shown, false, next⟩ =
      ⟨shown ++ (rows.take room).map rowInfo, decide (room < rows.length),
        ((rows.take room).getLast?.map fun r => (rowInfo r).bucket.name).getD next⟩ := by
  induction rows generalizing room shown next with
  | nil => simp [bucketPage]
  | cons row rows ih =>
    rw [bucketPage]
    cases room with
    | zero => simp
    | succ room =>
      have hroom : shown.length + (room + 1) = (shown ++ [rowInfo row]).length + room := by
        simp only [List.length_append, List.length_singleton]
        omega
      have hopen : shown.length ≠ shown.length + (room + 1) := by omega
      rw [if_neg hopen, hroom]
      change bucketPage _ rows ⟨shown ++ [rowInfo row], false, (rowInfo row).bucket.name⟩ = _
      rw [ih, List.take_succ_cons, List.map_cons, List.append_assoc, List.singleton_append]
      congr 1
      · simp
      · cases hlast : (rows.take room).getLast? <;> simp [List.getLast?_cons, hlast]

/-- A page: the next rows, whether more follow, and the last name to go on from. -/
theorem listBuckets_page (h : PlainBuckets md5 s) (owner : Option UserId) (marker : Str)
    (hmax : pageSize max + 1 < 2 ^ 63) : listBuckets owner marker max s =
      .ok ⟨((ahead s owner marker).take (pageSize max)).map rowInfo,
        decide (pageSize max < (ahead s owner marker).length),
        (((ahead s owner marker).take (pageSize max)).getLast?.map BucketRow.name).getD []⟩ := by
  have hlimit : toI64 (pageSize max + 1) = .ok ((pageSize max + 1 : ℕ) : ℤ) := if_pos hmax
  have hpage := bucketPage_eq (pageSize max) ((ahead s owner marker).take (pageSize max + 1)) [] []
  rw [List.length_nil, Nat.zero_add, List.nil_append, List.take_take,
    Nat.min_eq_left (Nat.le_succ _), List.length_take] at hpage
  have hnames : ((ahead s owner marker).take (pageSize max)).getLast?.map
      (fun r => (rowInfo r).bucket.name) =
      ((ahead s owner marker).take (pageSize max)).getLast?.map BucketRow.name := by
    apply Option.map_congr
    intro row hlast
    obtain ⟨⟨id, hr⟩, -⟩ := mem_ahead.mp (List.mem_of_mem_take (List.mem_of_getLast? hlast))
    exact (bucketRow_key h.wf hr).2.2.symm
  rw [listBuckets, hlimit]
  change Except.ok (bucketPage _ ((ahead s owner marker).take (pageSize max + 1)) ⟨[], false, []⟩) = _
  rw [hpage, hnames]
  congr 2
  rw [decide_eq_decide]
  omega

theorem exists_last {α : Type} {l : List α} {n : ℕ} (hn : 0 < n) (hl : 0 < l.length) :
    ∃ a, (l.take n).getLast? = some a := by
  rw [← Option.isSome_iff_exists, List.getLast?_isSome, ← List.length_pos_iff, List.length_take]
  omega

/-- What a page tells of the tables that it was read from. -/
structure PageOf (s : Tables) (owner : Option UserId) (marker : Str) (page : BucketList) :
    Prop where
  covers : ∀ row ∈ ahead s owner marker,
    page.isTruncated = false ∨ row.name ≤ page.nextMarker → rowInfo row ∈ page.buckets
  shows : ∀ b ∈ page.buckets, ∃ row ∈ ahead s owner marker, b = rowInfo row
  ascending : page.buckets.Pairwise fun a b => a.bucket.name < b.bucket.name
  within : page.isTruncated = true → ∀ b ∈ page.buckets, b.bucket.name ≤ page.nextMarker
  resumes : page.isTruncated = true → marker < page.nextMarker ∧ page.buckets ≠ []

theorem listBuckets_pageOf (h : PlainBuckets md5 s) (owner : Option UserId) (marker : Str)
    (hmax : pageSize max + 1 < 2 ^ 63) :
    ∃ page, listBuckets owner marker max s = .ok page ∧ PageOf s owner marker page := by
  have hname : ∀ row ∈ ahead s owner marker, (rowInfo row).bucket.name = row.name := by
    intro row hm
    obtain ⟨⟨id, hr⟩, -⟩ := mem_ahead.mp hm
    exact (bucketRow_key h.wf hr).2.2.symm
  have htake := (ahead_sorted h owner marker).sublist (List.take_sublist (pageSize max) _)
  refine ⟨_, listBuckets_page h owner marker hmax, fun row hm hc => ?_, fun b hb => ?_, ?_,
    fun ht b hb => ?_, fun ht => ?_⟩
  · rw [← List.take_append_drop (pageSize max) (ahead s owner marker), List.mem_append] at hm
    rcases hm with hm | hm
    · exact List.mem_map_of_mem hm
    · -- a row beyond the page is past its last name, and then the page is truncated
      have hlong := List.length_pos_of_mem hm
      rw [List.length_drop] at hlong
      have hsorted := ahead_sorted h owner marker
      rw [← List.take_append_drop (pageSize max) (ahead s owner marker),
        List.pairwise_append] at hsorted
      obtain ⟨last, hlast⟩ := exists_last (pageSize_pos max)
        (show 0 < (ahead s owner marker).length by omega)
      have hlt : last.name < row.name := hsorted.2.2 last (List.mem_of_getLast? hlast) row hm
      rcases hc with hc | hc
      · rw [decide_eq_false_iff_not] at hc
        omega
      · rw [hlast] at hc
        exact absurd hc (not_le_of_gt hlt)
  · obtain ⟨row, hm, rfl⟩ := List.mem_map.mp hb
    exact ⟨row, List.mem_of_mem_take hm, rfl⟩
  · rw [List.pairwise_map]
    refine htake.imp_of_mem fun {a b} ha hb hlt => ?_
    rwa [hname a (List.mem_of_mem_take ha), hname b (List.mem_of_mem_take hb)]
  · obtain ⟨row, hm, rfl⟩ := List.mem_map.mp hb
    rw [decide_eq_true_eq] at ht
    obtain ⟨last, hlast⟩ := exists_last (pageSize_pos max)
      (show 0 < (ahead s owner marker).length by omega)
    rw [hlast, hname row (List.mem_of_mem_take hm)]
    obtain ⟨before, hbefore⟩ := List.getLast?_eq_some_iff.mp hlast
    rw [hbefore] at hm htake
    rcases List.mem_append.mp hm with hm | hm
    · exact ((List.pairwise_append.mp htake).2.2 row hm last List.mem_cons_self).le
    · obtain rfl := List.mem_singleton.mp hm
      exact le_rfl
  · rw [decide_eq_true_eq] at ht
    obtain ⟨last, hlast⟩ := exists_last (pageSize_pos max)
      (show 0 < (ahead s owner marker).length by omega)
    have hm := List.mem_of_getLast? hlast
    constructor
    · rw [hlast]
      exact (mem_ahead.mp (List.mem_of_mem_take hm)).2.1
    · exact List.ne_nil_of_mem (List.mem_map_of_mem hm)

/-- What a page shows is stored, at a name past its marker. -/
theorem PageOf.stored (h : PlainBuckets md5 s) {page : BucketList} (hp : PageOf s owner marker page)
    {b : BucketInfo} (hb : b ∈ page.buckets) : marker < b.bucket.name ∧
      ∃ (id : Str) (row : BucketRow), s.buckets[id]? = some row ∧ (row.tenant, row.name) = named b := by
  obtain ⟨row, hm, rfl⟩ := hp.shows b hb
  obtain ⟨⟨id, hr⟩, hlt, -⟩ := mem_ahead.mp hm
  obtain ⟨-, htenant, hname⟩ := bucketRow_key h.wf hr
  rw [hname] at hlt
  exact ⟨hlt, id, row, hr, Prod.ext htenant hname⟩

theorem PageOf.names_nodup {page : BucketList} (hp : PageOf s owner marker page) :
    (page.buckets.map named).Nodup := by
  rw [List.Nodup, List.pairwise_map]
  refine hp.ascending.imp fun {a b} hlt heq => ?_
  rw [(Prod.mk.inj heq).2] at hlt
  exact lt_irrefl _ hlt

/-- A page shows no name up to its marker. -/
theorem PageOf.names_past (h : PlainBuckets md5 s) {page : BucketList}
    (hp : PageOf s owner marker page) {k : Str × Str} (hk : k ∈ page.buckets.map named) :
    ¬k.2 ≤ marker := by
  obtain ⟨b, hb, rfl⟩ := List.mem_map.mp hk
  exact not_le_of_gt (hp.stored h hb).1

theorem pageOf_ok (h : PlainBuckets md5 s) (hmax : pageSize max + 1 < 2 ^ 63) {page : BucketList}
    (hl : listBuckets owner marker max s = .ok page) : PageOf s owner marker page := by
  obtain ⟨page', hl', hpage⟩ := listBuckets_pageOf h owner marker hmax
  rw [hl] at hl'
  obtain rfl := Except.ok.inj hl'
  exact hpage

end Pages

section Reading

variable {uid : UserId} {h : History} {e : Event DriverCall Reply} {p : Option Str} {name : Str}

def pageBuckets : Event DriverCall Reply → List BucketInfo
  | ⟨.listBuckets _ _ _, .ok page⟩ => page.buckets
  | _ => []

/-- What the pages of a history showed. -/
def shown (h : History) : List BucketInfo := h.flatMap pageBuckets

def Listing (c : DriverCall) : Prop := ∃ owner marker max, c = .listBuckets owner marker max

/-- How far a history has read one owner's buckets, page after page: up to a marker, or to the
end. A driver that truncates a page without a marker leaves the next one to the reader. -/
inductive Reached (uid : UserId) : History → Option Str → Prop where
  | start {h : History} (fresh : ∀ e ∈ h, ¬Listing e.1 ∧ removed e = none) :
      Reached uid h (some [])
  | page {h : History} {marker next : Str} {max : ℕ} {page : BucketList}
      (before : Reached uid h (some marker)) (small : pageSize max + 1 < 2 ^ 63)
      (more : page.isTruncated = true) (resume : next = page.nextMarker ∨ page.nextMarker = []) :
      Reached uid (⟨.listBuckets (some uid) marker max, .ok page⟩ :: h) (some next)
  | last {h : History} {marker : Str} {max : ℕ} {page : BucketList}
      (before : Reached uid h (some marker)) (small : pageSize max + 1 < 2 ^ 63)
      (ends : page.isTruncated = false ∨ page.buckets = []) :
      Reached uid (⟨.listBuckets (some uid) marker max, .ok page⟩ :: h) none
  | other {h : History} {e : Event DriverCall Reply} (before : Reached uid h none)
      (quiet : ¬Listing e.1) : Reached uid (e :: h) none

/-- A name that the reading went past. -/
def Behind : Option Str → Str → Prop
  | some marker, name => name ≤ marker
  | none, _ => True

/-- What the reading went past it showed. -/
def Covers (uid : UserId) (h : History) (p : Option Str) (s : Tables) : Prop :=
  ∀ (id : Str) (row : BucketRow), s.buckets[id]? = some row → row.owner = uid.toString →
    Behind p row.name → rowInfo row ∈ shown h

theorem shown_cons (e : Event DriverCall Reply) (h : History) :
    shown (e :: h) = pageBuckets e ++ shown h := List.flatMap_cons

theorem not_behind_start (hn : name ≠ []) : ¬Behind (some []) name := by
  intro hb
  rcases eq_or_lt_of_le (show name ≤ [] from hb) with hnil | hlt
  · exact hn hnil
  · exact List.not_lt_nil _ hlt

/-- A reading that went past anything has asked for its first page. -/
theorem reached_first (hr : Reached uid h p) :
    p = some [] ∨ ∃ max r, (⟨.listBuckets (some uid) [] max, r⟩ : Event DriverCall Reply) ∈ h := by
  induction hr with
  | start fresh => exact Or.inl rfl
  | page before small more resume ih =>
    rcases ih with hm | ⟨max, r, hm⟩
    · obtain rfl := Option.some.inj hm
      exact Or.inr ⟨_, _, List.mem_cons_self⟩
    · exact Or.inr ⟨max, r, List.mem_cons_of_mem _ hm⟩
  | last before small ends ih =>
    rcases ih with hm | ⟨max, r, hm⟩
    · obtain rfl := Option.some.inj hm
      exact Or.inr ⟨_, _, List.mem_cons_self⟩
    · exact Or.inr ⟨max, r, List.mem_cons_of_mem _ hm⟩
  | other before quiet ih =>
    rcases ih with hm | ⟨max, r, hm⟩
    · cases hm
    · exact Or.inr ⟨max, r, List.mem_cons_of_mem _ hm⟩

/-- While it reads it removes nothing. -/
theorem reached_quiet {marker : Str} (hr : Reached uid h (some marker)) :
    ∀ e ∈ h, removed e = none := by
  generalize hp : some marker = p at hr
  induction hr generalizing marker with
  | start fresh => exact fun e he => (fresh e he).2
  | page before small more resume ih =>
    intro e he
    rcases List.mem_cons.mp he with rfl | he
    · rfl
    · exact ih rfl e he
  | last before small ends => cases hp
  | other before quiet => cases hp

/-- A page with more to come says from where. -/
def Resumes : Event DriverCall Reply → Prop
  | ⟨.listBuckets _ marker _, .ok page⟩ =>
    page.isTruncated = true → marker < page.nextMarker ∧ page.buckets ≠ []
  | _ => True

theorem Resumes.next_eq {marker next : Str} {max : ℕ} {owner : Option UserId} {page : BucketList}
    (he : Resumes ⟨.listBuckets owner marker max, .ok page⟩) (more : page.isTruncated = true)
    (resume : next = page.nextMarker ∨ page.nextMarker = []) : next = page.nextMarker := by
  rcases resume with hnext | hnil
  · exact hnext
  · have hlt := (he more).1
    rw [hnil] at hlt
    exact absurd hlt (List.not_lt_nil _)

theorem reached_end (hr : Reached uid h none) : ∃ e ∈ h, Listing e.1 := by
  rcases reached_first hr with hm | ⟨max, r, hm⟩
  · cases hm
  · exact ⟨_, hm, _, _, _, rfl⟩

/-- Pages that resume lead to one place. -/
theorem reached_unique {p p' : Option Str} (hr : Reached uid h p) (hr' : Reached uid h p')
    (resumes : ∀ e ∈ h, Resumes e) : p = p' := by
  induction hr generalizing p' with
  | start fresh =>
    cases hr' with
    | start _ => rfl
    | page before small more resume =>
      exact absurd ⟨_, _, _, rfl⟩ (fresh _ List.mem_cons_self).1
    | last before small ends => exact absurd ⟨_, _, _, rfl⟩ (fresh _ List.mem_cons_self).1
    | other before quiet =>
      obtain ⟨e, hm, hlisting⟩ := reached_end before
      exact absurd hlisting (fresh e (List.mem_cons_of_mem _ hm)).1
  | @page h marker next max page before small more resume ih =>
    have he := resumes _ List.mem_cons_self
    cases hr' with
    | start fresh => exact absurd ⟨_, _, _, rfl⟩ (fresh _ List.mem_cons_self).1
    | page _ _ _ resume' => rw [he.next_eq more resume, he.next_eq more resume']
    | last _ _ ends =>
      rcases ends with hends | hempty
      · rw [more] at hends
        cases hends
      · exact absurd hempty (he more).2
    | other _ quiet => exact absurd ⟨_, _, _, rfl⟩ quiet
  | last before small ends ih =>
    have he := resumes _ List.mem_cons_self
    cases hr' with
    | start fresh => exact absurd ⟨_, _, _, rfl⟩ (fresh _ List.mem_cons_self).1
    | page _ _ more _ =>
      rcases ends with hends | hempty
      · rw [more] at hends
        cases hends
      · exact absurd hempty (he more).2
    | last => rfl
    | other => rfl
  | other before quiet ih =>
    cases hr' with
    | start fresh =>
      obtain ⟨e, hm, hlisting⟩ := reached_end before
      exact absurd hlisting (fresh e (List.mem_cons_of_mem _ hm)).1
    | page => exact absurd ⟨_, _, _, rfl⟩ quiet
    | last => rfl
    | other => rfl

/-- Reading on leaves a name behind. -/
theorem reached_past (hr : Reached uid (e :: h) p) (he : Resumes e)
    (past : ∀ p, Reached uid h p → Behind p name) : Behind p name := by
  generalize hh : e :: h = h' at hr
  cases hr with
  | start fresh =>
    subst hh
    exact past _ (.start fun e' he' => fresh e' (List.mem_cons_of_mem _ he'))
  | page before small more resume =>
    obtain ⟨rfl, rfl⟩ := List.cons.inj hh
    rw [he.next_eq more resume]
    exact (past _ before).trans (he more).1.le
  | last before small ends => exact trivial
  | other before quiet => exact trivial

/-- A reader that goes on from a page leaves behind what it showed. -/
theorem reached_within {marker : Str} {max : ℕ} {page : BucketList}
    (hr : Reached uid (⟨.listBuckets (some uid) marker max, .ok page⟩ :: h) p)
    (hpage : PageOf s (some uid) marker page) {b : BucketInfo} (hb : b ∈ page.buckets) :
    Behind p b.bucket.name := by
  cases hr with
  | start fresh => exact absurd ⟨_, _, _, rfl⟩ (fresh _ List.mem_cons_self).1
  | page before small more resume =>
    have hresumes : Resumes ⟨.listBuckets (some uid) marker max, .ok page⟩ := hpage.resumes
    rw [hresumes.next_eq more resume]
    exact hpage.within more b hb
  | last before small ends => exact trivial
  | other before quiet => exact trivial

/-- One page more. -/
theorem covers_page {marker : Str} {max : ℕ} {page : BucketList} (hp : PlainBuckets md5 s)
    (hc : Covers uid h (some marker) s) (small : pageSize max + 1 < 2 ^ 63)
    (hl : listBuckets (some uid) marker max s = .ok page)
    (hnext : ∀ name, Behind p name → page.isTruncated = false ∨ name ≤ page.nextMarker) :
    Covers uid (⟨.listBuckets (some uid) marker max, .ok page⟩ :: h) p s := by
  intro id row hrow ho hb
  have hpage := pageOf_ok hp small hl
  rw [shown_cons, List.mem_append]
  rcases le_or_gt row.name marker with hle | hlt
  · exact Or.inr (hc id row hrow ho hle)
  · left
    apply hpage.covers row _ (hnext row.name hb)
    exact mem_ahead.mpr ⟨⟨id, hrow⟩, hlt, by simpa using ho⟩

/-- A call of the reader itself, which creates nothing. -/
theorem covers_own (hp : PlainBuckets md5 s) {c : DriverCall}
    (hc : ∀ p, Reached uid h p → Covers uid h p s)
    (hn : created ⟨c, (exec md5 c s).1⟩ = none)
    (hr : Reached uid (⟨c, (exec md5 c s).1⟩ :: h) p) :
    Covers uid (⟨c, (exec md5 c s).1⟩ :: h) p (exec md5 c s).2 := by
  suffices hsame : Covers uid (⟨c, (exec md5 c s).1⟩ :: h) p s by
    intro id row hrow ho hb
    rcases exec_row hrow with hrow | ⟨info, hcre, -, -⟩
    · exact hsame id row hrow ho hb
    · rw [hn] at hcre
      cases hcre
  generalize he : (⟨c, (exec md5 c s).1⟩ : Event DriverCall Reply) = e at hr ⊢
  cases hr with
  | start fresh =>
    intro id row hrow ho hb
    exact absurd hb (not_behind_start (hp.name id row hrow))
  | @page _ marker next max page before small more resume =>
    obtain ⟨rfl, hreply⟩ := Sigma.mk.inj_iff.mp he
    have hl : listBuckets (some uid) marker max s = .ok page := eq_of_heq hreply
    apply covers_page hp (hc _ before) small hl
    intro name hb
    have hresumes : Resumes ⟨.listBuckets (some uid) marker max, .ok page⟩ :=
      (pageOf_ok hp small hl).resumes
    rw [hresumes.next_eq more resume] at hb
    exact Or.inr hb
  | @last _ marker max page before small ends =>
    obtain ⟨rfl, hreply⟩ := Sigma.mk.inj_iff.mp he
    have hl : listBuckets (some uid) marker max s = .ok page := eq_of_heq hreply
    apply covers_page hp (hc _ before) small hl
    intro name _
    have hpage := pageOf_ok hp small hl
    left
    by_contra hmore
    rcases ends with hends | hempty
    · exact hmore hends
    · exact (hpage.resumes (Bool.eq_true_of_not_eq_false hmore)).2 hempty
  | other before quiet =>
    intro id row hrow ho _
    rw [shown_cons]
    exact List.mem_append_right _ (hc none before id row hrow ho trivial)

/-- A call of anybody else, which creates nothing that the reading went past. -/
theorem covers_other {c : DriverCall} (hc : Covers uid h p s)
    (hn : ∀ info, created ⟨c, (exec md5 c s).1⟩ = some info → info.owner.toString = uid.toString →
      ¬Behind p info.bucket.name) : Covers uid h p (exec md5 c s).2 := by
  intro id row hrow ho hb
  rcases exec_row hrow with hrow | ⟨info, hcre, -, rfl⟩
  · exact hc id row hrow ho hb
  · exact absurd hb (hn info hcre ho)

end Reading

end BucketPages
