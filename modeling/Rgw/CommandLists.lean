import Rgw.BucketEnumeration
import Rgw.FrontEnds
import Rgw.Scans

/-! # Lists of a store that changes

The command line lists all users and all buckets page after page while the gateway serves others.
What it prints is in order, and right about every single name at some moment of its run. -/
namespace CommandLists

open ByteStrings TextCodecs SortedMaps Interaction Lockstep Replies Scans Paging RgwTypes RgwSal
  RgwSalSqlite
  Http StoreInvariants EmailClashes BucketPages Purging UserIds UserEnumeration RgwAdminOps RestAdmin
  RadosgwAdmin

section Loops

variable {γ : Type}

/-- A loop that gathers what a client's pages show; of a client that ends without pages it says
nothing. -/
def Gathers (view : γ → List Str) (shown : List Str) (o : Option (RgwResult γ)) :
    Option (List (Page Str)) → Prop
  | none => True
  | some pages => ∃ all, o = some (.ok all) ∧ view all = shown ++ pages.flatMap Page.entries

theorem Gathers.turn {view : γ → List Str} {shown : List Str} (page : Page Str)
    (o : Option (RgwResult γ))
    (later : Option (List (Page Str))) (h : Gathers view (shown ++ page.entries) o later) :
    Gathers view shown o (later.map (page :: ·)) := by
  cases later with
  | none => trivial
  | some pages =>
    obtain ⟨all, ho, hall⟩ := h
    exact ⟨all, ho, by rw [hall, List.flatMap_cons, List.append_assoc]⟩

end Loops

section Users

variable {md5 : Str → Str} {s : Tables} {S : Tables → Prop} {marker : Str}

/-- What a client reads of a listing. -/
def readUsers : Option (RgwResult UserList) → Option (Page Str)
  | some (.ok page) => some (shownPage page)
  | _ => none

def fetchUsers (marker : Str) : Prog DriverCall Reply (Option (Page Str)) :=
  reported (userList marker 0).run >>= fun o => .done (readUsers o)

/-- The loop over the users follows a client. -/
theorem listAllUsers_scans (fuel : ℕ) (marker : Str) (ids : List Str) :
    Alike (Gathers id ids) (reported (UserEnumeration.listAllUsers fuel marker ids).run)
      (scan fetchUsers (fun _ next => next) fuel marker) := by
  induction fuel generalizing marker ids with
  | zero => exact .done trivial
  | succ fuel ih =>
    rw [UserEnumeration.listAllUsers, scan, fetchUsers]
    refine alike_reading (.done trivial) (fun _ => .done trivial) fun page => ?_
    dsimp only [readUsers]
    cases ht : page.truncated with
    | false =>
      have hflag : (shownPage page).truncated = false := ht
      simp only [hflag, Bool.not_false, Bool.false_eq_true, ↓reduceIte]
      exact .done ⟨_, rfl, by rw [List.flatMap_singleton]; rfl⟩
    | true =>
      have hflag : (shownPage page).truncated = true := ht
      simp only [hflag, Bool.not_true, Bool.false_eq_true, ↓reduceIte]
      exact (ih page.nextMarker (ids ++ page.ids.map UserId.toString)).map_right
        (Gathers.turn (shownPage page))

/-- A page of the users as they are stored. -/
theorem fetchUsers_run (readable : ∀ uid ∈ s.users, StoredAs uid) (marker : Str) : ∃ page,
    (fetchUsers marker).run (exec md5) s = some (some page, s) ∧
      Serves s.users.keys (listLimit 0) marker page ∧ page.entries.Pairwise (· < ·) := by
  have htexts : (((listed marker s).take (listLimit 0)).map UserId.parse).map UserId.toString =
      (listed marker s).take (listLimit 0) := by
    rw [List.map_map, List.map_congr_left (g := id), List.map_id]
    intro uid hm
    exact storedAs_toString (readable uid (mem_listed.mp (List.mem_of_mem_take hm)).1)
  have hrun := run_reported (@userList_run md5 s readable marker 0)
  refine ⟨_, by rw [fetchUsers, run_bind, hrun]; rfl, ⟨?_, ?_, ?_⟩, ?_⟩
  · rw [after_keys]
    exact List.Perm.of_eq htexts
  · rw [after_keys]
    rfl
  · intro ht
    have hmore : listLimit 0 < (listed marker s).length := of_decide_eq_true ht
    obtain ⟨last, hlast⟩ := exists_last (listLimit_pos 0) ((listLimit_pos 0).trans hmore)
    rw [after_keys, shownPage, if_pos hmore, hlast]
    rfl
  · rw [shownPage, htexts, ← after_keys]
    exact (after_sorted (users_sorted s) marker).sublist (List.take_sublist _ _)

theorem fetchUsers_yields (readable : ∀ s, S s → ∀ uid ∈ s.users, StoredAs uid) (marker : Str) :
    Yields (Given (exec md5) S) (fun reply => (∃ page all, reply = some page ∧
      all.Pairwise (· < ·) ∧ (∃ s, S s ∧ all = s.users.keys) ∧ Serves all (listLimit 0) marker page) ∧
      ∀ page, reply = some page → page.entries.Pairwise (· < ·)) (fetchUsers marker) := by
  refine yields_once (fun r => ?_) fun s hs => ?_
  · cases r <;> exact ⟨_, rfl⟩
  · obtain ⟨page, hrun, hserves, hsorted⟩ := @fetchUsers_run md5 s (readable s hs) marker
    refine ⟨some page, s, hrun, ⟨page, _, rfl, users_sorted s, ⟨s, hs, rfl⟩, hserves⟩, ?_⟩
    rintro _ ⟨⟩
    exact hsorted

end Users

section Buckets

variable {md5 : Str → Str} {s : Tables} {S : Tables → Prop} {owner : Option UserId} {marker : Str}

/-- What a client is shown of a page of buckets. -/
def shownNames (page : BucketList) : Page Str :=
  ⟨page.buckets.map fun b => b.bucket.name, page.isTruncated, some page.nextMarker⟩

/-- What a client reads of a page; one that does not get on is none. -/
def readBuckets (marker : Str) : Option (RgwResult BucketList) → Option (Page Str)
  | some (.ok page) =>
    if page.isTruncated ∧ (page.nextMarker = [] ∨ page.nextMarker = marker) then none
    else some (shownNames page)
  | _ => none

def fetchBuckets (owner : Option UserId) (marker : Str) : Prog DriverCall Reply (Option (Page Str)) :=
  reported (invoke (.listBuckets owner marker 0)).run >>= fun o => .done (readBuckets marker o)

/-- The names of the buckets of an owner, or of everyone. -/
def bucketNames (s : Tables) (owner : Option UserId) : List Str := (ahead s owner []).map BucketRow.name

theorem mem_bucketNames (h : PlainBuckets md5 s) {name : Str} : name ∈ bucketNames s owner ↔
    ∃ (id : Str) (row : BucketRow), s.buckets[id]? = some row ∧ row.name = name ∧
      owner.all fun u => row.owner = u.toString := by
  rw [bucketNames, List.mem_map]
  constructor
  · rintro ⟨row, hm, rfl⟩
    obtain ⟨⟨id, hr⟩, -, howner⟩ := mem_ahead.mp hm
    exact ⟨id, row, hr, rfl, howner⟩
  · rintro ⟨id, row, hr, rfl, howner⟩
    exact ⟨row, mem_ahead.mpr ⟨⟨id, hr⟩, nil_lt (h.name id row hr), howner⟩, rfl⟩

theorem bucketNames_sorted (h : PlainBuckets md5 s) : (bucketNames s owner).Pairwise (· < ·) :=
  List.pairwise_map.mpr (ahead_sorted h owner [])

/-- The rows of a page are what is past its marker of all names. -/
theorem after_bucketNames (h : PlainBuckets md5 s) (marker : Str) :
    after (bucketNames s owner) marker = (ahead s owner marker).map BucketRow.name := by
  have hsorted := List.pairwise_map.mpr (ahead_sorted h owner marker)
  have hirrefl : Std.Irrefl fun a b : Str => a < b := ⟨fun a => lt_irrefl a⟩
  have hantisymm : Std.Antisymm fun a b : Str => a < b :=
    ⟨fun a b hab hba => absurd (hab.trans hba) (lt_irrefl _)⟩
  refine (after_sorted (bucketNames_sorted h) marker).eq_of_mem_iff hsorted fun name => ?_
  rw [mem_after, mem_bucketNames h, List.mem_map]
  constructor
  · rintro ⟨⟨id, row, hr, rfl, howner⟩, hlt⟩
    exact ⟨row, mem_ahead.mpr ⟨⟨id, hr⟩, hlt, howner⟩, rfl⟩
  · rintro ⟨row, hm, rfl⟩
    obtain ⟨⟨id, hr⟩, hlt, howner⟩ := mem_ahead.mp hm
    exact ⟨⟨id, row, hr, rfl, howner⟩, hlt⟩

/-- The loop over the buckets follows a client. -/
theorem listAllBucketsLoop_scans (fuel : ℕ) (marker : Str) (out : List BucketInfo) :
    Alike (Gathers (List.map fun b => b.bucket.name) (out.map fun b => b.bucket.name))
      (reported (listAllBucketsLoop owner fuel marker out).run)
      (scan (fetchBuckets owner) (fun _ next => next) fuel marker) := by
  induction fuel generalizing marker out with
  | zero => exact .done trivial
  | succ fuel ih =>
    rw [listAllBucketsLoop, scan, fetchBuckets]
    refine alike_reading (.done trivial) (fun _ => .done trivial) fun page => ?_
    dsimp only [readBuckets]
    cases ht : page.isTruncated with
    | false =>
      have hflag : (shownNames page).truncated = false := ht
      simp only [hflag, Bool.not_false, Bool.false_eq_true, false_and, ↓reduceIte]
      exact .done ⟨_, rfl, by rw [List.flatMap_singleton, List.map_append]; rfl⟩
    | true =>
      by_cases hstall : page.nextMarker = [] ∨ page.nextMarker = marker
      · simp only [hstall, Bool.not_true, Bool.false_eq_true, and_self, ↓reduceIte]
        exact .done trivial
      · have hflag : (shownNames page).truncated = true := ht
        have hrest := ih page.nextMarker (out ++ page.buckets)
        rw [List.map_append] at hrest
        simp only [hstall, hflag, Bool.not_true, Bool.false_eq_true, and_false, ↓reduceIte]
        exact hrest.map_right (Gathers.turn (shownNames page))

/-- A page of the buckets as they are stored. -/
theorem fetchBuckets_run (h : PlainBuckets md5 s) (marker : Str) : ∃ page,
    (fetchBuckets owner marker).run (exec md5) s = some (some page, s) ∧
      Serves (bucketNames s owner) (pageSize 0) marker page ∧ page.entries.Pairwise (· < ·) := by
  have hlist := listBuckets_page h owner marker (show pageSize 0 + 1 < 2 ^ 63 by decide)
  have hnames : ((((ahead s owner marker).take (pageSize 0)).map rowInfo).map fun b => b.bucket.name) =
      (after (bucketNames s owner) marker).take (pageSize 0) := by
    rw [after_bucketNames h, ← List.map_take, List.map_map]
    refine List.map_congr_left fun row hm => ?_
    obtain ⟨⟨id, hr⟩, -⟩ := mem_ahead.mp (List.mem_of_mem_take hm)
    exact (bucketRow_key h.wf hr).2.2.symm
  generalize hpage : (⟨_, _, _⟩ : BucketList) = page at hlist
  have hlast : page.isTruncated = true → ∃ row ∈ ahead s owner marker, page.nextMarker = row.name ∧
      ((ahead s owner marker).take (pageSize 0)).getLast? = some row := by
    intro ht
    subst hpage
    obtain ⟨row, hrow⟩ := exists_last (pageSize_pos 0) ((pageSize_pos 0).trans (of_decide_eq_true ht))
    refine ⟨row, List.mem_of_mem_take (List.mem_of_getLast? hrow), ?_, hrow⟩
    rw [hrow]
    rfl
  have hmoves : ¬(page.isTruncated = true ∧ (page.nextMarker = [] ∨ page.nextMarker = marker)) := by
    rintro ⟨ht, hstall⟩
    obtain ⟨row, hm, hnext, -⟩ := hlast ht
    refine advances_of_lt ?_ hstall
    rw [hnext]
    exact (mem_ahead.mp hm).2.1
  refine ⟨shownNames page, ?_, ⟨?_, ?_, fun ht => ?_⟩, ?_⟩
  · change some (readBuckets marker (some (listBuckets owner marker 0 s)), s) = _
    rw [hlist, readBuckets, if_neg hmoves]
  · subst hpage
    exact List.Perm.of_eq hnames
  · subst hpage
    rw [after_bucketNames h, List.length_map]
    rfl
  · obtain ⟨row, -, hnext, hrow⟩ := hlast ht
    rw [after_bucketNames h, ← List.map_take, List.getLast?_map, hrow, Option.map_some, ← hnext]
    rfl
  · subst hpage
    rw [shownNames, hnames]
    exact (after_sorted (bucketNames_sorted h) marker).sublist (List.take_sublist _ _)

theorem fetchBuckets_yields (plain : ∀ s, S s → PlainBuckets md5 s) (marker : Str) :
    Yields (Given (exec md5) S) (fun reply => (∃ page all, reply = some page ∧ all.Pairwise (· < ·) ∧
      (∃ s, S s ∧ all = bucketNames s owner) ∧ Serves all (pageSize 0) marker page) ∧
      ∀ page, reply = some page → page.entries.Pairwise (· < ·)) (fetchBuckets owner marker) := by
  refine yields_once (fun r => ⟨_, rfl⟩) fun s hs => ?_
  obtain ⟨page, hrun, hserves, hsorted⟩ := @fetchBuckets_run md5 s owner (plain s hs) marker
  refine ⟨some page, s, hrun, ⟨page, _, rfl, bucketNames_sorted (plain s hs), ⟨s, hs, rfl⟩, hserves⟩, ?_⟩
  rintro _ ⟨⟩
  exact hsorted

end Buckets

section Commands

variable {ι α β : Type} [DecidableEq ι]

/-- A list that is in order, and right about each name past its start at some moment of a run. -/
structure Accurate (md5 : Str → Str) (x : Config DriverCall Reply α Tables ι)
    (t : List (ι × Event DriverCall Reply)) (there : Tables → Str → Prop) (start : Str)
    (names : List Str) : Prop where
  ascending : names.Pairwise (· < ·)
  past : ∀ name ∈ names, start < name
  right : ∀ name, start < name → ∃ s, Passes (exec md5) x t s ∧ (name ∈ names ↔ there s name)

/-- What a command prints that lists names, beside a client's pages. -/
def Prints (o : Option Outcome) : Option (List (Page Str)) → Prop
  | none => True
  | some pages => o = some (.success (some (.array ((pages.flatMap Page.entries).map .string))))

theorem Gathers.prints {γ : Type} {view : γ → List Str} (o : Option (RgwResult γ))
    (reply : Option (List (Page Str))) (h : Gathers view [] o reply) :
    Prints (o.map fun r => report (r.map fun all => some (.array ((view all).map .string)))) reply := by
  cases reply with
  | none => trivial
  | some pages =>
    obtain ⟨all, rfl, hall⟩ := h
    rw [List.nil_append] at hall
    rw [Prints, ← hall]
    rfl

theorem reported_map (p : Prog DriverCall Reply α) (f : α → β) :
    reported (p >>= fun a => .done (f a)) = reported p >>= fun o => .done (o.map f) := by
  rw [reported_bind]
  congr 1
  funext o
  cases o <;> rfl

theorem op_map (x : Op α) (f : α → β) :
    (x >>= fun a => pure (f a)).run = x.run >>= fun r => .done (r.map f) := by
  change x.run >>= ExceptT.bindCont _ = _
  congr 1
  funext r
  cases r <;> rfl

variable (P : Platform) (env : AdminEnv)

theorem main_users (marker : Option Str) : main P env (.user (.list marker none)) =
    (UserEnumeration.listAllUsers env.fuel (marker.getD []) []).run >>= fun r =>
      .done (report (r.map fun ids => some (.array (ids.map .string)))) := by
  have hrun : (run P env (.user (.list marker none))).run =
      (UserEnumeration.listAllUsers env.fuel (marker.getD []) []).run >>= fun r =>
        .done (r.map fun ids => some (.array (ids.map .string))) := by
    rw [← op_map, RadosgwAdmin.run, user, RadosgwAdmin.listAllUsers, bind_assoc]
    rfl
  rw [main, hrun, bind_assoc']
  rfl

theorem main_buckets (uid : Option Str) : main P env (.bucket (.list uid)) =
    (listAllBucketsLoop ((nonempty uid).map UserId.parse) env.fuel [] []).run >>= fun r =>
      .done (report (r.map fun buckets =>
      some (.array (buckets.map fun b => .string b.bucket.name)))) := by
  have hrun : (run P env (.bucket (.list uid))).run =
      (listAllBucketsLoop ((nonempty uid).map UserId.parse) env.fuel [] []).run >>= fun r =>
        .done (r.map fun buckets => some (.array (buckets.map fun b => .string b.bucket.name))) := by
    rw [← op_map]
    rfl
  rw [main, hrun, bind_assoc']
  rfl

theorem main_users_prints (marker : Option Str) :
    Alike Prints (reported (main P env (.user (.list marker none))))
      (scan fetchUsers (fun _ next => next) env.fuel (marker.getD [])) := by
  rw [main_users, reported_map]
  exact (listAllUsers_scans env.fuel (marker.getD []) []).map_left Gathers.prints

theorem main_buckets_prints (uid : Option Str) :
    Alike Prints (reported (main P env (.bucket (.list uid))))
      (scan (fetchBuckets ((nonempty uid).map UserId.parse)) (fun _ next => next) env.fuel []) := by
  rw [main_buckets, reported_map]
  refine (listAllBucketsLoop_scans env.fuel [] []).map_left fun o reply h => ?_
  have hprints := Gathers.prints o reply h
  simpa only [List.map_map, Function.comp_def] using hprints

variable {md5 : Str → Str} {x y : Config DriverCall Reply Outcome Tables ι}
  {t : List (ι × Event DriverCall Reply)}

/-- Who prints what a client's pages show prints an accurate list. -/
theorem prints_accurate (run : Trace (exec md5) x t y) {i : ι} (there : Tables → List Str) {limit : ℕ}
    {fetch : Str → Prog DriverCall Reply (Option (Page Str))} {start : Str} {fuel : ℕ} (hl : 0 < limit)
    (hfetch : ∀ marker, Yields (Given (exec md5) (Passes (exec md5) x t)) (fun reply =>
      (∃ page all, reply = some page ∧ all.Pairwise (· < ·) ∧
        (∃ s, Passes (exec md5) x t s ∧ all = there s) ∧ Serves all limit marker page) ∧
      ∀ page, reply = some page → page.entries.Pairwise (· < ·)) (fetch marker))
    (prints : Alike Prints (reported (x.threads i)) (scan fetch (fun _ next => next) fuel start))
    (F : Finset Str) (names : ∀ s, Passes (exec md5) x t s → ∀ name ∈ there s, name ∈ F)
    (enough : F.card < fuel) : y.threads i ≠ .cut ∧ ∀ o, y.threads i = .done o → ∃ names,
      o = .success (some (.array (names.map .string))) ∧
        Accurate md5 x t (fun s name => name ∈ there s) start names := by
  have hscan := scan_yields (fun _ : Str => True) (fun m => m) hl
    (fun r _ => yields_mono (hfetch r) fun _ h => h.1) (fun _ _ _ => ⟨trivial, rfl⟩) F fuel
    (r := start) trivial
    (by
      rintro all ⟨s, hs, rfl⟩ e he
      exact names s hs e he)
    enough
  have heach : Yields _ (fun reply => ∀ pages, reply = some pages → ∀ page ∈ pages,
      page.entries.Pairwise (· < ·)) (scan fetch (fun _ next => next) fuel start) :=
    scan_each (fun r => yields_mono (hfetch r) fun _ h => h.2) fuel start
  have hyields := prints.yields (yields_and hscan heach)
  obtain ⟨hwhole, hends⟩ := trace_returns run (by
    rintro ⟨reply, hprints, ⟨pages, rfl, -⟩, -⟩
    cases hprints) hyields
  refine ⟨hwhole, fun o ho => ?_⟩
  obtain ⟨reply, hprints, ⟨pages, rfl, hscanned⟩, hsorted⟩ := hends o ho
  refine ⟨_, Option.some.inj hprints, hscanned.ascending (hsorted pages rfl), hscanned.past, ?_⟩
  intro name hlt
  obtain ⟨all, ⟨s, hs, rfl⟩, hiff⟩ := hscanned.looked hlt
  exact ⟨s, hs, hiff⟩

theorem storedAs_of {uid : Str} (h : (UserId.parse uid).toString = uid) : StoredAs uid :=
  ⟨uid, (parse_toString_iff uid).mp (by rw [h]), h.symm⟩

/-- Every uid is one of these and is read back as itself. -/
def Uids (F : Finset Str) (s : Tables) : Prop :=
  ∀ uid ∈ s.users, (UserId.parse uid).toString = uid ∧ uid ∈ F

/-- Every uid after a call was there before or is of the record that it stored. -/
theorem uids_exec {F : Finset Str} {s : Tables} {c : DriverCall} (h : Uids F s)
    (hc : ∀ info exclusive, c = .storeUser info exclusive →
      (UserId.parse info.userId.toString).toString = info.userId.toString ∧
        info.userId.toString ∈ F) : Uids F (exec md5 c s).2 := by
  intro uid hm
  obtain ⟨row, hr⟩ := Option.isSome_iff_exists.mp (Std.ExtTreeMap.mem_iff_isSome_getElem?.mp hm)
  have hold : s.users[uid]? = some row → uid ∈ s.users := fun hr =>
    Std.ExtTreeMap.mem_iff_isSome_getElem?.mpr (Option.isSome_iff_exists.mpr ⟨row, hr⟩)
  rcases @exec_cases md5 s c with ⟨-, hs⟩ | ⟨info, exclusive, rfl, -, hs⟩ | ⟨id, -, -, hs⟩
  · rw [hs] at hm
    exact h uid hm
  · rw [hs] at hr
    rcases withUser_row hr with ⟨rfl, -⟩ | hr
    · exact hc info exclusive rfl
    · exact h uid (hold hr)
  · rw [hs] at hr
    exact h uid (hold (withoutUser_row hr))

/-- The buckets are such as requests create, under these names. -/
structure Buckets (md5 : Str → Str) (F : Finset Str) (s : Tables) : Prop where
  plain : PlainBuckets md5 s
  named : ∀ (id : Str) (row : BucketRow), s.buckets[id]? = some row → row.name ∈ F

theorem buckets_exec {F : Finset Str} {s : Tables} {c : DriverCall} (h : Buckets md5 F s)
    (hc : ∀ info, c = .createBucket info →
      info.bucket.tenant = [] ∧ info.bucket.name ≠ [] ∧ info.bucket.name ∈ F) :
    Buckets md5 F (exec md5 c s).2 := by
  refine ⟨plainBuckets_exec h.plain fun info he => ⟨(hc info he).1, (hc info he).2.1⟩,
    fun id row hr => ?_⟩
  rcases exec_row hr with hr | ⟨info, he, -, rfl⟩
  · exact h.named id row hr
  · exact (hc info (created_call he)).2.2

/-- While others use the store, `user list` and `bucket list` end, if they may ask more often than
there ever were names, and print a list in order that is right about every name at some moment.
Ids read back as themselves, and buckets are such as requests create. -/
theorem lists_among_writes (P : Platform) (env : AdminEnv) (md5 : Str → Str)
    (x y : Config DriverCall Reply Outcome Tables ι) (t : List (ι × Event DriverCall Reply))
    (run : Trace (exec md5) x t y) (i : ι) (F : Finset Str) (enough : F.card < env.fuel) :
    (∀ marker, x.threads i = main P env (.user (.list marker none)) → Uids F x.state →
      (∀ e ∈ t, ∀ info exclusive, e.2.1 = .storeUser info exclusive →
        (UserId.parse info.userId.toString).toString = info.userId.toString ∧
          info.userId.toString ∈ F) →
      y.threads i ≠ .cut ∧ ∀ o, y.threads i = .done o → ∃ uids,
        o = .success (some (.array (uids.map .string))) ∧
          Accurate md5 x t (fun s uid => uid ∈ s.users) (marker.getD []) uids) ∧
    ∀ uid, x.threads i = main P env (.bucket (.list uid)) → Buckets md5 F x.state →
      (∀ e ∈ t, ∀ info, e.2.1 = .createBucket info →
        info.bucket.tenant = [] ∧ info.bucket.name ≠ [] ∧ info.bucket.name ∈ F) →
      y.threads i ≠ .cut ∧ ∀ o, y.threads i = .done o → ∃ names,
        o = .success (some (.array (names.map .string))) ∧
          Accurate md5 x t (fun s name => ∃ (id : Str) (row : BucketRow), s.buckets[id]? = some row ∧
            row.name = name ∧ ((nonempty uid).map UserId.parse).all fun u => row.owner = u.toString)
            [] names := by
  constructor
  · intro marker hthread start stored
    have hall : ∀ s, Passes (exec md5) x t s → Uids F s := fun s hs =>
      passes_kept start (fun s e he h => uids_exec h (stored e he)) hs
    have hprints := main_users_prints P env marker
    rw [← hthread] at hprints
    obtain ⟨hwhole, hends⟩ := prints_accurate run (fun s => s.users.keys) (listLimit_pos 0)
      (fetchUsers_yields fun s hs uid hm => storedAs_of (hall s hs uid hm).1) hprints F
      (fun s hs uid hm => (hall s hs uid (Std.ExtTreeMap.mem_keys.mp hm)).2) enough
    refine ⟨hwhole, fun o ho => ?_⟩
    obtain ⟨uids, rfl, haccurate⟩ := hends o ho
    refine ⟨uids, rfl, haccurate.ascending, haccurate.past, fun uid hlt => ?_⟩
    obtain ⟨s, hs, hiff⟩ := haccurate.right uid hlt
    exact ⟨s, hs, hiff.trans Std.ExtTreeMap.mem_keys⟩
  · intro uid hthread start created
    have hall : ∀ s, Passes (exec md5) x t s → Buckets md5 F s := fun s hs =>
      passes_kept start (fun s e he h => buckets_exec h (created e he)) hs
    have hprints := main_buckets_prints P env uid
    rw [← hthread] at hprints
    have hnames : ∀ s, Passes (exec md5) x t s →
        ∀ name ∈ bucketNames s ((nonempty uid).map UserId.parse), name ∈ F := by
      intro s hs name hm
      obtain ⟨id, row, hr, rfl, -⟩ := (mem_bucketNames (hall s hs).plain).mp hm
      exact (hall s hs).named id row hr
    obtain ⟨hwhole, hends⟩ := prints_accurate run (fun s => bucketNames s _) (pageSize_pos 0)
      (fetchBuckets_yields fun s hs => (hall s hs).plain) hprints F hnames enough
    refine ⟨hwhole, fun o ho => ?_⟩
    obtain ⟨names, rfl, haccurate⟩ := hends o ho
    refine ⟨names, rfl, haccurate.ascending, haccurate.past, fun name hlt => ?_⟩
    obtain ⟨s, hs, hiff⟩ := haccurate.right name hlt
    exact ⟨s, hs, hiff.trans (mem_bucketNames (hall s hs).plain)⟩

end Commands

section Example

def carol : UserInfo := .new (.new (bytes "carol")) [] 0

def aliceAndBob : Tables :=
  execAll sampleMd5 [.storeUser OwnerIsolation.alice true, .storeUser OwnerIsolation.bob true] .empty

/-- A command lists the users, and somebody stores one more. -/
def listWhileStoring (i : Fin 2) : Prog DriverCall Reply Outcome :=
  if i.val = 0 then main (.ofTables [] [] []) ⟨bytes "tx", AdminPrivileges.noDraws, 4⟩
    (.user (.list none none))
  else .call (.storeUser carol true) fun _ => .done (.success none)

def nameIn : Value → List Str
  | .string name => [name]
  | _ => []

/-- The names that a command printed. -/
def printed : Outcome → List Str
  | .success (some (.array items)) => items.flatMap nameIn
  | _ => []

theorem printed_names (names : List Str) :
    printed (.success (some (.array (names.map .string)))) = names := by
  rw [printed, List.flatMap_map]
  exact List.flatMap_pure_eq_map id names |>.trans (List.map_id names)

def known : List Str := [bytes "alice", bytes "bob", bytes "carol"]

def isKnown (uid : Str) : Bool := decide ((UserId.parse uid).toString = uid ∧ uid ∈ known)

def storesKnown : DriverCall → Bool
  | .storeUser info _ => isKnown info.userId.toString
  | _ => true

theorem of_isKnown {uid : Str} (h : isKnown uid = true) :
    (UserId.parse uid).toString = uid ∧ uid ∈ known.toFinset := by
  obtain ⟨hread, hm⟩ := of_decide_eq_true h
  exact ⟨hread, List.mem_toFinset.mpr hm⟩

theorem lists_among_writes_carol : ∃ t y uids,
    Trace (exec sampleMd5) ⟨aliceAndBob, listWhileStoring⟩ t y ∧
    y.threads 0 = .done (.success (some (.array (uids.map .string)))) ∧ uids = known ∧
    Accurate sampleMd5 ⟨aliceAndBob, listWhileStoring⟩ t (fun s uid => uid ∈ s.users) [] uids := by
  have hplay : ((Config.play (exec sampleMd5) [1, 0] ([], ⟨aliceAndBob, listWhileStoring⟩)).bind fun r =>
      (r.2.threads 0).result.map fun o => (r.1.all fun e => storesKnown e.2.1, printed o)) =
      some (true, known) := by decide +kernel
  have hstart : aliceAndBob.users.keys.all isKnown = true := by decide +kernel
  obtain ⟨⟨t, y⟩, hr, hplay⟩ := Option.bind_eq_some_iff.mp hplay
  obtain ⟨o, ho, hplay⟩ := Option.map_eq_some_iff.mp hplay
  obtain ⟨hstored, hprinted⟩ := Prod.mk.inj hplay
  have run := play_trace .nil hr
  have hdone := result_eq_some.mp ho
  obtain ⟨-, hends⟩ := (lists_among_writes (.ofTables [] [] []) ⟨bytes "tx", AdminPrivileges.noDraws, 4⟩
    sampleMd5 _ y t run 0 known.toFinset (by decide +kernel)).1 none rfl
    (fun uid hm => of_isKnown (List.all_eq_true.mp hstart uid (Std.ExtTreeMap.mem_keys.mpr hm)))
    (fun e he info exclusive hc => of_isKnown (by
      have hcall := List.all_eq_true.mp hstored e he
      rw [hc] at hcall
      exact hcall))
  obtain ⟨uids, rfl, haccurate⟩ := hends o hdone
  rw [printed_names] at hprinted
  exact ⟨t, y, uids, run, hdone, hprinted, haccurate⟩

end Example

end CommandLists
