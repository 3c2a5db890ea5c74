import Rgw.OwnerIsolation
import Rgw.Paging
import Rgw.UserIds

/-! # Enumerating users

The marker of a page is the text of its last id. Where no id holds a separator that text is the
key of the row, so whoever goes on from the markers sees each user once, in the order of the
keys; the loop of the command line tool is such a reader. -/
namespace UserEnumeration

open ByteStrings TextCodecs SortedMaps Interaction RgwTypes RgwSal RgwSalSqlite StoreInvariants
  RgwAdminOps UserIds Paging

variable {md5 : Str → Str} {s : Tables} {marker : Str} {max : ℕ}

/-- `radosgw-admin user list` without a number of entries: the texts of all ids. -/
def listAllUsers : ℕ → Str → List Str → Op (List Str)
  | 0, _, _ => outOfFuel
  | fuel + 1, marker, ids => do
    let page ← userList marker 0
    let ids := ids ++ page.ids.map UserId.toString
    if !page.truncated then return ids
    listAllUsers fuel page.nextMarker ids

section Pages

/-- What a client is shown of a page. -/
def shownPage (page : UserList) : Page Str :=
  ⟨page.ids.map UserId.toString, page.truncated, some page.nextMarker⟩

/-- The page that a client gets from a marker on. -/
def userPage (md5 : Str → Str) (s : Tables) (max : ℕ) (marker : Str) : Option (Page Str) :=
  match (userList marker max).run.run (exec md5) s with
  | some (.ok page, _) => some (shownPage page)
  | _ => none

/-- Every stored uid is the text of an id without a separator in its parts. -/
def Separated (s : Tables) : Prop := ∀ uid ∈ s.users, ∃ id, DollarFree id ∧ uid = id.toString

theorem Separated.storedAs (h : Separated s) : ∀ uid ∈ s.users, StoredAs uid := by
  intro uid hm
  obtain ⟨id, hid, rfl⟩ := h uid hm
  have hread := parse_dollarFree hid
  refine ⟨id.toString, (parse_toString_iff _).mp ?_, by rw [hread]⟩
  rw [hread, hread]

theorem users_sorted (s : Tables) : s.users.keys.Pairwise (· < ·) :=
  Std.ExtTreeMap.ordered_keys.imp compare_lt.mp

theorem mem_listed {uid : Str} : uid ∈ listed marker s ↔ uid ∈ s.users ∧ marker < uid := by
  rw [listed, List.mem_filter, Std.ExtTreeMap.mem_keys, decide_eq_true_eq]

theorem listed_length_le (s : Tables) (marker : Str) : (listed marker s).length ≤ s.users.size := by
  rw [← Std.ExtTreeMap.length_keys]
  exact List.length_filter_le _ _

theorem listLimit_pos (max : ℕ) : 0 < listLimit max := by
  rw [listLimit, defaultMaxEntries]
  split <;> omega

theorem after_keys (s : Tables) (marker : Str) : after s.users.keys marker = listed marker s :=
  List.filter_congr fun _ _ => decide_eq_decide.mpr Iff.rfl

/-- The stored uids of a page are the texts of its ids. -/
theorem texts_of_listed (h : Separated s) (n : ℕ) :
    (((listed marker s).take n).map UserId.parse).map UserId.toString = (listed marker s).take n := by
  rw [List.map_map, List.map_congr_left (g := id), List.map_id]
  intro uid hm
  exact storedAs_toString (h.storedAs uid (mem_listed.mp (List.mem_of_mem_take hm)).1)

/-- A page shows the first uids past its marker, which is where the next one goes on. -/
theorem userList_serves (h : Separated s) (marker : Str) (max : ℕ) :
    ∃ page, (userList marker max).run.run (exec md5) s = some (.ok page, s) ∧
      Serves s.users.keys (listLimit max) marker (shownPage page) ∧
      (shownPage page).entries.Pairwise (· < ·) := by
  have hpos := listLimit_pos max
  refine ⟨_, userList_run h.storedAs marker max, ⟨?_, ?_, ?_⟩, ?_⟩
  · rw [after_keys]
    exact List.Perm.of_eq (texts_of_listed h _)
  · rw [after_keys]
    rfl
  · intro ht
    have hmore : listLimit max < (listed marker s).length := of_decide_eq_true ht
    have hsome : (listed marker s).take (listLimit max) ≠ [] := by
      rw [← List.length_pos_iff, List.length_take]
      omega
    rw [after_keys, shownPage, if_pos hmore, List.getLast?_eq_some_getLast hsome]
    rfl
  · rw [shownPage, texts_of_listed h, ← after_keys]
    exact (after_sorted (users_sorted s) marker).sublist (List.take_sublist _ _)

theorem userPage_serves (h : Separated s) (marker : Str) (max : ℕ) : ∃ page,
    userPage md5 s max marker = some page ∧ Serves s.users.keys (listLimit max) marker page ∧
      page.entries.Pairwise (· < ·) := by
  obtain ⟨page, hrun, hserves⟩ := @userList_serves md5 s h marker max
  refine ⟨shownPage page, ?_, hserves⟩
  rw [userPage, hrun]

end Pages

section Loops

/-- The command line tool goes through the pages that a client would get. -/
theorem listAllUsers_run (h : Separated s) (fuel : ℕ) (marker : Str) (ids : List Str) :
    (listAllUsers fuel marker ids).run.run (exec md5) s =
      (fetchAll (userPage md5 s 0) (fun _ next => next) fuel marker).map fun pages =>
        (.ok (ids ++ pages.flatMap Page.entries), s) := by
  induction fuel generalizing marker ids with
  | zero => rfl
  | succ fuel ih =>
    obtain ⟨page, hrun, -⟩ := @userList_serves md5 s h marker 0
    have hpage : userPage md5 s 0 marker = some (shownPage page) := by rw [userPage, hrun]
    rw [listAllUsers, run_except_bind, hrun, Option.bind_some, fetchAll, hpage]
    dsimp only
    cases ht : page.truncated with
    | false =>
      have hflag : (shownPage page).truncated = false := ht
      simp only [hflag, Bool.not_false, Bool.false_eq_true, ↓reduceIte, Option.map_some,
        List.flatMap_cons, List.flatMap_nil, List.append_nil]
      rfl
    | true =>
      have hflag : (shownPage page).truncated = true := ht
      have hnext : (shownPage page).next = some page.nextMarker := rfl
      simp only [hflag, hnext, Bool.not_true, Bool.false_eq_true, ↓reduceIte]
      rw [ih, Option.map_map]
      simp only [Function.comp_def, List.flatMap_cons, List.append_assoc]
      rfl

/-- The pages that a client gets from a marker on, which are in order. -/
theorem userPages_paged (h : Separated s) (marker : Str) (max : ℕ) :
    ∃ pages, Paged s.users.keys (listLimit max) marker pages ∧
      pages.flatMap Page.entries = listed marker s ∧ ∀ fuel, s.users.size < fuel →
        fetchAll (userPage md5 s max) (fun _ next => next) fuel marker = some pages := by
  obtain ⟨pages, hpaged, hall⟩ := fetchAll_paged (fun _ next => next) (fun _ => True) (fun m => m)
    (users_sorted s) (listLimit_pos max)
    (fun m _ => (@userPage_serves md5 s h m max).imp fun _ hpage => ⟨hpage.1, hpage.2.1⟩)
    (fun _ _ _ => ⟨trivial, rfl⟩) (r := marker) trivial
  rw [after_keys] at hall
  have hsorted : ∀ page ∈ pages, page.entries.Pairwise (· < ·) := by
    intro page hm
    obtain ⟨m, hfetch⟩ := fetchAll_fetched (hall _ (Nat.lt_succ_self _)) page hm
    obtain ⟨page', hpage, -, hpairs⟩ := @userPage_serves md5 s h m max
    rw [hfetch] at hpage
    obtain rfl := Option.some.inj hpage
    exact hpairs
  refine ⟨pages, hpaged, ?_, fun fuel hfuel => hall fuel ((listed_length_le s marker).trans_lt hfuel)⟩
  rw [← after_keys]
  exact hpaged.sorted (users_sorted s) hsorted

end Loops

section Enumeration

/-- Whatever users there are under ids without a separator in their parts: from any marker and
with pages of any size a client gets finitely many pages, none too large, each truncated exactly
when uids are left after it, and sees the uids past the marker once, in order. So does the loop
of the command line tool. -/
theorem users_enumerated (md5 : Str → Str) (s : Tables) (separated : Separated s) (marker : Str) :
    ∃ uids : List Str, uids.Pairwise (· < ·) ∧
      (∀ uid, uid ∈ uids ↔ uid ∈ s.users ∧ marker < uid) ∧
      (∀ max, ∃ pages,
        (∀ fuel, s.users.size < fuel →
          fetchAll (userPage md5 s max) (fun _ next => next) fuel marker = some pages) ∧
        (∀ page ∈ pages, page.entries.length ≤ (if max = 0 then 1000 else min max 1000) ∧
          (page.truncated = true ↔ ∃ uid ∈ uids, ∀ shown ∈ page.entries, shown < uid)) ∧
        pages.flatMap Page.entries = uids) ∧
      ∀ fuel, s.users.size < fuel →
        (listAllUsers fuel marker []).run.run (exec md5) s = some (.ok uids, s) := by
  refine ⟨listed marker s, ?_, fun uid => mem_listed, fun max => ?_, fun fuel hfuel => ?_⟩
  · rw [← after_keys]
    exact after_sorted (users_sorted s) marker
  · obtain ⟨pages, hpaged, hall, hfetch⟩ := @userPages_paged md5 s separated marker max
    refine ⟨pages, hfetch, fun page hm => ⟨hpaged.length_le page hm, ?_⟩, hall⟩
    rw [← after_keys]
    exact hpaged.truncated (users_sorted s) page hm
  · obtain ⟨pages, -, hall, hfetch⟩ := @userPages_paged md5 s separated marker 0
    rw [listAllUsers_run separated, hfetch fuel hfuel, Option.map_some, List.nil_append, hall]

/-- A user of a tenant and one without. -/
def twoUsers : Tables := execAll sampleMd5 [.storeUser acme true,
    .storeUser OwnerIsolation.bob true] .empty

/-- In pages of one there are two, of which the first is truncated. -/
theorem users_enumerated_acme : ∃ uids : List Str, uids.Pairwise (· < ·) ∧
    (∃ pages, fetchAll (userPage sampleMd5 twoUsers 1) (fun _ next => next) 3 [] = some pages ∧
      pages.map Page.truncated = [true, false] ∧ pages.flatMap Page.entries = uids) ∧
    (listAllUsers 3 [] []).run.run (exec sampleMd5) twoUsers = some (.ok uids, twoUsers) := by
  have separated : Separated twoUsers := by
    have hkeys : twoUsers.users.keys = [bytes "acme$alice", bytes "bob"] := by decide +kernel
    intro uid hm
    rw [← Std.ExtTreeMap.mem_keys, hkeys] at hm
    rcases List.mem_cons.mp hm with rfl | hm
    · exact ⟨⟨bytes "acme", bytes "alice"⟩, ⟨by decide, by decide⟩, by decide⟩
    · rw [List.mem_singleton.mp hm]
      exact ⟨⟨[], bytes "bob"⟩, ⟨by decide, by decide⟩, by decide⟩
  have hsize : twoUsers.users.size < 3 := by decide +kernel
  obtain ⟨uids, hsorted, -, hpages, hloop⟩ :=
    users_enumerated sampleMd5 twoUsers separated []
  obtain ⟨pages, hfetch, -, hall⟩ := hpages 1
  refine ⟨uids, hsorted, ⟨pages, hfetch 3 hsize, ?_, hall⟩, hloop 3 hsize⟩
  have hflags : (fetchAll (userPage sampleMd5 twoUsers 1) (fun _ next => next) 3 []).map
      (fun pages => pages.map Page.truncated) = some [true, false] := by decide +kernel
  rw [hfetch 3 hsize] at hflags
  exact Option.some.inj hflags

end Enumeration

end UserEnumeration
