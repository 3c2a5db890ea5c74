import Rgw.Paging
import Rgw.PrefixRollup
import Rgw.RestS3Handlers
import Rgw.StoreInvariants

/-! # One page of a bucket listing

The driver's page is a scan with one remembered prefix, cut off where the page is full. -/
namespace ListingScan

open ByteStrings RgwTypes RgwSal RgwSalSqlite StoreInvariants RestS3Wire RestS3Handlers
  PrefixRollup Paging

section Rolling

/-- The prefix a name rolls up to in a listing. -/
def rolledName (listPrefix delimiter name : Str) : Option Str :=
  (name.dropPrefix? listPrefix).bind (commonPrefix ⟨listPrefix, delimiter, [], 0⟩ name)

theorem rolledName_some {listPrefix delimiter name c : Str} :
    rolledName listPrefix delimiter name = some c ↔ delimiter ≠ [] ∧
      ∃ rest i, name = listPrefix ++ rest ∧ findSub delimiter rest = some i ∧
        c = listPrefix ++ rest.take (i + delimiter.length) := by
  rw [rolledName, Option.bind_eq_some_iff]
  constructor
  · rintro ⟨rest, hrest, hc⟩
    obtain ⟨p, rfl, hp⟩ := List.dropPrefix?_eq_some_iff.mp hrest
    obtain rfl := beq_iff_eq.mp hp
    simp only [commonPrefix, Option.ite_none_left_eq_some, Option.map_eq_some_iff] at hc
    obtain ⟨hd, i, hi, rfl⟩ := hc
    refine ⟨hd, rest, i, rfl, hi, ?_⟩
    rw [Nat.add_assoc, List.take_length_add_append]
  · rintro ⟨hd, rest, i, rfl, hi, rfl⟩
    refine ⟨rest, List.dropPrefix?_append_of_beq rest (beq_self_eq_true _), ?_⟩
    simp only [commonPrefix, hd, ↓reduceIte, hi, Option.map_some]
    rw [Nat.add_assoc, List.take_length_add_append]

/-- The roll-up of a listing. -/
def listingRollup (listPrefix delimiter : Str) : Rollup UInt8 where
  rolled := rolledName listPrefix delimiter
  isPrefix h := by
    obtain ⟨-, rest, i, rfl, -, rfl⟩ := rolledName_some.mp h
    exact (List.prefix_append_right_inj listPrefix).mpr (List.take_prefix _ _)
  stable h hz := by
    obtain ⟨hd, rest, i, rfl, hi, rfl⟩ := rolledName_some.mp h
    obtain ⟨t, rfl⟩ := hz
    refine rolledName_some.mpr ⟨hd, rest.take (i + delimiter.length) ++ t, i, ?_, ?_, ?_⟩
    · rw [List.append_assoc]
    · exact findSub_extend hd hi t
    · have hle := (findSub_some hi).1.length_le
      have hpos := List.length_pos_iff.mpr hd
      rw [List.length_drop] at hle
      rw [List.take_append_of_le_length (by rw [List.length_take]; omega), List.take_take,
        Nat.min_self]

end Rolling

section Scanning

/-- The names and prefixes a page shows. -/
def shown (res : ListResult) : List Str := res.objects.map (fun o => o.key.name) ++ res.commonPrefixes

def count (res : ListResult) : ℕ := res.objects.length + res.commonPrefixes.length

theorem intoInfo_name {row : ObjectRow} {info : ObjectInfo} (h : row.intoInfo = .ok info) :
    info.key.name = row.name := by
  obtain ⟨size, -, h⟩ := bind_eq_ok.mp h
  cases h
  rfl

theorem names_of_infos {rows : List ObjectRow} {infos : List ObjectInfo}
    (h : infos.map Except.ok = rows.map ObjectRow.intoInfo) :
    infos.map (fun o => o.key.name) = rows.map ObjectRow.name := by
  induction rows generalizing infos with
  | nil =>
    rw [List.map_nil, List.map_eq_nil_iff] at h
    rw [h]
    rfl
  | cons row rows ih =>
    obtain ⟨info, rest, rfl, hinfo, hrest⟩ := List.map_eq_cons_iff.mp h
    rw [List.map_cons, List.map_cons, intoInfo_name hinfo.symm, ih hrest]

theorem intoInfo_ok {row : ObjectRow} (h : 0 ≤ row.size) :
    ∃ info, row.intoInfo = .ok info ∧ info.key.name = row.name := by
  refine ⟨⟨.new row.name, row.size.toNat, row.etag, row.mtime, ⟨.parse row.ownerId,
    row.ownerDisplay⟩, row.storageClass, row.attrs⟩, ?_, rfl⟩
  simp [ObjectRow.intoInfo, toU64, h]

/-- A row that is an object of the page whose entries are `E`. -/
def IsObjectOf (params : ListParams) (E : List Str) (row : ObjectRow) : Prop :=
  rolledName params.listPrefix params.delimiter row.name = none ∧ row.name ∈ E

instance (params : ListParams) (E : List Str) (row : ObjectRow) :
    Decidable (IsObjectOf params E row) := inferInstanceAs (Decidable (_ ∧ _))

theorem filter_isObjectOf_cons {params : ListParams} {E : List Str} {e : Str}
    {rows : List ObjectRow} (h : ∀ row ∈ rows,
      rolledName params.listPrefix params.delimiter row.name = none → row.name ≠ e) :
    rows.filter (IsObjectOf params (e :: E) ·) = rows.filter (IsObjectOf params E ·) := by
  refine List.filter_congr fun row hrow => decide_eq_decide.mpr (and_congr_right fun hr => ?_)
  rw [List.mem_cons, or_iff_right (h row hrow hr)]

section Added

variable {params : ListParams} {row : ObjectRow} {rows : List ObjectRow} {room : ℕ} {F : List Str}
  {out res : ListResult}

/-- What the loop adds to a result: of the entries `F` that a scan of the rows adds those that there
is room for, the rows that stand for themselves as objects and the others as prefixes. -/
structure Added (params : ListParams) (rows : List ObjectRow) (room : ℕ) (F : List Str)
    (out res : ListResult) : Prop where
  objects : res.objects.map Except.ok = out.objects.map Except.ok ++
    (rows.filter (IsObjectOf params (F.take room) ·)).map ObjectRow.intoInfo
  prefixes : res.commonPrefixes = out.commonPrefixes ++
    (F.take room).filter (rolledName params.listPrefix params.delimiter · ≠ none)
  truncated : res.isTruncated = decide (room < F.length)
  next : res.nextMarker = (F.take room).getLast?.getD out.nextMarker

theorem added_nil (ht : out.isTruncated = false) (room : ℕ) : Added params [] room [] out out where
  objects := by simp
  prefixes := by simp
  truncated := by simp [ht]
  next := by simp

/-- Without room the page is truncated at the first entry. -/
theorem added_full (hF : F ≠ []) : Added params rows 0 F out { out with isTruncated := true } where
  objects := by
    have hnothing : rows.filter (IsObjectOf params [] ·) = [] := by
      rw [List.filter_eq_nil_iff]
      intro row _ hrow
      exact absurd (of_decide_eq_true hrow).2 List.not_mem_nil
    rw [List.take_zero, hnothing, List.map_nil, List.append_nil]
  prefixes := by simp
  truncated := by simp [List.length_pos_iff.mpr hF]
  next := by simp

/-- A row that rolls up is no object. -/
theorem Added.rolled {cp : Str} (h : Added params rows room F out res)
    (hr : rolledName params.listPrefix params.delimiter row.name = some cp) :
    Added params (row :: rows) room F out res := by
  refine ⟨?_, h.prefixes, h.truncated, h.next⟩
  have hout : ¬IsObjectOf params (F.take room) row := by
    rintro ⟨hnone, -⟩
    rw [hr] at hnone
    cases hnone
  rw [List.filter_cons_of_neg (by simpa using hout)]
  exact h.objects

theorem Added.commonPrefix {cp : Str}
    (hr : rolledName params.listPrefix params.delimiter row.name = some cp)
    (h : Added params rows room F
      { out with nextMarker := cp, commonPrefixes := out.commonPrefixes ++ [cp] } res) :
    Added params (row :: rows) (room + 1) (cp :: F) out res := by
  have hself : rolledName params.listPrefix params.delimiter cp = some cp :=
    (listingRollup params.listPrefix params.delimiter).rolled_self hr
  refine Added.rolled ⟨?_, ?_, ?_, ?_⟩ hr
  · rw [List.take_succ_cons, h.objects, filter_isObjectOf_cons]
    rintro row' - hr' rfl
    rw [hself] at hr'
    cases hr'
  · rw [List.take_succ_cons, h.prefixes, List.filter_cons_of_pos (by simp [hself]), List.append_assoc]
    rfl
  · rw [h.truncated, List.length_cons, decide_eq_decide, Nat.succ_lt_succ_iff]
  · rw [List.take_succ_cons, h.next, List.getLast?_cons, Option.getD_some]

theorem Added.object {info : ObjectInfo}
    (hr : rolledName params.listPrefix params.delimiter row.name = none)
    (hinfo : row.intoInfo = .ok info) (hs : ∀ row' ∈ rows, row.name < row'.name)
    (h : Added params rows room F
      { out with nextMarker := row.name, objects := out.objects ++ [info] } res) :
    Added params (row :: rows) (room + 1) (row.name :: F) out res := by
  refine ⟨?_, ?_, ?_, ?_⟩
  · have hself : IsObjectOf params (row.name :: F.take room) row := ⟨hr, List.mem_cons_self⟩
    have hothers : rows.filter (IsObjectOf params (row.name :: F.take room) ·) =
        rows.filter (IsObjectOf params (F.take room) ·) :=
      filter_isObjectOf_cons fun row' hrow' _ => (hs row' hrow').ne'
    rw [List.take_succ_cons, List.filter_cons_of_pos (by simpa using hself), hothers, h.objects,
      List.map_cons, hinfo]
    simp
  · rw [List.take_succ_cons, h.prefixes, List.filter_cons_of_neg (by simp [hr])]
  · rw [h.truncated, List.length_cons, decide_eq_decide, Nat.succ_lt_succ_iff]
  · rw [List.take_succ_cons, h.next, List.getLast?_cons, Option.getD_some]

end Added

/-- The page loop takes in what a scan adds, as far as there is room. -/
theorem listPageLoop_split (params : ListParams) {rows : List ObjectRow}
    (hp : ∀ row ∈ rows, params.listPrefix <+: row.name)
    (hd : ∀ row ∈ rows, ∃ info, row.intoInfo = .ok info)
    (hs : rows.Pairwise fun a b => a.name < b.name)
    (out : ListResult) (last : Option Str) (ht : out.isTruncated = false) (room : ℕ)
    (hroom : count out + room = pageSize params.maxKeys) (F : List Str)
    (hF : F = (listingRollup params.listPrefix params.delimiter).fresh params.marker last
      (rows.map ObjectRow.name)) :
    ∃ res, listPageLoop params rows out last = .ok res ∧ Added params rows room F out res := by
  induction rows generalizing out last room F with
  | nil =>
    subst hF
    exact ⟨out, rfl, added_nil ht room⟩
  | cons row rows ih =>
    rw [List.forall_mem_cons] at hp hd
    rw [List.pairwise_cons] at hs
    obtain ⟨rest, hname⟩ := hp.1
    have hrest : row.name.dropPrefix? params.listPrefix = some rest := by
      rw [← hname]
      exact List.dropPrefix?_append_of_beq rest (beq_self_eq_true _)
    have hrolled : rolledName params.listPrefix params.delimiter row.name =
        commonPrefix params row.name rest := by
      rw [rolledName, hrest]
      rfl
    have hrollup : (listingRollup params.listPrefix params.delimiter).rolled row.name =
        commonPrefix params row.name rest := hrolled
    rw [listPageLoop, hrest]
    dsimp only
    rw [List.map_cons, Rollup.fresh, hrollup] at hF
    cases hc : commonPrefix params row.name rest with
    | some cp =>
      rw [hc] at hF hrolled
      dsimp only at hF ⊢
      by_cases hskip : last = some cp ∨ cp ≤ params.marker
      · rw [if_pos hskip] at hF ⊢
        obtain ⟨res, hres, hadded⟩ := ih hp.2 hd.2 hs.2 out last ht room hroom F hF
        exact ⟨res, hres, hadded.rolled hrolled⟩
      · rw [if_neg hskip] at hF ⊢
        rw [← count]
        cases room with
        | zero =>
          refine ⟨_, if_pos (by omega), added_full ?_⟩
          rw [hF]
          exact List.cons_ne_nil _ _
        | succ room =>
          rw [if_neg (by omega)]
          obtain ⟨res, hres, hadded⟩ := ih hp.2 hd.2 hs.2
            { out with nextMarker := cp, commonPrefixes := out.commonPrefixes ++ [cp] } (some cp) ht
            room (by simp only [count, List.length_append, List.length_singleton] at hroom ⊢; omega)
            _ rfl
          rw [hF]
          exact ⟨res, hres, .commonPrefix hrolled hadded⟩
    | none =>
      rw [hc] at hF hrolled
      dsimp only at hF ⊢
      rw [← count]
      cases room with
      | zero =>
        refine ⟨_, if_pos (by omega), added_full ?_⟩
        rw [hF]
        exact List.cons_ne_nil _ _
      | succ room =>
        obtain ⟨info, hinfo⟩ := hd.1
        rw [if_neg (by omega), hinfo, ok_bind]
        obtain ⟨res, hres, hadded⟩ := ih hp.2 hd.2 hs.2
          { out with nextMarker := row.name, objects := out.objects ++ [info] } last ht
          room (by simp only [count, List.length_append, List.length_singleton] at hroom ⊢; omega)
          _ rfl
        rw [hF]
        exact ⟨res, hres, .object hrolled hinfo hs.1 hadded⟩

theorem names_ascending {rows : List ObjectRow} (hs : rows.Pairwise fun a b => a.name < b.name) :
    (rows.map ObjectRow.name).Pairwise (· < ·) := List.Pairwise.map _ (fun _ _ h => h) hs

theorem names_later {rows : List ObjectRow} {marker : Str} (hm : ∀ row ∈ rows, marker < row.name) :
    ∀ x ∈ rows.map ObjectRow.name, marker < x := by
  intro x hx
  obtain ⟨row, hrow, rfl⟩ := List.mem_map.mp hx
  exact hm row hrow

/-- The rows that are objects of a page are its entries that are not prefixes. -/
theorem objects_names (params : ListParams) {rows : List ObjectRow}
    (hs : rows.Pairwise fun a b => a.name < b.name) (hm : ∀ row ∈ rows, params.marker < row.name)
    (room : ℕ) (F : List Str) (hF : F = (listingRollup params.listPrefix params.delimiter).fresh
      params.marker none (rows.map ObjectRow.name)) :
    (rows.filter (IsObjectOf params (F.take room) ·)).map ObjectRow.name =
      (F.take room).filter (rolledName params.listPrefix params.delimiter · = none) := by
  have hnames := names_ascending hs
  have hlater := names_later hm
  have hsorted : F.Pairwise (· < ·) :=
    hF ▸ Rollup.fresh_sorted _ hnames hlater (Rollup.remembers_none _)
  have hrows : ((rows.filter (IsObjectOf params (F.take room) ·)).map
      ObjectRow.name).Pairwise (· < ·) := names_ascending (hs.filter _)
  have hpage := (hsorted.take (i := room)).filter
    (rolledName params.listPrefix params.delimiter · = none)
  refine List.Perm.eq_of_pairwise (fun _ _ _ _ hab hba => absurd hab hba.not_gt) hrows hpage ?_
  apply (List.perm_ext_iff_of_nodup (hrows.imp ne_of_lt) (hpage.imp ne_of_lt)).mpr
  intro x
  simp only [List.mem_map, List.mem_filter, decide_eq_true_eq]
  constructor
  · rintro ⟨row, ⟨-, hr, hx⟩, rfl⟩
    exact ⟨hx, hr⟩
  · rintro ⟨hx, hr⟩
    obtain ⟨⟨y, hy, he⟩, -, -⟩ := Rollup.mem_fresh_elim _ hnames hlater
      (Rollup.remembers_none _) (hF ▸ List.mem_of_mem_take hx)
    obtain ⟨row, hrow, rfl⟩ := List.mem_map.mp hy
    cases hy : (listingRollup params.listPrefix params.delimiter).rolled row.name with
    | none =>
      rw [Rollup.entry_none _ hy] at he
      subst he
      exact ⟨row, ⟨hrow, hr, hx⟩, rfl⟩
    | some c =>
      rw [Rollup.entry_some _ hy] at he
      subst he
      have hself := Rollup.rolled_self _ hy
      exact absurd (hr.symm.trans hself) (by simp)

/-- The page shows exactly the entries that there is room for. -/
theorem listPage_fresh (params : ListParams) {rows : List ObjectRow}
    (hp : ∀ row ∈ rows, params.listPrefix <+: row.name) (hz : ∀ row ∈ rows, 0 ≤ row.size)
    (hs : rows.Pairwise fun a b => a.name < b.name) (hm : ∀ row ∈ rows, params.marker < row.name)
    (F : List Str) (hF : F = (listingRollup params.listPrefix params.delimiter).fresh
      params.marker none (rows.map ObjectRow.name)) :
    ∃ res, listPage rows params = .ok res ∧
      (shown res).Perm (F.take (pageSize params.maxKeys)) ∧
      res.isTruncated = decide (pageSize params.maxKeys < F.length) ∧
      res.nextMarker = (F.take (pageSize params.maxKeys)).getLast?.getD [] := by
  obtain ⟨res, hres, hobj, hpre, htrunc, hnext⟩ := listPageLoop_split params hp
    (fun row hrow => (intoInfo_ok (hz row hrow)).imp fun _ h => h.1) hs .default none rfl
    (pageSize params.maxKeys) (Nat.zero_add _) F hF
  refine ⟨res, hres, ?_, htrunc, hnext⟩
  have hsplit := List.filter_append_perm
    (fun e => decide (rolledName params.listPrefix params.delimiter e = none))
    (F.take (pageSize params.maxKeys))
  rw [shown, names_of_infos hobj, objects_names params hs hm _ F hF, hpre]
  simpa only [ListResult.default, List.nil_append, ne_eq, decide_not] using hsplit

end Scanning

section Entries

/-- What a listing shows of a name: the name when no delimiter follows the prefix, else the text
through the first one. -/
inductive Shows (listPrefix delimiter : Str) : Str → Str → Prop where
  | name (rest : Str) (whole : delimiter = [] ∨ ¬ delimiter <:+: rest) :
      Shows listPrefix delimiter (listPrefix ++ rest) (listPrefix ++ rest)
  | commonPrefix (before after : Str) (some : delimiter ≠ [])
      (first : ∀ before' after', before ++ delimiter ++ after = before' ++ delimiter ++ after' →
        before.length ≤ before'.length) :
      Shows listPrefix delimiter (listPrefix ++ (before ++ delimiter ++ after))
        (listPrefix ++ (before ++ delimiter))

/-- An entry of a bucket's listing. -/
def IsEntry (s : Tables) (bucketId listPrefix delimiter e : Str) : Prop :=
  ∃ name row, s.objects[(bucketId, name)]? = some row ∧ Shows listPrefix delimiter name e

theorem findSub_split {pat l : Str} {i : ℕ} (h : findSub pat l = some i) :
    l = l.take i ++ pat ++ l.drop (i + pat.length) ∧ (l.take i).length = i := by
  obtain ⟨⟨t, ht⟩, hmin⟩ := findSub_some h
  have hlen : i ≤ l.length := by
    by_contra hcon
    have hlast := hmin l.length (by omega)
    have hpat : pat ++ t = [] := by rw [ht, List.drop_eq_nil_of_le (by omega)]
    rw [(List.append_eq_nil_iff.mp hpat).1] at hlast
    exact hlast List.nil_prefix
  refine ⟨?_, by rw [List.length_take, Nat.min_eq_left hlen]⟩
  have hdrop : l.drop (i + pat.length) = t := by
    rw [← List.drop_drop, ← ht, List.drop_left]
  rw [hdrop, List.append_assoc, ht, List.take_append_drop]

/-- A name with no delimiter after the prefix. -/
def Undivided (listPrefix delimiter name : Str) : Prop :=
  delimiter = [] ∨ ¬delimiter <:+: name.drop listPrefix.length

instance (listPrefix delimiter name : Str) : Decidable (Undivided listPrefix delimiter name) :=
  inferInstanceAs (Decidable (_ ∨ _))

theorem rolledName_eq_none {listPrefix delimiter name : Str} (h : listPrefix <+: name) :
    rolledName listPrefix delimiter name = none ↔ Undivided listPrefix delimiter name := by
  obtain ⟨rest, rfl⟩ := h
  rw [Undivided, List.drop_left]
  constructor
  · intro hr
    by_contra hcon
    rw [not_or, not_not] at hcon
    obtain ⟨hd, before, after, rfl⟩ := hcon
    cases hi : findSub delimiter (before ++ delimiter ++ after) with
    | none =>
      refine findSub_none hi before.length ?_
      rw [List.append_assoc, List.drop_left]
      exact List.prefix_append _ _
    | some i =>
      have hs : rolledName listPrefix delimiter (listPrefix ++ (before ++ delimiter ++ after)) = some
          (listPrefix ++ (before ++ delimiter ++ after).take (i + delimiter.length)) :=
        rolledName_some.mpr ⟨hd, _, i, rfl, hi, rfl⟩
      rw [hr] at hs
      cases hs
  · intro hu
    rw [Option.eq_none_iff_forall_ne_some]
    intro c hc
    obtain ⟨hd, rest', i, hrest, hi, -⟩ := rolledName_some.mp hc
    obtain rfl := List.append_cancel_left hrest
    refine hu.resolve_left hd ⟨rest.take i, rest.drop (i + delimiter.length), ?_⟩
    exact (findSub_split hi).1.symm

theorem Shows.extends {listPrefix delimiter name e : Str} (h : Shows listPrefix delimiter name e) :
    listPrefix <+: e := by
  cases h <;> exact List.prefix_append _ _

theorem shows_iff {listPrefix delimiter name e : Str} : Shows listPrefix delimiter name e ↔
    listPrefix <+: name ∧ (listingRollup listPrefix delimiter).entry name = e := by
  constructor
  · intro h
    cases h with
    | name rest whole =>
      refine ⟨List.prefix_append _ _, Rollup.entry_none _ ?_⟩
      refine (rolledName_eq_none (List.prefix_append _ _)).mpr ?_
      rwa [Undivided, List.drop_left]
    | commonPrefix before after some first =>
      refine ⟨List.prefix_append _ _, Rollup.entry_some _ ?_⟩
      refine rolledName_some.mpr ⟨some, _, before.length, rfl, ?_, ?_⟩
      · refine findSub_eq_some.mpr ⟨?_, fun j hj hpre => ?_⟩
        · rw [List.append_assoc, List.drop_left]
          exact List.prefix_append _ _
        · obtain ⟨t, ht⟩ := hpre
          have hsplit : before ++ delimiter ++ after =
              (before ++ delimiter ++ after).take j ++ delimiter ++ t := by
            rw [List.append_assoc (List.take _ _), ht, List.take_append_drop]
          have hle := first _ _ hsplit
          rw [List.length_take] at hle
          omega
      · rw [← List.length_append, List.take_left]
  · rintro ⟨⟨rest, rfl⟩, rfl⟩
    cases hr : (listingRollup listPrefix delimiter).rolled (listPrefix ++ rest) with
    | none =>
      rw [Rollup.entry_none _ hr]
      have hu := (rolledName_eq_none (List.prefix_append _ _)).mp hr
      rw [Undivided, List.drop_left] at hu
      exact .name rest hu
    | some c =>
      rw [Rollup.entry_some _ hr]
      obtain ⟨hd, rest', i, hrest, hi, rfl⟩ := rolledName_some.mp hr
      obtain rfl := List.append_cancel_left hrest
      obtain ⟨hsplit, hlen⟩ := findSub_split hi
      have htake : rest.take (i + delimiter.length) = rest.take i ++ delimiter := by
        conv_lhs => rw [hsplit]
        rw [List.take_append_of_le_length (by rw [List.length_append, hlen]),
          List.take_of_length_le (by rw [List.length_append, hlen])]
      have hshow : Shows listPrefix delimiter
          (listPrefix ++ (rest.take i ++ delimiter ++ rest.drop (i + delimiter.length)))
          (listPrefix ++ (rest.take i ++ delimiter)) := by
        refine .commonPrefix _ _ hd fun before' after' he => ?_
        rw [← hsplit] at he
        rw [hlen]
        by_contra hlt
        refine (findSub_some hi).2 before'.length (by omega) ?_
        rw [he, List.append_assoc, List.drop_left]
        exact List.prefix_append _ _
      rw [htake]
      rwa [← hsplit] at hshow

end Entries

section OnePage

/-- Entries are sorted, so a list of them is the scan's. -/
theorem entries_fresh {rows : List ObjectRow} {params : ListParams} {E : List Str}
    (ascending : rows.Pairwise fun a b => a.name < b.name)
    (start : ∀ row ∈ rows, params.listPrefix <+: row.name ∧ params.marker < row.name)
    (sorted : E.Pairwise (· < ·))
    (entries : ∀ e, e ∈ E ↔ params.marker < e ∧
      ∃ row ∈ rows, Shows params.listPrefix params.delimiter row.name e) :
    E = (listingRollup params.listPrefix params.delimiter).fresh params.marker none
      (rows.map ObjectRow.name) := by
  have hnames := names_ascending ascending
  have hlater := names_later fun row hrow => (start row hrow).2
  have hfresh := Rollup.fresh_sorted (listingRollup params.listPrefix params.delimiter)
    hnames hlater (Rollup.remembers_none _)
  refine List.Perm.eq_of_pairwise (fun _ _ _ _ hab hba => absurd hab hba.not_gt) sorted hfresh ?_
  apply (List.perm_ext_iff_of_nodup (sorted.imp ne_of_lt) (hfresh.imp ne_of_lt)).mpr
  intro e
  rw [entries]
  constructor
  · rintro ⟨hgt, row, hrow, hshow⟩
    obtain ⟨-, rfl⟩ := shows_iff.mp hshow
    exact Rollup.mem_fresh_intro _ (List.mem_map_of_mem hrow) hgt (by simp)
  · intro he
    obtain ⟨⟨x, hx, rfl⟩, hgt, -⟩ := Rollup.mem_fresh_elim _ hnames hlater
      (Rollup.remembers_none _) he
    obtain ⟨row, hrow, rfl⟩ := List.mem_map.mp hx
    exact ⟨hgt, row, hrow, shows_iff.mpr ⟨(start row hrow).1, rfl⟩⟩

/-- A page is the first entries after the marker: the names without a delimiter after the prefix
are its objects, with what their rows hold, and the others its common prefixes. -/
theorem list_page_exact (rows : List ObjectRow) (params : ListParams) (E : List Str)
    (ascending : rows.Pairwise fun a b => a.name < b.name)
    (decode : ∀ row ∈ rows, ∃ info, row.intoInfo = .ok info)
    (start : ∀ row ∈ rows, params.listPrefix <+: row.name ∧ params.marker < row.name)
    (sorted : E.Pairwise (· < ·))
    (entries : ∀ e, e ∈ E ↔ params.marker < e ∧
      ∃ row ∈ rows, Shows params.listPrefix params.delimiter row.name e) :
    let max := if params.maxKeys = 0 then 1000 else params.maxKeys
    ∃ res, listPage rows params = .ok res ∧
      res.objects.map (fun o => o.key.name) =
        (E.take max).filter (Undivided params.listPrefix params.delimiter ·) ∧
      (∀ o ∈ res.objects, ∃ row ∈ rows, row.intoInfo = .ok o) ∧
      res.commonPrefixes = (E.take max).filter (¬Undivided params.listPrefix params.delimiter ·) ∧
      res.isTruncated = decide (max < E.length) ∧
      res.nextMarker = (E.take max).getLast?.getD [] := by
  intro max
  have hshows : ∀ e ∈ E, params.listPrefix <+: e := by
    intro e he
    obtain ⟨-, row, -, hshow⟩ := (entries e).mp he
    exact hshow.extends
  have hE := entries_fresh ascending start sorted entries
  obtain ⟨res, hres, hobj, hpre, htrunc, hnext⟩ := listPageLoop_split params
    (fun row hrow => (start row hrow).1) decode ascending .default none rfl max (Nat.zero_add _) E hE
  refine ⟨res, hres, ?_, fun o ho => ?_, ?_, htrunc, hnext⟩
  · rw [names_of_infos hobj,
      objects_names params ascending (fun row hrow => (start row hrow).2) max E hE]
    refine List.filter_congr fun e he => decide_eq_decide.mpr ?_
    exact rolledName_eq_none (hshows e (List.mem_of_mem_take he))
  · have hm : Except.ok o ∈ res.objects.map (Except.ok : ObjectInfo → RgwResult ObjectInfo) :=
      List.mem_map_of_mem ho
    rw [hobj] at hm
    obtain ⟨row, hrow, he⟩ := List.mem_map.mp hm
    exact ⟨row, (List.mem_filter.mp hrow).1, he⟩
  · rw [hpre]
    refine List.filter_congr fun e he => decide_eq_decide.mpr (not_congr ?_)
    exact rolledName_eq_none (hshows e (List.mem_of_mem_take he))

/-- `a` and what `b/c` and `b/d` roll up to, on two pages of one entry. -/
def sampleRows : List ObjectRow := [bytes "a", bytes "b/c", bytes "b/d"].map fun name =>
  ⟨name, 1, [], 0, [], [], [], ∅⟩

theorem list_page_exact_sample : ∃ res, listPage sampleRows ⟨[], bytes "/", [], 1⟩ = .ok res ∧
    res.objects.map (fun o => o.key.name) = [bytes "a"] ∧ res.commonPrefixes = [] ∧
    res.isTruncated = true ∧ res.nextMarker = bytes "a" := by
  have entries : ∀ e, e ∈ [bytes "a", bytes "b/"] ↔ [] < e ∧
      ∃ row ∈ sampleRows, Shows [] (bytes "/") row.name e := by
    intro e
    simp only [shows_iff, List.nil_prefix, true_and]
    have hentry : sampleRows.map (fun row => (listingRollup [] (bytes "/")).entry row.name) =
        [bytes "a", bytes "b/", bytes "b/"] := by decide +kernel
    have hmem : (∃ row ∈ sampleRows, (listingRollup [] (bytes "/")).entry row.name = e) ↔
        e ∈ [bytes "a", bytes "b/", bytes "b/"] := by
      rw [← hentry, List.mem_map]
    rw [hmem]
    constructor
    · intro he
      refine ⟨?_, by simpa using he⟩
      rcases List.mem_cons.mp he with rfl | he
      · decide
      · obtain rfl := List.mem_singleton.mp he
        decide
    · rintro ⟨-, he⟩
      simpa using he
  obtain ⟨res, hres, hobj, -, hpre, htrunc, hnext⟩ := list_page_exact sampleRows
    ⟨[], bytes "/", [], 1⟩ [bytes "a", bytes "b/"] (by decide +kernel)
    (fun row hrow => intoInfo_ok (by revert row; decide +kernel) |>.imp fun _ h => h.1)
    (by decide +kernel) (by decide +kernel) entries
  refine ⟨res, hres, hobj.trans ?_, hpre.trans ?_, htrunc.trans ?_, hnext.trans ?_⟩ <;>
    decide +kernel

end OnePage

section Driver

variable {md5 : Str → Str} {s : Tables}

/-- The names of a bucket that start with a prefix, in order. -/
def namesWith (s : Tables) (bucketId listPrefix : Str) : List Str :=
  ((s.objectsOf bucketId).map Prod.fst).filter (listPrefix <+: ·)

theorem namesWith_sorted (bucketId listPrefix : Str) :
    (namesWith s bucketId listPrefix).Pairwise (· < ·) := (objectsOf_sorted bucketId).filter _

theorem mem_namesWith {bucketId listPrefix name : Str} : name ∈ namesWith s bucketId listPrefix ↔
    (∃ row, s.objects[(bucketId, name)]? = some row) ∧ listPrefix <+: name := by
  rw [namesWith, List.mem_filter, decide_eq_true_eq, List.mem_map]
  apply and_congr_left
  intro _
  constructor
  · rintro ⟨⟨n, row⟩, hr, rfl⟩
    exact ⟨row, mem_objectsOf.mp hr⟩
  · rintro ⟨row, hr⟩
    exact ⟨(name, row), mem_objectsOf.mpr hr, rfl⟩

/-- The entries of a bucket's listing in order. -/
def listing (s : Tables) (bucketId listPrefix delimiter : Str) : List Str :=
  (listingRollup listPrefix delimiter).entries (namesWith s bucketId listPrefix)

theorem mem_listing {bucketId listPrefix delimiter e : Str} :
    e ∈ listing s bucketId listPrefix delimiter ↔ IsEntry s bucketId listPrefix delimiter e := by
  rw [listing, Rollup.mem_entries]
  constructor
  · rintro ⟨name, hn, he⟩
    obtain ⟨⟨row, hr⟩, hp⟩ := mem_namesWith.mp hn
    exact ⟨name, row, hr, shows_iff.mpr ⟨hp, he⟩⟩
  · rintro ⟨name, row, hr, he⟩
    obtain ⟨hp, he⟩ := shows_iff.mp he
    exact ⟨name, mem_namesWith.mpr ⟨⟨row, hr⟩, hp⟩, he⟩

theorem listing_sorted (bucketId listPrefix delimiter : Str) :
    (listing s bucketId listPrefix delimiter).Pairwise (· < ·) :=
  Rollup.entries_sorted _ (namesWith_sorted bucketId listPrefix)

/-- The row filter selects the names past the marker that start with the prefix. -/
def FilterExact (s : Tables) (bucketId listPrefix : Str) : Prop :=
  ∀ (name : Str) (row : ObjectCols) (delimiter marker : Str) (maxKeys : ℕ),
    s.objects[(bucketId, name)]? = some row →
      (rowFilter ⟨listPrefix, delimiter, marker, maxKeys⟩ name = true ↔
        marker < name ∧ listPrefix <+: name)

/-- The page of a result. -/
def pageOf (res : ListResult) : Page Str := ⟨shown res, res.isTruncated, RestS3Handlers.nextMarker res⟩

/-- The rows that the statement of a page selects. -/
def pageRows (s : Tables) (bucketId : Str) (params : ListParams) : List ObjectRow :=
  ((s.objectsOf bucketId).filter fun r => rowFilter params r.1).map fun r => .fromRow r.1 r.2

theorem pageRows_sorted (bucketId : Str) (params : ListParams) :
    (pageRows s bucketId params).Pairwise fun a b => a.name < b.name := by
  refine List.pairwise_map.mpr ?_
  exact (List.pairwise_map.mp (objectsOf_sorted bucketId)).filter _

theorem pageRows_size (wf : WellFormed md5 s) {bucketId : Str} {params : ListParams} :
    ∀ row ∈ pageRows s bucketId params, 0 ≤ row.size := by
  intro row hrow
  obtain ⟨⟨name, cols⟩, hmem, rfl⟩ := List.mem_map.mp hrow
  have hstored := mem_objectsOf.mp (List.mem_filter.mp hmem).1
  obtain ⟨-, owner, attrs, data, now, -, rfl⟩ := wf.objectRows _ _ _ hstored
  exact Int.natCast_nonneg _

theorem pageRows_names {bucketId : Str} {params : ListParams}
    (exact : FilterExact s bucketId params.listPrefix) :
    (pageRows s bucketId params).map ObjectRow.name =
      (namesWith s bucketId params.listPrefix).filter (params.marker < ·) := by
  rw [pageRows, namesWith, List.filter_filter, List.filter_map, List.map_map]
  refine congrArg (List.map Prod.fst) (List.filter_congr fun r hr => ?_)
  have hiff := exact r.1 r.2 params.delimiter params.marker params.maxKeys (mem_objectsOf.mp hr)
  rw [Bool.eq_iff_iff, hiff]
  simp

theorem listObjects_page (wf : WellFormed md5 s) {bucket : BucketKey}
    (hb : bucket.bucketId ∈ s.buckets) (params : ListParams)
    (exact : FilterExact s bucket.bucketId params.listPrefix) {F : List Str}
    (hF : F = after (listing s bucket.bucketId params.listPrefix params.delimiter) params.marker) :
    ∃ res, listObjects bucket params s = .ok res ∧
      (shown res).Perm (F.take (pageSize params.maxKeys)) ∧
      res.isTruncated = decide (pageSize params.maxKeys < F.length) ∧
      res.nextMarker = (F.take (pageSize params.maxKeys)).getLast?.getD [] := by
  have hnames := pageRows_names exact
  have hmem : ∀ row ∈ pageRows s bucket.bucketId params,
      params.listPrefix <+: row.name ∧ params.marker < row.name := by
    intro row hrow
    have hin := hnames ▸ List.mem_map_of_mem hrow
    obtain ⟨hw, hlt⟩ := List.mem_filter.mp hin
    exact ⟨(mem_namesWith.mp hw).2, of_decide_eq_true hlt⟩
  have hfresh : F = (listingRollup params.listPrefix params.delimiter).fresh params.marker none
      ((pageRows s bucket.bucketId params).map ObjectRow.name) := by
    rw [hF, hnames, Rollup.fresh_eq_filter _ (namesWith_sorted _ _), listing, after]
    exact List.filter_congr fun _ _ => decide_eq_decide.mpr Iff.rfl
  obtain ⟨res, hres, hpage⟩ := listPage_fresh params (fun row h => (hmem row h).1)
    (pageRows_size wf) (pageRows_sorted _ _) (fun row h => (hmem row h).2) F hfresh
  refine ⟨res, ?_, hpage⟩
  rw [listObjects, checkBucket, if_pos hb, ok_bind]
  exact hres

theorem listObjects_serves (wf : WellFormed md5 s) {bucket : BucketKey}
    (hb : bucket.bucketId ∈ s.buckets) {listPrefix : Str} {maxKeys : ℕ} (hk : maxKeys ≠ 0)
    (exact : FilterExact s bucket.bucketId listPrefix) (delimiter marker : Str) :
    ∃ res, listObjects bucket ⟨listPrefix, delimiter, marker, maxKeys⟩ s = .ok res ∧
      Serves (listing s bucket.bucketId listPrefix delimiter) maxKeys marker (pageOf res) := by
  have hpage : pageSize maxKeys = maxKeys := if_neg hk
  obtain ⟨res, hres, hperm, htrunc, hnext⟩ :=
    listObjects_page wf hb ⟨listPrefix, delimiter, marker, maxKeys⟩ exact rfl
  dsimp only at hperm htrunc hnext
  rw [hpage] at hperm htrunc hnext
  refine ⟨res, hres, hperm, htrunc, fun ht => ?_⟩
  change res.isTruncated = true at ht
  change RestS3Handlers.nextMarker res = _
  rw [htrunc, decide_eq_true_eq] at ht
  cases hl : ((after (listing s bucket.bucketId listPrefix delimiter) marker).take
      maxKeys).getLast? with
  | none =>
    rw [List.getLast?_eq_none_iff, List.take_eq_nil_iff] at hl
    rcases hl with hl | hl
    · exact absurd hl hk
    · rw [hl] at ht
      exact absurd ht (Nat.not_lt_zero _)
  | some m =>
    have hmem := List.mem_of_mem_take (List.mem_of_getLast? hl)
    have hgt : marker < m := (mem_after.mp hmem).2
    have hne : m ≠ [] := by
      rintro rfl
      exact List.not_lt_nil marker hgt
    rw [hl, Option.getD_some] at hnext
    rw [RestS3Handlers.nextMarker, htrunc, hnext]
    simp [hne, ht]

end Driver

end ListingScan
