import Rgw.ListingPages
import Rgw.RequestAtomicity
import Rgw.Scans

/-! # Listing a bucket that changes

A client pages through a bucket while others write to it. What it has got in the end is no state
of the bucket, but it is right about every single name at some moment. -/
namespace ConcurrentListings

open ByteStrings TextCodecs Interaction RgwTypes RgwSal RgwSalSqlite StoreInvariants Http
  RestS3Wire RestS3Handlers ObjectRequests Paging ListingScan RowFilter ListingPages Replies Scans
open RgwAuth (Identity)

section Requests

variable (P : Platform) (identity : Identity) (bucketName : Str)

/-- The page in the reply to a query, if there is one. -/
def readV1 : Except OpError Response → Option (Page Str)
  | .ok ⟨_, _, .document (.listBucketV1 doc)⟩ => some (pageV1 doc)
  | _ => none

def readV2 : Except OpError Response → Option (Page Str)
  | .ok ⟨_, _, .document (.listBucketV2 doc)⟩ => some (pageV2 doc)
  | _ => none

def requestV1 (args : Args) : Prog DriverCall Reply (Option (Page Str)) :=
  (listObjectsV1 P identity bucketName args).run >>= fun r => .done (readV1 r)

def requestV2 (args : Args) : Prog DriverCall Reply (Option (Page Str)) :=
  (listObjectsV2 P identity bucketName args).run >>= fun r => .done (readV2 r)

/-- Clients that page through a bucket by marker and by continuation token. -/
def scanV1 (fuel : ℕ) (args : Args) : Prog DriverCall Reply (Option (List (Page Str))) :=
  scan (requestV1 P identity bucketName) (setArg (bytes "marker")) fuel args

def scanV2 (fuel : ℕ) (args : Args) : Prog DriverCall Reply (Option (List (Page Str))) :=
  scan (requestV2 P identity bucketName) (setArg (bytes "continuation-token")) fuel args

end Requests

section Pages

/-- The caller may use the bucket that the name leads to, and its objects are named by texts. -/
structure Listable (identity : Identity) (bucketName id : Str) (s : Tables) : Prop where
  allowed : ∃ b, bucketFor identity bucketName s = .ok b ∧ b.bucket.bucketId = id
  texts : ∀ (name : Str) (row : ObjectCols), s.objects[(id, name)]? = some row → isUtf8 name = true

variable {P : Platform} {identity : Identity} {bucketName id : Str} {md5 : Str → Str} {args : Args}
  {c : Common} {S : Tables → Prop} {β : Type}

/-- A listing of some state. -/
def ViewOf (S : Tables → Prop) (id : Str) (c : Common) (all : List Str) : Prop :=
  ∃ s, S s ∧ all = listing s id c.listPrefix c.delimiter

theorem ViewOf.sorted {all : List Str} (h : ViewOf S id c all) : all.Pairwise (· < ·) := by
  obtain ⟨s, -, rfl⟩ := h
  exact listing_sorted _ _ _

theorem yields_plain {honest : Event DriverCall Reply → Prop} {Q : Except OpError β → Prop} {x : Op β} :
    Yields honest Q (plain x).run ↔ Yields honest (fun r => Q (r.mapError .ofError)) x.run := by
  change Yields honest Q (x.run >>= fun r => .done (r.mapError OpError.ofError)) ↔ _
  rw [yields_bind]
  rfl

/-- A caller who is let in works on the bucket that the name leads to. -/
theorem load_yields {Q : Except RgwError β → Prop} {f : BucketInfo → Op β} (hsome : ∃ s, S s)
    (allowed : ∀ s, S s → ∃ b, bucketFor identity bucketName s = .ok b ∧ b.bucket.bucketId = id)
    (hf : ∀ b : BucketInfo, b.bucket.bucketId = id → Yields (Given (exec md5) S) Q (f b).run) :
    Yields (Given (exec md5) S) Q (loadBucketFor identity bucketName >>= f).run := by
  have hload : ∀ s, S s → (47 : UInt8) ∉ bucketName ∧ ∃ b : BucketInfo, b.bucket.bucketId = id ∧
      loadBucket [] bucketName s = .ok b ∧ verifyBucketAccess identity b = .ok () := by
    intro s hS
    obtain ⟨b, hb, hid⟩ := allowed s hS
    rw [bucketFor] at hb
    split at hb
    · cases hb
    · next hslash =>
      obtain ⟨loaded, hload, hb⟩ := bind_eq_ok.mp hb
      obtain ⟨u, hverify, hb⟩ := bind_eq_ok.mp hb
      cases hb
      exact ⟨hslash, b, hid, hload, hverify⟩
  obtain ⟨s₀, hS₀⟩ := hsome
  rw [loadBucketFor, if_neg (hload s₀ hS₀).1]
  refine yields_except_bind.mpr (yields_except_bind.mpr ?_)
  rintro r ⟨s, hS, hr⟩
  obtain ⟨-, b, hid, hb, hverify⟩ := hload s hS
  have hreply : r = .ok b := hr.trans hb
  subst hreply
  refine yields_except_bind.mpr ?_
  rw [hverify]
  exact hf b hid

/-- The prefix of a listing is a text without U+0000, past which the driver does not compare. -/
structure PlainPrefix (listPrefix : Str) : Prop where
  text : isUtf8 listPrefix = true
  whole : 0 ∉ listPrefix

theorem list_yields {Q : Except RgwError β → Prop} {f : ListResult → Op β} {b : BucketInfo}
    {marker : Str}
    (wf : ∀ s, S s → WellFormed md5 s) (listable : ∀ s, S s → Listable identity bucketName id s)
    (hp : PlainPrefix c.listPrefix) (hid : b.bucket.bucketId = id) (hk : c.maxKeys ≠ 0)
    (hf : ∀ res all, ViewOf S id c all → Serves all c.maxKeys marker (pageOf res) →
      Yields (Given (exec md5) S) Q (f res).run) :
    Yields (Given (exec md5) S) Q (c.list b.bucket marker >>= f).run := by
  rw [Common.list, if_neg hk]
  refine yields_except_bind.mpr ?_
  rintro r ⟨s, hS, hr⟩
  obtain ⟨b', hb', hid'⟩ := (listable s hS).allowed
  subst hid
  have hb := bucketFor_there (wf s hS) hb'
  rw [hid'] at hb
  have hfilter := filterExact_utf8 hp.text hp.whole (listable s hS).texts
  obtain ⟨res, hres, hserves⟩ := listObjects_serves (wf s hS) hb hk hfilter c.delimiter marker
  have hreply : r = .ok res := hr.trans hres
  subst hreply
  exact hf res _ ⟨s, hS, rfl⟩ hserves

/-- Each page that a query gets is of the bucket as it was at some moment. -/
theorem pages_yield {start : Str} {reply : BucketInfo → ListResult → Response}
    {read : Except OpError Response → Option (Page Str)} (hsome : ∃ s, S s)
    (wf : ∀ s, S s → WellFormed md5 s) (listable : ∀ s, S s → Listable identity bucketName id s)
    (hp : PlainPrefix c.listPrefix) (hk : c.maxKeys ≠ 0)
    (hread : ∀ b res, read (.ok (reply b res)) = some (pageOf res)) :
    Yields (Given (exec md5) S) (fun r => ∃ page all, r = some page ∧
      all.Pairwise (· < ·) ∧ ViewOf S id c all ∧ Serves all c.maxKeys start page)
      ((plain do
        let b ← loadBucketFor identity bucketName
        let res ← c.list b.bucket start
        return reply b res).run >>= fun r => .done (read r)) := by
  rw [yields_bind, yields_plain]
  refine load_yields hsome (fun s hs => (listable s hs).allowed) fun b hid => ?_
  refine list_yields wf listable hp hid hk fun res all view serves => ?_
  exact ⟨_, all, hread b res, view.sorted, view, serves⟩

theorem requestV1_yields (hsome : ∃ s, S s) (wf : ∀ s, S s → WellFormed md5 s)
    (listable : ∀ s, S s → Listable identity bucketName id s) (hp : PlainPrefix c.listPrefix)
    (hk : c.maxKeys ≠ 0) (hc : Common.parse args = .ok c) :
    Yields (Given (exec md5) S) (fun reply => ∃ page all, reply = some page ∧
      all.Pairwise (· < ·) ∧ ViewOf S id c all ∧ Serves all c.maxKeys (startV1 args) page)
      (requestV1 P identity bucketName args) := by
  rw [requestV1, listObjectsV1, hc]
  exact pages_yield hsome wf listable hp hk fun _ _ => congrArg some (pageV1_listDoc _)

theorem requestV2_yields (hsome : ∃ s, S s) (wf : ∀ s, S s → WellFormed md5 s)
    (listable : ∀ s, S s → Listable identity bucketName id s) (hp : PlainPrefix c.listPrefix)
    (hk : c.maxKeys ≠ 0) (hc : Common.parse args = .ok c) :
    Yields (Given (exec md5) S) (fun reply => ∃ page all, reply = some page ∧
      all.Pairwise (· < ·) ∧ ViewOf S id c all ∧ Serves all c.maxKeys (startV2 args) page)
      (requestV2 P identity bucketName args) := by
  rw [requestV2, listObjectsV2, hc]
  exact pages_yield hsome wf listable hp hk fun _ _ => congrArg some (pageV2_listDoc _ _ _)

end Pages

section Clients

variable {ι : Type} [DecidableEq ι]

/-- What a client has got of a bucket that changed under it: no name twice, full pages before the
last, and of every name past its start whether it was there at some moment. -/
structure Surveyed (md5 : Str → Str) {α : Type} (x : Config DriverCall Reply α Tables ι)
    (t : List (ι × Event DriverCall Reply)) (id listPrefix delimiter start : Str) (limit : ℕ)
    (pages : List (Page Str)) : Prop where
  nodup : (pages.flatMap Page.entries).Nodup
  ordered : pages.Pairwise fun p q => ∀ a ∈ p.entries, ∀ b ∈ q.entries, a < b
  full : ∀ page ∈ pages.dropLast, page.entries.length = limit
  bounded : ∀ page ∈ pages, page.entries.length ≤ limit
  past : ∀ e ∈ pages.flatMap Page.entries, start < e
  right : ∀ e, start < e → ∃ s, Passes (exec md5) x t s ∧
    (e ∈ pages.flatMap Page.entries ↔ IsEntry s id listPrefix delimiter e)

variable {md5 : Str → Str} {α : Type} {x : Config DriverCall Reply α Tables ι}
  {t : List (ι × Event DriverCall Reply)} {id start : Str} {c : Common} {limit : ℕ}
  {pages : List (Page Str)}

theorem surveyed_of_scanned (h : Scanned (ViewOf (Passes (exec md5) x t) id c) limit start pages) :
    Surveyed md5 x t id c.listPrefix c.delimiter start limit pages where
  nodup := h.nodup
  ordered := h.ordered
  full := h.full.1
  bounded := h.full.2
  past := h.past
  right e he := by
    obtain ⟨all, ⟨s, hs, rfl⟩, hiff⟩ := h.looked he
    exact ⟨s, hs, hiff.trans mem_listing⟩

/-- A client that pages through a bucket, among any programs that leave it the bucket, ends with
pages, once it may ask more often than there were names; and it is right about every name at some
moment of the run. -/
theorem listing_among_writes (P : Platform) (md5 : Str → Str)
    (x y : Config DriverCall Reply (Option (List (Page Str))) Tables ι)
    (t : List (ι × Event DriverCall Reply)) (wf : WellFormed md5 x.state) (run : Trace (exec md5) x t y)
    (identity : Identity) (bucketName id : Str) (args : Args) (n : ℕ) (asks : AsksFor args n)
    (positive : 1 ≤ n)
    (whole : PlainPrefix ((args.get (bytes "prefix")).getD []))
    (listable : ∀ s, Passes (exec md5) x t s → Listable identity bucketName id s) (F : Finset Str)
    (names : ∀ s, Passes (exec md5) x t s → ∀ e, IsEntry s id
      ((args.get (bytes "prefix")).getD []) ((args.get (bytes "delimiter")).getD []) e → e ∈ F)
    (fuel : ℕ) (enough : F.card < fuel) (i : ι) (reply : Option (List (Page Str)))
    (ended : y.threads i = .done reply) :
    (x.threads i = scanV1 P identity bucketName fuel args → ∃ pages, reply = some pages ∧
      Surveyed md5 x t id ((args.get (bytes "prefix")).getD []) ((args.get (bytes "delimiter")).getD [])
        (startV1 args) (min n 1000) pages) ∧
    (x.threads i = scanV2 P identity bucketName fuel args → ∃ pages, reply = some pages ∧
      Surveyed md5 x t id ((args.get (bytes "prefix")).getD []) ((args.get (bytes "delimiter")).getD [])
        (startV2 args) (min n 1000) pages) := by
  obtain ⟨c, hc, hprefix, hdelimiter, hmax⟩ := parse_ok asks positive
  have hk : c.maxKeys ≠ 0 := by omega
  rw [← hprefix] at whole names
  rw [← hdelimiter] at names
  rw [← hprefix, ← hdelimiter, ← hmax]
  have hsome : ∃ s, Passes (exec md5) x t s := ⟨y.state, passes_end run⟩
  have hwf : ∀ s, Passes (exec md5) x t s → WellFormed md5 s := fun s hs =>
    passes_invariant wf (fun _ c h => exec_wellFormed h c) hs
  have hF : ∀ all, ViewOf (Passes (exec md5) x t) id c all → ∀ e ∈ all, e ∈ F := by
    rintro all ⟨s, hs, rfl⟩ e he
    exact names s hs e (mem_listing.mp he)
  constructor
  · intro hthread
    have hstep : ∀ (a : Args) (m : Str), Common.parse a = .ok c →
        Common.parse (setArg (bytes "marker") a m) = .ok c ∧ startV1 (setArg (bytes "marker") a m) =
          m := by
      intro a m ha
      refine ⟨(parse_setArg (by decide) m a).trans ha, ?_⟩
      rw [startV1, get_setArg_self, Option.getD_some]
    have hyields := scan_yields (fun a => Common.parse a = .ok c) startV1 (Nat.pos_of_ne_zero hk)
      (fun a ha => @requestV1_yields P identity bucketName id md5 a c _ hsome hwf listable whole
        hk ha) hstep F
      fuel hc hF enough
    rw [← scanV1, ← hthread] at hyields
    obtain ⟨pages, rfl, hscanned⟩ := trace_yields run hyields ended
    exact ⟨pages, rfl, surveyed_of_scanned hscanned⟩
  · intro hthread
    have hstep : ∀ (a : Args) (m : Str), Common.parse a = .ok c →
        Common.parse (setArg (bytes "continuation-token") a m) = .ok c ∧
          startV2 (setArg (bytes "continuation-token") a m) = m := by
      intro a m ha
      refine ⟨(parse_setArg (by decide) m a).trans ha, ?_⟩
      rw [startV2, get_setArg_self, Option.some_or, Option.getD_some]
    have hyields := scan_yields (fun a => Common.parse a = .ok c) startV2 (Nat.pos_of_ne_zero hk)
      (fun a ha => @requestV2_yields P identity bucketName id md5 a c _ hsome hwf listable whole
        hk ha) hstep F
      fuel hc hF enough
    rw [← scanV2, ← hthread] at hyields
    obtain ⟨pages, rfl, hscanned⟩ := trace_yields run hyields ended
    exact ⟨pages, rfl, surveyed_of_scanned hscanned⟩

end Clients

section Example

/-- One client lists a page at a time, and one writes a name behind it and a name ahead of it. -/
def twoClients (i : Fin 2) : Prog DriverCall Reply (Option (List (Page Str))) :=
  let put (name : String) : DriverCall :=
    .putObject docsBucket.bucket (.new (bytes name)) ⟨docsBucket.owner, []⟩ ∅
      (bodyFromBytes (bytes "x")) 0
  match i with
  | 0 => scanV1 (.ofTables [] [] []) docsReader (bytes "docs") 5 docsArgs
  | 1 => .call (put "a/0") fun _ => .call (put "a/c") fun _ => .done none

def docsNames : List Str := [bytes "a/0", bytes "a/1", bytes "a/b/", bytes "a/c"]

/-- What holds of the bucket all along. -/
def docsHold (s : Tables) : Bool :=
  decide (bucketFor docsReader (bytes "docs") s = .ok docsBucket) &&
    ((s.objectsOf (bytes "id-1")).map Prod.fst).all isUtf8 &&
    (listing s (bytes "id-1") (bytes "a/") (bytes "/")).all fun e => decide (e ∈ docsNames)

def shownBy : Prog DriverCall Reply (Option (List (Page Str))) → Option (List (List Str))
  | .done (some pages) => some (pages.map Page.entries)
  | _ => none

theorem docs_listable {s : Tables} (h : docsHold s = true) :
    Listable docsReader (bytes "docs") (bytes "id-1") s ∧
      ∀ e, IsEntry s (bytes "id-1") (bytes "a/") (bytes "/") e → e ∈ docsNames.toFinset := by
  rw [docsHold, Bool.and_eq_true, Bool.and_eq_true, decide_eq_true_eq] at h
  obtain ⟨⟨hallowed, hutf8⟩, hnames⟩ := h
  refine ⟨⟨⟨docsBucket, hallowed, rfl⟩, ?_⟩, fun e he => ?_⟩
  · intro name row hr
    exact List.all_eq_true.mp hutf8 name (List.mem_map_of_mem (mem_objectsOf.mpr hr))
  · exact List.mem_toFinset.mpr (of_decide_eq_true (List.all_eq_true.mp hnames e (mem_listing.mpr he)))

theorem listing_among_writes_docs : ∃ t y pages,
    Trace (exec sampleMd5) (⟨docsTables, twoClients⟩ : Config _ _ _ _ (Fin 2)) t y ∧
      pages.map Page.entries = [[bytes "a/1"], [bytes "a/b/"], [bytes "a/c"]] ∧
      Surveyed sampleMd5 (⟨docsTables, twoClients⟩ : Config _ _ _ _ (Fin 2)) t (bytes "id-1")
        (bytes "a/") (bytes "/") [] (min 1 1000) pages := by
  have hplay : ((Config.play (exec sampleMd5) [0, 0, 1, 1, 0, 0, 0, 0]
      ([], (⟨docsTables, twoClients⟩ : Config _ _ _ _ (Fin 2)))).map fun r =>
        (r.1.tails.all fun before => docsHold (before.foldr (fun e s => (exec sampleMd5 e.2.1 s).2)
          docsTables), shownBy (r.2.threads 0))) =
      some (true, some [[bytes "a/1"], [bytes "a/b/"], [bytes "a/c"]]) := by decide +kernel
  obtain ⟨⟨t, y⟩, hr, heq⟩ := Option.map_eq_some_iff.mp hplay
  obtain ⟨hhold, hshown⟩ := Prod.mk.inj heq
  have run : Trace _ (⟨docsTables, twoClients⟩ : Config _ _ _ _ (Fin 2)) t y := play_trace .nil hr
  have hall : ∀ s, Passes (exec sampleMd5) (⟨docsTables, twoClients⟩ : Config _ _ _ _ (Fin 2)) t s →
      docsHold s = true := by
    intro s hs
    obtain ⟨before, hbefore, rfl⟩ := passes_state hs
    exact List.all_eq_true.mp hhold before hbefore
  have asks : AsksFor docsArgs 1 := by
    have hn : parseSigned 64 (trim (bytes "1")) = some 1 := by decide +kernel
    exact hn
  dsimp only at hshown
  cases hy : y.threads 0 with
  | cut => rw [hy] at hshown; cases hshown
  | call c k => rw [hy] at hshown; cases hshown
  | done reply =>
    obtain ⟨hV1, -⟩ := listing_among_writes (.ofTables [] [] []) sampleMd5 _ y t
      (execAll_wellFormed docsCalls) run docsReader (bytes "docs") (bytes "id-1") docsArgs 1 asks le_rfl
      ⟨by decide +kernel, by decide⟩ (fun s hs => (docs_listable (hall s hs)).1) docsNames.toFinset
      (fun s hs => (docs_listable (hall s hs)).2) 5 (by decide +kernel) 0 reply hy
    obtain ⟨pages, rfl, hsurveyed⟩ := hV1 rfl
    rw [hy] at hshown
    exact ⟨t, y, pages, run, Option.some.inj hshown, hsurveyed⟩

end Example

end ConcurrentListings
