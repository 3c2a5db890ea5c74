import Rgw.RowFilter

/-! # Paging through a bucket

The two list operations wrap the driver's page, and their clients put the pages together
again. -/
namespace ListingPages

open ByteStrings TextCodecs Interaction RgwTypes RgwSal RgwSalSqlite StoreInvariants Http RgwAuth
  RestS3Wire RestS3Handlers Paging ListingScan RowFilter

section Clients

variable (P : Platform) (md5 : Str → Str) (identity : Identity) (bucketName : Str) (s : Tables)

/-- A text of a listing as the client reads it. -/
def clientText (encodingType : Option Str) (t : Str) : Str :=
  if encodingType = some (bytes "url") then percentDecode t else t

def pageV1 (doc : ListBucketResultV1) : Page Str where
  entries := doc.contents.map (fun c => clientText doc.encodingType c.key) ++
    doc.commonPrefixes.map (clientText doc.encodingType)
  truncated := doc.isTruncated
  next := doc.nextMarker.map (clientText doc.encodingType)

def pageV2 (doc : ListBucketResultV2) : Page Str where
  entries := doc.contents.map (fun c => clientText doc.encodingType c.key) ++
    doc.commonPrefixes.map (clientText doc.encodingType)
  truncated := doc.isTruncated
  next := doc.nextContinuationToken

/-- The page a client gets for a query, when the reply is a listing. -/
def fetchV1 (args : Args) : Option (Page Str) :=
  match (listObjectsV1 P identity bucketName args).run.run (exec md5) s with
  | some (.ok ⟨_, _, .document (.listBucketV1 doc)⟩, _) => some (pageV1 doc)
  | _ => none

def fetchV2 (args : Args) : Option (Page Str) :=
  match (listObjectsV2 P identity bucketName args).run.run (exec md5) s with
  | some (.ok ⟨_, _, .document (.listBucketV2 doc)⟩, _) => some (pageV2 doc)
  | _ => none

/-- A query with one parameter given anew. -/
def setArg (name : Str) (args : Args) (value : Str) : Args :=
  ⟨(name, value) :: args.pairs.filter fun p => p.1 ≠ name⟩

/-- Where a query starts. -/
def startV1 (args : Args) : Str := (args.get (bytes "marker")).getD []

def startV2 (args : Args) : Str :=
  ((args.get (bytes "continuation-token")).or (args.get (bytes "start-after"))).getD []

/-- The number of keys a query asks for. -/
def AsksFor (args : Args) (n : ℕ) : Prop :=
  match args.get (bytes "max-keys") with
  | none => n = maxKeysCeiling
  | some v => parseSigned 64 (trim v) = some (n : ℤ)

variable {P md5 identity bucketName s}

theorem get_setArg_self (name value : Str) (args : Args) :
    (setArg name args value).get name = some value := by
  simp [setArg, Args.get]

theorem get_setArg_ne {name other : Str} (h : name ≠ other) (value : Str) (args : Args) :
    (setArg name args value).get other = args.get other := by
  rw [setArg, Args.get, Args.get, List.find?_cons]
  simp only [h, decide_false, List.find?_filter]
  refine congrArg (Option.map Prod.snd) (congrArg (List.find? · args.pairs) (funext fun p => ?_))
  by_cases hp : p.1 = other
  · simp [hp, h.symm]
  · simp [hp]

/-- The parameters that V1 and V2 share are not among those a client gives anew. -/
theorem parse_setArg {name : Str} (h : name ∉ [bytes "max-keys", bytes "prefix",
    bytes "delimiter", bytes "encoding-type"]) (value : Str) (args : Args) :
    Common.parse (setArg name args value) = Common.parse args := by
  simp only [List.mem_cons, List.not_mem_nil, or_false, not_or] at h
  rw [Common.parse, Common.parse, get_setArg_ne h.1, get_setArg_ne h.2.1, get_setArg_ne h.2.2.1,
    get_setArg_ne h.2.2.2]

theorem parse_ok {args : Args} {n : ℕ} (h : AsksFor args n) (hn : 1 ≤ n) :
    ∃ c, Common.parse args = .ok c ∧ c.listPrefix = (args.get (bytes "prefix")).getD [] ∧
      c.delimiter = (args.get (bytes "delimiter")).getD [] ∧ c.maxKeys = min n 1000 := by
  have hmax : parseMaxKeys (args.get (bytes "max-keys")) = .ok (min n 1000) := by
    rw [AsksFor] at h
    cases hv : args.get (bytes "max-keys") with
    | none =>
      rw [hv] at h
      subst h
      rfl
    | some v =>
      rw [hv] at h
      simp only [parseMaxKeys, h, maxKeysCeiling]
      rw [if_neg (by omega), Int.toNat_natCast]
  refine ⟨_, by rw [Common.parse, hmax]; rfl, rfl, rfl, rfl⟩

theorem clientText_out (c : Common) (t : Str) (slash : Bool) :
    clientText c.encodingType (c.out t slash) = t := by
  rw [clientText, Common.encodingType, Common.out]
  cases c.encode with
  | false => simp
  | true =>
    simp only [↓reduceIte]
    exact percentDecode_percentEncode (by cases slash <;> decide) t

/-- A bucket that loads for a caller is a stored one. -/
theorem loadBucketFor_stored (wf : WellFormed md5 s) {bucket : BucketInfo}
    (h : (loadBucketFor identity bucketName).run.run (exec md5) s = some (.ok bucket, s)) :
    bucket.bucket.bucketId ∈ s.buckets := by
  have hens : (loadBucketFor identity bucketName).run.Ensures (exec md5) s fun r _ =>
      ∀ b, r = .ok b → b.bucket.bucketId ∈ s.buckets := by
    rw [loadBucketFor]
    split
    · rw [ensures_except_bind, run_fail, ensures_done]
      intro b hb
      cases hb
    · rw [ensures_except_bind, run_invoke, ensures_call, ensures_done]
      have hload : exec md5 (.loadBucket [] bucketName) s = (loadBucket [] bucketName s, s) := rfl
      rw [hload, loadBucket]
      cases hr : s.bucketNamed [] bucketName with
      | none =>
        intro b hb
        cases hb
      | some r =>
        obtain ⟨id, row⟩ := r
        dsimp only
        rw [ensures_except_bind, run_lift, ensures_done]
        cases verifyBucketAccess identity (.deserialize row.info) with
        | error e =>
          intro b hb
          cases hb
        | ok u =>
          dsimp only
          rw [run_ok, ensures_done]
          rintro b hb
          cases hb
          obtain ⟨hrow, -, -⟩ := bucketNamed_some hr
          obtain ⟨info, rfl, rfl⟩ := wf.bucketRows id row hrow
          rw [Std.ExtTreeMap.mem_iff_isSome_getElem?]
          change s.buckets[info.bucket.bucketId]?.isSome = true
          rw [hrow]
          rfl
  exact hens _ _ h bucket rfl

variable {args : Args} {c : Common} {bucket : BucketInfo} {res : ListResult}

/-- What either operation does with a query that it has read. -/
theorem list_run {start : Str} {reply : BucketInfo → ListResult → Response}
    (access : (loadBucketFor identity bucketName).run.run (exec md5) s = some (.ok bucket, s))
    (hk : c.maxKeys ≠ 0) (hres : listObjects bucket.bucket
      ⟨c.listPrefix, c.delimiter, start, c.maxKeys⟩ s = .ok res) :
    (do
      let b ← loadBucketFor identity bucketName
      let r ← c.list b.bucket start
      return reply b r : Op Response).run.run (exec md5) s = some (.ok (reply bucket res), s) := by
  have hexec : exec md5 (.listObjects bucket.bucket
      ⟨c.listPrefix, c.delimiter, start, c.maxKeys⟩) s = (.ok res, s) :=
    Prod.ext hres rfl
  rw [run_except_bind, access, Option.bind_some]
  dsimp only
  rw [run_except_bind, Common.list, if_neg hk, run_invoke, run_call, hexec, run_done,
    Option.bind_some]
  rfl

theorem listObjectsV1_run (hc : Common.parse args = .ok c)
    (access : (loadBucketFor identity bucketName).run.run (exec md5) s = some (.ok bucket, s))
    (hk : c.maxKeys ≠ 0) (hres : listObjects bucket.bucket
      ⟨c.listPrefix, c.delimiter, startV1 args, c.maxKeys⟩ s = .ok res) :
    (listObjectsV1 P identity bucketName args).run.run (exec md5) s =
      some (.ok (xmlResponse (.listBucketV1 (listDocV1 P c bucket (startV1 args) res))), s) := by
  rw [listObjectsV1, run_plain, run_except_bind, run_lift, run_done, hc, Option.bind_some]
  exact congrArg (Option.map fun r => (r.1.mapError OpError.ofError, r.2)) (list_run access hk hres)

theorem listObjectsV2_run (hc : Common.parse args = .ok c)
    (access : (loadBucketFor identity bucketName).run.run (exec md5) s = some (.ok bucket, s))
    (hk : c.maxKeys ≠ 0) (hres : listObjects bucket.bucket
      ⟨c.listPrefix, c.delimiter, startV2 args, c.maxKeys⟩ s = .ok res) :
    (listObjectsV2 P identity bucketName args).run.run (exec md5) s =
      some (.ok (xmlResponse (.listBucketV2 (listDocV2 P c bucket
        (args.get (bytes "continuation-token")) (args.get (bytes "start-after"))
        ((args.get (bytes "fetch-owner")).any fun v => eqIgnoreAsciiCase v (bytes "true"))
        res))), s) := by
  rw [listObjectsV2, run_plain, run_except_bind, run_lift, run_done, hc, Option.bind_some]
  exact congrArg (Option.map fun r => (r.1.mapError OpError.ofError, r.2)) (list_run access hk hres)

theorem client_entries (objects : List ObjectInfo) (withOwner : Bool) :
    (c.contents P objects withOwner).map (fun x => clientText c.encodingType x.key) =
      objects.map fun o => o.key.name := by
  rw [Common.contents, List.map_map]
  apply List.map_congr_left
  intro o _
  exact clientText_out c o.key.name true

theorem client_prefixes (prefixes : List Str) :
    (c.commonPrefixes prefixes).map (clientText c.encodingType) = prefixes := by
  rw [Common.commonPrefixes, List.map_map]
  refine (List.map_congr_left fun p _ => ?_).trans (List.map_id prefixes)
  exact clientText_out c p false

theorem pageV1_listDoc (marker : Str) : pageV1 (listDocV1 P c bucket marker res) = pageOf res := by
  rw [pageV1, pageOf, shown]
  simp only [listDocV1, client_entries, client_prefixes, Option.map_map]
  congr 1
  refine (Option.map_congr fun m _ => ?_).trans Option.map_id'
  exact clientText_out c m true

theorem pageV2_listDoc (token startAfter : Option Str) (fetchOwner : Bool) :
    pageV2 (listDocV2 P c bucket token startAfter fetchOwner res) = pageOf res := by
  rw [pageV2, pageOf, shown]
  simp only [listDocV2, client_entries, client_prefixes]

/-- Either operation serves the page of the listing at its start. -/
theorem fetch_serves (wf : WellFormed md5 s)
    (access : (loadBucketFor identity bucketName).run.run (exec md5) s = some (.ok bucket, s))
    (exact : FilterExact s bucket.bucket.bucketId c.listPrefix) (hk : c.maxKeys ≠ 0)
    (args : Args) (hc : Common.parse args = .ok c) :
    (∃ page, fetchV1 P md5 identity bucketName s args = some page ∧ Serves
      (listing s bucket.bucket.bucketId c.listPrefix c.delimiter) c.maxKeys (startV1 args) page) ∧
    (∃ page, fetchV2 P md5 identity bucketName s args = some page ∧ Serves
      (listing s bucket.bucket.bucketId c.listPrefix c.delimiter) c.maxKeys (startV2 args) page) ∧
    ∀ args', Common.parse args' = .ok c → startV2 args' = startV1 args →
      (fetchV2 P md5 identity bucketName s args').map Page.entries =
        (fetchV1 P md5 identity bucketName s args).map Page.entries := by
  have hb := loadBucketFor_stored wf access
  have hv1 : ∀ res, listObjects bucket.bucket
      ⟨c.listPrefix, c.delimiter, startV1 args, c.maxKeys⟩ s = .ok res →
      fetchV1 P md5 identity bucketName s args = some (pageOf res) := by
    intro res hres
    rw [fetchV1, listObjectsV1_run hc access hk hres]
    exact congrArg some (pageV1_listDoc _)
  have hv2 : ∀ args' res, Common.parse args' = .ok c → listObjects bucket.bucket
      ⟨c.listPrefix, c.delimiter, startV2 args', c.maxKeys⟩ s = .ok res →
      fetchV2 P md5 identity bucketName s args' = some (pageOf res) := by
    intro args' res hc' hres
    rw [fetchV2, listObjectsV2_run hc' access hk hres]
    exact congrArg some (pageV2_listDoc _ _ _)
  obtain ⟨res₁, hres₁, hs₁⟩ := listObjects_serves wf hb hk exact c.delimiter (startV1 args)
  obtain ⟨res₂, hres₂, hs₂⟩ := listObjects_serves wf hb hk exact c.delimiter (startV2 args)
  refine ⟨⟨_, hv1 _ hres₁, hs₁⟩, ⟨_, hv2 _ _ hc hres₂, hs₂⟩, fun args' hc' hstart => ?_⟩
  rw [hv1 _ hres₁, hv2 args' res₁ hc' (hstart ▸ hres₁)]

/-- The pages show each entry past a marker once, and no page too many. -/
structure Complete (s : Tables) (bucketId listPrefix delimiter marker : Str) (limit : ℕ)
    (pages : List (Page Str)) : Prop where
  nodup : (pages.flatMap Page.entries).Nodup
  entries : ∀ e, e ∈ pages.flatMap Page.entries ↔
    IsEntry s bucketId listPrefix delimiter e ∧ marker < e
  bounded : ∀ page ∈ pages, page.entries.length ≤ limit

theorem complete_of_perm {bucketId listPrefix delimiter marker : Str} {limit : ℕ}
    {pages : List (Page Str)} (hp : (pages.flatMap Page.entries).Perm
      (after (listing s bucketId listPrefix delimiter) marker))
    (hb : ∀ page ∈ pages, page.entries.length ≤ limit) :
    Complete s bucketId listPrefix delimiter marker limit pages where
  nodup := by
    have hs := (listing_sorted (s := s) bucketId listPrefix delimiter).imp ne_of_lt
    exact hp.nodup_iff.mpr (List.Nodup.filter _ hs)
  entries e := by rw [hp.mem_iff, mem_after, mem_listing]
  bounded := hb

theorem listing_pages (wf : WellFormed md5 s)
    (access : (loadBucketFor identity bucketName).run.run (exec md5) s = some (.ok bucket, s))
    {n : ℕ} (asks : AsksFor args n) (hn : 1 ≤ n)
    (exact : FilterExact s bucket.bucket.bucketId ((args.get (bytes "prefix")).getD [])) :
    (∃ fuel pages, fetchAll (fetchV1 P md5 identity bucketName s) (setArg (bytes "marker")) fuel
        args = some pages ∧
      Complete s bucket.bucket.bucketId ((args.get (bytes "prefix")).getD [])
        ((args.get (bytes "delimiter")).getD []) (startV1 args) (min n 1000) pages) ∧
    (∃ fuel pages, fetchAll (fetchV2 P md5 identity bucketName s)
        (setArg (bytes "continuation-token")) fuel args = some pages ∧
      Complete s bucket.bucket.bucketId ((args.get (bytes "prefix")).getD [])
        ((args.get (bytes "delimiter")).getD []) (startV2 args) (min n 1000) pages) ∧
    ∀ args', Common.parse args' = Common.parse args → startV2 args' = startV1 args →
      (fetchV2 P md5 identity bucketName s args').map Page.entries =
        (fetchV1 P md5 identity bucketName s args).map Page.entries := by
  obtain ⟨c, hc, hprefix, hdelimiter, hmax⟩ := parse_ok asks hn
  have hk : c.maxKeys ≠ 0 := by omega
  rw [← hprefix] at exact ⊢
  rw [← hdelimiter, ← hmax]
  have serve := fetch_serves (P := P) wf access exact hk
  have hsorted := listing_sorted (s := s) bucket.bucket.bucketId c.listPrefix c.delimiter
  refine ⟨?_, ?_, fun args' hc' hstart => (serve args hc).2.2 args' (hc'.trans hc) hstart⟩
  · obtain ⟨fuel, pages, hf, hp, hb⟩ := fetchAll_complete (setArg (bytes "marker"))
      (fun a => Common.parse a = .ok c) startV1 hsorted
      (Nat.pos_of_ne_zero hk) (fun a ha => (serve a ha).1) (fun a m ha => by
        refine ⟨(parse_setArg (by decide) m a).trans ha, ?_⟩
        rw [startV1, get_setArg_self, Option.getD_some]) hc
    exact ⟨fuel, pages, hf, complete_of_perm hp hb⟩
  · obtain ⟨fuel, pages, hf, hp, hb⟩ := fetchAll_complete
      (setArg (bytes "continuation-token")) (fun a => Common.parse a = .ok c) startV2 hsorted
      (Nat.pos_of_ne_zero hk) (fun a ha => (serve a ha).2.1) (fun a m ha => by
        refine ⟨(parse_setArg (by decide) m a).trans ha, ?_⟩
        rw [startV2, get_setArg_self, Option.some_or, Option.getD_some]) hc
    exact ⟨fuel, pages, hf, complete_of_perm hp hb⟩

/-- On any reachable store, either client ends, sees each entry past its start once, and never
gets a page larger than it asked for; the two operations serve the same entries. -/
theorem listing_complete (P : Platform) (md5 : Str → Str) (calls : List DriverCall)
    (identity : Identity) (bucketName : Str) (bucket : BucketInfo) (args : Args) (n : ℕ)
    (access : (loadBucketFor identity bucketName).run.run (exec md5) (execAll md5 calls .empty) =
      some (.ok bucket, execAll md5 calls .empty))
    (asks : AsksFor args n) (positive : 1 ≤ n)
    (filter : FilterExact (execAll md5 calls .empty) bucket.bucket.bucketId
      ((args.get (bytes "prefix")).getD [])) :
    let s := execAll md5 calls .empty
    (∃ fuel pages, fetchAll (fetchV1 P md5 identity bucketName s) (setArg (bytes "marker")) fuel
        args = some pages ∧
      Complete s bucket.bucket.bucketId ((args.get (bytes "prefix")).getD [])
        ((args.get (bytes "delimiter")).getD []) (startV1 args) (min n 1000) pages) ∧
    (∃ fuel pages, fetchAll (fetchV2 P md5 identity bucketName s)
        (setArg (bytes "continuation-token")) fuel args = some pages ∧
      Complete s bucket.bucket.bucketId ((args.get (bytes "prefix")).getD [])
        ((args.get (bytes "delimiter")).getD []) (startV2 args) (min n 1000) pages) ∧
    ∀ args', Common.parse args' = Common.parse args → startV2 args' = startV1 args →
      (fetchV2 P md5 identity bucketName s args').map Page.entries =
        (fetchV1 P md5 identity bucketName s args).map Page.entries :=
  listing_pages (execAll_wellFormed calls) access asks positive filter

end Clients

section Example

def docsBucket : BucketInfo :=
  ⟨.new [] (bytes "docs") (bytes "id-1"), .new (bytes "alice"), 0, defaultPlacement,
    defaultZonegroup, 0⟩

def docsCalls : List DriverCall :=
  .createBucket docsBucket :: [bytes "a/1", bytes "a/b/2", bytes "a/b/3", bytes "c"].map fun name =>
    .putObject docsBucket.bucket (.new name) ⟨docsBucket.owner, []⟩ ∅ (bodyFromBytes (bytes "x")) 0

def docsTables : Tables := execAll sampleMd5 docsCalls .empty

def docsReader : Identity := .user ⟨.new (.new (bytes "alice")) [] 0, bytes "AKID"⟩

def docsArgs : Args :=
  ⟨[(bytes "prefix", bytes "a/"), (bytes "delimiter", bytes "/"), (bytes "max-keys", bytes "1"),
    (bytes "encoding-type", bytes "url")]⟩

/-- `a/1` and the prefix `a/b/`, one to a page. -/
theorem listing_complete_docs :
    (∃ fuel pages, fetchAll (fetchV1 (.ofTables [] [] []) sampleMd5 docsReader (bytes "docs")
        docsTables) (setArg (bytes "marker")) fuel docsArgs = some pages ∧
      Complete docsTables (bytes "id-1") (bytes "a/") (bytes "/") [] (min 1 1000) pages) ∧
    (∃ fuel pages, fetchAll (fetchV2 (.ofTables [] [] []) sampleMd5 docsReader (bytes "docs")
        docsTables) (setArg (bytes "continuation-token")) fuel docsArgs = some pages ∧
      Complete docsTables (bytes "id-1") (bytes "a/") (bytes "/") [] (min 1 1000) pages) ∧
    ∀ args', Common.parse args' = Common.parse docsArgs → startV2 args' = startV1 docsArgs →
      (fetchV2 (.ofTables [] [] []) sampleMd5 docsReader (bytes "docs") docsTables args').map
          Page.entries =
        (fetchV1 (.ofTables [] [] []) sampleMd5 docsReader (bytes "docs") docsTables
          docsArgs).map Page.entries := by
  have names : ∀ (name : Str) (row : ObjectCols),
      docsTables.objects[(bytes "id-1", name)]? = some row → isUtf8 name = true := by
    intro name row hr
    have hm : name ∈ (docsTables.objectsOf (bytes "id-1")).map Prod.fst :=
      List.mem_map_of_mem (mem_objectsOf.mpr hr)
    have hall : ((docsTables.objectsOf (bytes "id-1")).map Prod.fst).all isUtf8 = true := by
      decide +kernel
    exact List.all_eq_true.mp hall name hm
  have asks : AsksFor docsArgs 1 := by
    have hn : parseSigned 64 (trim (bytes "1")) = some 1 := by decide +kernel
    exact hn
  have filter : FilterExact docsTables (bytes "id-1") (bytes "a/") := by
    apply filterExact_utf8
    · decide +kernel
    · decide
    · exact names
  exact listing_complete (.ofTables [] [] []) sampleMd5 docsCalls docsReader (bytes "docs")
    docsBucket docsArgs 1 (by decide +kernel) asks le_rfl filter

end Example

end ListingPages
