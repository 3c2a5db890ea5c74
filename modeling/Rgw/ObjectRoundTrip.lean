import Rgw.ObjectReads
import Rgw.Utf8Texts

/-! # A put, read back

A put writes nothing or one object. What the next read of it sends is what the put was sent:
its bytes, and its headers one for one. -/
namespace ObjectRoundTrip

open ByteStrings TextCodecs SortedMaps RgwTypes RgwSal RgwSalSqlite Http HeaderMaps RestS3Wire
  RestS3Handlers StoreInvariants StoreRefinement StoredAttrs ObjectResponses ObjectRequests
  ObjectReads
open RgwAuth (Identity)

section Headers

variable {headers : HeaderMap} {name : Str}

theorem getAll_isHeaderName {value : Str} (hv : value ∈ headers.getAll name) :
    isHeaderName name = true := by
  obtain ⟨e, he, -⟩ := List.mem_map.mp hv
  have hname : e.1.val = name := by simpa using (List.mem_filter.mp he).2
  rw [← hname]
  exact e.1.2

/-- Every header name survives being parsed again. -/
theorem parseHeaderName_name (h : isHeaderName name = true) : parseHeaderName name = some ⟨name, h⟩ := by
  have hlower : toAsciiLower name = name := by
    rw [isHeaderName, Bool.and_eq_true, List.all_eq_true] at h
    apply toAsciiLower_fixed
    rw [List.all_eq_true]
    intro b hb
    exact (Bool.and_eq_true_iff.mp (h.2 b hb)).2
  simp only [parseHeaderName, hlower, h, ↓reduceDIte]

theorem joined_isHeaderValue {vs : List Str} {v : Str} (h : joined vs = some v)
    (hvs : ∀ w ∈ vs, isHeaderValue w = true) : isHeaderValue v = true := by
  cases vs with
  | nil => cases h
  | cons w vs =>
    cases h
    rw [isHeaderValue, List.all_eq_true]
    intro b hb
    rcases mem_intercalate hb with hsep | ⟨w, hw, hbw⟩
    · rw [List.mem_singleton.mp hsep]
      decide
    · exact List.all_eq_true.mp (hvs w hw) b hbw

theorem get_of_once (h : (headers.getAll name).length ≤ 1) :
    (headers.get name).toList = headers.getAll name := by
  rw [HeaderMap.get]
  match hvs : headers.getAll name with
  | [] => rfl
  | [v] => rfl
  | v :: w :: vs =>
    rw [hvs] at h
    simp at h

theorem get_isHeaderValue {v : Str} (h : headers.get name = some v) : isHeaderValue v = true :=
  getAll_isHeaderValue (List.mem_of_head? h)

end Headers

section Metadata

variable {headers : HeaderMap} {info : ObjectInfo}

theorem mem_userMetadata {t v : Str} :
    (t, v) ∈ info.userMetadata ↔ info.attrs[rgwAttrMetaPrefix ++ t]? = some v := by
  rw [ObjectInfo.userMetadata, List.mem_filterMap]
  constructor
  · rintro ⟨⟨key, w⟩, he, hdrop⟩
    obtain ⟨suffix, hsuffix, heq⟩ := Option.map_eq_some_iff.mp hdrop
    cases heq
    rw [dropPrefix_eq_some] at hsuffix
    rw [← hsuffix]
    exact mem_rows.mp he
  · intro h
    refine ⟨(rgwAttrMetaPrefix ++ t, v), mem_rows.mpr h, ?_⟩
    rw [dropPrefix_eq_some.mpr rfl]
    rfl

/-- No suffix is listed twice. -/
theorem userMetadata_nodup : (info.userMetadata.map Prod.fst).Nodup := by
  rw [List.nodup_iff_pairwise_ne, List.pairwise_map, ObjectInfo.userMetadata, List.pairwise_filterMap]
  apply rows_sorted.imp
  intro e f hlt p hp q hq
  obtain ⟨s, hs, rfl⟩ := Option.map_eq_some_iff.mp hp
  obtain ⟨t, ht, rfl⟩ := Option.map_eq_some_iff.mp hq
  rw [dropPrefix_eq_some] at hs ht
  rintro rfl
  rw [hs, ht, compare_lt] at hlt
  exact lt_irrefl _ hlt

/-- The values under a key, where keys are not repeated. -/
theorem flatMap_lookup {rows : List (Str × Str)} (hd : (rows.map Prod.fst).Nodup) {key : Str}
    {v : Option Str} (hmem : ∀ w, (key, w) ∈ rows ↔ v = some w) :
    (rows.flatMap fun e => if key = e.1 then [e.2] else []) = v.toList := by
  induction rows generalizing v with
  | nil =>
    cases v with
    | none => rfl
    | some w => cases (hmem w).mpr rfl
  | cons e rows ih =>
    rw [List.map_cons, List.nodup_cons] at hd
    rw [List.flatMap_cons]
    by_cases hkey : key = e.1
    · have hv : v = some e.2 := (hmem e.2).mp (by rw [hkey]; exact List.mem_cons_self)
      have hrest : ∀ w, (key, w) ∈ rows ↔ none = some w := by
        intro w
        refine ⟨fun hw => ?_, fun h => by cases h⟩
        apply absurd _ hd.1
        rw [← hkey]
        exact List.mem_map_of_mem (f := Prod.fst) hw
      rw [if_pos hkey, ih hd.2 hrest, hv]
      rfl
    · have hrest : ∀ w, (key, w) ∈ rows ↔ v = some w := by
        intro w
        rw [← hmem w, List.mem_cons, or_iff_right]
        rintro rfl
        exact hkey rfl
      rw [if_neg hkey, ih hd.2 hrest, List.nil_append]

/-- A put's metadata goes out as it came in. -/
theorem metadata_lines (hattrs : info.attrs = putAttrs headers) {name : Str} (hname : amzMeta <+: name) :
    (info.userMetadata.flatMap fun e => (addUserMetadata .empty e).getAll name) =
      (joined (headers.getAll name)).toList := by
  obtain ⟨suffix, rfl⟩ := hname
  have hstored : ∀ t v, (t, v) ∈ info.userMetadata ↔ joined (headers.getAll (amzMeta ++ t)) =
    some v := by
    intro t v
    rw [mem_userMetadata, hattrs, putAttrs_meta]
  have hline : ∀ e ∈ info.userMetadata, (addUserMetadata .empty e).getAll (amzMeta ++ suffix) =
      if suffix = e.1 then [e.2] else [] := by
    rintro ⟨t, v⟩ he
    have hjoined := (hstored t v).mp he
    have hlegal : isHeaderValue v = true :=
      joined_isHeaderValue hjoined fun w hw => getAll_isHeaderValue hw
    obtain ⟨w, hw⟩ : ∃ w, w ∈ headers.getAll (amzMeta ++ t) := by
      apply List.exists_mem_of_ne_nil
      intro hnil
      rw [hnil] at hjoined
      cases hjoined
    rw [addUserMetadata, parseHeaderName_name (getAll_isHeaderName hw), headerValue_ok hlegal]
    dsimp only
    by_cases hst : suffix = t
    · subst hst
      rw [if_pos rfl]
      exact getAll_append_self
    · have hne : amzMeta ++ suffix ≠ amzMeta ++ t := by
        intro he
        exact hst (List.append_cancel_left he)
      rw [if_neg hst]
      exact getAll_append_ne hne
  rw [List.flatMap_congr hline]
  exact flatMap_lookup userMetadata_nodup fun w => hstored suffix w

end Metadata

section RoundTrip

variable {P : Platform} {env : ReqEnv} {identity : Identity} {bucketName key : Str}
  {headers : HeaderMap} {body : ObjectBody} {s : Tables} {o : StoredObject}

/-- Outside the metadata no header is repeated, and the type is visible ASCII. -/
structure PlainHeaders (headers : HeaderMap) : Prop where
  once : ∀ name, ¬amzMeta <+: name → (headers.getAll name).length ≤ 1
  type : ∀ v, headers.get contentType.val = some v → v.all isVisibleAscii = true

/-- A reply that gives back what a put was sent. -/
structure ReadsBack (P : Platform) (headers : HeaderMap) (data : Str) (get : Response) : Prop where
  status : get.status = 200
  body : ∃ body, get.body = .object body ∧ readBody body = .ok data
  contentLength : get.headers.getAll contentLength.val = [decimal data.length]
  etag : get.headers.getAll etag.val = [34 :: hexEncode (P.md5 data) ++ [34]]
  contentType : get.headers.getAll contentType.val =
    [(headers.get contentType.val).getD defaultContentType]
  standard : ∀ g ∈ genericAttrs, get.headers.getAll g.1.val = headers.getAll g.1.val
  metadata : ∀ name, amzMeta <+: name →
    get.headers.getAll name = (joined (headers.getAll name)).toList

theorem visible_isUtf8 {v : Str} (h : v.all isVisibleAscii = true) : isUtf8 v = true := by
  have hascii : ∀ b : UInt8, isVisibleAscii b = true → b < 128 := forall_byte (by decide +kernel)
  apply Utf8Texts.isUtf8_ascii
  intro b hb
  exact hascii b (List.all_eq_true.mp h b hb)

theorem stored_contentType (type : ∀ v, headers.get contentType.val = some v →
    v.all isVisibleAscii = true) {info : ObjectInfo} (hattrs : info.attrs = putAttrs headers) :
    info.contentType = some ((headers.get contentType.val).getD defaultContentType) := by
  rw [ObjectInfo.contentType, hattrs, putAttrs_contentType, Option.filter_some]
  apply if_pos
  cases hv : headers.get contentType.val with
  | none => decide
  | some v => exact visible_isUtf8 (type v hv)

/-- What a put stores can be sent. -/
theorem stored_representable (dates : ∀ t, isHeaderValue (P.httpDate t) = true)
    (hattrs : o.attrs = putAttrs headers) : Representable P (o.info P.md5 key) where
  date := dates _
  etag := isHeaderValue_hexEncode _
  contentType := by
    have hstored : o.attrs[rgwAttrContentType]? =
        some ((headers.get contentType.val).getD defaultContentType) := by
      rw [hattrs, putAttrs_contentType]
    change isHeaderValue ((o.attrs[rgwAttrContentType]?.filter isUtf8).getD defaultContentType) = true
    rw [hstored, Option.filter_some]
    split
    · cases hv : headers.get contentType.val with
      | none => decide
      | some v => exact get_isHeaderValue hv
    · decide
  storageClass := by
    have hclass : RestS3Handlers.storageClass (o.info P.md5 key) = standard :=
      if_pos (show standard ≠ [] by decide)
    rw [hclass]
    decide

/-- The reply to a read of the whole of what a put stored. -/
theorem readsBack_reply (plain : PlainHeaders headers) (hattrs : o.attrs = putAttrs headers)
    {get : Response} (reply : ObjectReply P (o.info P.md5 key) none get)
    (hbody : get.body = .object (bodyFromBytes o.data)) : ReadsBack P headers o.data get where
  status := reply.status
  body := ⟨_, hbody, readBody_bytes o.data⟩
  contentLength := reply.contentLength
  etag := reply.etag
  contentType := by
    rw [reply.contentType, stored_contentType plain.type hattrs, Option.getD_some]
  standard := by
    intro g hg
    have honce := plain.once g.1.val (standard_names g hg).1
    have hinfo : (o.info P.md5 key).attrs = putAttrs headers := hattrs
    rw [reply.standard g hg, hinfo, putAttrs_generic headers hg, ← get_of_once honce]
    cases hv : headers.get g.1.val with
    | none => rfl
    | some v => rw [Option.filter_some, if_pos (get_isHeaderValue hv)]
  metadata := by
    intro name hname
    rw [reply.metadata name hname]
    exact metadata_lines hattrs hname

/-- What a put comes to: nothing, or one object and an answer with its digest. The next read of
the whole object, of whatever other headers, gives the put back. -/
structure AllOrNothing (P : Platform) (identity : Identity) (bucketName key : Str)
    (headers : HeaderMap) (body : ObjectBody) (s : Tables) (r : Except OpError Response)
    (s' : Tables) : Prop where
  refused : ∀ e, r = .error e → s' = s
  stored : ∀ put, r = .ok put → ∃ bucket row data,
    bucketFor identity bucketName s = .ok bucket ∧
    s' = withObject s bucket.bucket.bucketId key row ∧
    readBody body = .ok data ∧
    put.headers.getAll etag.val = [34 :: hexEncode (P.md5 data) ++ [34]] ∧
    ∀ getHeaders : HeaderMap, getHeaders.get (bytes "range") = none → ∃ get,
      (RestS3Handlers.getObject P identity bucketName key getHeaders true).run.run (exec P.md5) s' =
        some (.ok get, s') ∧ ReadsBack P headers data get

theorem put_get (P : Platform) (dates : ∀ t, isHeaderValue (P.httpDate t) = true) (env : ReqEnv)
    (identity : Identity) (bucketName key : Str) (headers : HeaderMap) (plain : PlainHeaders headers)
    (body : ObjectBody) (s : Tables) : ∃ r s',
    (RestS3Handlers.putObject P env identity bucketName key headers body).run.run (exec P.md5) s =
      some (r, s') ∧ AllOrNothing P identity bucketName key headers body s r s' := by
  obtain ⟨r, s', hrun, outcome⟩ := @run_putObject s P env identity bucketName key headers body
  refine ⟨r, s', hrun, ?_⟩
  cases outcome with
  | refused e => exact ⟨fun _ _ => rfl, fun _ h => by cases h⟩
  | stored bucket owner data now put named there read small answer =>
    refine ⟨fun _ h => (by cases h), fun put' h => ?_⟩
    cases h
    refine ⟨bucket, _, data, named, rfl, read, answer, fun getHeaders hwhole => ?_⟩
    have held : Held P.md5 (withObject s bucket.bucket.bucketId key
        (objectRow P.md5 owner (putAttrs headers) data now)) bucket.bucket.bucketId key
        ⟨data, owner, putAttrs headers, now⟩ :=
      @held_put P.md5 s bucket.bucket key ⟨data, owner, putAttrs headers, now⟩ there small
    have hb : bucketFor identity bucketName (withObject s bucket.bucket.bucketId key
        (objectRow P.md5 owner (putAttrs headers) data now)) = .ok bucket := named
    have hrange : requestedRange getHeaders = none := by
      rw [requestedRange, headerStr, hwhole]
      rfl
    obtain ⟨get, hget⟩ := objectResponse_ok (@stored_representable P key headers
      ⟨data, owner, putAttrs headers, now⟩ dates rfl) none (.object (bodyFromBytes data))
    obtain ⟨reply, hbody⟩ := objectResponse_reply hget
    refine ⟨get, ?_, readsBack_reply plain rfl reply hbody⟩
    rw [run_get_held hb held, hrange, heldRead, getReply]
    dsimp only
    rw [hget]
    rfl

def color : HeaderName := ⟨bytes "x-amz-meta-color", by decide⟩

/-- A type, and metadata in two lines. -/
def noteHeaders : HeaderMap :=
  ⟨[(contentType, ⟨bytes "text/plain", by decide⟩), (color, ⟨bytes "red", by decide⟩),
    (color, ⟨bytes "blue", by decide⟩)]⟩

theorem noteHeaders_plain : PlainHeaders noteHeaders where
  once := by
    intro name hname
    have hcolor : color.val ≠ name := by
      rintro rfl
      exact hname (by decide)
    rw [noteHeaders]
    by_cases htype : contentType.val = name
    · rw [getAll_cons_self htype, getAll_cons_ne hcolor, getAll_cons_ne hcolor]
      exact Nat.le_refl 1
    · rw [getAll_cons_ne htype, getAll_cons_ne hcolor, getAll_cons_ne hcolor]
      exact Nat.zero_le 1
  type := by
    intro v hv
    cases hv
    decide

theorem put_get_notes : ∃ put s',
    (RestS3Handlers.putObject (.ofTables [] [] []) (OwnerIsolation.drawn []) aliceUser (bytes "docs")
      (bytes "notes") noteHeaders [.ok (bytes "hel"), .ok (bytes "lo")]).run.run (exec sampleMd5)
      OwnerIsolation.twoBuckets.1 = some (.ok put, s') ∧
    put.headers.getAll etag.val = [bytes "\"5d41402abc4b2a76b9719d911017c592\""] ∧
    AllOrNothing (.ofTables [] [] []) aliceUser (bytes "docs") (bytes "notes") noteHeaders
      [.ok (bytes "hel"), .ok (bytes "lo")] OwnerIsolation.twoBuckets.1 (.ok put) s' := by
  obtain ⟨r, s', hrun, hall⟩ := put_get (.ofTables [] [] []) sampleHttpDate_value
    (OwnerIsolation.drawn []) aliceUser (bytes "docs") (bytes "notes") noteHeaders noteHeaders_plain
    [.ok (bytes "hel"), .ok (bytes "lo")] OwnerIsolation.twoBuckets.1
  have hput : ((RestS3Handlers.putObject (.ofTables [] [] []) (OwnerIsolation.drawn []) aliceUser
      (bytes "docs") (bytes "notes") noteHeaders [.ok (bytes "hel"), .ok (bytes "lo")]).run.run
      (exec (Platform.ofTables [] [] []).md5) OwnerIsolation.twoBuckets.1).map
        (fun q => q.1.toOption.map fun put => put.headers.getAll etag.val) =
      some (some [bytes "\"5d41402abc4b2a76b9719d911017c592\""]) := by decide +kernel
  rw [hrun] at hput
  cases r with
  | ok put => exact ⟨put, s', hrun, Option.some.inj (Option.some.inj hput), hall⟩
  | error e => cases hput

end RoundTrip

end ObjectRoundTrip
