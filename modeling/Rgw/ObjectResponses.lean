import Rgw.StoredAttrs

/-! # Replies that carry an object

The headers of such a reply, each read off the object's record. The body is no part of them. -/
namespace ObjectResponses

open ByteStrings RgwTypes Http HeaderMaps RestS3Wire RestS3Handlers

section Metadata

variable {h : HeaderMap} {name : Str}

/-- The lines that the metadata of a record makes. -/
theorem getAll_addUserMetadata (h : HeaderMap) (rows : List (Str × Str)) (name : Str) :
    (rows.foldl addUserMetadata h).getAll name = h.getAll name ++
      rows.flatMap fun e => (addUserMetadata .empty e).getAll name := by
  induction rows generalizing h with
  | nil => simp
  | cons e rows ih =>
    have hstep : (addUserMetadata h e).getAll name =
        h.getAll name ++ (addUserMetadata .empty e).getAll name := by
      rw [addUserMetadata, addUserMetadata]
      split
      · next n v _ _ =>
        by_cases hn : name = n.val
        · subst hn
          rw [getAll_append_self, getAll_append_self, getAll_empty]
          rfl
        · rw [getAll_append_ne hn, getAll_append_ne hn, getAll_empty, List.append_nil]
      · rw [getAll_empty, List.append_nil]
    rw [List.foldl_cons, ih, hstep, List.flatMap_cons, List.append_assoc]

theorem parseHeaderName_val {s : Str} {n : HeaderName} (h : parseHeaderName s = some n) :
    n.val = toAsciiLower s := by
  rw [parseHeaderName] at h
  split at h
  · cases h
    rfl
  · cases h

theorem meta_lower (s : Str) : amzMeta <+: toAsciiLower (amzMeta ++ s) := by
  have hlower : toAsciiLower amzMeta = amzMeta := by decide
  rw [toAsciiLower, List.map_append, ← toAsciiLower, hlower]
  exact List.prefix_append _ _

/-- Metadata makes metadata lines only. -/
theorem addUserMetadata_other (e : Str × Str) (hn : ¬amzMeta <+: name) :
    (addUserMetadata h e).getAll name = h.getAll name := by
  rw [addUserMetadata]
  split
  · next n v hname _ =>
    apply getAll_append_ne
    rintro rfl
    apply hn
    rw [parseHeaderName_val hname]
    exact meta_lower e.1
  · rfl

theorem foldl_addUserMetadata_other (rows : List (Str × Str)) (hn : ¬amzMeta <+: name) :
    (rows.foldl addUserMetadata h).getAll name = h.getAll name := by
  induction rows generalizing h with
  | nil => rfl
  | cons e rows ih => rw [List.foldl_cons, ih, addUserMetadata_other e hn]

end Metadata

section Standard

variable {info : ObjectInfo} {h : HeaderMap} {name : Str}

theorem headerValue_val {s : Str} {v : HeaderValue} (h : headerValue s = .ok v) : v.val = s := by
  rw [headerValue] at h
  split at h
  · cases h
    rfl
  · cases h

theorem addAttr_other (g : HeaderName × Str) (hn : name ≠ g.1.val) :
    (addAttr info h g).getAll name = h.getAll name := by
  rw [addAttr]
  split
  · rfl
  · split
    · exact getAll_insert_ne hn
    · rfl

theorem foldl_addAttr_other (gs : List (HeaderName × Str)) (hn : ∀ g ∈ gs, name ≠ g.1.val) :
    (gs.foldl (addAttr info) h).getAll name = h.getAll name := by
  induction gs generalizing h with
  | nil => rfl
  | cons g gs ih =>
    rw [List.forall_mem_cons] at hn
    rw [List.foldl_cons, ih hn.2, addAttr_other g hn.1]

theorem addAttr_self (g : HeaderName × Str) (hfree : h.getAll g.1.val = []) :
    (addAttr info h g).getAll g.1.val =
      (info.attrs[rgwAttrPrefix ++ g.2]?.filter isHeaderValue).toList := by
  rw [addAttr]
  cases info.attrs[rgwAttrPrefix ++ g.2]? with
  | none => exact hfree
  | some v =>
    dsimp only
    by_cases hv : isHeaderValue v = true
    · rw [headerValue_ok hv, Option.filter_some, if_pos hv]
      exact getAll_insert_self
    · rw [headerValue, dif_neg hv, Option.filter_some, if_neg hv]
      exact hfree

theorem foldl_addAttr_self {gs : List (HeaderName × Str)} {g : HeaderName × Str} (hg : g ∈ gs)
    (hd : (gs.map fun g => g.1.val).Nodup) (hfree : h.getAll g.1.val = []) :
    (gs.foldl (addAttr info) h).getAll g.1.val =
      (info.attrs[rgwAttrPrefix ++ g.2]?.filter isHeaderValue).toList := by
  induction gs generalizing h with
  | nil => cases hg
  | cons f gs ih =>
    rw [List.map_cons, List.nodup_cons] at hd
    rw [List.foldl_cons]
    rcases List.mem_cons.mp hg with rfl | hg
    · rw [foldl_addAttr_other, addAttr_self g hfree]
      intro f hf he
      apply hd.1
      rw [he]
      exact List.mem_map_of_mem hf
    · apply ih hg hd.2
      rw [addAttr_other, hfree]
      intro he
      apply hd.1
      rw [← he]
      exact List.mem_map_of_mem hg

end Standard

section Replies

/-- What the headers of a reply say of the object and of the range that is sent. -/
structure ObjectReply (P : Platform) (info : ObjectInfo) (range : Option (ℕ × ℕ))
    (resp : Response) : Prop where
  status : resp.status = if range.isSome then 206 else 200
  contentRange : resp.headers.getAll contentRange.val = (range.map fun r =>
    bytes "bytes " ++ decimal r.1 ++ 45 :: decimal r.2 ++ 47 :: decimal info.size).toList
  contentLength : resp.headers.getAll contentLength.val =
    [decimal (range.elim info.size fun r => r.2 - r.1 + 1)]
  etag : resp.headers.getAll etag.val = [34 :: info.etag ++ [34]]
  lastModified : resp.headers.getAll lastModified.val = [P.httpDate info.mtime]
  contentType : resp.headers.getAll contentType.val = [info.contentType.getD defaultContentType]
  acceptRanges : resp.headers.getAll acceptRanges.val = [bytes "bytes"]
  standard : ∀ g ∈ genericAttrs, resp.headers.getAll g.1.val =
    (info.attrs[rgwAttrPrefix ++ g.2]?.filter isHeaderValue).toList
  metadata : ∀ name, amzMeta <+: name → resp.headers.getAll name =
    info.userMetadata.flatMap fun e => (addUserMetadata .empty e).getAll name
  storageClass : resp.headers.getAll amzStorageClass.val =
    if info.storageClass ≠ [] ∨ rgwAttrStorageClass ∈ info.attrs then [storageClass info] else []

variable {P : Platform} {info : ObjectInfo} {range : Option (ℕ × ℕ)} {body : ResponseBody}
  {resp : Response}

/-- The header of a partial reply, and the length of its body. -/
def rangeHeaders (info : ObjectInfo) : Option (ℕ × ℕ) → RgwResult (HeaderMap × ℕ)
  | some (start, last) => do
    let v ← headerValue (bytes "bytes " ++ decimal start ++ 45 :: decimal last ++
      47 :: decimal info.size)
    return (.insert .empty RestS3Handlers.contentRange v, last - start + 1)
  | none => return (.empty, info.size)

def withStorageClass (info : ObjectInfo) (h : HeaderMap) : RgwResult HeaderMap :=
  if info.storageClass ≠ [] ∨ rgwAttrStorageClass ∈ info.attrs then do
    let v ← headerValue (RestS3Handlers.storageClass info)
    return h.insert amzStorageClass v
  else return h

/-- The attributes of a record, over the headers every reply has. -/
def attrHeaders (info : ObjectInfo) (h : HeaderMap) : HeaderMap :=
  info.userMetadata.foldl addUserMetadata (genericAttrs.foldl (addAttr info) h)

theorem objectResponse_eq (P : Platform) (info : ObjectInfo) (range : Option (ℕ × ℕ))
    (body : ResponseBody) : objectResponse P info range body = do
      let (h, len) ← rangeHeaders info range
      let vlen ← headerValue (decimal len)
      let vetag ← headerValue (34 :: info.etag ++ [34])
      let vdate ← headerValue (P.httpDate info.mtime)
      let vtype ← headerValue (info.contentType.getD defaultContentType)
      let vaccept ← headerValue (bytes "bytes")
      let h ← withStorageClass info (attrHeaders info (((((h.insert Http.contentLength vlen).insert
        RestS3Handlers.etag vetag).insert RestS3Handlers.lastModified vdate).insert
        RestS3Wire.contentType vtype).insert RestS3Handlers.acceptRanges vaccept))
      return ⟨if range.isSome then 206 else 200, h, body⟩ := by
  rw [objectResponse.eq_def]
  cases range with
  | none =>
    simp only [rangeHeaders, withStorageClass, attrHeaders, pure_bind]
    split <;> simp
  | some r =>
    simp only [rangeHeaders, withStorageClass, attrHeaders, pure_bind, bind_assoc]
    split <;> simp

variable {P : Platform} {info : ObjectInfo} {range : Option (ℕ × ℕ)} {body : ResponseBody}
  {resp : Response} {h h' : HeaderMap} {name : Str}

theorem rangeHeaders_ok {len : ℕ} (hr : rangeHeaders info range = .ok (h, len)) :
    len = (range.elim info.size fun r => r.2 - r.1 + 1) ∧
    h.getAll RestS3Handlers.contentRange.val = (range.map fun r =>
      bytes "bytes " ++ decimal r.1 ++ 45 :: decimal r.2 ++ 47 :: decimal info.size).toList ∧
    ∀ name, name ≠ RestS3Handlers.contentRange.val → h.getAll name = [] := by
  cases range with
  | none =>
    cases hr
    exact ⟨rfl, rfl, fun _ _ => rfl⟩
  | some r =>
    obtain ⟨v, hv, hr⟩ := bind_eq_ok.mp hr
    cases hr
    refine ⟨rfl, ?_, fun name hname => ?_⟩
    · rw [getAll_insert_self, headerValue_val hv]
      rfl
    · rw [getAll_insert_ne hname, getAll_empty]

theorem withStorageClass_other (hs : withStorageClass info h = .ok h')
    (hn : name ≠ amzStorageClass.val) : h'.getAll name = h.getAll name := by
  rw [withStorageClass] at hs
  split at hs
  · obtain ⟨v, -, hs⟩ := bind_eq_ok.mp hs
    cases hs
    exact getAll_insert_ne hn
  · cases hs
    rfl

theorem withStorageClass_self (hs : withStorageClass info h = .ok h')
    (hfree : h.getAll amzStorageClass.val = []) : h'.getAll amzStorageClass.val =
      if info.storageClass ≠ [] ∨ rgwAttrStorageClass ∈ info.attrs then
        [RestS3Handlers.storageClass info] else [] := by
  rw [withStorageClass] at hs
  split at hs
  · next hc =>
    obtain ⟨v, hv, hs⟩ := bind_eq_ok.mp hs
    cases hs
    rw [getAll_insert_self, headerValue_val hv, if_pos hc]
  · next hc =>
    cases hs
    rw [hfree, if_neg hc]

/-- The names that a record's attributes can be sent under. -/
def isAttrName (name : Str) : Prop := amzMeta <+: name ∨ ∃ g ∈ genericAttrs, name = g.1.val

theorem attrHeaders_other (hn : ¬isAttrName name) :
    (attrHeaders info h).getAll name = h.getAll name := by
  rw [isAttrName, not_or] at hn
  rw [attrHeaders, foldl_addUserMetadata_other _ hn.1, foldl_addAttr_other]
  intro g hg he
  exact hn.2 ⟨g, hg, he⟩

theorem standard_names : ∀ g ∈ genericAttrs, ¬amzMeta <+: g.1.val ∧ g.1.val ≠ amzStorageClass.val ∧
    g.1.val ∉ [RestS3Handlers.contentRange.val, Http.contentLength.val, RestS3Handlers.etag.val,
      RestS3Handlers.lastModified.val, RestS3Wire.contentType.val,
      RestS3Handlers.acceptRanges.val] := by
  decide

instance (name : Str) : Decidable (isAttrName name) :=
  inferInstanceAs (Decidable (_ ∨ ∃ g ∈ genericAttrs, _))

theorem objectResponse_reply (h : objectResponse P info range body = .ok resp) :
    ObjectReply P info range resp ∧ resp.body = body := by
  rw [objectResponse_eq] at h
  obtain ⟨⟨ranged, len⟩, hrange, h⟩ := bind_eq_ok.mp h
  obtain ⟨vlen, hlen, h⟩ := bind_eq_ok.mp h
  obtain ⟨vetag, hetag, h⟩ := bind_eq_ok.mp h
  obtain ⟨vdate, hdate, h⟩ := bind_eq_ok.mp h
  obtain ⟨vtype, htype, h⟩ := bind_eq_ok.mp h
  obtain ⟨vaccept, haccept, h⟩ := bind_eq_ok.mp h
  obtain ⟨headers, hclass, h⟩ := bind_eq_ok.mp h
  cases h
  obtain ⟨rfl, hrange, hbare⟩ := rangeHeaders_ok hrange
  generalize hbase : ((((ranged.insert Http.contentLength vlen).insert RestS3Handlers.etag
    vetag).insert RestS3Handlers.lastModified vdate).insert RestS3Wire.contentType vtype).insert
    RestS3Handlers.acceptRanges vaccept = base at hclass
  have hfree : ∀ name, name ∉ [RestS3Handlers.contentRange.val, Http.contentLength.val,
      RestS3Handlers.etag.val, RestS3Handlers.lastModified.val, RestS3Wire.contentType.val,
      RestS3Handlers.acceptRanges.val] → base.getAll name = [] := by
    intro name hname
    simp only [List.mem_cons, List.not_mem_nil, or_false, not_or] at hname
    obtain ⟨h₁, h₂, h₃, h₄, h₅, h₆⟩ := hname
    rw [← hbase, getAll_insert_ne h₆, getAll_insert_ne h₅, getAll_insert_ne h₄, getAll_insert_ne h₃,
      getAll_insert_ne h₂, hbare name h₁]
  have hfixed : ∀ {name}, name ≠ amzStorageClass.val → ¬isAttrName name →
      headers.getAll name = base.getAll name := by
    intro name hname hattr
    rw [withStorageClass_other hclass hname, attrHeaders_other hattr]
  refine ⟨⟨rfl, ?_, ?_, ?_, ?_, ?_, ?_, ?_, ?_, ?_⟩, rfl⟩
  · rw [hfixed (by decide) (by decide), ← hbase, getAll_insert_ne (by decide),
      getAll_insert_ne (by decide), getAll_insert_ne (by decide), getAll_insert_ne (by decide),
      getAll_insert_ne (by decide), hrange]
  · rw [hfixed (by decide) (by decide), ← hbase, getAll_insert_ne (by decide),
      getAll_insert_ne (by decide), getAll_insert_ne (by decide), getAll_insert_ne (by decide),
      getAll_insert_self, headerValue_val hlen]
  · rw [hfixed (by decide) (by decide), ← hbase, getAll_insert_ne (by decide),
      getAll_insert_ne (by decide), getAll_insert_ne (by decide), getAll_insert_self,
      headerValue_val hetag]
  · rw [hfixed (by decide) (by decide), ← hbase, getAll_insert_ne (by decide),
      getAll_insert_ne (by decide), getAll_insert_self, headerValue_val hdate]
  · rw [hfixed (by decide) (by decide), ← hbase, getAll_insert_ne (by decide), getAll_insert_self,
      headerValue_val htype]
  · rw [hfixed (by decide) (by decide), ← hbase, getAll_insert_self, headerValue_val haccept]
  · intro g hg
    obtain ⟨hmeta, hsc, hnames⟩ := standard_names g hg
    rw [withStorageClass_other hclass hsc, attrHeaders, foldl_addUserMetadata_other _ hmeta]
    exact foldl_addAttr_self hg (by decide) (hfree _ hnames)
  · intro name hname
    have hsc : name ≠ amzStorageClass.val := by
      rintro rfl
      revert hname
      decide
    have hgeneric : ∀ g ∈ genericAttrs, name ≠ g.1.val := by
      rintro g hg rfl
      exact (standard_names g hg).1 hname
    have hnames : base.getAll name = [] := by
      apply hfree
      intro hm
      have hall : ∀ n ∈ [RestS3Handlers.contentRange.val, Http.contentLength.val,
          RestS3Handlers.etag.val, RestS3Handlers.lastModified.val, RestS3Wire.contentType.val,
          RestS3Handlers.acceptRanges.val], ¬amzMeta <+: n := by decide
      exact hall name hm hname
    rw [withStorageClass_other hclass hsc, attrHeaders, getAll_addUserMetadata,
      foldl_addAttr_other _ hgeneric, hnames, List.nil_append]
  · apply withStorageClass_self hclass
    rw [attrHeaders_other (by decide)]
    exact hfree _ (by decide)

/-- The body is put under headers that do not depend on it. -/
theorem objectResponse_body (P : Platform) (info : ObjectInfo) (range : Option (ℕ × ℕ))
    (body : ResponseBody) : objectResponse P info range body =
      (objectResponse P info range .empty).map fun resp => { resp with body := body } := by
  have hmap : ∀ {α β γ : Type} (x : RgwResult α) (f : α → RgwResult β) (g : β → γ),
      (x >>= f).map g = x >>= fun a => (f a).map g := by
    intro α β γ x f g
    cases x <;> rfl
  simp only [objectResponse_eq, hmap]
  rfl

theorem isHeaderValue_decimal (n : ℕ) : isHeaderValue (decimal n) = true := by
  have hdigit : ∀ b : UInt8, isDigit b = true → (b == 9 || 32 ≤ b && b ≠ 127) = true :=
    forall_byte (by decide +kernel)
  rw [isHeaderValue, List.all_eq_true]
  intro b hb
  exact hdigit b (List.all_eq_true.mp (decimal_isDigit n) b hb)

/-- Everything that a reply says of a record can stand in a header. -/
structure Representable (P : Platform) (info : ObjectInfo) : Prop where
  date : isHeaderValue (P.httpDate info.mtime) = true
  etag : isHeaderValue info.etag = true
  contentType : isHeaderValue (info.contentType.getD defaultContentType) = true
  storageClass : isHeaderValue (RestS3Handlers.storageClass info) = true

theorem objectResponse_ok (hr : Representable P info) (range : Option (ℕ × ℕ)) (body : ResponseBody) :
    ∃ resp, objectResponse P info range body = .ok resp := by
  have hquote : ∀ s, isHeaderValue s = true → isHeaderValue (34 :: s ++ [34]) = true := by
    intro s hs
    rw [isHeaderValue_append, isHeaderValue_cons, hs]
    rfl
  have hrange : ∃ ranged, rangeHeaders info range = .ok ranged := by
    cases range with
    | none => exact ⟨_, rfl⟩
    | some r =>
      have hv : isHeaderValue (bytes "bytes " ++ decimal r.1 ++ 45 :: decimal r.2 ++
          47 :: decimal info.size) = true := by
        have hbytes : isHeaderValue (bytes "bytes ") = true := by decide
        rw [isHeaderValue_append, isHeaderValue_append, isHeaderValue_append, hbytes,
          isHeaderValue_cons (b := 45), isHeaderValue_cons (b := 47), isHeaderValue_decimal,
          isHeaderValue_decimal, isHeaderValue_decimal]
        rfl
      obtain ⟨start, last⟩ := r
      rw [rangeHeaders, headerValue_ok hv]
      exact ⟨_, rfl⟩
  obtain ⟨⟨h, len⟩, hrange⟩ := hrange
  have hclass : ∀ h, ∃ h', withStorageClass info h = .ok h' := by
    intro h
    rw [withStorageClass]
    split
    · rw [headerValue_ok hr.storageClass]
      exact ⟨_, rfl⟩
    · exact ⟨_, rfl⟩
  rw [objectResponse_eq, hrange, ok_bind]
  dsimp only
  rw [headerValue_ok (isHeaderValue_decimal len), headerValue_ok (hquote _ hr.etag),
    headerValue_ok hr.date, headerValue_ok hr.contentType,
    @headerValue_ok (bytes "bytes") (by decide)]
  simp only [ok_bind]
  obtain ⟨headers, hheaders⟩ := hclass (attrHeaders info (((((h.insert Http.contentLength
    ⟨decimal len, isHeaderValue_decimal len⟩).insert RestS3Handlers.etag
    ⟨34 :: info.etag ++ [34], hquote _ hr.etag⟩).insert RestS3Handlers.lastModified
    ⟨P.httpDate info.mtime, hr.date⟩).insert RestS3Wire.contentType
    ⟨info.contentType.getD defaultContentType, hr.contentType⟩).insert RestS3Handlers.acceptRanges
    ⟨bytes "bytes", by decide⟩))
  rw [hheaders]
  exact ⟨_, rfl⟩

end Replies

end ObjectResponses
