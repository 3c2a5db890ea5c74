import Rgw.HeaderMaps
import Rgw.RestS3Handlers

/-! # The attributes a request leaves

Every attribute comes from one header: the type and the standard headers from their first line,
the metadata of a suffix from all its lines, joined. No two headers share an attribute. -/
namespace StoredAttrs

open ByteStrings SortedMaps RgwTypes Http HeaderMaps SigV4 RestS3Wire RestS3Handlers

/-- The lines of a header as one value. -/
def joined : List Str → Option Str
  | [] => none
  | v :: vs => some (join 44 (v :: vs))

section Lookups

variable {headers : HeaderMap} {attrs : Attrs} {key : Str}

theorem meta_key_inj {s t : Str} : rgwAttrMetaPrefix ++ s = rgwAttrMetaPrefix ++ t ↔ s = t :=
  (List.append_cancel_left_eq _ _ _).to_iff

/-- A header name, cut where the metadata headers start. -/
theorem dropPrefix_meta (name s : Str) :
    name.dropPrefix? amzMeta = some s ↔ name = amzMeta ++ s := dropPrefix_eq_some

def joinMore (v : Option Str) (w : Str) : Option Str := some (v.elim w fun v => v ++ 44 :: w)

theorem addMetadata_meta (attrs : Attrs) (e : HeaderName × HeaderValue) (s : Str) :
    (addMetadata attrs e)[rgwAttrMetaPrefix ++ s]? =
      if e.1.val = amzMeta ++ s then joinMore attrs[rgwAttrMetaPrefix ++ s]? e.2.val
      else attrs[rgwAttrMetaPrefix ++ s]? := by
  rw [addMetadata]
  cases hd : e.1.val.dropPrefix? amzMeta with
  | none =>
    have hne : e.1.val ≠ amzMeta ++ s := by
      intro he
      rw [(dropPrefix_meta _ _).mpr he] at hd
      cases hd
    rw [if_neg hne]
  | some t =>
    rw [(dropPrefix_meta _ _).mp hd]
    dsimp only
    by_cases hst : t = s
    · subst hst
      rw [if_pos rfl]
      cases attrs[rgwAttrMetaPrefix ++ t]? with
      | none => rw [getElem?_insert_eq, if_pos rfl]; rfl
      | some v => rw [getElem?_insert_eq, if_pos rfl]; rfl
    · have hkey : rgwAttrMetaPrefix ++ t ≠ rgwAttrMetaPrefix ++ s := meta_key_inj.not.mpr hst
      have hname : amzMeta ++ t ≠ amzMeta ++ s := by
        intro he
        exact hst (List.append_cancel_left he)
      rw [if_neg hname]
      cases attrs[rgwAttrMetaPrefix ++ t]? with
      | none => rw [getElem?_insert_eq, if_neg hkey]
      | some v => rw [getElem?_insert_eq, if_neg hkey]

theorem addMetadata_other (e : HeaderName × HeaderValue) (hk : ¬rgwAttrMetaPrefix <+: key) :
    (addMetadata attrs e)[key]? = attrs[key]? := by
  rw [addMetadata]
  cases hd : e.1.val.dropPrefix? amzMeta with
  | none => rfl
  | some t =>
    have hkey : rgwAttrMetaPrefix ++ t ≠ key := by
      rintro rfl
      exact hk (List.prefix_append _ _)
    dsimp only
    cases attrs[rgwAttrMetaPrefix ++ t]? with
    | none => rw [getElem?_insert_eq, if_neg hkey]
    | some v => rw [getElem?_insert_eq, if_neg hkey]

theorem foldl_addMetadata_meta (entries : List (HeaderName × HeaderValue)) (attrs : Attrs) (s : Str) :
    (entries.foldl addMetadata attrs)[rgwAttrMetaPrefix ++ s]? =
      ((HeaderMap.mk entries).getAll (amzMeta ++ s)).foldl joinMore attrs[rgwAttrMetaPrefix ++ s]? := by
  induction entries generalizing attrs with
  | nil => rfl
  | cons e entries ih =>
    rw [List.foldl_cons, ih, addMetadata_meta]
    by_cases he : e.1.val = amzMeta ++ s
    · rw [if_pos he, getAll_cons_self he, List.foldl_cons]
    · rw [if_neg he, getAll_cons_ne he]

theorem foldl_addMetadata_other (entries : List (HeaderName × HeaderValue)) (attrs : Attrs)
    (hk : ¬rgwAttrMetaPrefix <+: key) : (entries.foldl addMetadata attrs)[key]? = attrs[key]? := by
  induction entries generalizing attrs with
  | nil => rfl
  | cons e entries ih => rw [List.foldl_cons, ih, addMetadata_other e hk]

theorem foldl_joinMore (v : Str) (vs : List Str) :
    vs.foldl joinMore (some v) = some (join 44 (v :: vs)) := by
  induction vs generalizing v with
  | nil => simp [join]
  | cons w vs ih =>
    have hstep : joinMore (some v) w = some (v ++ 44 :: w) := rfl
    rw [List.foldl_cons, hstep, ih, join, join]
    cases vs with
    | nil => simp
    | cons x vs => simp [List.intercalate_cons_cons]

theorem foldl_joinMore_none (vs : List Str) : vs.foldl joinMore none = joined vs := by
  cases vs with
  | nil => rfl
  | cons v vs => exact foldl_joinMore v vs

theorem foldl_addGeneric (headers : HeaderMap) (gs : List (HeaderName × Str)) (attrs : Attrs)
    (key : Str) (hk : ∀ g ∈ gs, rgwAttrPrefix ++ g.2 ≠ key) :
    (gs.foldl (addGeneric headers) attrs)[key]? = attrs[key]? := by
  induction gs generalizing attrs with
  | nil => rfl
  | cons g gs ih =>
    rw [List.forall_mem_cons] at hk
    rw [List.foldl_cons, ih _ hk.2, addGeneric]
    cases headers.get g.1.val with
    | none => rfl
    | some v =>
      dsimp only
      rw [getElem?_insert_eq, if_neg hk.1]

/-- A standard header is stored under its own attribute. -/
theorem foldl_addGeneric_self (headers : HeaderMap) {gs : List (HeaderName × Str)} (attrs : Attrs)
    {g : HeaderName × Str} (hg : g ∈ gs) (hd : (gs.map Prod.snd).Nodup)
    (hfree : attrs[rgwAttrPrefix ++ g.2]? = none) :
    (gs.foldl (addGeneric headers) attrs)[rgwAttrPrefix ++ g.2]? = headers.get g.1.val := by
  induction gs generalizing attrs with
  | nil => cases hg
  | cons f gs ih =>
    rw [List.map_cons, List.nodup_cons] at hd
    rw [List.foldl_cons]
    rcases List.mem_cons.mp hg with rfl | hg
    · have hother : ∀ f ∈ gs, rgwAttrPrefix ++ f.2 ≠ rgwAttrPrefix ++ g.2 := by
        intro f hf he
        apply hd.1
        rw [← List.append_cancel_left he]
        exact List.mem_map_of_mem hf
      rw [foldl_addGeneric headers gs _ _ hother, addGeneric]
      cases headers.get g.1.val with
      | none => exact hfree
      | some v =>
        dsimp only
        rw [getElem?_insert_eq, if_pos rfl]
    · apply ih _ hg hd.2
      have hne : rgwAttrPrefix ++ f.2 ≠ rgwAttrPrefix ++ g.2 := by
        intro he
        apply hd.1
        rw [List.append_cancel_left he]
        exact List.mem_map_of_mem hg
      rw [addGeneric]
      cases headers.get f.1.val with
      | none => exact hfree
      | some v =>
        dsimp only
        rw [getElem?_insert_eq, if_neg hne]
        exact hfree

end Lookups

section Attributes

variable (headers : HeaderMap)

theorem generic_keys : ∀ g ∈ genericAttrs, rgwAttrPrefix ++ g.2 ≠ rgwAttrContentType ∧
    rgwAttrPrefix ++ g.2 ≠ rgwAttrStorageClass ∧ ¬rgwAttrMetaPrefix <+: rgwAttrPrefix ++ g.2 := by
  decide

theorem generic_ne_meta (s : Str) : ∀ g ∈ genericAttrs, rgwAttrPrefix ++ g.2 ≠ rgwAttrMetaPrefix ++
    s := by
  intro g hg he
  apply (generic_keys g hg).2.2
  rw [he]
  exact List.prefix_append _ _

/-- The attributes before the storage class is added to them. -/
def baseAttrs : Attrs :=
  genericAttrs.foldl (addGeneric headers) (headers.entries.foldl addMetadata
    (Std.ExtTreeMap.insert ∅ rgwAttrContentType
      ((headers.get contentType.val).getD defaultContentType)))

theorem putAttrs_other {key : Str} (hk : rgwAttrStorageClass ≠ key) :
    (putAttrs headers)[key]? = (baseAttrs headers)[key]? := by
  rw [putAttrs, ← baseAttrs]
  cases headers.get amzStorageClass.val with
  | none => rfl
  | some v =>
    dsimp only
    rw [getElem?_insert_eq, if_neg hk]

theorem initialAttrs_other {v key : Str} (hk : rgwAttrContentType ≠ key) :
    ((Std.ExtTreeMap.insert ∅ rgwAttrContentType v : Attrs))[key]? = none := by
  rw [getElem?_insert_eq, if_neg hk]
  exact Std.ExtTreeMap.getElem?_empty

theorem putAttrs_meta (s : Str) :
    (putAttrs headers)[rgwAttrMetaPrefix ++ s]? = joined (headers.getAll (amzMeta ++ s)) := by
  have hclass : rgwAttrStorageClass ≠ rgwAttrMetaPrefix ++ s := by
    intro he
    have hpre : ¬rgwAttrMetaPrefix <+: rgwAttrStorageClass := by decide
    exact hpre (he ▸ List.prefix_append _ _)
  have htype : rgwAttrContentType ≠ rgwAttrMetaPrefix ++ s := by
    intro he
    have hpre : ¬rgwAttrMetaPrefix <+: rgwAttrContentType := by decide
    exact hpre (he ▸ List.prefix_append _ _)
  rw [putAttrs_other headers hclass, baseAttrs, foldl_addGeneric headers _ _ _ (generic_ne_meta s),
    foldl_addMetadata_meta, initialAttrs_other htype, foldl_joinMore_none]

theorem putAttrs_contentType : (putAttrs headers)[rgwAttrContentType]? =
    some ((headers.get contentType.val).getD defaultContentType) := by
  rw [putAttrs_other headers (by decide), baseAttrs,
    foldl_addGeneric headers _ _ _ fun g hg => (generic_keys g hg).1,
    foldl_addMetadata_other _ _ (by decide), getElem?_insert_eq, if_pos rfl]

theorem putAttrs_generic {g : HeaderName × Str} (hg : g ∈ genericAttrs) :
    (putAttrs headers)[rgwAttrPrefix ++ g.2]? = headers.get g.1.val := by
  obtain ⟨htype, hclass, hmeta⟩ := generic_keys g hg
  rw [putAttrs_other headers hclass.symm, baseAttrs, foldl_addGeneric_self headers _ hg (by decide)]
  rw [foldl_addMetadata_other _ _ hmeta, initialAttrs_other htype.symm]

end Attributes

end StoredAttrs
