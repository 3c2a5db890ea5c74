import Rgw.ObjectRequests
import Rgw.OwnerIsolation
import Rgw.StoreRefinement

/-! # Reading a stored object

The driver's answers about one object, whole or in part, and the record that a request for
it makes of them. -/
namespace ObjectReads

open ByteStrings TextCodecs SortedMaps RgwTypes RgwSal RgwSalSqlite StoreInvariants StoreRefinement

variable {md5 : Str → Str} {s : Tables} {bucket : BucketKey} {name : Str} {o : StoredObject}

/-- The object of a name in a bucket. -/
structure Held (md5 : Str → Str) (s : Tables) (bucketId name : Str) (o : StoredObject) : Prop where
  bucket : bucketId ∈ s.buckets
  row : s.objects[(bucketId, name)]? = some (o.row md5)
  small : o.data.length < 2 ^ 63

theorem held_put (hid : bucket.bucketId ∈ s.buckets) (small : o.data.length < 2 ^ 63) :
    Held md5 (withObject s bucket.bucketId name (o.row md5)) bucket.bucketId name o where
  bucket := hid
  row := by rw [withObject, getElem?_insert_eq, if_pos rfl]
  small := small

theorem wellFormed_held (wf : WellFormed md5 s) {bucketId : Str} {row : ObjectCols}
    (h : s.objects[(bucketId, name)]? = some row) :
    ∃ o, row = o.row md5 ∧ Held md5 s bucketId name o := by
  obtain ⟨hid, owner, attrs, data, now, hsmall, rfl⟩ := wf.objectRows bucketId name row h
  exact ⟨⟨data, owner, attrs, now⟩, rfl, hid, h, hsmall⟩

theorem held_loadObject (h : Held md5 s bucket.bucketId name o) :
    loadObject bucket.bucketId name s = .ok (o.info md5 name) := by
  have hbucket : checkBucket bucket.bucketId s = .ok () := if_pos h.bucket
  rw [loadObject, hbucket, ok_bind, h.row]
  exact intoInfo_row name o

theorem readBody_bytes (data : Str) : readBody (bodyFromBytes data) = .ok data := by
  have hflat : readBody (bodyFromBytes data) = .ok (data ++ []) := rfl
  rw [hflat, List.append_nil]

section Ranges

variable {range : ByteRange} {size first last : ℕ}

theorem resolveRange_bounds (h : resolveRange range size = .ok (first, last)) :
    first ≤ last ∧ last < size := by
  rw [resolveRange] at h
  by_cases hsize : size = 0
  · rw [if_pos hsize] at h
    cases h
  rw [if_neg hsize] at h
  cases range with
  | absolute start end_ =>
    dsimp only at h
    split at h
    · cases h
    · next hin =>
      cases h
      rw [not_or, Nat.not_lt, Nat.not_lt] at hin
      refine ⟨hin.2, ?_⟩
      cases end_ with
      | none => exact Nat.sub_lt (Nat.pos_of_ne_zero hsize) Nat.one_pos
      | some e =>
        have hmin : min e (size - 1) ≤ size - 1 := Nat.min_le_right e (size - 1)
        change min e (size - 1) < size
        omega
  | suffix n =>
    cases n with
    | zero => cases h
    | succ n =>
      cases h
      constructor <;> omega

/-- The bytes from one position through another. -/
def slice (data : Str) (first last : ℕ) : Str := (data.drop first).take (last - first + 1)

theorem slice_length {data : Str} (hle : first ≤ last) (hlt : last < data.length) :
    (slice data first last).length = last - first + 1 := by
  rw [slice, List.length_take, List.length_drop]
  omega

/-- A driver's answer to a read, once the range is resolved. -/
def heldRead (md5 : Str → Str) (name : Str) (o : StoredObject) : Option ByteRange → RgwResult ObjectRead
  | none => .ok ⟨o.info md5 name, none, bodyFromBytes o.data⟩
  | some r => (resolveRange r o.data.length).map fun span =>
    ⟨o.info md5 name, some span, bodyFromBytes (slice o.data span.1 span.2)⟩

theorem held_getObject (h : Held md5 s bucket.bucketId name o) (range : Option ByteRange) :
    getObject bucket (.new name) range s = heldRead md5 name o range := by
  have hrow := h.row
  have hsmall := h.small
  have hname : (ObjectKey.new name).name = name := rfl
  cases range with
  | none => exact getObject_whole (held_loadObject h) hrow hsmall
  | some r =>
    have hsize : (o.info md5 name).size = o.data.length := rfl
    rw [getObject, hname, held_loadObject h, ok_bind, heldRead, Option.mapM_some, hsize]
    cases hresolve : resolveRange r o.data.length with
    | error e => rfl
    | ok span =>
      obtain ⟨first, last⟩ := span
      obtain ⟨hle, hlt⟩ := resolveRange_bounds hresolve
      have hfirst : toI64 (first + 1) = .ok ((first + 1 : ℕ) : ℤ) := if_pos (by omega)
      have hlen : toI64 (last - first + 1) = .ok ((last - first + 1 : ℕ) : ℤ) := if_pos (by omega)
      have hne : o.data ≠ [] := by
        intro hnil
        rw [hnil] at hlt
        exact Nat.not_lt_zero last hlt
      have hsub : substrBlob (o.row md5).data ((first + 1 : ℕ) : ℤ) ((last - first + 1 : ℕ) : ℤ) =
          .ok (slice o.data first last) := by
        rw [substrBlob, StoredObject.row, objectRow, if_neg hne, Int.toNat_natCast, Int.toNat_natCast,
          Nat.add_sub_cancel, slice]
      have hpos : ((last - first + 1 : ℕ) : ℤ) ≠ 0 := by omega
      simp only [map_eq_pure_bind, pure_ok, ok_bind, hfirst, hlen, hrow, hsub, if_neg hpos]
      rfl

end Ranges

section Requests

open Http ObjectRequests
open RestS3Handlers (requestedRange objectResponse)
open RestS3Wire (Response)
open RgwAuth (Identity)

variable {P : Platform} {identity : Identity} {bucketName key : Str} {bucket : BucketInfo}
  {headers : HeaderMap} {resp : Response}

/-- A request for a held object without its data. -/
theorem run_head_held (hb : bucketFor identity bucketName s = .ok bucket)
    (held : Held P.md5 s bucket.bucket.bucketId key o) :
    (RestS3Handlers.getObject P identity bucketName key headers false).run.run (exec P.md5) s =
      some (headReply P (o.info P.md5 key) (requestedRange headers), s) := by
  have hinfo : headObject bucket.bucket (.new key) s = .ok (o.info P.md5 key) :=
    held_loadObject held
  rw [run_head P identity bucketName key headers hb, hinfo]
  rfl

/-- A request for it with the data. -/
theorem run_get_held (hb : bucketFor identity bucketName s = .ok bucket)
    (held : Held P.md5 s bucket.bucket.bucketId key o) :
    (RestS3Handlers.getObject P identity bucketName key headers true).run.run (exec P.md5) s =
      some (getReply P (heldRead P.md5 key o (requestedRange headers)) (.ok (o.info P.md5 key)), s) := by
  have hinfo : headObject bucket.bucket (.new key) s = .ok (o.info P.md5 key) :=
    held_loadObject held
  rw [run_get P identity bucketName key headers hb, hinfo, held_getObject held]

theorem mapError_eq_ok {ε ε' α : Type} {f : ε → ε'} {x : Except ε α} {a : α} :
    x.mapError f = .ok a ↔ x = .ok a := by
  cases x with
  | error e => simp [Except.mapError]
  | ok b => simp [Except.mapError]

theorem headReply_sent {info : ObjectInfo} {range : Option ByteRange}
    (h : headReply P info range = .ok resp) :
    ∃ span body, objectResponse P info span body = .ok resp := by
  cases range with
  | none => exact ⟨none, .empty, mapError_eq_ok.mp h⟩
  | some r =>
    rw [headReply] at h
    split at h
    · next span _ => exact ⟨some span, .empty, mapError_eq_ok.mp h⟩
    · cases h

theorem getReply_sent {read : RgwResult ObjectRead} {info : RgwResult ObjectInfo}
    (h : getReply P read info = .ok resp) : ∃ found, read = .ok found ∧
      objectResponse P found.info found.range (.object found.body) = .ok resp := by
  cases read with
  | ok found => exact ⟨found, rfl, mapError_eq_ok.mp h⟩
  | error e =>
    cases e with
    | invalidRange =>
      obtain ⟨found, -, h⟩ := bind_eq_ok.mp h
      cases h
    | _ => cases h

theorem heldRead_info {range : Option ByteRange} {found : ObjectRead}
    (h : heldRead md5 name o range = .ok found) : found.info = o.info md5 name := by
  cases range with
  | none =>
    cases h
    rfl
  | some r =>
    rw [heldRead] at h
    cases hspan : resolveRange r o.data.length with
    | error e =>
      rw [hspan] at h
      cases h
    | ok span =>
      rw [hspan] at h
      cases h
      rfl

/-- Whatever is sent for a held object is sent from its record. -/
theorem sent_held {getData : Bool} {s' : Tables}
    (hb : bucketFor identity bucketName s = .ok bucket)
    (held : Held P.md5 s bucket.bucket.bucketId key o)
    (h : (RestS3Handlers.getObject P identity bucketName key headers getData).run.run (exec P.md5) s =
      some (.ok resp, s')) :
    ∃ span body, objectResponse P (o.info P.md5 key) span body = .ok resp := by
  cases getData with
  | false =>
    rw [run_head_held hb held] at h
    exact headReply_sent (congrArg Prod.fst (Option.some.inj h))
  | true =>
    rw [run_get_held hb held] at h
    obtain ⟨found, hread, hsent⟩ := getReply_sent (congrArg Prod.fst (Option.some.inj h))
    rw [heldRead_info hread] at hsent
    exact ⟨_, _, hsent⟩

end Requests

section Samples

open OwnerIsolation ObjectRequests RestS3Handlers
open RgwAuth (Identity)

def aliceUser : Identity := .user ⟨alice, bytes "AKID"⟩

def notes : StoredObject := ⟨bytes "hello", ⟨alice.userId, []⟩, putAttrs .empty, 0⟩

/-- Alice's bucket with one object in it. -/
def withNotes : Tables :=
  withObject twoBuckets.1 docs.bucket.bucketId (bytes "notes") (notes.row sampleMd5)

theorem docs_there : docs.bucket.bucketId ∈ twoBuckets.1.buckets := by decide +kernel

theorem notes_held : Held sampleMd5 withNotes docs.bucket.bucketId (bytes "notes") notes :=
  held_put docs_there (by decide)

theorem docs_alice : bucketFor aliceUser (bytes "docs") twoBuckets.1 = .ok docs := by decide +kernel

end Samples

end ObjectReads
