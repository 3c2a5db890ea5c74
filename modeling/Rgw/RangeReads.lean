import Rgw.ObjectReads

/-! # Ranges of an object

The driver resolves a range to read the bytes; a request without data resolves it on its own.
They agree on every range that a header can ask for, and neither leaves the 64-bit numbers. -/
namespace RangeReads

open ByteStrings TextCodecs RgwTypes RgwSal RgwSalSqlite Http HeaderMaps RestS3Wire RestS3Handlers
  StoreRefinement ObjectResponses ObjectRequests ObjectReads
open RgwAuth (Identity)

section Resolvers

variable {range : ByteRange} {size first last : ℕ}

/-- A range that does not end before it starts. -/
def Ordered : ByteRange → Prop
  | .absolute start (some last) => start ≤ last
  | _ => True

theorem parseRange_ordered {header : Str} (h : parseRange header = some range) : Ordered range := by
  rw [parseRange] at h
  obtain ⟨spec, -, h⟩ := Option.bind_eq_some_iff.mp h
  dsimp only at h
  split at h
  · cases h
  obtain ⟨⟨start, last⟩, -, h⟩ := Option.bind_eq_some_iff.mp h
  dsimp only at h
  split at h
  · obtain ⟨n, -, h⟩ := Option.bind_eq_some_iff.mp h
    cases h
    trivial
  obtain ⟨n, -, h⟩ := Option.bind_eq_some_iff.mp h
  split at h
  · cases h
    trivial
  obtain ⟨m, -, h⟩ := Option.bind_eq_some_iff.mp h
  split at h
  · next hle =>
    cases h
    exact hle
  · cases h

theorem requestedRange_ordered {headers : HeaderMap} (h : requestedRange headers = some range) :
    Ordered range := by
  obtain ⟨header, -, h⟩ := Option.bind_eq_some_iff.mp h
  exact parseRange_ordered h

/-- The two differ on ranges that end before they start only. -/
theorem resolveRange_agree (h : Ordered range) : RgwSalSqlite.resolveRange range size =
    (RestS3Wire.resolveRange range size).elim (.error .invalidRange) .ok := by
  rw [RgwSalSqlite.resolveRange, RestS3Wire.resolveRange]
  by_cases hsize : size = 0
  · rw [if_pos hsize, if_pos hsize]
    rfl
  rw [if_neg hsize, if_neg hsize]
  cases range with
  | absolute start end_ =>
    dsimp only
    by_cases hstart : start ≤ size - 1
    · have hin : ¬(start > size - 1 ∨ (end_.elim (size - 1) fun e => min e (size - 1)) < start) := by
        cases end_ with
        | none =>
          rw [Option.elim_none]
          omega
        | some e =>
          have hle : start ≤ e := h
          rw [Option.elim_some]
          omega
      rw [if_neg hin, if_pos hstart]
      rfl
    · rw [if_pos (by omega), if_neg hstart]
      rfl
  | suffix n =>
    cases n with
    | zero => rfl
    | succ n =>
      have hstart : size - min (n + 1) size = size - (n + 1) := by omega
      change Except.ok (size - min (n + 1) size, size - 1) = _
      rw [hstart]
      rfl

end Resolvers

section Arithmetic

def checkedSub (a b : ℕ) : Option ℕ := if b ≤ a then some (a - b) else none
def checkedAdd (a b : ℕ) : Option ℕ := if a + b < 2 ^ 64 then some (a + b) else none

theorem checkedSub_ok {a b : ℕ} (h : b ≤ a) : checkedSub a b = some (a - b) := if_pos h
theorem checkedAdd_ok {a b : ℕ} (h : a + b < 2 ^ 64) : checkedAdd a b = some (a + b) := if_pos h

/-- The driver's resolver, with every operation on unsigned numbers checked. -/
def checkedDriverRange (range : ByteRange) (size : ℕ) : Option (RgwResult (ℕ × ℕ)) :=
  if size = 0 then some (.error .invalidRange)
  else (checkedSub size 1).bind fun last =>
    match range with
    | .absolute start end_ =>
      let end_ := end_.elim last fun e => min e last
      some (if start > last ∨ end_ < start then .error .invalidRange else .ok (start, end_))
    | .suffix 0 => some (.error .invalidRange)
    | .suffix n => (checkedSub size (min n size)).map fun start => .ok (start, last)

/-- The resolver of a reply without data. Its second subtraction saturates in the source. -/
def checkedRestRange (range : ByteRange) (size : ℕ) : Option (Option (ℕ × ℕ)) :=
  if size = 0 then some none
  else (checkedSub size 1).map fun last =>
    match range with
    | .absolute start end_ =>
      if start ≤ last then some (start, end_.elim last fun e => min e last) else none
    | .suffix 0 => none
    | .suffix n => some (size - n, last)

/-- The length of a partial reply. -/
def checkedLength (first last : ℕ) : Option ℕ := (checkedSub last first).bind fun n => checkedAdd n 1

/-- What the driver passes to `substr`. -/
def checkedSpan (first last : ℕ) : Option (RgwResult (ℤ × ℤ)) :=
  (checkedAdd first 1).bind fun start => (checkedLength first last).map fun len => do
    let start ← toI64 start
    let len ← toI64 len
    return (start, len)

/-- Nothing wraps and nothing is refused for its size. -/
structure Exact (range : ByteRange) (size : ℕ) : Prop where
  driver : checkedDriverRange range size = some (RgwSalSqlite.resolveRange range size)
  rest : checkedRestRange range size = some (RestS3Wire.resolveRange range size)
  span : ∀ first last, RgwSalSqlite.resolveRange range size = .ok (first, last) →
    checkedSpan first last = some (.ok (first + 1, last - first + 1)) ∧
    checkedLength first last = some (last - first + 1)

theorem exact_of_small {range : ByteRange} {size : ℕ} (small : size < 2 ^ 63) : Exact range size where
  driver := by
    rw [checkedDriverRange, RgwSalSqlite.resolveRange]
    by_cases hsize : size = 0
    · rw [if_pos hsize, if_pos hsize]
    rw [if_neg hsize, if_neg hsize, checkedSub_ok (by omega), Option.bind_some]
    cases range with
    | absolute start end_ => rfl
    | suffix n =>
      cases n with
      | zero => rfl
      | succ n =>
        change (checkedSub size (min (n + 1) size)).map _ = _
        rw [checkedSub_ok (Nat.min_le_right (n + 1) size)]
        rfl
  rest := by
    rw [checkedRestRange, RestS3Wire.resolveRange]
    by_cases hsize : size = 0
    · rw [if_pos hsize, if_pos hsize]
    rw [if_neg hsize, if_neg hsize, checkedSub_ok (by omega), Option.map_some]
    cases range with
    | absolute start end_ => rfl
    | suffix n => cases n <;> rfl
  span first last h := by
    obtain ⟨hle, hlt⟩ := resolveRange_bounds h
    have hlength : checkedLength first last = some (last - first + 1) := by
      rw [checkedLength, checkedSub_ok hle, Option.bind_some, checkedAdd_ok (by omega)]
    have hfirst : toI64 (first + 1) = .ok ((first + 1 : ℕ) : ℤ) := if_pos (by omega)
    have hlen : toI64 (last - first + 1) = .ok ((last - first + 1 : ℕ) : ℤ) := if_pos (by omega)
    refine ⟨?_, hlength⟩
    rw [checkedSpan, checkedAdd_ok (by omega), Option.bind_some, hlength, Option.map_some, hfirst,
      ok_bind, hlen, ok_bind]
    have hsub : ((last - first + 1 : ℕ) : ℤ) = (last : ℤ) - first + 1 := by omega
    rw [hsub]
    rfl

end Arithmetic

section Replies

variable {P : Platform} {identity : Identity} {bucketName key : Str} {headers : HeaderMap}
  {s : Tables} {bucket : BucketInfo} {o : StoredObject}

/-- One answer without data and one with it, to the same question. -/
structure Twins (P : Platform) (info : ObjectInfo) (data : Str) (span : Option (ℕ × ℕ))
    (head get : Response) : Prop where
  reply : ObjectReply P info span head
  status : get.status = head.status
  headers : get.headers = head.headers
  bare : head.body = .empty
  body : ∃ body, get.body = .object body ∧
    readBody body = .ok (span.elim data fun r => slice data r.1 r.2)
  within : ∀ first last, span = some (first, last) → first ≤ last ∧ last < data.length ∧
    (slice data first last).length = last - first + 1

/-- What the two requests come to. A record that cannot stand in headers is neither's to send. -/
inductive Agree (P : Platform) (info : ObjectInfo) (data : Str) (range : Option ByteRange) :
    Except OpError Response → Except OpError Response → Prop where
  | sent (span : Option (ℕ × ℕ)) (head get : Response)
      (resolved : range.mapM (RestS3Wire.resolveRange · data.length) = some span)
      (twins : Twins P info data span head get) : Agree P info data range (.ok head) (.ok get)
  | unsatisfiable (e : OpError) (resolved : range.mapM (RestS3Wire.resolveRange · data.length) = none)
      (err : e.err = .invalidRange)
      (size : e.headers.getAll contentRange.val = [bytes "bytes */" ++ decimal data.length]) :
      Agree P info data range (.error e) (.error e)
  | unsendable (e : OpError) (record : ¬Representable P info) :
      Agree P info data range (.error e) (.error e)

theorem invalidRange_spec (size : ℕ) : (invalidRange size).err = .invalidRange ∧
    (invalidRange size).headers.getAll contentRange.val = [bytes "bytes */" ++ decimal size] := by
  have hbytes : isHeaderValue (bytes "bytes */") = true := by decide
  have hv : isHeaderValue (bytes "bytes */" ++ decimal size) = true := by
    rw [isHeaderValue_append, hbytes, isHeaderValue_decimal]
    rfl
  rw [invalidRange, headerValue_ok hv]
  exact ⟨rfl, getAll_insert_self⟩

/-- The two replies to a range that was resolved. -/
theorem agree_sent {info : ObjectInfo} {data read : Str} {range : Option ByteRange}
    {span : Option (ℕ × ℕ)} {body : ObjectBody}
    (resolved : range.mapM (RestS3Wire.resolveRange · data.length) = some span)
    (hbody : readBody body = .ok read) (hread : read = span.elim data fun r => slice data r.1 r.2)
    (within : ∀ first last, span = some (first, last) → first ≤ last ∧ last < data.length) :
    Agree P info data range ((objectResponse P info span .empty).mapError .ofError)
      ((objectResponse P info span (.object body)).mapError .ofError) := by
  rw [objectResponse_body P info span (.object body)]
  cases hresp : objectResponse P info span .empty with
  | error e =>
    apply Agree.unsendable
    intro hr
    obtain ⟨resp, hok⟩ := objectResponse_ok hr span .empty
    rw [hok] at hresp
    cases hresp
  | ok head =>
    obtain ⟨reply, bare⟩ := objectResponse_reply hresp
    apply Agree.sent span head { head with body := .object body } resolved
    exact {
      reply := reply
      status := rfl
      headers := rfl
      bare := bare
      body := ⟨body, rfl, hread ▸ hbody⟩
      within := fun first last h => by
        obtain ⟨hle, hlt⟩ := within first last h
        exact ⟨hle, hlt, slice_length hle hlt⟩ }

theorem head_get_agree (P : Platform) (identity : Identity) (bucketName key : Str)
    (headHeaders getHeaders : HeaderMap)
    (same : headHeaders.get (bytes "range") = getHeaders.get (bytes "range"))
    (hb : bucketFor identity bucketName s = .ok bucket)
    (held : Held P.md5 s bucket.bucket.bucketId key o) : ∃ head get,
    (RestS3Handlers.getObject P identity bucketName key headHeaders false).run.run (exec P.md5) s =
      some (head, s) ∧
    (RestS3Handlers.getObject P identity bucketName key getHeaders true).run.run (exec P.md5) s =
      some (get, s) ∧
    Agree P (o.info P.md5 key) o.data (requestedRange headHeaders) head get ∧
    toI64 o.data.length = .ok (o.data.length : ℤ) ∧
    ∀ r, requestedRange headHeaders = some r → Exact r o.data.length := by
  have hrange : requestedRange getHeaders = requestedRange headHeaders := by
    rw [requestedRange, requestedRange, headerStr, headerStr, same]
  have hsize : (o.info P.md5 key).size = o.data.length := rfl
  have hhead := @run_head_held s o P identity bucketName key bucket headHeaders hb held
  have hget := @run_get_held s o P identity bucketName key bucket getHeaders hb held
  rw [hrange] at hget
  refine ⟨_, _, hhead, hget, ?_, if_pos held.small, fun r _ => exact_of_small held.small⟩
  cases hr : requestedRange headHeaders with
  | none => exact agree_sent rfl (readBody_bytes o.data) rfl fun _ _ h => by cases h
  | some r =>
    have hagree := @resolveRange_agree r o.data.length (requestedRange_ordered hr)
    rw [heldRead, hagree]
    change Agree P (o.info P.md5 key) o.data (some r) (headReply P (o.info P.md5 key) (some r)) _
    rw [headReply, hsize]
    cases hspan : RestS3Wire.resolveRange r o.data.length with
    | none =>
      obtain ⟨herr, hvalue⟩ := invalidRange_spec o.data.length
      apply Agree.unsatisfiable (invalidRange o.data.length) _ herr hvalue
      rw [Option.mapM_some, hspan]
      rfl
    | some span =>
      have hresolved : (some r).mapM (RestS3Wire.resolveRange · o.data.length) = some (some span) := by
        rw [Option.mapM_some, hspan]
        rfl
      apply agree_sent hresolved (readBody_bytes _) rfl
      rintro first last ⟨rfl⟩
      rw [hspan] at hagree
      exact resolveRange_bounds hagree

def lastThree : HeaderMap := ⟨[(⟨bytes "range", by decide⟩, ⟨bytes "bytes=-3", by decide⟩)]⟩

/-- Alice asks for the last three bytes. -/
theorem head_get_agree_notes : ∃ head get,
    (RestS3Handlers.getObject (.ofTables [] [] []) aliceUser (bytes "docs") (bytes "notes") lastThree
      false).run.run (exec sampleMd5) withNotes = some (head, withNotes) ∧
    (RestS3Handlers.getObject (.ofTables [] [] []) aliceUser (bytes "docs") (bytes "notes") lastThree
      true).run.run (exec sampleMd5) withNotes = some (get, withNotes) ∧
    Agree (.ofTables [] [] []) (notes.info sampleMd5 (bytes "notes")) notes.data
      (requestedRange lastThree) head get ∧
    toI64 notes.data.length = .ok (notes.data.length : ℤ) ∧
    ∀ r, requestedRange lastThree = some r → Exact r notes.data.length :=
  head_get_agree (.ofTables [] [] []) aliceUser (bytes "docs") (bytes "notes") lastThree lastThree rfl
    docs_alice notes_held

end Replies

end RangeReads
