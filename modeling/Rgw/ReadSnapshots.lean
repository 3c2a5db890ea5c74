import Rgw.StorageClasses

/-! # Reads among other connections

A read of an object is up to three statements. Outside a transaction each has a snapshot of the
file of its own, and another connection may commit before any of them. What is returned is of
one version when the bytes that the last statement finds are those that the second announced. -/
namespace ReadSnapshots

open ByteStrings TextCodecs Interaction RgwTypes RgwSal StoreInvariants StoreRefinement ObjectReads
  StorageClasses
open RgwSalSqlite hiding checkBucket loadObject getObject

section Statements

inductive Statement where
  | bucketRow (bucketId : Str)
  | objectRow (bucketId name : Str)
  | objectData (bucketId name : Str) (start len : ℤ)

/-- The row that a statement finds; the column of the data may be no blob. -/
@[reducible] def Statement.Row : Statement → Type
  | bucketRow _ => Option Unit
  | objectRow _ _ => Option ObjectRow
  | objectData _ _ _ _ => Option (RgwResult Str)

def Statement.rowIn (s : Tables) : (c : Statement) → c.Row
  | bucketRow bucketId => if bucketId ∈ s.buckets then some () else none
  | objectRow bucketId name => s.objects[(bucketId, name)]?.map (ObjectRow.fromRow name)
  | objectData bucketId name start len =>
    s.objects[(bucketId, name)]?.map fun row => substrBlob row.data start len

/-- What a connection does by statements that are no transaction together. -/
abbrev Read := ExceptT RgwError (Prog Statement Statement.Row)

def queryRow (c : Statement) : Read c.Row := ExceptT.mk (.call c fun row => .done (.ok row))

def checkBucket (bucketId : Str) : Read Unit := do
  match ← queryRow (.bucketRow bucketId) with
  | some () => pure ()
  | none => throw .noSuchBucket

def loadObject (bucketId name : Str) : Read ObjectInfo := do
  checkBucket bucketId
  match ← queryRow (.objectRow bucketId name) with
  | some row => row.intoInfo
  | none => throw .noSuchKey

/-- The end of a read, from the offsets of the bytes on. -/
def readData (bucketId name : Str) (info : ObjectInfo) (range : Option (ℕ × ℕ)) (start len : ℤ) :
    Read ObjectRead := do
  if len = 0 then return ⟨info, range, bodyFromBytes []⟩
  match ← queryRow (.objectData bucketId name start len) with
  | none => throw (internal "Query returned no rows")
  | some data =>
    let data ← data
    return ⟨info, range, bodyFromBytes data⟩

def getObject (bucket : BucketKey) (key : ObjectKey) (range : Option ByteRange) :
    Read ObjectRead := do
  let info ← loadObject bucket.bucketId key.name
  let range ← (range.mapM fun r => resolveRange r info.size : RgwResult (Option (ℕ × ℕ)))
  let (start, len) ← match range with
    | some (first, last) => do
      let start ← toI64 (first + 1)
      let len ← toI64 (last - first + 1)
      pure (start, len)
    | none => do
      let len ← toI64 info.size
      pure (1, len)
  readData bucket.bucketId key.name info range start len

/-- Each statement reads a snapshot of its own; the state counts the statements. -/
def snapshots (views : ℕ → Tables) : Exec Statement Statement.Row ℕ :=
  fun c n => (c.rowIn (views n), n + 1)

variable {views : ℕ → Tables} {n : ℕ}

@[simp] theorem run_queryRow (c : Statement) : (queryRow c).run.run (snapshots views) n =
    some (.ok (c.rowIn (views n)), n + 1) := rfl

theorem checkBucket_run (bucketId : Str) : (checkBucket bucketId).run.run (snapshots views) n =
    some (RgwSalSqlite.checkBucket bucketId (views n), n + 1) := by
  rw [checkBucket, run_except_bind, run_queryRow, Option.bind_some, RgwSalSqlite.checkBucket]
  by_cases hb : bucketId ∈ (views n).buckets
  · simp only [Statement.rowIn, hb, ↓reduceIte]
    rfl
  · simp only [Statement.rowIn, hb, ↓reduceIte]
    rfl

theorem loadObject_absent {bucketId name : Str} (hb : bucketId ∉ (views n).buckets) :
    (loadObject bucketId name).run.run (snapshots views) n = some (.error .noSuchBucket, n + 1) := by
  have hcheck : RgwSalSqlite.checkBucket bucketId (views n) = .error .noSuchBucket := if_neg hb
  rw [loadObject, run_except_bind, checkBucket_run, hcheck]
  rfl

theorem loadObject_run {bucketId name : Str} (hb : bucketId ∈ (views n).buckets) :
    (loadObject bucketId name).run.run (snapshots views) n =
      some ((views (n + 1)).objects[(bucketId, name)]?.elim (.error .noSuchKey)
        fun row => (ObjectRow.fromRow name row).intoInfo, n + 2) := by
  have hcheck : RgwSalSqlite.checkBucket bucketId (views n) = .ok () := if_pos hb
  rw [loadObject, run_except_bind, checkBucket_run, hcheck, Option.bind_some]
  dsimp only
  rw [run_except_bind, run_queryRow, Option.bind_some]
  dsimp only [Statement.rowIn]
  cases (views (n + 1)).objects[(bucketId, name)]? with
  | none => rfl
  | some row => rfl

/-- The bytes that the last statement asks for, by the span and the size announced. -/
def window (span : Option (ℕ × ℕ)) (size : ℕ) (data : Str) : Str :=
  span.elim (data.take size) fun r => slice data r.1 r.2

/-- What the last statement makes of the row that it finds. -/
def dataRead (info : ObjectInfo) (span : Option (ℕ × ℕ)) : Option ObjectCols → RgwResult ObjectRead
  | none => .error (internal "Query returned no rows")
  | some row =>
    if row.data = [] then
      .error (internal "Invalid column type Null at index: 0, name: substr(data, ?3, ?4)")
    else .ok ⟨info, span, bodyFromBytes (window span info.size row.data)⟩

theorem resolveSpan_bounds {range : Option ByteRange} {size first last : ℕ}
    (h : range.mapM (fun r => resolveRange r size) = .ok (some (first, last))) :
    first ≤ last ∧ last < size := by
  cases range with
  | none => cases h
  | some r =>
    rw [Option.mapM_some] at h
    cases hr : resolveRange r size with
    | error e =>
      rw [hr] at h
      cases h
    | ok span =>
      rw [hr] at h
      cases h
      exact resolveRange_bounds hr

@[simp] theorem run_ok_bind {α β : Type} (a : α) (f : α → Read β) :
    ((liftM (.ok a : RgwResult α) : Read α) >>= f).run.run (snapshots views) n =
      (f a).run.run (snapshots views) n := rfl

/-- From the offsets on there is nothing to read, or the data. -/
theorem readData_run {bucketId name : Str} {info : ObjectInfo} {span : Option (ℕ × ℕ)} {start len : ℤ}
    (hlen : len = 0 ↔ info.size = 0)
    (hwindow : ∀ data : Str, (data.drop (start.toNat - 1)).take len.toNat = window span info.size data) :
    ((readData bucketId name info span start len).run.run (snapshots views) n).map Prod.fst =
      some (if info.size = 0 then .ok ⟨info, span, bodyFromBytes []⟩
        else dataRead info span (views n).objects[(bucketId, name)]?) := by
  rw [readData]
  by_cases hzero : info.size = 0
  · rw [if_pos hzero, if_pos (hlen.mpr hzero)]
    rfl
  · rw [if_neg hzero, if_neg (mt hlen.mp hzero), run_except_bind, run_queryRow, Option.bind_some]
    dsimp only [Statement.rowIn]
    cases (views n).objects[(bucketId, name)]? with
    | none => rfl
    | some row =>
      rw [dataRead, ← hwindow]
      dsimp only [Option.map_some]
      rw [substrBlob]
      by_cases hnil : row.data = []
      · rw [if_pos hnil, if_pos hnil]
        rfl
      · rw [if_neg hnil, if_neg hnil]
        rfl

/-- Past the metadata: a range that is refused, an empty object, or the data. -/
theorem getObject_run {bucket : BucketKey} {key : ObjectKey} {range : Option ByteRange}
    {info : ObjectInfo} (hload : (loadObject bucket.bucketId key.name).run.run (snapshots views) 0 =
      some (.ok info, 2)) (hsmall : info.size < 2 ^ 63) :
    ((getObject bucket key range).run.run (snapshots views) 0).map Prod.fst =
      some (match range.mapM (fun r => resolveRange r info.size) with
        | .error e => .error e
        | .ok span => if info.size = 0 then .ok ⟨info, span, bodyFromBytes []⟩
          else dataRead info span (views 2).objects[(bucket.bucketId, key.name)]?) := by
  rw [getObject, run_except_bind, hload, Option.bind_some]
  dsimp only
  cases hspan : range.mapM (fun r => resolveRange r info.size) with
  | error e => rfl
  | ok span =>
    rw [run_ok_bind]
    cases span with
    | none =>
      have hlen : toI64 info.size = .ok (info.size : ℤ) := if_pos hsmall
      dsimp only
      rw [hlen, run_ok_bind, pure_bind]
      dsimp only
      refine readData_run Int.natCast_eq_zero fun data => ?_
      rw [Int.toNat_natCast]
      rfl
    | some span =>
      obtain ⟨first, last⟩ := span
      obtain ⟨hle, hlt⟩ := resolveSpan_bounds hspan
      have hfirst : toI64 (first + 1) = .ok ((first + 1 : ℕ) : ℤ) := if_pos (by omega)
      have hlen : toI64 (last - first + 1) = .ok ((last - first + 1 : ℕ) : ℤ) := if_pos (by omega)
      dsimp only
      have hsome : ((last - first + 1 : ℕ) : ℤ) = 0 ↔ info.size = 0 := by omega
      rw [hfirst, hlen, run_ok_bind, run_ok_bind, pure_bind]
      dsimp only
      refine readData_run hsome fun data => ?_
      rw [Int.toNat_natCast, Int.toNat_natCast, Nat.add_sub_cancel]
      rfl

end Statements

section Versions

variable {md5 : Str → Str} {name : Str} {o : StoredObject} {range : Option ByteRange} {info : ObjectInfo}
  {span : Option (ℕ × ℕ)}

theorem resolveRange_error {r : ByteRange} {size : ℕ} {e : RgwError}
    (h : resolveRange r size = .error e) : e = .invalidRange := by
  rw [resolveRange] at h
  split at h
  · cases h
    rfl
  · cases r with
    | absolute start end_ =>
      dsimp only at h
      split at h
      · cases h
        rfl
      · cases h
    | suffix n =>
      cases n with
      | zero =>
        cases h
        rfl
      | succ n => cases h

theorem resolveSpan_error {size : ℕ} {e : RgwError}
    (h : range.mapM (fun r => resolveRange r size) = .error e) : e = .invalidRange := by
  cases range with
  | none => cases h
  | some r =>
    rw [Option.mapM_some] at h
    cases hr : resolveRange r size with
    | error e' =>
      rw [hr] at h
      cases h
      exact resolveRange_error hr
    | ok span =>
      rw [hr] at h
      cases h

theorem window_nil (size : ℕ) : window span size [] = [] := by
  cases span with
  | none => exact List.take_nil
  | some span => rw [window, Option.elim_some, slice, List.drop_nil, List.take_nil]

/-- The bytes of a span are as many as it announces. -/
theorem window_length {size : ℕ} {data : Str}
    (hspan : range.mapM (fun r => resolveRange r size) = .ok span) (hsize : data.length = size) :
    (window span size data).length = span.elim size fun r => r.2 - r.1 + 1 := by
  cases span with
  | none =>
    rw [window, Option.elim_none, Option.elim_none, List.length_take, hsize, Nat.min_self]
  | some span =>
    obtain ⟨first, last⟩ := span
    obtain ⟨hle, hlt⟩ := resolveSpan_bounds hspan
    rw [← hsize] at hlt
    exact slice_length hle hlt

/-- A read of a stored object gives its information, the range resolved and the bytes of it. -/
theorem heldRead_eq : heldRead md5 name o range =
    (range.mapM fun r => resolveRange r o.data.length).map fun span =>
      ⟨o.info md5 name, span, bodyFromBytes (window span o.data.length o.data)⟩ := by
  cases range with
  | none =>
    have hall : window none o.data.length o.data = o.data := List.take_length
    rw [heldRead, Option.mapM_none, pure_ok, Except.map, hall]
  | some r =>
    rw [heldRead, Option.mapM_some]
    cases resolveRange r o.data.length with
    | error e => rfl
    | ok span => rfl

theorem heldRead_ok {w : Str} : heldRead md5 name o range = .ok ⟨info, span, bodyFromBytes w⟩ ↔
    o.info md5 name = info ∧ range.mapM (fun r => resolveRange r info.size) = .ok span ∧
      window span info.size o.data = w := by
  have hsize : (o.info md5 name).size = o.data.length := rfl
  rw [heldRead_eq, ← hsize]
  constructor
  · intro h
    cases hspan : range.mapM (fun r => resolveRange r (o.info md5 name).size) with
    | error e =>
      rw [hspan] at h
      cases h
    | ok span' =>
      rw [hspan] at h
      obtain ⟨rfl, rfl, hbody⟩ := ObjectRead.mk.inj (Except.ok.inj h)
      exact ⟨rfl, hspan, Except.ok.inj (List.cons.inj hbody).1⟩
  · rintro ⟨rfl, hspan, rfl⟩
    rw [hspan]
    rfl

/-- How a read of a well-formed file ends. -/
inductive Ends (md5 : Str → Str) (views : ℕ → Tables) (bucketId name : Str) (range : Option ByteRange) :
    RgwResult ObjectRead → Prop where
  | noBucket (absent : bucketId ∉ (views 0).buckets) :
    Ends md5 views bucketId name range (.error .noSuchBucket)
  | noKey (bucket : bucketId ∈ (views 0).buckets) (absent : (views 1).objects[(bucketId, name)]? =
    none) :
      Ends md5 views bucketId name range (.error .noSuchKey)
  | refused (bucket : bucketId ∈ (views 0).buckets) (o : StoredObject)
      (held : Held md5 (views 1) bucketId name o) (e : RgwError)
      (span : range.mapM (fun r => resolveRange r o.data.length) = .error e) :
      Ends md5 views bucketId name range (.error e)
  | empty (bucket : bucketId ∈ (views 0).buckets) (o : StoredObject)
      (held : Held md5 (views 1) bucketId name o) (span : Option (ℕ × ℕ))
      (resolved : range.mapM (fun r => resolveRange r o.data.length) = .ok span)
      (nothing : o.data.length = 0) :
      Ends md5 views bucketId name range (.ok ⟨o.info md5 name, span, bodyFromBytes []⟩)
  | data (bucket : bucketId ∈ (views 0).buckets) (o : StoredObject)
      (held : Held md5 (views 1) bucketId name o) (span : Option (ℕ × ℕ))
      (resolved : range.mapM (fun r => resolveRange r o.data.length) = .ok span)
      (some : o.data.length ≠ 0) :
      Ends md5 views bucketId name range
        (dataRead (o.info md5 name) span (views 2).objects[(bucketId, name)]?)

theorem getObject_ends {views : ℕ → Tables} (wf : WellFormed md5 (views 1)) (bucket : BucketKey)
    (key : ObjectKey) (range : Option ByteRange) :
    ∃ r, ((getObject bucket key range).run.run (snapshots views) 0).map Prod.fst = some r ∧
      Ends md5 views bucket.bucketId key.name range r := by
  by_cases hb : bucket.bucketId ∈ (views 0).buckets
  · have hload := @loadObject_run views 0 bucket.bucketId key.name hb
    cases hrow : (views 1).objects[(bucket.bucketId, key.name)]? with
    | none =>
      rw [hrow] at hload
      refine ⟨_, ?_, .noKey hb hrow⟩
      rw [getObject, run_except_bind, hload]
      rfl
    | some row =>
      obtain ⟨o, rfl, held⟩ := wellFormed_held wf hrow
      rw [hrow, Option.elim_some, intoInfo_row] at hload
      refine ⟨_, getObject_run hload held.small, ?_⟩
      have hsize : (o.info md5 key.name).size = o.data.length := rfl
      rw [hsize]
      cases hspan : range.mapM (fun r => resolveRange r o.data.length) with
      | error e => exact .refused hb o held e hspan
      | ok span =>
        dsimp only
        split
        · next hzero => exact .empty hb o held span hspan hzero
        · next hsome => exact .data hb o held span hspan hsome
  · refine ⟨_, ?_, .noBucket hb⟩
    rw [getObject, run_except_bind, loadObject_absent hb]
    rfl

/-- With nothing in between the statements are the read of one state. -/
theorem getObject_alone {s : Tables} (wf : WellFormed md5 s) (bucket : BucketKey) (key : ObjectKey)
    (range : Option ByteRange) :
    ((getObject bucket key range).run.run (snapshots fun _ => s) 0).map Prod.fst =
      some (RgwSalSqlite.getObject bucket (.new key.name) range s) := by
  obtain ⟨r, hr, hends⟩ := @getObject_ends md5 (fun _ => s) wf bucket key range
  have hname : (ObjectKey.new key.name).name = key.name := rfl
  rw [hr]
  cases hends with
  | noBucket absent =>
    have hcheck : RgwSalSqlite.checkBucket bucket.bucketId s = .error .noSuchBucket := if_neg absent
    rw [RgwSalSqlite.getObject, RgwSalSqlite.loadObject, hcheck]
    rfl
  | noKey present absent =>
    have hcheck : RgwSalSqlite.checkBucket bucket.bucketId s = .ok () := if_pos present
    rw [RgwSalSqlite.getObject, RgwSalSqlite.loadObject, hcheck, hname, ok_bind, absent]
    rfl
  | refused _ o held e span =>
    rw [held_getObject held, heldRead_eq, span]
    rfl
  | empty _ o held span resolved nothing =>
    rw [held_getObject held, heldRead_eq, resolved, List.eq_nil_of_length_eq_zero nothing, Except.map,
      window_nil]
  | data _ o held span resolved some =>
    have hdata : (o.row md5).data ≠ [] := fun hnil => some (congrArg List.length hnil)
    rw [held_getObject held, heldRead_eq, resolved, held.row, dataRead, if_neg hdata]
    rfl

end Versions

section Interleavings

/-- Transactions of other connections, and where the statements of a read fall among them. -/
structure Interleaving where
  /-- What is committed, from the creation of the file on. -/
  log : List DriverCall
  /-- How much of it is committed when a statement reads. -/
  seen : ℕ → ℕ
  ordered : Monotone seen

namespace Interleaving

/-- The file after some of the transactions. -/
def state (I : Interleaving) (md5 : Str → Str) (n : ℕ) : Tables := execAll md5 (I.log.take n) .empty

/-- The snapshot of a statement. -/
def view (I : Interleaving) (md5 : Str → Str) (i : ℕ) : Tables := I.state md5 (I.seen i)

def read (I : Interleaving) (md5 : Str → Str) (bucket : BucketKey) (key : ObjectKey)
    (range : Option ByteRange) : Option (RgwResult ObjectRead) :=
  ((getObject bucket key range).run.run (snapshots (I.view md5)) 0).map Prod.fst

theorem state_wellFormed (I : Interleaving) (md5 : Str → Str) (n : ℕ) :
    WellFormed md5 (I.state md5 n) :=
  execAll_wellFormed _

/-- What a later state has on top of an earlier one. -/
theorem state_later (I : Interleaving) (md5 : Str → Str) {n m : ℕ} (h : n ≤ m) :
    I.state md5 m = execAll md5 ((I.log.take m).drop n) (I.state md5 n) := by
  have hfront : (I.log.take m).take n = I.log.take n := by
    rw [List.take_take, Nat.min_eq_left h]
  have hlog : I.log.take m = I.log.take n ++ (I.log.take m).drop n := by
    rw [← hfront, List.take_append_drop]
  calc I.state md5 m = execAll md5 (I.log.take n ++ (I.log.take m).drop n) .empty := by
        rw [state, ← hlog]
    _ = execAll md5 ((I.log.take m).drop n) (I.state md5 n) := List.foldl_append

end Interleaving

variable {md5 : Str → Str} {I : Interleaving} {bucketId name : Str} {range : Option ByteRange}

/-- As many bytes as the range or the size announces. -/
def Announced (read : ObjectRead) : Prop := ∃ data, readBody read.body = .ok data ∧
  data.length = read.range.elim read.info.size fun r => r.2 - r.1 + 1

/-- Something that was committed by the last statement holds all that is returned; or the call
fails as it may. -/
def OneVersion (md5 : Str → Str) (I : Interleaving) (bucketId name : Str) (range : Option ByteRange) :
    RgwResult ObjectRead → Prop
  | .ok read => Announced read ∧ ∃ n ≤ I.seen 2, ∃ o, Held md5 (I.state md5 n) bucketId name o ∧
      heldRead md5 name o range = .ok read
  | .error e => e = .noSuchBucket ∨ e = .noSuchKey ∨ e = .invalidRange

/-- The last statement finds, where it is to read, the bytes of a committed row that tells of
itself what the second statement read. -/
def Intact (md5 : Str → Str) (I : Interleaving) (bucketId name : Str) (range : Option ByteRange)
    (row : ObjectCols) : Prop :=
  ∃ found, (I.view md5 2).objects[(bucketId, name)]? = some found ∧
    ∃ n ≤ I.seen 2, ∃ row', (I.state md5 n).objects[(bucketId, name)]? = some row' ∧
      (ObjectRow.fromRow name row').intoInfo = (ObjectRow.fromRow name row).intoInfo ∧
      ∀ span, range.mapM (fun r => resolveRange r row.size.toNat) = .ok span →
        window span row.size.toNat found.data = window span row.size.toNat row'.data

/-- There is no bucket, no object or nothing to read of it, or what there is stays to be read. -/
def Unbroken (md5 : Str → Str) (I : Interleaving) (bucketId name : Str) (range : Option ByteRange) :
    Prop :=
  bucketId ∉ (I.view md5 0).buckets ∨ (I.view md5 1).objects[(bucketId, name)]? = none ∨
    ∃ row, (I.view md5 1).objects[(bucketId, name)]? = some row ∧
      (row.size = 0 ∨ (∃ e, range.mapM (fun r => resolveRange r row.size.toNat) = .error e) ∨
        Intact md5 I bucketId name range row)

/-- Where there is something to read, it has to stay. -/
theorem unbroken_held {o : StoredObject} {span : Option (ℕ × ℕ)}
    (bucket : bucketId ∈ (I.view md5 0).buckets) (held : Held md5 (I.view md5 1) bucketId name o)
    (resolved : range.mapM (fun r => resolveRange r o.data.length) = .ok span)
    (some : o.data.length ≠ 0) :
    Unbroken md5 I bucketId name range ↔ Intact md5 I bucketId name range (o.row md5) := by
  constructor
  · rintro (absent | absent | ⟨row, hrow, hread⟩)
    · exact absurd bucket absent
    · rw [held.row] at absent
      cases absent
    · rw [held.row] at hrow
      obtain rfl := Option.some.inj hrow
      rcases hread with hzero | ⟨e, hrefused⟩ | hintact
      · exact absurd (Int.natCast_eq_zero.mp hzero) some
      · have hrefused' : range.mapM (fun r => resolveRange r o.data.length) = .error e := hrefused
        rw [resolved] at hrefused'
        cases hrefused'
      · exact hintact
  · exact fun hintact => Or.inr (Or.inr ⟨_, held.row, Or.inr (Or.inr hintact)⟩)

/-- The rows that tell the same of themselves are of objects with the same information. -/
theorem info_eq {o o' : StoredObject} (h : (ObjectRow.fromRow name (o'.row md5)).intoInfo =
    (ObjectRow.fromRow name (o.row md5)).intoInfo) : o'.info md5 name = o.info md5 name := by
  rw [intoInfo_row, intoInfo_row] at h
  exact Except.ok.inj h

/-- The bytes that the last statement finds are those of one version exactly when they stayed. -/
theorem data_iff {o : StoredObject} {span : Option (ℕ × ℕ)}
    (resolved : range.mapM (fun r => resolveRange r o.data.length) = .ok span)
    (some : o.data.length ≠ 0) :
    OneVersion md5 I bucketId name range
        (dataRead (o.info md5 name) span (I.view md5 2).objects[(bucketId, name)]?) ↔
      Intact md5 I bucketId name range (o.row md5) := by
  cases hfound : (I.view md5 2).objects[(bucketId, name)]? with
  | none =>
    refine iff_of_false ?_ ?_
    · rintro (h | h | h) <;> cases h
    · rintro ⟨found, hrow, -⟩
      rw [hfound] at hrow
      cases hrow
  | some found =>
    rw [dataRead]
    split
    · next hnil =>
      refine iff_of_false ?_ ?_
      · rintro (h | h | h) <;> cases h
      · -- nothing is no bytes of an object that has some
        rintro ⟨found', hrow, n, -, row', hrow', hinfo, hbytes⟩
        rw [hfound] at hrow
        obtain rfl := Option.some.inj hrow
        obtain ⟨o', rfl, -⟩ := wellFormed_held (I.state_wellFormed md5 n) hrow'
        have hsize : o'.data.length = o.data.length := congrArg ObjectInfo.size (info_eq hinfo)
        have hsame := congrArg List.length (hbytes span resolved)
        rw [hnil, window_nil] at hsame
        have hpos : 0 < (window span o.data.length o'.data).length := by
          rw [window_length resolved hsize]
          cases span with
          | none => exact Nat.pos_of_ne_zero some
          | some span => exact Nat.succ_pos _
        exact absurd hsame (Nat.ne_of_lt hpos)
    · next hdata =>
      constructor
      · rintro ⟨-, n, hn, o', held', hread⟩
        obtain ⟨hinfo, -, hbytes⟩ := heldRead_ok.mp hread
        refine ⟨found, hfound, n, hn, o'.row md5, held'.row, ?_, fun span' hspan => ?_⟩
        · rw [intoInfo_row, intoInfo_row, hinfo]
        · have hspan' : range.mapM (fun r => resolveRange r o.data.length) = .ok span' := hspan
          rw [resolved] at hspan'
          obtain rfl := Except.ok.inj hspan'
          exact hbytes.symm
      · rintro ⟨found', hrow, n, hn, row', hrow', hinfo, hbytes⟩
        rw [hfound] at hrow
        obtain rfl := Option.some.inj hrow
        obtain ⟨o', rfl, held'⟩ := wellFormed_held (I.state_wellFormed md5 n) hrow'
        have hsize : o'.data.length = o.data.length := congrArg ObjectInfo.size (info_eq hinfo)
        have hsame : window span o.data.length found.data = window span o.data.length o'.data :=
          hbytes span resolved
        refine ⟨⟨_, readBody_bytes _, ?_⟩, n, hn, o', held',
          heldRead_ok.mpr ⟨info_eq hinfo, resolved, ?_⟩⟩
        · exact (congrArg List.length hsame).trans (window_length resolved hsize)
        · exact hsame.symm

/-- Exactly the reads that are not broken are of one version. -/
theorem one_version_iff (md5 : Str → Str) (I : Interleaving) (bucket : BucketKey) (key : ObjectKey)
    (range : Option ByteRange) : ∃ r, I.read md5 bucket key range = some r ∧
      (OneVersion md5 I bucket.bucketId key.name range r ↔
        Unbroken md5 I bucket.bucketId key.name range) := by
  obtain ⟨r, hr, hends⟩ :=
    @getObject_ends md5 (I.view md5) (I.state_wellFormed md5 (I.seen 1)) bucket key range
  refine ⟨r, hr, ?_⟩
  cases hends with
  | noBucket absent => exact iff_of_true (Or.inl rfl) (Or.inl absent)
  | noKey _ absent => exact iff_of_true (Or.inr (Or.inl rfl)) (Or.inr (Or.inl absent))
  | refused _ o held e span =>
    refine iff_of_true (Or.inr (Or.inr (resolveSpan_error span))) (Or.inr (Or.inr ?_))
    exact ⟨_, held.row, Or.inr (Or.inl ⟨e, span⟩)⟩
  | empty _ o held span resolved nothing =>
    refine iff_of_true ?_ (Or.inr (Or.inr ⟨_, held.row, Or.inl (Int.natCast_eq_zero.mpr nothing)⟩))
    have hnil := List.eq_nil_of_length_eq_zero nothing
    have hbytes : window span (o.info md5 key.name).size o.data = [] := by rw [hnil, window_nil]
    refine ⟨⟨[], readBody_bytes [], ?_⟩, I.seen 1, I.ordered (Nat.le_succ 1), o, held, ?_⟩
    · have hlen : (window span (o.info md5 key.name).size o.data).length = _ :=
        window_length resolved rfl
      rwa [hbytes] at hlen
    · exact heldRead_ok.mpr ⟨rfl, resolved, hbytes⟩
  | data bucket o held span resolved some =>
    rw [unbroken_held bucket held resolved some]
    exact data_iff resolved some

/-- A read is of one version when nothing commits a write of the object before the last statement
that was not committed before the second. -/
theorem one_version_of_spared (md5 : Str → Str) (I : Interleaving) (bucket : BucketKey)
    (key : ObjectKey) (range : Option ByteRange)
    (spared : ∀ c ∈ (I.log.take (I.seen 2)).drop (I.seen 1), Spares bucket.bucketId key.name c) :
    ∃ r, I.read md5 bucket key range = some r ∧
      OneVersion md5 I bucket.bucketId key.name range r := by
  obtain ⟨r, hr, hiff⟩ := one_version_iff md5 I bucket key range
  refine ⟨r, hr, hiff.mpr ?_⟩
  cases hrow : (I.view md5 1).objects[(bucket.bucketId, key.name)]? with
  | none => exact Or.inr (Or.inl hrow)
  | some row =>
    obtain ⟨brow, hbrow⟩ := mem_buckets.mp
      ((I.state_wellFormed md5 (I.seen 1)).objectRows _ _ _ hrow).1
    obtain ⟨-, hkept⟩ := @execAll_spares md5 _ _ _ _ _ _ spared hbrow hrow
    rw [← I.state_later md5 (I.ordered (Nat.le_succ 1))] at hkept
    refine Or.inr (Or.inr ⟨row, hrow, Or.inr (Or.inr ?_)⟩)
    exact ⟨row, hkept, I.seen 1, I.ordered (Nat.le_succ 1), row, hrow, rfl, fun _ _ => rfl⟩

end Interleavings

section Samples

open OwnerIsolation

def notesKey : ObjectKey := .new (bytes "notes")

/-- Alice writes her notes. -/
def writeNotes (data : Str) : DriverCall :=
  .putObject docs.bucket notesKey ⟨alice.userId, []⟩ ∅ (bodyFromBytes data) 0

/-- One more transaction is committed before the third statement, after two before the first. -/
def beforeData (c : DriverCall) : Interleaving where
  log := [.createBucket docs, writeNotes (bytes "hello"), c]
  seen i := if i < 2 then 2 else 3
  ordered i j hij := by
    dsimp only
    split_ifs <;> omega

def deletedMeanwhile : Interleaving := beforeData (.deleteObject docs.bucket notesKey)
def replacedMeanwhile : Interleaving := beforeData (writeNotes (bytes "goodbye"))

/-- An object that is deleted meanwhile is no missing key, and one that is replaced is returned with
the size of the old version and the first bytes of the new one. -/
theorem read_torn :
    (∃ e, deletedMeanwhile.read sampleMd5 docs.bucket notesKey none = some (.error e) ∧
      e = internal "Query returned no rows" ∧
      ¬OneVersion sampleMd5 deletedMeanwhile docs.bucket.bucketId notesKey.name none (.error e)) ∧
    ∃ read, replacedMeanwhile.read sampleMd5 docs.bucket notesKey none = some (.ok read) ∧
      read.info.size = 5 ∧ readBody read.body = .ok (bytes "goodb") ∧
      ¬OneVersion sampleMd5 replacedMeanwhile docs.bucket.bucketId notesKey.name none (.ok read) := by
  constructor
  · refine ⟨_, by decide +kernel, rfl, ?_⟩
    rintro (h | h | h) <;> cases h
  · have hread : replacedMeanwhile.read sampleMd5 docs.bucket notesKey none =
        some (.ok ⟨StoredObject.info sampleMd5 notesKey.name ⟨bytes "hello", ⟨alice.userId, []⟩, ∅, 0⟩,
          none, bodyFromBytes (bytes "goodb")⟩) := by decide +kernel
    refine ⟨_, hread, by decide, by decide, ?_⟩
    rintro ⟨-, n, hn, o, held, hheld⟩
    obtain ⟨hinfo, -, hbytes⟩ := heldRead_ok.mp hheld
    have hsize : o.data.length = 5 := congrArg ObjectInfo.size hinfo
    have hdata : o.data = bytes "goodb" := by
      rw [← hbytes]
      exact (List.take_of_length_le hsize.le).symm
    -- at no time were these bytes the data of the key
    have hnever : ∀ n < 4, ((replacedMeanwhile.state sampleMd5 n).objects[
        (docs.bucket.bucketId, notesKey.name)]?).map ObjectCols.data ≠ some (bytes "goodb") := by
      decide +kernel
    refine hnever n (Nat.lt_succ_of_le hn) ?_
    rw [held.row, ← hdata]
    rfl

end Samples

end ReadSnapshots
