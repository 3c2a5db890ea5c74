import Rgw.DeleteDocuments
import Rgw.ObjectReads
import Rgw.Purging

/-! # Deleting many objects at once

The entries of a document are deleted one after another. What is left is the bucket without the
objects of those names, and the answer has an entry for each of them, or none. -/
namespace MultiDelete

open ByteStrings TextCodecs RgwTypes RgwSal RgwSalSqlite Http RestS3Wire RestS3Handlers
  StoreInvariants DeleteDocuments ObjectRequests ObjectReads Purging
open RgwAuth (Identity)

variable {md5 : Str → Str} {s : Tables}

/-- Whether an object of the bucket has one of the keys. -/
def hasKey (bucketId : Str) (keys : List Str) (k : Str × Str) : Bool := k.1 = bucketId ∧ k.2 ∈ keys

theorem hasKey_cons (bucketId key : Str) (keys : List Str) : hasKey bucketId (key :: keys) =
    fun k => decide (k = (bucketId, key)) || hasKey bucketId keys k := by
  funext ⟨id, name⟩
  rw [Bool.eq_iff_iff, Bool.or_eq_true]
  simp only [hasKey, List.mem_cons, decide_eq_true_eq, Prod.mk.injEq]
  exact and_or_left

/-- One entry after another. A key that is not there counts as deleted. -/
theorem run_deleteEach {bucket : BucketKey} (hb : bucket.bucketId ∈ s.buckets) (quiet : Bool)
    (objects : List RestS3Wire.DeleteObject) (result : DeleteResult) :
    (deleteEach bucket quiet objects result).run.run (exec md5) s =
      some (.ok { result with
          deleted := result.deleted ++ if quiet then [] else objects.map fun o => o.key },
        withoutObjects s (hasKey bucket.bucketId (objects.map fun o => o.key))) := by
  induction objects generalizing s result with
  | nil =>
    have hnone : withoutObjects s (hasKey bucket.bucketId []) = s := by
      apply withoutObjects_none
      intro k
      simp [hasKey]
    have hdeleted : result.deleted ++ (if quiet then [] else []) = result.deleted := by
      rw [ite_self, List.append_nil]
    rw [List.map_nil, hnone, hdeleted]
    rfl
  | cons obj objects ih =>
    obtain ⟨reply, hexec, hreply⟩ := @exec_deleteObject_eq md5 s bucket (.new obj.key) hb
    have hname : (ObjectKey.new obj.key).name = obj.key := rfl
    have hrest := ih (s := withoutObjects s fun k => k = (bucket.bucketId, obj.key)) hb
      (if quiet then result else { result with deleted := result.deleted ++ [obj.key] })
    have hdeleted : ({ (if quiet then result else
          { result with deleted := result.deleted ++ [obj.key] }) with
        deleted := (if quiet then result else
          { result with deleted := result.deleted ++ [obj.key] }).deleted ++
          if quiet then [] else objects.map fun o => o.key } : DeleteResult) =
        { result with deleted := result.deleted ++
          if quiet then [] else (obj :: objects).map fun o => o.key } := by
      cases quiet <;> simp
    rw [deleteEach, run_attempt_bind, hexec, hname]
    rw [hdeleted, withoutObjects_withoutObjects, ← hasKey_cons] at hrest
    rcases hreply with rfl | rfl
    · exact hrest
    · exact hrest

theorem multi_delete_exact (P : Platform) (s : Store P.md5) (identity : Identity) (bucketName : Str)
    (headers : HeaderMap) (body : ObjectBody) {bucket : BucketInfo} {expected : Option Str}
    {data : Str} {req : DeleteRequest} (hb : bucketFor identity bucketName s.1 = .ok bucket)
    (hmd5 : contentMd5 P headers = .ok expected) (hdata : bufferBody body maxMultiDeleteBody = .ok data)
    (verified : ∀ digest ∈ expected, P.md5 data = digest) (text : isUtf8 data = true)
    (document : DeleteDocument req (P.xmlEvents data)) (listed : 1 ≤ req.objects.length)
    (few : req.objects.length ≤ 1000) :
    parseDeleteRequest P data = .ok req ∧
    (deleteMulti P identity bucketName headers body).run.run (exec P.md5) s.1 =
      some (.ok (xmlResponse (.deleteResult
          ⟨xmlns, if req.quiet then [] else req.objects.map fun o => o.key, []⟩)),
        withoutObjects s.1 fun k => k.1 = bucket.bucket.bucketId ∧
          k.2 ∈ req.objects.map fun o => o.key) := by
  have hparse : parseDeleteRequest P data = .ok req := by
    rw [parseDeleteRequest, if_pos text]
    exact parse_document document listed few
  refine ⟨hparse, ?_⟩
  have hload := @run_loadBucketFor P.md5 identity bucketName s.1
  rw [hb] at hload
  have heach := @run_deleteEach P.md5 s.1 bucket.bucket (bucketFor_there s.2 hb) req.quiet req.objects
    ⟨xmlns, [], []⟩
  rw [deleteMulti, run_plain_eq_ok, run_bind_ok hload, run_lift_ok hmd5, run_lift_ok hdata]
  cases expected with
  | none =>
    dsimp only
    rw [run_lift_ok hparse, run_bind_ok heach]
    rfl
  | some digest =>
    have hverify : verifyMd5 P digest data = .ok () := if_pos (verified digest rfl)
    dsimp only
    rw [run_lift_ok hverify, run_lift_ok hparse, run_bind_ok heach]
    rfl

def notesDocument : Str := bytes
  "<Delete><Object><Key>no<!-- -->tes</Key></Object> <Object><Key>gone</Key></Object>" ++ bytes
  "<Object><Key>notes</Key></Object></Delete>"

def plainEntry (key : Str) : List XmlEvent :=
  [.start (bytes "Object"), .start (bytes "Key"), .text key, .close, .close]

def notesEntry : List XmlEvent :=
  [.start (bytes "Object"), .start (bytes "Key"), .text (bytes "no"), .other, .text (bytes "tes"),
    .close, .close]

def notesEvents : List XmlEvent :=
  .start (bytes "Delete") :: notesEntry ++ .text (bytes " ") :: plainEntry (bytes "gone") ++
    plainEntry (bytes "notes") ++ [.close, .eof]

/-- A platform that reads this document. -/
def reader : Platform :=
  { Platform.ofTables [] [] [] with
    xmlEvents := fun text => if text = notesDocument then notesEvents else [.bad] }

def notesRequest : DeleteRequest :=
  ⟨[⟨bytes "notes", none⟩, ⟨bytes "gone", none⟩, ⟨bytes "notes", none⟩], false⟩

theorem plainEntry_object (key : Str) : ObjectElement ⟨key, none⟩ (plainEntry key) := by
  have hgap : Gap [] := fun e he => by cases he
  have hkey : TextElement (bytes "Key") key [.start (bytes "Key"), .text key, .close] := by
    have hspells := Spells.text key .nil
    rw [List.append_nil] at hspells
    exact .long hspells
  exact .intro hgap hkey .absent hgap

theorem notes_document : DeleteDocument notesRequest (reader.xmlEvents notesDocument) := by
  have hspace : Gap [.text (bytes " ")] := by
    intro e he
    rw [List.mem_singleton.mp he]
    refine Or.inr ⟨bytes " ", rfl, fun b hb => ?_⟩
    rw [List.mem_singleton.mp hb]
    decide
  have hgap : Gap [] := fun e he => by cases he
  have hkey : TextElement (bytes "Key") (bytes "notes") [.start (bytes "Key"), .text (bytes "no"),
    .other,
      .text (bytes "tes"), .close] :=
    .long (.text (bytes "no") (.comment (.text (bytes "tes") .nil)))
  have hnotes : ObjectElement ⟨bytes "notes", none⟩ notesEntry := .intro hgap hkey .absent hgap
  have hchildren : Children notesRequest.objects none (notesEntry ++ ([.text (bytes " ")] ++
      (plainEntry (bytes "gone") ++ (plainEntry (bytes "notes") ++ [])))) :=
    .object hnotes (.gap hspace (.object (plainEntry_object _) (.object (plainEntry_object _) .nil)))
  have hevents : reader.xmlEvents notesDocument = notesEvents := by
    change (if notesDocument = notesDocument then notesEvents else [.bad]) = notesEvents
    exact if_pos rfl
  rw [hevents]
  exact DeleteDocument.intro hgap hchildren rfl hgap

/-- Another object of Alice's. -/
def kept : StoreRefinement.StoredObject := ⟨bytes "hi", notes.owner, notes.attrs, 0⟩

def notesStore : Store reader.md5 :=
  ⟨withObject withNotes OwnerIsolation.docs.bucket.bucketId (bytes "kept") (kept.row reader.md5),
    wellFormed_change (wellFormed_change OwnerIsolation.twoBuckets.2
      (.object _ _ _ _ _ _ docs_there (by decide))) (.object _ _ _ _ _ _ docs_there (by decide))⟩

/-- A key that is there, one that is not, and the first once more: each is reported deleted, and the
other object stays. -/
theorem multi_delete_exact_notes : ∃ s', parseDeleteRequest reader notesDocument = .ok notesRequest ∧
    (deleteMulti reader aliceUser (bytes "docs") .empty [.ok notesDocument]).run.run (exec reader.md5)
      notesStore.1 = some (.ok (xmlResponse (.deleteResult
        ⟨xmlns, [bytes "notes", bytes "gone", bytes "notes"], []⟩)), s') ∧
    s'.objects.toList = [((OwnerIsolation.docs.bucket.bucketId, bytes "kept"),
    kept.row reader.md5)] := by
  have hdata : bufferBody [.ok notesDocument] maxMultiDeleteBody = .ok notesDocument := by
    decide +kernel
  have htext : isUtf8 notesDocument = true := by decide +kernel
  have hmd5 : contentMd5 reader .empty = .ok none := rfl
  have hbucket : bucketFor aliceUser (bytes "docs") notesStore.1 = .ok OwnerIsolation.docs := docs_alice
  obtain ⟨hparse, hrun⟩ := multi_delete_exact reader notesStore aliceUser (bytes "docs") .empty
    [.ok notesDocument] hbucket hmd5 hdata (fun _ h => by cases h) htext notes_document
    (by decide) (by decide)
  exact ⟨_, hparse, hrun, by decide +kernel⟩

end MultiDelete
