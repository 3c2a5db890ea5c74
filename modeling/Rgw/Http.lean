import Rgw.Sal

/-! # HTTP messages and the functions taken from libraries

Header names and values carry their well-formedness, so a header map holds only what the
wire can. Digests, checksums and clock formats are parameters. -/
namespace Http

open ByteStrings TextCodecs RgwTypes RgwSal

/-- What an XML reader reports, in order of the document. -/
inductive XmlEvent where
  | start (localName : Str)
  | empty (localName : Str)
  | close
  | text (t : Str)
  | cdata (t : Str)
  /-- A character reference, when it is one of a character. -/
  | charRef (c : Option Str)
  | entityRef (name : Str)
  | other
  | bad
  | eof

abbrev Digest := { d : Str // d.length = 32 }

structure Platform where
  sha256 : Str → Digest
  hmacSha256 : Str → Str → Digest
  md5 : Str → Str
  /-- Big-endian. -/
  crc32 : Str → Str
  base64Decode : Str → Option Str
  xmlEvents : Str → List XmlEvent
  parseAmzDate : Str → Option Time
  formatAmzDate : Time → Str
  parseHttpDate : Str → Option Time
  httpDate : Time → Str
  iso8601Millis : Time → Str
  iso8601Micros : Time → Str

section Tables

def zeroDigest : Digest := ⟨List.replicate 32 0, rfl⟩

def digestOfHex (s : Str) : Digest :=
  match hexDecode s with
  | some d => if h : d.length = 32 then ⟨d, h⟩ else zeroDigest
  | none => zeroDigest

/-- The two instants of the examples in each format. -/
def sampleDates : List (Time × Str × Str × Str) :=
  [(0, bytes "Thu, 01 Jan 1970 00:00:00 GMT", bytes "1970-01-01T00:00:00.000Z",
      bytes "1970-01-01T00:00:00.000000Z"),
    (1369353600000000000, bytes "Fri, 24 May 2013 00:00:00 GMT", bytes "2013-05-24T00:00:00.000Z",
      bytes "2013-05-24T00:00:00.000000Z")]

def sampleHttpDate (time : Time) : Str := ((sampleDates.lookup time).map Prod.fst).getD []

/-- A platform that knows the digests of given texts and the instants of given dates. -/
def Platform.ofTables (sha : List (Str × Str)) (mac : List ((Str × Str) × Str))
    (dates : List (Str × Time)) : Platform where
  sha256 text := digestOfHex ((sha.lookup text).getD [])
  hmacSha256 key text := digestOfHex ((mac.lookup (key, text)).getD [])
  md5 := sampleMd5
  crc32 _ := []
  base64Decode _ := none
  xmlEvents _ := []
  parseAmzDate text := dates.lookup text
  formatAmzDate time := ((dates.find? fun d => d.2 = time).map Prod.fst).getD []
  parseHttpDate _ := none
  httpDate := sampleHttpDate
  iso8601Millis time := ((sampleDates.lookup time).map fun d => d.2.1).getD []
  iso8601Micros time := ((sampleDates.lookup time).map fun d => d.2.2).getD []

end Tables

section Tokens

/-- The characters of a token. -/
def isTokenByte (b : UInt8) : Bool :=
  isAlnum b || b ∈ [33, 35, 36, 37, 38, 39, 42, 43, 45, 46, 94, 95, 96, 124, 126]

def isHeaderName (s : Str) : Bool := s ≠ [] && s.all fun b => isTokenByte b && !isUpper b
def isHeaderValue (s : Str) : Bool := s.all fun b => b == 9 || 32 ≤ b && b ≠ 127

abbrev HeaderName := { s : Str // isHeaderName s = true }
abbrev HeaderValue := { s : Str // isHeaderValue s = true }

def isVisibleAscii (b : UInt8) : Bool := 32 ≤ b && b < 127 || b == 9

theorem sampleHttpDate_value (time : Time) : isHeaderValue (sampleHttpDate time) = true := by
  have hall : ∀ d ∈ sampleDates, isHeaderValue d.2.1 = true := by decide +kernel
  rw [sampleHttpDate]
  cases h : sampleDates.lookup time with
  | none => rfl
  | some d =>
    obtain ⟨before, after, hsplit, -⟩ := List.lookup_eq_some_iff.mp h
    refine hall (time, d) ?_
    rw [hsplit]
    exact List.mem_append_right _ List.mem_cons_self

/-- A value as text, when it is visible ASCII. -/
def toStr (v : Str) : Option Str := if v.all isVisibleAscii then some v else none

def headerValue (s : Str) : RgwResult HeaderValue :=
  if h : isHeaderValue s = true then .ok ⟨s, h⟩
  else .error (.internalError (bytes "failed to parse header value"))

structure Method where
  name : Str
  token : (name.all isTokenByte && name ≠ []) = true
  deriving DecidableEq

theorem get_token : ((bytes "GET").all isTokenByte && bytes "GET" ≠ []) = true := by decide
theorem post_token : ((bytes "POST").all isTokenByte && bytes "POST" ≠ []) = true := by decide
theorem put_token : ((bytes "PUT").all isTokenByte && bytes "PUT" ≠ []) = true := by decide
theorem delete_token : ((bytes "DELETE").all isTokenByte && bytes "DELETE" ≠ []) = true := by decide

theorem contentType_name : isHeaderName (bytes "content-type") = true := by decide

end Tokens

section Headers

/-- Header lines in order of arrival. -/
structure HeaderMap where
  entries : List (HeaderName × HeaderValue)
  deriving DecidableEq

namespace HeaderMap

def empty : HeaderMap := ⟨[]⟩

def getAll (h : HeaderMap) (name : Str) : List Str :=
  (h.entries.filter fun e => e.1.val = name).map fun e => e.2.val

def get (h : HeaderMap) (name : Str) : Option Str := (h.getAll name).head?
def containsKey (h : HeaderMap) (name : Str) : Bool := (h.get name).isSome
def remove (h : HeaderMap) (name : Str) : HeaderMap := ⟨h.entries.filter fun e => e.1.val ≠ name⟩
def append (h : HeaderMap) (name : HeaderName) (value : HeaderValue) : HeaderMap :=
  ⟨h.entries ++ [(name, value)]⟩
def insert (h : HeaderMap) (name : HeaderName) (value : HeaderValue) : HeaderMap :=
  (h.remove name).append name value

/-- The names of the other map replace these. -/
def extend (h other : HeaderMap) : HeaderMap :=
  ⟨h.entries.filter (fun e => !other.containsKey e.1) ++ other.entries⟩

end HeaderMap

def headerStr (h : HeaderMap) (name : Str) : Option Str := (h.get name).bind toStr

def contentLength : HeaderName := ⟨bytes "content-length", by decide⟩

end Headers

section Bodies

inductive BodyError where
  | tooLong
  | failed (what : Str)
  deriving DecidableEq

/-- Buffer a body of at most `limit` bytes. -/
def toBytes (limit : ℕ) : ObjectBody → Str → Except BodyError Str
  | [], acc => .ok acc
  | .error e :: _, _ => .error (.failed e)
  | .ok chunk :: body, acc =>
    if limit < acc.length + chunk.length then .error .tooLong else toBytes limit body (acc ++ chunk)

theorem toBytes_length {limit : ℕ} {body : ObjectBody} {acc data : Str} (ha : acc.length ≤ limit)
    (h : toBytes limit body acc = .ok data) : data.length ≤ limit := by
  induction body generalizing acc with
  | nil =>
    cases h
    exact ha
  | cons chunk body ih =>
    cases chunk with
    | error e => cases h
    | ok chunk =>
      rw [toBytes, guard_eq_ok] at h
      refine ih ?_ h.2
      rw [List.length_append]
      omega

end Bodies

structure Uri where
  path : Str
  query : Option Str
  authority : Option Str
  deriving DecidableEq

end Http
