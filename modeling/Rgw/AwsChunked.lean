import Rgw.SigV4

/-! # Chunked uploads

A body is a sequence of `<hex size>[;chunk-signature=<hex>]` lines with their data, closed by
a chunk of size zero and, when announced, trailer lines. -/
namespace AwsChunked

open ByteStrings TextCodecs RgwTypes Http SigV4

structure ChunkSigner where
  signingKey : Digest
  amzDate : Str
  scope : CredentialScope
  /-- The request's own signature. -/
  seedSignature : Str

structure DecodedChunked where
  payload : Str
  trailers : List (Str × Str)
  deriving DecidableEq

def DecodedChunked.trailer (d : DecodedChunked) (name : Str) : Option Str :=
  (d.trailers.find? fun t => t.1 = name).map Prod.snd

def badBody (why : String) : RgwError :=
  .invalidRequest (bytes "malformed aws-chunked body: " ++ bytes why)

def crlf : Str := [13, 10]

/-- The first line and what follows its end. -/
def nextLine (body : Str) : Option (Str × Str) :=
  (findSub crlf body).map fun i => (body.take i, body.drop (i + 2))

/-- The size and the extension of a chunk's first line. -/
def parseHeader (line : Str) : RgwResult (ℕ × Option Str) := do
  if !isUtf8 line then throw (badBody "chunk header is not UTF-8")
  let (size, ext) := match splitOnce 59 line with
    | some (size, ext) => (size, some ext)
    | none => (line, none)
  match parseUnsigned 16 (2 ^ 64) (trim size) with
  | some size => return (size, ext)
  | none => throw (badBody "bad chunk size")

def chunkSignature (ext : Option Str) : Option Str :=
  ext.bind fun e => (trim e).dropPrefix? (bytes "chunk-signature=")

variable (P : Platform)

/-- Check a chunk against the chain and hand on the signature that continues it. -/
def verifyChunk (signer : ChunkSigner) (prev : Str) (ext : Option Str) (data : Str) :
    RgwResult Str :=
  match chunkSignature ext with
  | none => .error (badBody "missing chunk-signature")
  | some provided =>
    let sts := chunkStringToSign P signer.amzDate signer.scope prev data
    if signatureMatches (signatureBytes P signer.signingKey sts) provided then
      .ok (toAsciiLower provided)
    else .error .signatureDoesNotMatch

def continueChain (signer : Option ChunkSigner) (prev : Str) (ext : Option Str) (data : Str) :
    RgwResult Str :=
  match signer with
  | some signer => verifyChunk P signer prev ext data
  | none => .ok prev

/-- Read chunks through the empty one; every round consumes a line. -/
def decodeChunks (signer : Option ChunkSigner) : ℕ → Str → Str → Str → RgwResult (Str × Str)
  | 0, _, _, _ => .error (badBody "truncated chunk header")
  | fuel + 1, prev, payload, body =>
    match nextLine body with
    | none => .error (badBody "truncated chunk header")
    | some (line, rest) => do
      let (size, ext) ← parseHeader line
      if rest.length < size then throw (badBody "truncated chunk")
      let data := rest.take size
      let rest := rest.drop size
      let prev ← continueChain P signer prev ext data
      if size = 0 then return (payload, rest)
      if rest.take 2 ≠ crlf then throw (badBody "chunk data not followed by CRLF")
      decodeChunks signer fuel prev (payload ++ data) (rest.drop 2)

def parseTrailer (line : Str) : RgwResult (Str × Str) := do
  if !isUtf8 line then throw (badBody "trailer is not UTF-8")
  match splitOnce 58 line with
  | some (name, value) => return (toAsciiLower (trim name), trim value)
  | none => throw (badBody "trailer without ':'")

/-- Read trailer lines up to a blank one or the last line end. -/
def decodeTrailers (withTrailers : Bool) :
    ℕ → List (Str × Str) → Str → RgwResult (List (Str × Str) × Str)
  | 0, trailers, body => .ok (trailers, body)
  | fuel + 1, trailers, body =>
    match nextLine body with
    | none => .ok (trailers, body)
    | some ([], rest) => .ok (trailers, rest)
    | some (line, rest) => do
      if !withTrailers then throw (badBody "trailer in a payload that declared none")
      let trailer ← parseTrailer line
      decodeTrailers withTrailers fuel (trailers ++ [trailer]) rest

def decodeAwsChunked (body : Str) (signer : Option ChunkSigner) (withTrailers : Bool) :
    RgwResult DecodedChunked := do
  let seed := signer.elim [] ChunkSigner.seedSignature
  let (payload, rest) ← decodeChunks P signer (body.length + 1) seed [] body
  let (trailers, rest) ← decodeTrailers withTrailers (rest.length + 1) [] rest
  if rest ≠ [] ∧ rest ≠ crlf then throw (badBody "data after the final chunk")
  return ⟨payload, trailers⟩

def verifyTrailerChecksum (decoded : DecodedChunked) : RgwResult Unit :=
  match decoded.trailer (bytes "x-amz-checksum-crc32") with
  | none => .ok ()
  | some want =>
    match P.base64Decode want with
    | none => .error .invalidDigest
    | some want => if want ≠ P.crc32 decoded.payload then .error .badDigest else .ok ()

section Fuel

variable {P}

theorem nextLine_length {body line rest : Str} (h : nextLine body = some (line, rest)) :
    rest.length < body.length := by
  obtain ⟨i, hi, he⟩ := Option.map_eq_some_iff.mp h
  simp only [Prod.mk.injEq] at he
  obtain ⟨t, ht⟩ := (findSub_some hi).1
  have hlen := congrArg List.length ht
  rw [List.length_append, List.length_drop] at hlen
  rw [← he.2, List.length_drop]
  simp only [crlf, List.length_cons, List.length_nil] at hlen
  omega

/-- Framing only adds bytes. -/
theorem decodeChunks_length {signer : Option ChunkSigner} {fuel : ℕ}
    {prev payload body out rest : Str}
    (h : decodeChunks P signer fuel prev payload body = .ok (out, rest)) :
    out.length ≤ payload.length + body.length := by
  induction fuel generalizing prev payload body with
  | zero => cases h
  | succ fuel ih =>
    rw [decodeChunks] at h
    cases hl : nextLine body with
    | none => rw [hl] at h; cases h
    | some lr =>
      obtain ⟨line, tail⟩ := lr
      have hlen := nextLine_length hl
      rw [hl] at h
      simp only [throw_error, error_bind] at h
      obtain ⟨⟨size, ext⟩, -, h⟩ := bind_eq_ok.mp h
      obtain ⟨-, h⟩ := guard_eq_ok.mp h
      obtain ⟨next, -, h⟩ := bind_eq_ok.mp h
      by_cases hz : size = 0
      · simp only [hz, ↓reduceIte, pure_ok, Except.ok.injEq, Prod.mk.injEq] at h
        rw [← h.1]
        omega
      · simp only [hz, ↓reduceIte, guard_eq_ok] at h
        have hout := ih h.2
        simp only [List.length_append, List.length_take, List.length_drop] at hout
        omega

/-- A line a round makes the fuel enough: more of it changes nothing. -/
theorem decodeChunks_fuel {signer : Option ChunkSigner} {f g : ℕ} {prev payload body : Str}
    (hf : body.length < f) (hg : body.length < g) :
    decodeChunks P signer f prev payload body = decodeChunks P signer g prev payload body := by
  induction f generalizing g prev payload body with
  | zero => omega
  | succ f ih =>
    obtain ⟨g, rfl⟩ : ∃ k, g = k + 1 := ⟨g - 1, by omega⟩
    rw [decodeChunks, decodeChunks]
    cases hl : nextLine body with
    | none => rfl
    | some lr =>
      obtain ⟨line, rest⟩ := lr
      have hrest := nextLine_length hl
      simp only
      apply bind_congr
      intro x
      split
      · rfl
      · apply bind_congr
        intro prev'
        split
        · rfl
        · split
          · rfl
          · refine ih ?_ ?_ <;> simp only [List.length_drop] <;> omega

theorem decodeTrailers_fuel {withTrailers : Bool} {f g : ℕ} {trailers : List (Str × Str)}
    {body : Str} (hf : body.length < f) (hg : body.length < g) :
    decodeTrailers withTrailers f trailers body = decodeTrailers withTrailers g trailers body := by
  induction f generalizing g trailers body with
  | zero => omega
  | succ f ih =>
    obtain ⟨g, rfl⟩ : ∃ k, g = k + 1 := ⟨g - 1, by omega⟩
    rw [decodeTrailers, decodeTrailers]
    split
    · rfl
    · rfl
    · next line rest hne hl =>
      have hrest := nextLine_length hl
      split
      · rfl
      · exact bind_congr fun trailer => ih (by omega) (by omega)

end Fuel

end AwsChunked
