import Rgw.ChunkChain
import Rgw.Utf8Texts

/-! # Decoding a chunked upload undoes encoding it

The writer spells its sizes as it likes and chains its signatures from the request's own;
the reader gives back the joined data and the trailers, whatever the data looks like. -/
namespace ChunkRoundTrip

open ByteStrings TextCodecs Utf8Texts RgwTypes Http SigV4 AwsChunked ChunkChain

section Sizes

/-- The value a text of digits has when more follow `acc`. -/
def hexValue (acc : ℕ) (s : Str) : ℕ := s.foldl (fun v b => v * 16 + (toDigit 16 b).getD 0) acc

/-- A spelling of a number: hexadecimal digits of either case, leading zeros allowed. -/
structure Spells (text : Str) (n : ℕ) : Prop where
  nonempty : text ≠ []
  digits : ∀ b ∈ text, isHexDigit b = true
  value : hexValue 0 text = n

variable {text : Str} {n : ℕ}

theorem toDigit_of_isHexDigit {b : UInt8} (h : isHexDigit b = true) :
    ∃ d, toDigit 16 b = some d := by
  have main : ∀ b : UInt8, isHexDigit b = true → (toDigit 16 b).isSome = true :=
    forall_byte (by decide +kernel)
  exact Option.isSome_iff_exists.mp (main b h)

theorem isGraphic_of_isHexDigit {b : UInt8} (h : isHexDigit b = true) :
    isGraphic b = true ∧ b ≠ 43 ∧ b ≠ 59 := by
  have main : ∀ b : UInt8, isHexDigit b = true → isGraphic b = true ∧ b ≠ 43 ∧ b ≠ 59 :=
    forall_byte (by decide +kernel)
  exact main b h

theorem le_hexValue (acc : ℕ) (s : Str) : acc ≤ hexValue acc s := by
  induction s generalizing acc with
  | nil => exact le_rfl
  | cons b s ih =>
    have hstep := ih (acc * 16 + (toDigit 16 b).getD 0)
    rw [hexValue, List.foldl_cons, ← hexValue]
    omega

theorem parseDigits_hex {bound acc : ℕ} {s : Str} (hd : ∀ b ∈ s, isHexDigit b = true)
    (hv : hexValue acc s < bound) : parseDigits 16 bound acc s = some (hexValue acc s) := by
  induction s generalizing acc with
  | nil => rfl
  | cons b s ih =>
    rw [List.forall_mem_cons] at hd
    obtain ⟨d, hb⟩ := toDigit_of_isHexDigit hd.1
    have hvalue : hexValue acc (b :: s) = hexValue (acc * 16 + d) s := by
      rw [hexValue, List.foldl_cons, hb]
      rfl
    rw [hvalue] at hv ⊢
    have hle := le_hexValue (acc * 16 + d) s
    have hbound : acc * 16 + d < bound := by omega
    rw [parseDigits, hb, Option.bind_eq_bind, Option.bind_some, if_pos hbound]
    exact ih hd.2 hv

theorem parseUnsigned_spelled {bound : ℕ} (h : Spells text n) (hn : n < bound) :
    parseUnsigned 16 bound text = some n := by
  obtain ⟨hne, hd, hv⟩ := h
  have hdigits := @parseDigits_hex bound 0 text hd (hv.trans_lt hn)
  cases text with
  | nil => exact absurd rfl hne
  | cons b text =>
    have hplus := (isGraphic_of_isHexDigit (hd b List.mem_cons_self)).2.1
    rw [parseUnsigned, if_neg hplus, hdigits, hv]

end Sizes

section Lines

variable {line rest : Str}

/-- A line without a line end inside is read back whole. -/
theorem nextLine_append (h : ¬crlf <:+: line) (rest : Str) :
    nextLine (line ++ (crlf ++ rest)) = some (line, rest) := by
  have hfirst : findSub crlf (line ++ (crlf ++ rest)) = some line.length := by
    apply findSub_eq_some.mpr
    constructor
    · rw [List.drop_left]
      exact List.prefix_append crlf rest
    · intro j hj hpre
      rw [List.drop_append_of_le_length hj.le] at hpre
      have hinfix : line.drop j <:+: line := (List.drop_suffix j line).isInfix
      rcases hd : line.drop j with - | ⟨a, - | ⟨b, t⟩⟩
      · have hlen := congrArg List.length hd
        rw [List.length_drop, List.length_nil] at hlen
        omega
      · -- a carriage return at the end of the line is followed by another one
        rw [hd] at hpre
        simp [crlf] at hpre
      · rw [hd] at hpre hinfix
        apply h
        refine List.IsInfix.trans ?_ hinfix
        simp only [crlf, List.cons_append, List.cons_prefix_cons] at hpre
        obtain ⟨rfl, rfl, -⟩ := hpre
        exact (List.prefix_append crlf t).isInfix
  rw [nextLine, hfirst]
  simp only [Option.map_some, List.take_left, Option.some.injEq, Prod.mk.injEq, true_and]
  rw [← List.drop_drop, List.drop_left]
  rfl

theorem not_infix_of_graphic (h : ∀ b ∈ line, isGraphic b = true) : ¬crlf <:+: line := by
  intro hcrlf
  have hcr := h 13 (hcrlf.subset (by decide))
  cases hcr

end Lines

section Encoding

/-- A chunk as a writer spells it. What it holds fits in memory. -/
structure Chunk where
  data : Str
  size : Str
  fits : data.length < 2 ^ 64
  spelled : Spells size data.length

/-- A trailer in the form the reader gives it. -/
structure Trailer where
  name : Str
  value : Str
  utf8 : isUtf8 name = true ∧ isUtf8 value = true
  lowercase : toAsciiLower name = name
  trimmed : trim name = name ∧ trim value = value
  nameFree : (58 : UInt8) ∉ name
  lineFree : ¬crlf <:+: name ∧ ¬crlf <:+: value

variable (P : Platform)

/-- The signature that stands for what has been written so far. -/
def advance (signer : Option ChunkSigner) (prev data : Str) : Str :=
  signer.elim prev fun signer => nextSignature P signer prev data

/-- The signature field of a chunk's first line. -/
def headerExt (signer : Option ChunkSigner) (prev data : Str) : Option Str :=
  signer.map fun signer => bytes "chunk-signature=" ++ nextSignature P signer prev data

def chunkHeader (signer : Option ChunkSigner) (prev : Str) (c : Chunk) : Str :=
  c.size ++ (headerExt P signer prev c.data).elim [] (59 :: ·)

def encodeChunks (signer : Option ChunkSigner) (last : Chunk) : Str → List Chunk → Str
  | prev, [] => chunkHeader P signer prev last ++ crlf
  | prev, c :: cs => chunkHeader P signer prev c ++ crlf ++ c.data ++ crlf ++
    encodeChunks signer last (advance P signer prev c.data) cs

def trailerLine (t : Trailer) : Str := t.name ++ 58 :: t.value

def encodeTrailers (trailers : List Trailer) : Str := trailers.flatMap fun t => trailerLine t ++ crlf

/-- A whole body: the chunks, an empty one, the trailers and, unless it is left out, a blank
line. -/
def encodeAwsChunked (signer : Option ChunkSigner) (chunks : List Chunk) (last : Chunk)
    (trailers : List Trailer) (blank : Bool) : Str :=
  encodeChunks P signer last (signer.elim [] ChunkSigner.seedSignature) chunks ++
    (encodeTrailers trailers ++ if blank then crlf else [])

end Encoding

section Decoding

variable {P : Platform} {signer : Option ChunkSigner}

theorem mem_nextSignature {signer : ChunkSigner} {prev data : Str} {b : UInt8}
    (h : b ∈ nextSignature P signer prev data) : isGraphic b = true :=
  (isGraphic_of_isHexDigit (mem_hexEncode h)).1

theorem signatureField_graphic (signer : ChunkSigner) (prev data : Str) :
    ∀ b ∈ bytes "chunk-signature=" ++ nextSignature P signer prev data, isGraphic b = true := by
  have hname : ∀ b ∈ bytes "chunk-signature=", isGraphic b = true := List.all_eq_true.mp (by decide)
  intro b hb
  rcases List.mem_append.mp hb with hb | hb
  · exact hname b hb
  · exact mem_nextSignature hb

theorem chunkHeader_graphic (prev : Str) (c : Chunk) :
    ∀ b ∈ chunkHeader P signer prev c, isGraphic b = true := by
  intro b hb
  rcases List.mem_append.mp hb with hb | hb
  · exact (isGraphic_of_isHexDigit (c.spelled.digits b hb)).1
  · cases signer with
    | none => cases hb
    | some signer =>
      rcases List.mem_cons.mp hb with rfl | hb
      · rfl
      · exact signatureField_graphic signer prev c.data b hb

theorem ascii_of_graphic {s : Str} (h : ∀ b ∈ s, isGraphic b = true) : ∀ b ∈ s, b < 128 := by
  have main : ∀ b : UInt8, isGraphic b = true → b < 128 := forall_byte (by decide +kernel)
  intro b hb
  exact main b (h b hb)

/-- The first line of a chunk gives its size and its extension. -/
theorem parseHeader_chunkHeader (prev : Str) (c : Chunk) :
    parseHeader (chunkHeader P signer prev c) =
      .ok (c.data.length, headerExt P signer prev c.data) := by
  have hutf8 : isUtf8 (chunkHeader P signer prev c) = true :=
    isUtf8_ascii (ascii_of_graphic (chunkHeader_graphic prev c))
  have hsize : parseUnsigned 16 (2 ^ 64) (trim c.size) = some c.data.length := by
    rw [trim_graphic fun b hb => (isGraphic_of_isHexDigit (c.spelled.digits b hb)).1]
    exact parseUnsigned_spelled c.spelled c.fits
  have hsemicolon : (59 : UInt8) ∉ c.size := by
    intro hm
    exact (isGraphic_of_isHexDigit (c.spelled.digits _ hm)).2.2 rfl
  rw [parseHeader, hutf8]
  cases he : headerExt P signer prev c.data with
  | none =>
    have hline : chunkHeader P signer prev c = c.size := by
      rw [chunkHeader, he, Option.elim_none, List.append_nil]
    have hcut : splitOnce 59 c.size = none := splitOnce_none.mpr hsemicolon
    rw [hline, hcut]
    dsimp only
    rw [hsize]
    rfl
  | some ext =>
    have hcut : splitOnce 59 (chunkHeader P signer prev c) = some (c.size, ext) := by
      rw [chunkHeader, he]
      exact splitOnce_some.mpr ⟨rfl, hsemicolon⟩
    rw [hcut]
    dsimp only
    rw [hsize]
    rfl

/-- A chunk signed as the signer computes it continues the chain. -/
theorem continueChain_headerExt (prev data : Str) :
    continueChain P signer prev (headerExt P signer prev data) data =
      .ok (advance P signer prev data) := by
  cases signer with
  | none => rfl
  | some signer =>
    have hext : chunkSignature (headerExt P (some signer) prev data) =
        some (nextSignature P signer prev data) := by
      rw [headerExt, Option.map_some, chunkSignature, Option.bind_some,
        trim_graphic (signatureField_graphic signer prev data)]
      exact dropPrefix_eq_some.mpr rfl
    have hmatch : signatureMatches (signatureBytes P signer.signingKey
        (chunkStringToSign P signer.amzDate signer.scope prev data))
        (nextSignature P signer prev data) = true :=
      signatureMatches_iff.mpr (hexDecode_hexEncode _)
    have hlower : toAsciiLower (nextSignature P signer prev data) =
        nextSignature P signer prev data := hexDecode_lower (hexDecode_hexEncode _)
    rw [continueChain, verifyChunk, hext]
    dsimp only
    rw [if_pos hmatch, hlower]
    rfl

section Rounds

variable {fuel : ℕ} {prev next payload body line rest data : Str} {ext : Option Str}

theorem decodeChunks_last (hl : nextLine body = some (line, rest))
    (hp : parseHeader line = .ok (0, ext)) (hc : continueChain P signer prev ext [] = .ok next) :
    decodeChunks P signer (fuel + 1) prev payload body = .ok (payload, rest) := by
  rw [decodeChunks, hl]
  simp [hp, hc]

theorem decodeChunks_more (hl : nextLine body = some (line, data ++ (crlf ++ rest)))
    (hp : parseHeader line = .ok (data.length, ext)) (hne : data ≠ [])
    (hc : continueChain P signer prev ext data = .ok next) :
    decodeChunks P signer (fuel + 1) prev payload body =
      decodeChunks P signer fuel next (payload ++ data) rest := by
  have hend : (crlf ++ rest).take 2 = crlf := rfl
  have hrest : (crlf ++ rest).drop 2 = rest := rfl
  rw [decodeChunks, hl]
  simp [hp, hc, hne, hend, hrest]

end Rounds

/-- The chunks of an encoded body are read back, whatever follows them. -/
theorem decodeChunks_encode {last : Chunk} (hlast : last.data = []) {chunks : List Chunk}
    (hne : ∀ c ∈ chunks, c.data ≠ []) (prev payload rest : Str) {fuel : ℕ}
    (hf : (encodeChunks P signer last prev chunks ++ rest).length < fuel) :
    decodeChunks P signer fuel prev payload (encodeChunks P signer last prev chunks ++ rest) =
      .ok (payload ++ (chunks.map Chunk.data).flatten, rest) := by
  have hgraphic : ∀ (prev : Str) (c : Chunk), ¬crlf <:+: chunkHeader P signer prev c :=
    fun prev c => not_infix_of_graphic (chunkHeader_graphic prev c)
  induction chunks generalizing prev payload fuel with
  | nil =>
    obtain ⟨fuel, rfl⟩ : ∃ k, fuel = k + 1 := ⟨fuel - 1, by omega⟩
    have hp := @parseHeader_chunkHeader P signer prev last
    have hc := @continueChain_headerExt P signer prev last.data
    rw [hlast] at hp hc
    rw [encodeChunks, List.append_assoc, decodeChunks_last (nextLine_append (hgraphic _ _) rest) hp hc]
    simp
  | cons c cs ih =>
    obtain ⟨fuel, rfl⟩ : ∃ k, fuel = k + 1 := ⟨fuel - 1, by omega⟩
    rw [List.forall_mem_cons] at hne
    have hbody : encodeChunks P signer last prev (c :: cs) ++ rest =
        chunkHeader P signer prev c ++ (crlf ++ (c.data ++ (crlf ++
          (encodeChunks P signer last (advance P signer prev c.data) cs ++ rest)))) := by
      simp only [encodeChunks, List.append_assoc]
    rw [hbody] at hf ⊢
    rw [decodeChunks_more (nextLine_append (hgraphic _ _) _) (parseHeader_chunkHeader prev c) hne.1
      (continueChain_headerExt prev c.data), ih hne.2]
    · simp
    · have hcrlf : crlf.length = 2 := rfl
      simp only [List.length_append] at hf ⊢
      omega

theorem parseTrailer_line (t : Trailer) : parseTrailer (trailerLine t) = .ok (t.name, t.value) := by
  have hutf8 : isUtf8 (trailerLine t) = true := by
    rw [trailerLine, isUtf8_append t.utf8.1]
    exact (isUtf8_append (s := [58]) (by decide) t.value).trans t.utf8.2
  have hcut : splitOnce 58 (trailerLine t) = some (t.name, t.value) :=
    splitOnce_some.mpr ⟨rfl, t.nameFree⟩
  rw [parseTrailer, hutf8, hcut]
  simp [t.trimmed.1, t.trimmed.2, t.lowercase]

/-- A trailer is a line: no line end stands across the colon. -/
theorem trailerLine_lineFree (t : Trailer) : ¬crlf <:+: trailerLine t := by
  rintro ⟨before, after, h⟩
  rw [List.append_assoc, trailerLine] at h
  rcases List.append_eq_append_iff.mp h with ⟨cut, hname, hrest⟩ | ⟨cut, hbefore, hrest⟩
  · rcases cut with - | ⟨a, - | ⟨b, cut⟩⟩
    · cases hrest
    · cases hrest
    · obtain ⟨rfl, rfl, -⟩ : a = 13 ∧ b = 10 ∧ _ := by
        simpa [crlf, eq_comm] using hrest
      apply t.lineFree.1
      exact ⟨before, cut, by rw [hname, List.append_assoc]; rfl⟩
  · rcases cut with - | ⟨a, cut⟩
    · cases hrest
    · apply t.lineFree.2
      rw [List.cons_append, List.cons.injEq] at hrest
      exact ⟨cut, after, by rw [hrest.2, List.append_assoc]⟩

/-- The trailers of an encoded body are read back, with or without the blank line. -/
theorem decodeTrailers_encode {withTrailers : Bool} {trailers : List Trailer}
    (ht : withTrailers = false → trailers = []) (blank : Bool) (read : List (Str × Str)) {fuel : ℕ}
    (hf : (encodeTrailers trailers ++ if blank then crlf else []).length < fuel) :
    decodeTrailers withTrailers fuel read (encodeTrailers trailers ++ if blank then crlf else []) =
      .ok (read ++ trailers.map fun t => (t.name, t.value), []) := by
  induction trailers generalizing read fuel with
  | nil =>
    obtain ⟨fuel, rfl⟩ : ∃ k, fuel = k + 1 := ⟨fuel - 1, by omega⟩
    rw [List.map_nil, List.append_nil]
    cases blank with
    | false => rfl
    | true => rfl
  | cons t ts ih =>
    obtain ⟨fuel, rfl⟩ : ∃ k, fuel = k + 1 := ⟨fuel - 1, by omega⟩
    have hwith : withTrailers = true := by
      cases withTrailers with
      | false => cases ht rfl
      | true => rfl
    have hbody : encodeTrailers (t :: ts) ++ (if blank then crlf else []) =
        trailerLine t ++ (crlf ++ (encodeTrailers ts ++ if blank then crlf else [])) := by
      simp only [encodeTrailers, List.flatMap_cons, List.append_assoc]
    have hne : trailerLine t ≠ [] := by simp [trailerLine]
    rw [hbody] at hf ⊢
    rw [decodeTrailers, nextLine_append (trailerLine_lineFree t)]
    obtain ⟨b, line, hline⟩ := List.exists_cons_of_ne_nil hne
    have hparse := parseTrailer_line t
    rw [hline] at hparse hf ⊢
    simp only [hwith, hparse, Bool.not_true, Bool.false_eq_true, ↓reduceIte, ok_bind]
    rw [hwith] at ih
    rw [ih (by simp), List.append_assoc]
    · rfl
    · simp only [List.length_append, List.length_cons] at hf ⊢
      omega

end Decoding

/-- Decoding under the signer that encoded gives back the joined chunks and the trailers, in
order, with or without the final blank line. -/
theorem decode_encode (P : Platform) (signer : Option ChunkSigner) (withTrailers blank : Bool)
    (chunks : List Chunk) (last : Chunk) (trailers : List Trailer)
    (hne : ∀ c ∈ chunks, c.data ≠ []) (hlast : last.data = [])
    (ht : withTrailers = false → trailers = []) :
    decodeAwsChunked P (encodeAwsChunked P signer chunks last trailers blank) signer withTrailers =
      .ok ⟨(chunks.map Chunk.data).flatten, trailers.map fun t => (t.name, t.value)⟩ := by
  rw [decodeAwsChunked, encodeAwsChunked]
  dsimp only
  rw [decodeChunks_encode hlast hne _ _ _ (Nat.lt_succ_self _), ok_bind]
  dsimp only
  rw [decodeTrailers_encode ht blank [] (Nat.lt_succ_self _), ok_bind]
  rfl

/-- Data that looks like the end of a body, and an end spelled with two zeros. -/
def terminatorChunk : Chunk :=
  ⟨bytes "0\r\n\r\nhello", bytes "00A", by decide,
    ⟨by decide, List.all_eq_true.mp (by decide), by decide⟩⟩

def doubleZero : Chunk :=
  ⟨[], bytes "00", by decide, ⟨by decide, List.all_eq_true.mp (by decide), by decide⟩⟩

def sumTrailer : Trailer :=
  ⟨bytes "x-sum", bytes "a:b", by decide, by decide, by decide, by decide, by decide⟩

theorem decode_encode_terminator :
    decodeAwsChunked uploadPlatform
      (encodeAwsChunked uploadPlatform (some uploadSigner) [terminatorChunk, terminatorChunk]
        doubleZero [sumTrailer] false) (some uploadSigner) true =
      .ok ⟨bytes "0\r\n\r\nhello0\r\n\r\nhello", [(bytes "x-sum", bytes "a:b")]⟩ :=
  decode_encode uploadPlatform (some uploadSigner) true false [terminatorChunk, terminatorChunk]
    doubleZero [sumTrailer] (by decide) rfl (by decide)

example : encodeAwsChunked uploadPlatform none [terminatorChunk] doubleZero [sumTrailer] true =
    bytes "00A\r\n0\r\n\r\nhello\r\n00\r\nx-sum:a:b\r\n\r\n" := by decide

end ChunkRoundTrip
