import Rgw.ChunkChain
import Rgw.HeaderMaps
import Rgw.SignatureBinding

/-! # What the handlers see of a chunked upload

The framing of a chunked body is taken off before a handler runs. It should then see the
request a plain upload of the same data would have made. -/
namespace PlainUploads

open ByteStrings TextCodecs Utf8Texts RgwTypes RgwSal Http HeaderMaps SigV4 AwsChunked RgwAuth
  ChunkChain SignatureBinding

section Headers

variable {h : HeaderMap} {name : HeaderName} {value : HeaderValue} {names : List Str} {other : Str}

/-- The lines under none of the given names. -/
def otherLines (names : List Str) (h : HeaderMap) : List (HeaderName × HeaderValue) :=
  h.entries.filter fun e => e.1.val ∉ names

theorem otherLines_remove {name : Str} (hm : name ∈ names) :
    otherLines names (h.remove name) = otherLines names h := by
  rw [otherLines, HeaderMap.remove, List.filter_filter, otherLines]
  congr 1
  funext e
  by_cases he : e.1.val = name
  · simp [he, hm]
  · simp [he]

theorem otherLines_insert (hm : name.val ∈ names) :
    otherLines names (h.insert name value) = otherLines names h := by
  have hkept : otherLines names (h.remove name.val) = otherLines names h := otherLines_remove hm
  rw [← hkept]
  simp [otherLines, HeaderMap.insert, HeaderMap.append, hm]

end Headers

section Encodings

/-- The tokens of one line. -/
def encodingTokens (value : Str) : List Str := ((value.splitOn 44).map trim).filter (· ≠ [])

def isAwsChunked (token : Str) : Bool := eqIgnoreAsciiCase token (bytes "aws-chunked")

/-- The tokens of a request, over its lines in order. -/
def contentEncodings (h : HeaderMap) : List Str :=
  (h.getAll contentEncoding.val).flatMap encodingTokens

/-- The tokens that are encodings of the data itself. -/
def dataEncodings (tokens : List Str) : List Str := tokens.filter fun t => !isAwsChunked t

variable {value token : Str}

theorem mem_encodingTokens (h : token ∈ encodingTokens value) :
    trim token = token ∧ token ≠ [] ∧ (44 : UInt8) ∉ token ∧ token ⊆ value := by
  obtain ⟨hmem, hne⟩ := List.mem_filter.mp h
  obtain ⟨piece, hpiece, rfl⟩ := List.mem_map.mp hmem
  have hsub := trim_subset piece
  refine ⟨trim_trim piece, by simpa using hne, ?_, ?_⟩
  · intro hm
    exact not_mem_of_mem_splitOn hpiece (hsub hm)
  · intro b hb
    exact mem_of_mem_splitOn hpiece (hsub hb)

theorem encodingTokens_single (hcomma : (44 : UInt8) ∉ token) (htrim : trim token = token)
    (hne : token ≠ []) : encodingTokens token = [token] := by
  rw [encodingTokens, List.splitOn_eq_singleton hcomma]
  simp [htrim, hne]

theorem encodingTokens_space (value : Str) : encodingTokens (32 :: value) = encodingTokens value := by
  have hsplit : (32 :: value).splitOn 44 = (value.splitOn 44).modifyHead (32 :: ·) :=
    @splitOn_append_left UInt8 _ 44 [32] (by decide) value
  rw [encodingTokens, hsplit, encodingTokens]
  cases value.splitOn 44 with
  | nil => rfl
  | cons first rest => rw [List.modifyHead_cons, List.map_cons, trim_space, List.map_cons]

/-- Tokens written on one line are its tokens. -/
theorem encodingTokens_join {tokens : List Str}
    (ht : ∀ t ∈ tokens, trim t = t ∧ t ≠ [] ∧ (44 : UInt8) ∉ t) :
    encodingTokens (List.intercalate (bytes ", ") tokens) = tokens := by
  induction tokens with
  | nil => decide
  | cons t ts ih =>
    rw [List.forall_mem_cons] at ht
    obtain ⟨⟨htrim, hne, hcomma⟩, hts⟩ := ht
    cases ts with
    | nil =>
      rw [List.intercalate_singleton]
      exact encodingTokens_single hcomma htrim hne
    | cons u us =>
      have hline : List.intercalate (bytes ", ") (t :: u :: us) =
          t ++ 44 :: 32 :: List.intercalate (bytes ", ") (u :: us) := by
        rw [List.intercalate_cons_cons, List.append_assoc]
        rfl
      have hrest := encodingTokens_space (List.intercalate (bytes ", ") (u :: us))
      rw [ih hts, encodingTokens] at hrest
      rw [hline, encodingTokens, List.splitOn_append_cons_self_of_not_mem hcomma, List.map_cons,
        htrim, List.filter_cons, hrest]
      simp [hne]

end Encodings

section Stripping

variable {headers : HeaderMap}

/-- Tokens cut from visible text can be written on a line. -/
theorem headerValue_join {value : Str} {tokens : List Str}
    (hv : value.all isVisibleAscii = true) (ht : ∀ t ∈ tokens, t ⊆ value) :
    ∃ v : HeaderValue, headerValue (List.intercalate (bytes ", ") tokens) = .ok v ∧
      v.val = List.intercalate (bytes ", ") tokens := by
  have hvisible : ∀ b : UInt8, isVisibleAscii b = true → (b == 9 || 32 ≤ b && b ≠ 127) = true :=
    forall_byte (by decide +kernel)
  have hsep : ∀ b ∈ bytes ", ", (b == 9 || 32 ≤ b && b ≠ 127) = true :=
    List.all_eq_true.mp (by decide)
  have hok : isHeaderValue (List.intercalate (bytes ", ") tokens) = true := by
    rw [isHeaderValue, List.all_eq_true]
    intro b hb
    rcases mem_intercalate hb with hb | ⟨t, hmem, hb⟩
    · exact hsep b hb
    · exact hvisible b (List.all_eq_true.mp hv b (ht t hmem hb))
  exact ⟨⟨_, hok⟩, dif_pos hok, rfl⟩

/-- The rewrite keeps the encodings of the first line and no line but one. -/
theorem stripAwsChunkedEncoding_tokens
    (hv : ∀ v ∈ headers.getAll contentEncoding.val, v.all isVisibleAscii = true) :
    contentEncodings (stripAwsChunkedEncoding headers) =
        dataEncodings (((headers.getAll contentEncoding.val).head?.map encodingTokens).getD []) ∧
      ((stripAwsChunkedEncoding headers).getAll contentEncoding.val = [] ↔
        contentEncodings (stripAwsChunkedEncoding headers) = []) := by
  cases hg : headers.getAll contentEncoding.val with
  | nil =>
    have hsame : stripAwsChunkedEncoding headers = headers := by
      rw [stripAwsChunkedEncoding, headerStr, HeaderMap.get, hg]
      rfl
    have hnone : contentEncodings headers = [] := by rw [contentEncodings, hg, List.flatMap_nil]
    rw [hsame, hg, hnone]
    exact ⟨rfl, Iff.rfl⟩
  | cons v vs =>
    rw [hg, List.forall_mem_cons] at hv
    have hstr : headerStr headers contentEncoding.val = some v := by
      rw [headerStr, HeaderMap.get, hg, List.head?_cons, Option.bind_some, toStr, if_pos hv.1]
    have hrest : (((v.splitOn 44).map trim).filter fun t =>
        t ≠ [] ∧ !eqIgnoreAsciiCase t (bytes "aws-chunked")) = dataEncodings (encodingTokens v) := by
      rw [dataEncodings, encodingTokens, List.filter_filter]
      congr 1
      funext t
      simp [isAwsChunked, Bool.and_comm]
    rw [List.head?_cons, Option.map_some, Option.getD_some, stripAwsChunkedEncoding, hstr]
    dsimp only
    rw [hrest]
    by_cases hnil : dataEncodings (encodingTokens v) = []
    · have hgone := getAll_remove_self headers contentEncoding.val
      rw [if_pos hnil, contentEncodings, hgone, List.flatMap_nil, hnil]
      exact ⟨rfl, iff_of_true rfl rfl⟩
    · have htokens : ∀ t ∈ dataEncodings (encodingTokens v),
          trim t = t ∧ t ≠ [] ∧ (44 : UInt8) ∉ t ∧ t ⊆ v := by
        intro t ht
        exact mem_encodingTokens (List.mem_filter.mp ht).1
      obtain ⟨w, hw, hval⟩ := headerValue_join hv.1 fun t ht => (htokens t ht).2.2.2
      have hline : (headers.insert contentEncoding w).getAll contentEncoding.val = [w.val] :=
        getAll_insert_self
      have hjoin := encodingTokens_join fun t ht =>
        ⟨(htokens t ht).1, (htokens t ht).2.1, (htokens t ht).2.2.1⟩
      rw [if_neg hnil, hw]
      dsimp only
      rw [contentEncodings, hline, List.flatMap_singleton, hval, hjoin]
      exact ⟨rfl, iff_of_false (List.cons_ne_nil _ _) hnil⟩

theorem stripAwsChunkedEncoding_others {names : List Str} (hm : contentEncoding.val ∈ names) :
    otherLines names (stripAwsChunkedEncoding headers) = otherLines names headers := by
  rw [stripAwsChunkedEncoding]
  split
  · rfl
  · dsimp only
    split
    · exact otherLines_remove hm
    · split
      · exact otherLines_insert hm
      · rfl

end Stripping

section Uploads

variable {P : Platform} {config : AuthConfig} {req out : Request} {auth : AuthorizationV4}
  {amzDate payloadHash : Str} {info : UserInfo}

/-- The headers that speak of the framing of a body, and the one that mixes in its encodings. -/
def framingHeaders : List Str :=
  [contentEncoding.val, contentLength.val, bytes "transfer-encoding", decodedContentLength]

/-- Headers that tell of the data what the request told, and nothing of the framing. -/
structure PlainHeaders (before after : HeaderMap) : Prop where
  tokens : contentEncodings after = dataEncodings (contentEncodings before)
  absent : after.getAll contentEncoding.val = [] ↔ dataEncodings (contentEncodings before) = []
  others : otherLines framingHeaders after = otherLines framingHeaders before

/-- What a plain upload of the same data would have put before the handler. -/
structure PlainUpload (config : AuthConfig) (req out : Request) : Prop where
  payload : ∃ raw frames rest, readBody config.maxBodyBytes req.headers req.body = .ok raw ∧
    Splits raw frames rest ∧ out.body = bodyFromBytes (frames.map Frame.data).flatten
  headers : PlainHeaders req.headers out.headers

theorem verifyPayload_streaming {headers headers' : HeaderMap} {raw payload : Str} {key : Digest}
    {mode : Bool × Bool} (hm : streamingMode payloadHash = some mode)
    (h : verifyPayload P headers raw payloadHash auth amzDate key = .ok (headers', payload)) :
    ∃ signer decoded stripped, decodeAwsChunked P raw signer mode.2 = .ok decoded ∧
      payload = decoded.payload ∧ headers' = stripAwsChunkedEncoding stripped ∧
      (stripped = headers ∨ stripped = headers.remove decodedContentLength) := by
  have hne : payloadHash ≠ unsignedPayload := by
    rintro rfl
    have hnone : streamingMode unsignedPayload = none := by decide
    rw [hnone] at hm
    cases hm
  rw [verifyPayload, if_neg hne, hm] at h
  obtain ⟨decoded, hd, h⟩ := bind_eq_ok.mp h
  obtain ⟨_, -, h⟩ := bind_eq_ok.mp h
  dsimp only at h
  split at h
  · cases h
    exact ⟨_, decoded, headers, hd, rfl, rfl, Or.inl rfl⟩
  · simp only [throw_error, error_bind, guard_eq_ok] at h
    cases h.2
    exact ⟨_, decoded, headers.remove decodedContentLength, hd, rfl, rfl, Or.inr rfl⟩

/-- An accepted upload, from the payload it carried to the headers left of it. -/
theorem verifyUser_streaming {mode : Bool × Bool} (hh : payloadHashOf req.headers = .ok payloadHash)
    (hm : streamingMode payloadHash = some mode)
    (h : verifyUser P config req auth amzDate info = .ok out) :
    ∃ raw signer decoded stripped, readBody config.maxBodyBytes req.headers req.body = .ok raw ∧
      decodeAwsChunked P raw signer mode.2 = .ok decoded ∧
      out.body = bodyFromBytes decoded.payload ∧
      out.headers = ((stripAwsChunkedEncoding stripped).remove (bytes "transfer-encoding")).insert
        contentLength (contentLengthOf decoded.payload) ∧
      (stripped = req.headers ∨ stripped = req.headers.remove decodedContentLength) := by
  rw [verifyUser] at h
  simp only [throw_error, error_bind, guard_eq_ok] at h
  obtain ⟨secret, -, h⟩ := bind_eq_ok.mp h.2
  obtain ⟨hash, hhash, h⟩ := bind_eq_ok.mp h
  obtain rfl := Except.ok.inj (hh.symm.trans hhash)
  obtain ⟨_, -, h⟩ := bind_eq_ok.mp h
  obtain ⟨raw, hr, h⟩ := bind_eq_ok.mp h
  obtain ⟨⟨headers, payload⟩, hv, h⟩ := bind_eq_ok.mp h
  obtain ⟨signer, decoded, stripped, hd, rfl, rfl, hs⟩ := verifyPayload_streaming hm hv
  cases h
  exact ⟨raw, signer, decoded, stripped, hr, hd, rfl, rfl, hs⟩

theorem upload_lines {mode : Bool × Bool} (hh : payloadHashOf req.headers = .ok payloadHash)
    (hm : streamingMode payloadHash = some mode)
    (h : verifyUser P config req auth amzDate info = .ok out)
    (hv : ∀ v ∈ req.headers.getAll contentEncoding.val, v.all isVisibleAscii = true) :
    contentEncodings out.headers = dataEncodings
        (((req.headers.getAll contentEncoding.val).head?.map encodingTokens).getD []) ∧
      (out.headers.getAll contentEncoding.val = [] ↔ contentEncodings out.headers = []) ∧
      otherLines framingHeaders out.headers = otherLines framingHeaders req.headers := by
  obtain ⟨_, _, decoded, stripped, -, -, -, hheaders, hs⟩ := verifyUser_streaming hh hm h
  have hstripped : stripped.getAll contentEncoding.val = req.headers.getAll contentEncoding.val ∧
      otherLines framingHeaders stripped = otherLines framingHeaders req.headers := by
    rcases hs with rfl | rfl
    · exact ⟨rfl, rfl⟩
    · exact ⟨getAll_remove_ne (by decide), otherLines_remove (by decide)⟩
  have houter : out.headers.getAll contentEncoding.val =
      (stripAwsChunkedEncoding stripped).getAll contentEncoding.val := by
    rw [hheaders, getAll_insert_ne (by decide), getAll_remove_ne (by decide)]
  rw [← hstripped.1] at hv
  have htokens := stripAwsChunkedEncoding_tokens hv
  rw [← hstripped.1, ← hstripped.2, contentEncodings, houter]
  refine ⟨htokens.1, htokens.2, ?_⟩
  rw [hheaders, otherLines_insert (by decide), otherLines_remove (by decide),
    stripAwsChunkedEncoding_others (by decide)]

theorem dataEncodings_eq_nil {tokens : List Str} :
    dataEncodings tokens = [] ↔ ∀ t ∈ tokens, isAwsChunked t = true := by
  simp [dataEncodings]

/-- A chunked upload looks plain to the handler exactly when no line of `Content-Encoding` but
the first names an encoding of the data. -/
theorem plain_upload_exact (P : Platform) (config : AuthConfig) (req out : Request)
    (auth : AuthorizationV4) (amzDate payloadHash : Str) (info : UserInfo) (mode : Bool × Bool)
    (hash : payloadHashOf req.headers = .ok payloadHash)
    (streaming : streamingMode payloadHash = some mode)
    (accepted : verifyUser P config req auth amzDate info = .ok out)
    (visible : ∀ v ∈ req.headers.getAll contentEncoding.val, v.all isVisibleAscii = true) :
    PlainUpload config req out ↔ ∀ v ∈ (req.headers.getAll contentEncoding.val).tail,
      ∀ t ∈ encodingTokens v, isAwsChunked t = true := by
  obtain ⟨htokens, habsent, hothers⟩ := upload_lines hash streaming accepted visible
  have hlater : (∀ v ∈ (req.headers.getAll contentEncoding.val).tail,
      ∀ t ∈ encodingTokens v, isAwsChunked t = true) ↔
      contentEncodings out.headers = dataEncodings (contentEncodings req.headers) := by
    rw [htokens, contentEncodings]
    cases req.headers.getAll contentEncoding.val with
    | nil => simp
    | cons v vs =>
      have happend : dataEncodings ((v :: vs).flatMap encodingTokens) =
          dataEncodings (encodingTokens v) ++ dataEncodings (vs.flatMap encodingTokens) := by
        rw [List.flatMap_cons, dataEncodings, List.filter_append]
        rfl
      rw [happend, List.head?_cons, Option.map_some, Option.getD_some, List.tail_cons,
        List.self_eq_append_right, dataEncodings_eq_nil]
      constructor
      · intro h t ht
        obtain ⟨w, hw, ht⟩ := List.mem_flatMap.mp ht
        exact h w hw t ht
      · intro h w hw t ht
        exact h t (List.mem_flatMap.mpr ⟨w, hw, ht⟩)
  rw [hlater]
  constructor
  · intro h
    exact h.headers.tokens
  · intro h
    obtain ⟨raw, signer, decoded, _, hr, hd, hbody, -, -⟩ :=
      verifyUser_streaming hash streaming accepted
    obtain ⟨frames, rest, hsplit, -, hpayload⟩ := decodeAwsChunked_splits hd
    constructor
    · exact ⟨raw, frames, rest, hr, hsplit, by rw [hbody, hpayload]⟩
    · exact ⟨h, by rw [habsent, h], hothers⟩

section Samples

def zeroPlatform : Platform := .ofTables [] [] []

def zeroAuth : AuthorizationV4 where
  accessKeyId := bytes "AKID"
  scope := ⟨bytes "20130524", bytes "us-east-1", bytes "s3"⟩
  signedHeaders := [bytes "host"]
  signature := List.replicate 64 48

/-- An upload of five bytes in one chunk, under the given lines of `Content-Encoding`. -/
def chunkedRequest (encodings : List Str) : Request where
  method := ⟨bytes "PUT", put_token⟩
  uri := ⟨bytes "/docs/a", none, some (bytes "example.com")⟩
  originalUri := none
  headers := headersOf <|
    (bytes "x-amz-content-sha256", streamingUnsignedTrailer) ::
      (bytes "x-amz-decoded-content-length", bytes "5") ::
      encodings.map fun e => (bytes "content-encoding", e)
  body := [.ok (bytes "5\r\nhello\r\n0\r\n\r\n")]
  identity := none

def received (encodings : List Str) : Request :=
  match verifyUser zeroPlatform .default (chunkedRequest encodings) zeroAuth
    (bytes "20130524T000000Z") uploader with
  | .ok out => out
  | .error _ => chunkedRequest encodings

theorem plain_upload_exact_gzip :
    PlainUpload .default (chunkedRequest [bytes "gzip, AWS-Chunked", bytes "aws-chunked"])
      (received [bytes "gzip, AWS-Chunked", bytes "aws-chunked"]) :=
  (plain_upload_exact zeroPlatform .default _ _ zeroAuth (bytes "20130524T000000Z")
    streamingUnsignedTrailer uploader (false, true) (by decide +kernel) (by decide +kernel)
    (by decide +kernel) (by decide +kernel)).mpr (by decide +kernel)

/-- An encoding on a second line is lost, and nobody can decode the object any more. -/
theorem second_encoding_lost :
    verifyUser zeroPlatform .default (chunkedRequest [bytes "aws-chunked", bytes "gzip"]) zeroAuth
        (bytes "20130524T000000Z") uploader = .ok (received [bytes "aws-chunked", bytes "gzip"]) ∧
      payloadHashOf (chunkedRequest [bytes "aws-chunked", bytes "gzip"]).headers =
        .ok streamingUnsignedTrailer ∧
      streamingMode streamingUnsignedTrailer = some (false, true) ∧
      contentEncodings (chunkedRequest [bytes "aws-chunked", bytes "gzip"]).headers =
        [bytes "aws-chunked", bytes "gzip"] ∧
      (received [bytes "aws-chunked", bytes "gzip"]).headers.getAll contentEncoding.val = [] ∧
      ¬PlainUpload .default (chunkedRequest [bytes "aws-chunked", bytes "gzip"])
        (received [bytes "aws-chunked", bytes "gzip"]) := by
  have hlost : (received [bytes "aws-chunked", bytes "gzip"]).headers.getAll contentEncoding.val =
      [] := by decide +kernel
  refine ⟨by decide +kernel, by decide +kernel, by decide, by decide +kernel, hlost, ?_⟩
  intro h
  have hgone := h.headers.absent.mp hlost
  revert hgone
  decide +kernel

end Samples

end Uploads

end PlainUploads
