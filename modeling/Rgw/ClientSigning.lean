import Rgw.ChunkRoundTrip
import Rgw.HeaderMaps
import Rgw.Mediation
import Rgw.ObjectRequests

/-! # What clients sign

A client writes the canonical request of what it sends, signs it with its secret and adds the
authorization header. A gateway that holds its key lets it through, with the bytes it sent. -/
namespace ClientSigning

open ByteStrings TextCodecs Interaction RgwTypes RgwSal RgwSalSqlite Http HeaderMaps SigV4
  AuthorizationText AwsChunked ChunkRoundTrip RgwAuth SignatureBinding ObjectRequests Rgwd

section Clients

/-- A key and a scope, as an authorization can name them. -/
structure Credentials where
  accessKeyId : Str
  secret : Str
  date : Str
  region : Str
  idText : accessKeyId ≠ [] ∧ (44 : UInt8) ∉ accessKeyId ∧ ∀ w ∈ whitespace, ¬w <+: accessKeyId
  dateText : date.length = 8 ∧ date.all isDigit = true
  regionText : (44 : UInt8) ∉ region ∧ (47 : UInt8) ∉ region
  visible : accessKeyId.all isVisibleAscii = true ∧ region.all isVisibleAscii = true

def Credentials.scope (c : Credentials) : CredentialScope := ⟨c.date, c.region, bytes "s3"⟩

def authorization : HeaderName := ⟨bytes "authorization", by decide⟩

/-- The headers that a client signs: in order, the host among them and the authorization not. -/
structure SignedNames where
  names : List HeaderName
  ascending : (names.map Subtype.val).Pairwise (· < ·)
  host : bytes "host" ∈ names.map Subtype.val
  unsigned : authorization ∉ names

def SignedNames.texts (n : SignedNames) : List Str := n.names.map Subtype.val

/-- A request before it is signed, with the hash that it declares for its payload. -/
structure Draft where
  creds : Credentials
  signed : SignedNames
  time : Time
  method : Method
  uri : Uri
  headers : HeaderMap
  hash : Str

variable (P : Platform) (d : Draft)

def Draft.signature : Str :=
  hexEncode (signatureBytes P (signingKey P d.creds.secret d.creds.scope)
    (stringToSign P (P.formatAmzDate d.time) d.creds.scope
      (canonicalRequest d.method.name d.uri.path (d.uri.query.getD []) d.headers d.uri.authority
        d.signed.texts d.hash))).val

def Draft.auth : AuthorizationV4 := ⟨d.creds.accessKeyId, d.creds.scope, d.signed.texts, d.signature P⟩

end Clients

section Rendering

theorem not_token_of_whitespace : ∀ w ∈ whitespace, ∃ b ∈ w, isTokenByte b = false := by decide +kernel

theorem headerName_text (name : HeaderName) : name.val ≠ [] ∧ name.val.any isUpper = false ∧
    (∀ b ∈ name.val, isTokenByte b = true) := by
  have h := name.2
  rw [isHeaderName, Bool.and_eq_true, decide_eq_true_eq, List.all_eq_true] at h
  refine ⟨h.1, List.any_eq_false.mpr fun b hb => ?_, fun b hb => ?_⟩
  · have hlower := (Bool.and_eq_true_iff.mp (h.2 b hb)).2
    simpa using hlower
  · exact (Bool.and_eq_true_iff.mp (h.2 b hb)).1

theorem signature_text (digest : Digest) : (hexEncode digest.val).length = 64 ∧
    (hexEncode digest.val).all isHexDigit = true ∧ toAsciiLower (hexEncode digest.val) =
    hexEncode digest.val := by
  have hlength : ∀ s : Str, (hexEncode s).length = 2 * s.length := by
    intro s
    induction s with
    | nil => rfl
    | cons b s ih =>
      rw [hexEncode_cons]
      simp only [List.length_cons, ih]
      omega
  refine ⟨?_, List.all_eq_true.mpr fun b hb => mem_hexEncode hb, hexDecode_lower (hexDecode_hexEncode _)⟩
  rw [hlength, digest.2]

variable (P : Platform) (d : Draft)

theorem draft_renderable : Renderable (d.auth P) where
  id := d.creds.idText.1
  date := d.creds.dateText
  service := rfl
  names := by
    intro name hname
    obtain ⟨n, -, rfl⟩ := List.mem_map.mp hname
    exact ⟨(headerName_text n).1, (headerName_text n).2.1⟩
  ascending := d.signed.ascending
  host := d.signed.host
  signature := ⟨(signature_text _).1, (signature_text _).2.1⟩
  idComma := d.creds.idText.2.1
  idStart := d.creds.idText.2.2
  regionText := d.creds.regionText
  nameText := by
    intro name hname
    obtain ⟨n, -, rfl⟩ := List.mem_map.mp hname
    have htoken := (headerName_text n).2.2
    refine ⟨fun hm => ?_, fun hm => ?_, fun w hw hw' => ?_⟩
    · exact absurd (htoken 44 hm) (by decide)
    · exact absurd (htoken 59 hm) (by decide)
    · obtain ⟨b, hb, hnot⟩ := not_token_of_whitespace w hw
      rw [htoken b (hw'.subset hb)] at hnot
      cases hnot

theorem visible_of_token : ∀ b : UInt8, isTokenByte b = true → isVisibleAscii b = true :=
  forall_byte (by decide +kernel)

theorem visible_of_hex : ∀ b : UInt8, isHexDigit b = true → isVisibleAscii b = true :=
  forall_byte (by decide +kernel)

theorem visible_of_digit : ∀ b : UInt8, isDigit b = true → isVisibleAscii b = true :=
  forall_byte (by decide +kernel)

theorem headerByte_of_visible : ∀ b : UInt8, isVisibleAscii b = true →
    (b == 9 || 32 ≤ b && b ≠ 127) = true :=
  forall_byte (by decide +kernel)

theorem all_join {p : UInt8 → Bool} {sep : UInt8} (hsep : p sep = true) {parts : List Str}
    (h : ∀ part ∈ parts, part.all p = true) : (join sep parts).all p = true := by
  rw [List.all_eq_true]
  intro b hb
  rcases mem_intercalate hb with hb | ⟨part, hpart, hb⟩
  · rw [List.mem_singleton.mp hb]
    exact hsep
  · exact List.all_eq_true.mp (h part hpart) b hb

theorem fieldsOf_visible : ∀ f ∈ fieldsOf (d.auth P), (pairText f).all isVisibleAscii = true := by
  have hpair : ∀ name value : Str, name.all isVisibleAscii = true → value.all isVisibleAscii = true →
      (pairText (name, value)).all isVisibleAscii = true := by
    intro name value hname hvalue
    rw [pairText, List.all_append, List.all_cons, hname, hvalue]
    decide
  have hdate : d.creds.date.all isVisibleAscii = true :=
    List.all_eq_true.mpr fun b hb =>
      visible_of_digit b (List.all_eq_true.mp d.creds.dateText.2 b hb)
  have hscope : d.creds.scope.toString.all isVisibleAscii = true := by
    refine all_join (by decide) ?_
    simp only [List.forall_mem_cons]
    have hservice : (bytes "s3").all isVisibleAscii = true := by decide
    exact ⟨hdate, d.creds.visible.2, hservice, by decide, List.forall_mem_nil _⟩
  have hnames : (join 59 d.signed.texts).all isVisibleAscii = true := by
    refine all_join (by decide) fun name hname => ?_
    obtain ⟨n, -, rfl⟩ := List.mem_map.mp hname
    exact List.all_eq_true.mpr fun b hb => visible_of_token b ((headerName_text n).2.2 b hb)
  have hsignature : (d.signature P).all isVisibleAscii = true :=
    List.all_eq_true.mpr fun b hb => visible_of_hex b (mem_hexEncode hb)
  simp only [fieldsOf, List.forall_mem_cons]
  refine ⟨hpair _ _ (by decide) ?_, hpair _ _ (by decide) hnames, hpair _ _ (by decide) hsignature,
    List.forall_mem_nil _⟩
  rw [credentialText, List.all_append, List.all_cons]
  simp only [Draft.auth, d.creds.visible.1, hscope]
  decide

theorem render_visible : (render (d.auth P)).all isVisibleAscii = true := by
  have hfields : (join 44 ((fieldsOf (d.auth P)).map pairText)).all isVisibleAscii = true := by
    refine all_join (by decide) fun part hpart => ?_
    obtain ⟨f, hf, rfl⟩ := List.mem_map.mp hpart
    exact fieldsOf_visible P d f hf
  rw [render, List.all_append, List.all_cons, hfields]
  decide

theorem render_isHeaderValue : isHeaderValue (render (d.auth P)) = true :=
  List.all_eq_true.mpr fun b hb =>
    headerByte_of_visible b (List.all_eq_true.mp (render_visible P d) b hb)

/-- The credentials are read as they were written. -/
theorem parseCredentials_render : parseCredentials (render (d.auth P)) = .ok (d.auth P) := by
  have hscheme : scheme (render (d.auth P)) = algorithm := by
    rw [scheme, render, List.takeWhile_append_of_pos]
    · simp
    · decide +kernel
  have hrenderable := draft_renderable P d
  have hparse := parse_rendered hrenderable.toChecked hrenderable.apart hrenderable.plain
    (renders_render (d.auth P))
  have hlower : { d.auth P with signature := toAsciiLower (d.auth P).signature } = d.auth P := by
    simp only [Draft.auth, Draft.signature, (signature_text _).2.2]
  rw [parseCredentials, toStr, if_pos (render_visible P d)]
  dsimp only
  rw [if_pos hscheme, hparse, hlower]

end Rendering

section Messages

variable (P : Platform) (d : Draft)

/-- The signed message, with its body in whatever pieces it arrives in. -/
def Draft.message (body : ObjectBody) : Incoming :=
  ⟨d.method, d.uri, d.headers.insert authorization ⟨render (d.auth P), render_isHeaderValue P d⟩, body⟩

variable {P d} {body : ObjectBody}

theorem message_authorization :
    (d.message P body).headers.get (bytes "authorization") = some (render (d.auth P)) := by
  rw [HeaderMap.get, Draft.message]
  exact congrArg List.head? (@getAll_insert_self d.headers authorization _)

theorem message_get {name : Str} (h : name ≠ authorization.val) :
    (d.message P body).headers.get name = d.headers.get name := by
  rw [HeaderMap.get, HeaderMap.get]
  exact congrArg List.head? (getAll_insert_ne h)

theorem message_headerStr {name : Str} (h : name ≠ authorization.val) :
    headerStr (d.message P body).headers name = headerStr d.headers name := by
  rw [headerStr, headerStr, message_get h]

/-- The authorization is no part of what it signs. -/
theorem message_requestText : requestText (d.message P body).request (d.auth P) d.hash =
    canonicalRequest d.method.name d.uri.path (d.uri.query.getD []) d.headers d.uri.authority
      d.signed.texts d.hash := by
  have hlines : ∀ name ∈ d.signed.texts, headerLine (d.message P body).headers d.uri.authority name =
      headerLine d.headers d.uri.authority name := by
    intro name hname
    have hne : name ≠ authorization.val := by
      rintro rfl
      obtain ⟨n, hn, he⟩ := List.mem_map.mp hname
      exact d.signed.unsigned (Subtype.ext he ▸ hn)
    have hall : (d.message P body).headers.getAll name = d.headers.getAll name := getAll_insert_ne hne
    rw [headerLine, canonicalValue, headerValues, hall]
    rfl
  rw [requestText, canonicalRequest, canonicalRequest, canonicalHeaders, canonicalHeaders]
  congr 5
  exact List.flatMap_congr hlines

end Messages

section Payloads

variable (P : Platform) (d : Draft)

/-- What signs the chunks of a message. -/
def Draft.signer : ChunkSigner :=
  ⟨signingKey P d.creds.secret d.creds.scope, P.formatAmzDate d.time, d.creds.scope, d.signature P⟩

def withoutDeclared (headers : HeaderMap) : HeaderMap :=
  match headerStr headers decodedContentLength with
  | none => headers
  | some _ => headers.remove decodedContentLength

/-- The headers of a message without those of its framing. -/
def unframed (headers : HeaderMap) : HeaderMap := stripAwsChunkedEncoding (withoutDeclared headers)

/-- How data goes over the wire: as it is, under its hash or none, or in chunks, chained to the
signature or not. What it does to the headers is undone. -/
inductive Wire (data : Str) : Str → (HeaderMap → HeaderMap) → Prop where
  | hashed (named : d.hash = sha256Hex P data) : Wire data data id
  | unsigned (named : d.hash = unsignedPayload) : Wire data data id
  | chunked {signed withTrailers : Bool} (blank : Bool) {chunks : List Chunk} {last : Chunk}
      {trailers : List Trailer} (named : streamingMode d.hash = some (signed, withTrailers))
      (pieces : ∀ c ∈ chunks, c.data ≠ []) (ends : last.data = [])
      (bare : withTrailers = false → trailers = []) (whole : (chunks.map Chunk.data).flatten = data)
      (sum : verifyTrailerChecksum P ⟨data, trailers.map fun t => (t.name, t.value)⟩ = .ok ())
      (length : ∀ v, headerStr d.headers decodedContentLength = some v →
        parseUnsigned 10 (2 ^ 64) v = some data.length) :
      Wire data (encodeAwsChunked P (if signed then some (d.signer P) else none) chunks last
        trailers blank)
        unframed

/-- A body that brings these bytes, in any pieces, within the limit. -/
structure Arrives (limit : ℕ) (headers : HeaderMap) (raw : Str) (body : ObjectBody) : Prop where
  pieces : ∃ frames : List Str, body = frames.map .ok ∧ frames.flatten = raw
  fits : raw.length ≤ limit
  declared : ∀ n, (headerStr headers (bytes "content-length")).bind (parseUnsigned 10 (2 ^ 64)) =
    some n →
    n ≤ limit

variable {P d} {data raw : Str} {f : HeaderMap → HeaderMap} {limit : ℕ} {headers : HeaderMap}
  {body : ObjectBody}

theorem toBytes_frames (frames : List Str) (acc : Str) (h : acc.length + frames.flatten.length ≤ limit) :
    toBytes limit (frames.map .ok) acc = .ok (acc ++ frames.flatten) := by
  induction frames generalizing acc with
  | nil => simp [toBytes]
  | cons frame frames ih =>
    rw [List.flatten_cons, List.length_append] at h
    rw [List.map_cons, toBytes, if_neg (by omega), ih _ (by rw [List.length_append]; omega),
      List.flatten_cons, List.append_assoc]

theorem readBody_arrives (h : Arrives limit headers raw body) :
    RgwAuth.readBody limit headers body = .ok raw := by
  obtain ⟨⟨frames, rfl, rfl⟩, hfits, hdeclared⟩ := h
  have hsmall : ¬((headerStr headers (bytes "content-length")).bind (parseUnsigned 10 (2 ^ 64))).any
      (fun len => decide (limit < len)) = true := by
    cases hn : (headerStr headers (bytes "content-length")).bind (parseUnsigned 10 (2 ^ 64)) with
    | none => simp
    | some n => simpa using hdeclared n hn
  simp only [RgwAuth.readBody]
  rw [if_neg hsmall, toBytes_frames frames [] (by simpa using hfits)]
  rfl

theorem decode_wire {signer : Option ChunkSigner} {withTrailers : Bool} (blank : Bool)
    {chunks : List Chunk}
    {last : Chunk} {trailers : List Trailer} (pieces : ∀ c ∈ chunks, c.data ≠ []) (ends : last.data = [])
    (bare : withTrailers = false → trailers = []) :
    decodeAwsChunked P (encodeAwsChunked P signer chunks last trailers blank) signer withTrailers =
      .ok ⟨(chunks.map Chunk.data).flatten, trailers.map fun t => (t.name, t.value)⟩ := by
  rw [decodeAwsChunked, encodeAwsChunked]
  dsimp only
  rw [decodeChunks_encode ends pieces _ _ _ (Nat.lt_succ_self _), ok_bind]
  dsimp only
  rw [decodeTrailers_encode bare blank [] (Nat.lt_succ_self _), ok_bind]
  rfl

/-- The data comes back from the wire. -/
theorem verifyPayload_wire (w : Wire P d data raw f)
    (hlength : headerStr headers decodedContentLength = headerStr d.headers decodedContentLength) :
    verifyPayload P headers raw d.hash (d.auth P) (P.formatAmzDate d.time)
      (signingKey P d.creds.secret d.creds.scope) = .ok (f headers, data) := by
  cases w with
  | hashed named =>
    obtain ⟨hlen, hhex, hlower⟩ := signature_text (P.sha256 data)
    have hne : ∀ t : Str, t.length ≠ 64 → sha256Hex P data ≠ t := by
      rintro t ht rfl
      exact ht hlen
    have hmode : streamingMode (sha256Hex P data) = none := by
      rw [streamingMode, if_neg (hne _ (by decide)), if_neg (hne _ (by decide)),
        if_neg (hne _ (by decide))]
    have hsame : eqIgnoreAsciiCase (sha256Hex P data) (sha256Hex P data) = true := beq_self_eq_true _
    rw [named, verifyPayload, if_neg (hne _ (by decide)), hmode]
    dsimp only
    rw [if_pos ⟨hlen, hhex⟩, if_pos hsame]
    rfl
  | unsigned named =>
    rw [named, verifyPayload, if_pos rfl]
    rfl
  | @chunked signed withTrailers blank chunks last trailers named pieces ends bare whole sum length =>
    have hne : d.hash ≠ unsignedPayload := by
      have hmode : streamingMode unsignedPayload = none := by decide +kernel
      intro he
      rw [he, hmode] at named
      cases named
    rw [verifyPayload, if_neg hne, named]
    dsimp only
    rw [show (⟨signingKey P d.creds.secret d.creds.scope, P.formatAmzDate d.time, (d.auth P).scope,
      (d.auth P).signature⟩ : ChunkSigner) = d.signer P from rfl, decode_wire blank pieces ends bare,
      ok_bind, whole, sum, ok_bind, hlength, unframed, withoutDeclared, hlength]
    cases hv : headerStr d.headers decodedContentLength with
    | none => rfl
    | some v =>
      dsimp only
      rw [length v hv, if_neg (by simp)]
      rfl

end Payloads

section Acceptance

variable (P : Platform) (d : Draft)

/-- A draft whose headers say what it signs: its payload's hash and its time, on the day of its
scope, in a form that the clock's reader takes back. -/
structure Signable : Prop where
  named : headerStr d.headers (bytes "x-amz-content-sha256") = some d.hash
  dated : headerStr d.headers (bytes "x-amz-date") = some (P.formatAmzDate d.time)
  clock : P.parseAmzDate (P.formatAmzDate d.time) = some d.time
  day : d.creds.date <+: P.formatAmzDate d.time
  unsignedQuery : hasQueryParam (d.uri.query.getD []) (bytes "X-Amz-Algorithm") = false

/-- A gateway's store knows the key of a draft, for a user who may act. -/
structure Known (s : Tables) (info : UserInfo) : Prop where
  stored : loadUserByAccessKey d.creds.accessKeyId s = .ok info
  enabled : info.suspended = false
  secret : activeSecret info d.creds.accessKeyId = .ok d.creds.secret

/-- The request that a handler gets for a draft. -/
def Draft.delivered (info : UserInfo) (f : HeaderMap → HeaderMap) (data : Str) : Request where
  method := d.method
  uri := d.uri
  originalUri := some d.uri
  headers := ((f (d.message P []).headers).remove (bytes "transfer-encoding")).insert contentLength
    (contentLengthOf data)
  body := bodyFromBytes data
  identity := some (.user ⟨info, d.creds.accessKeyId⟩)

variable {P d} {md5 : Str → Str} {config : AuthConfig} {now : Time} {s : Tables} {info : UserInfo}
  {data raw : Str} {f : HeaderMap → HeaderMap} {body : ObjectBody}

theorem requestTime_message (sig : Signable P d) (fresh : (now - d.time).natAbs ≤ config.maxSkew) :
    requestTime P config now (d.message P body).headers d.creds.scope =
    .ok (P.formatAmzDate d.time) := by
  have hdate := @message_headerStr P d body (bytes "x-amz-date") (by decide)
  have hday : ¬¬d.creds.scope.date <+: P.formatAmzDate d.time := not_not_intro sig.day
  rw [requestTime, hdate, sig.dated]
  dsimp only
  rw [sig.clock]
  change (if ¬d.creds.scope.date <+: P.formatAmzDate d.time then _ else _) = _
  rw [if_neg hday, if_neg (not_lt.mpr fresh)]
  rfl

theorem payloadHashOf_named {headers : HeaderMap} {hash : Str}
    (h : headerStr headers (bytes "x-amz-content-sha256") = some hash) :
    payloadHashOf headers = .ok hash := by
  rw [payloadHashOf, h]

/-- The signature is checked over the text that was signed, and the data comes back. -/
theorem verifyUser_message (sig : Signable P d) (w : Wire P d data raw f)
    (arrives : Arrives config.maxBodyBytes (d.message P body).headers raw body)
    (enabled : info.suspended = false)
    (secret : activeSecret info d.creds.accessKeyId = .ok d.creds.secret) :
    verifyUser P config (d.message P body).request (d.auth P) (P.formatAmzDate d.time) info =
      .ok (d.delivered P info f data) := by
  have hactive : activeSecret info (d.auth P).accessKeyId = .ok d.creds.secret := secret
  have hhash : payloadHashOf (d.message P body).request.headers = .ok d.hash := by
    apply payloadHashOf_named
    rw [← sig.named]
    exact @message_headerStr P d body _ (by decide)
  have hsigned : checkSignature P (signingKey P d.creds.secret (d.auth P).scope)
      (stringToSign P (P.formatAmzDate d.time) (d.auth P).scope
        (requestText (d.message P body).request (d.auth P) d.hash)) (d.auth P).signature = .ok () := by
    rw [message_requestText, checkSignature]
    exact if_pos (signatureMatches_iff.mpr (hexDecode_hexEncode _))
  have hbody : RgwAuth.readBody config.maxBodyBytes (d.message P body).request.headers
      (d.message P body).request.body = .ok raw := readBody_arrives arrives
  have hpayload : verifyPayload P (d.message P body).request.headers raw d.hash (d.auth P)
      (P.formatAmzDate d.time) (signingKey P d.creds.secret (d.auth P).scope) =
        .ok (f (d.message P body).headers, data) :=
    verifyPayload_wire w (@message_headerStr P d body _ (by decide))
  rw [verifyUser, if_neg (by rw [enabled]; decide), hactive, ok_bind, hhash, ok_bind]
  dsimp only
  rw [hsigned, ok_bind, hbody, ok_bind, hpayload]
  rfl

/-- The middleware hands on what the client wrote. -/
theorem verify_message (sig : Signable P d) (w : Wire P d data raw f)
    (arrives : Arrives config.maxBodyBytes (d.message P body).headers raw body)
    (fresh : (now - d.time).natAbs ≤ config.maxSkew) (known : Known d s info) :
    (verify P config now (d.message P body).request).run.run (exec md5) s =
      some (.ok (d.delivered P info f data), s) := by
  have hauthorization : (d.message P body).request.headers.get (bytes "authorization") =
      some (render (d.auth P)) := @message_authorization P d body
  have hload : exec md5 (.loadUserByAccessKey (d.auth P).accessKeyId) s = (.ok info, s) :=
    congrArg (·, s) known.stored
  have hquery : hasQueryParam ((d.message P body).request.sentUri.query.getD [])
    (bytes "X-Amz-Algorithm") =
      false := sig.unsignedQuery
  have htime : requestTime P config now (d.message P body).request.headers (d.auth P).scope =
      .ok (P.formatAmzDate d.time) := @requestTime_message P d config now body sig fresh
  rw [verify, if_neg (by rw [hquery]; decide), hauthorization]
  dsimp only
  rw [run_lift_ok (parseCredentials_render P d), run_lift_ok htime, run_attempt_bind, hload]
  dsimp only
  rw [run_lift, run_done, verifyUser_message sig w arrives known.enabled known.secret]

end Acceptance

section Gateway

/-- What the pipeline does with a request that verifies. -/
theorem run_buildApp {A : App} {env : AppEnv} {msg : Incoming} {out : Request} {s : Tables}
    (h : (verify A.platform .default env.checked msg.request).run.run (exec A.platform.md5) s =
      some (.ok out, s)) :
    (buildApp A env msg).run (exec A.platform.md5) s =
      ((router A env out).run (exec A.platform.md5) s).map fun r =>
        (strip msg.method (stamp env.requestId r.1), r.2) := by
  rw [buildApp, run_bind, authenticate, run_bind, h, Option.bind_some]
  dsimp only
  cases (router A env out).run (exec A.platform.md5) s with
  | none => rfl
  | some r => rfl

/-- A message that a client sends to a gateway that holds its key: what it signs is in order,
its body brings the data, and it comes in time. -/
structure Sent (A : App) (env : AppEnv) (d : Draft) (data : Str) (f : HeaderMap → HeaderMap)
    (body : ObjectBody) (s : Tables) (info : UserInfo) : Prop where
  signable : Signable A.platform d
  carried : ∃ raw, Wire A.platform d data raw f ∧
    Arrives AuthConfig.default.maxBodyBytes (d.message A.platform body).headers raw body
  fresh : (env.checked - d.time).natAbs ≤ AuthConfig.default.maxSkew
  known : Known d s info

theorem verify_sent {A : App} {env : AppEnv} {d : Draft} {data : Str} {f : HeaderMap → HeaderMap}
    {body : ObjectBody} {s : Tables} {info : UserInfo} (sent : Sent A env d data f body s info) :
    (verify A.platform .default env.checked (d.message A.platform body).request).run.run
        (exec A.platform.md5) s = some (.ok (d.delivered A.platform info f data), s) := by
  obtain ⟨raw, wire, arrives⟩ := sent.carried
  exact verify_message sent.signable wire arrives sent.fresh sent.known

/-- A signed message is served as if no signature and no framing had been. -/
theorem signed_served (A : App) (env : AppEnv) (d : Draft) (data : Str) (f : HeaderMap → HeaderMap)
    (body : ObjectBody) (s : Tables) (info : UserInfo) (sent : Sent A env d data f body s info) :
    (buildApp A env (d.message A.platform body)).run (exec A.platform.md5) s =
      ((router A env (d.delivered A.platform info f data)).run (exec A.platform.md5) s).map fun r =>
        (strip d.method (stamp env.requestId r.1), r.2) :=
  run_buildApp (verify_sent sent)

def uploadDraft : Draft where
  creds := ⟨bytes "AKID", uploadSecret, bytes "20130524", bytes "us-east-1", by decide +kernel,
    by decide +kernel, by decide +kernel, by decide +kernel⟩
  signed := ⟨[⟨bytes "host", by decide +kernel⟩, ⟨bytes "x-amz-content-sha256", by decide +kernel⟩,
    ⟨bytes "x-amz-date", by decide +kernel⟩], by decide +kernel, by decide +kernel, by decide +kernel⟩
  time := uploadTime
  method := plainUpload.method
  uri := plainUpload.uri
  headers := headersOf [(bytes "x-amz-date", bytes "20130524T000000Z"),
    (bytes "x-amz-content-sha256", bodyHash)]
  hash := bodyHash

def inPieces : ObjectBody := [.ok (bytes "h"), .ok (bytes "i")]

theorem uploadDraft_sent :
    Sent Mediation.gateway Mediation.appEnv uploadDraft (bytes "hi") id inPieces uploaderTables
    uploader where
  signable := by constructor <;> decide +kernel
  carried := by
    refine ⟨bytes "hi", .hashed (by decide +kernel), ⟨[bytes "h", bytes "i"], rfl, by decide +kernel⟩,
      by decide +kernel, fun n hn => ?_⟩
    have hnone : headerStr (uploadDraft.message requestPlatform inPieces).headers
      (bytes "content-length") =
      none := by decide +kernel
    rw [show Mediation.gateway.platform = requestPlatform from rfl, hnone] at hn
    cases hn
  fresh := by decide +kernel
  known := by constructor <;> decide +kernel

theorem signed_served_upload :
    (buildApp Mediation.gateway Mediation.appEnv (uploadDraft.message requestPlatform inPieces)).run
        (exec requestPlatform.md5) uploaderTables =
      ((router Mediation.gateway Mediation.appEnv
          (uploadDraft.delivered requestPlatform uploader id (bytes "hi"))).run
        (exec requestPlatform.md5) uploaderTables).map fun r =>
          (strip uploadDraft.method (stamp Mediation.appEnv.requestId r.1), r.2) :=
  signed_served Mediation.gateway Mediation.appEnv uploadDraft (bytes "hi") id inPieces uploaderTables
    uploader uploadDraft_sent

end Gateway

end ClientSigning
