import Rgw.Auth
import Rgw.AuthorizationText
import Rgw.CanonicalRequest
import Rgw.SalSqlite
import Mathlib.Data.Set.Function

/-! # What a request signature binds

Two requests accepted with one signature under one secret were signed over one canonical
request, so they mean the same to the handlers. -/
namespace SignatureBinding

open ByteStrings TextCodecs Interaction RgwTypes RgwSal RgwSalSqlite Http SigV4 RgwAuth RestS3Wire
  CanonicalRequest AuthorizationText

section Credentials

/-- The names a field set holds, when it holds any, lack a byte. -/
def Lacks (c : UInt8) (f : Fields) : Prop := ∀ v, f.signedHeaders = some v → c ∉ v

theorem readFields_lacks {c : UInt8} {value : Str} {f : Fields} (hc : c ∉ value)
    (h : readFields value = .ok f) : Lacks c f :=
  fun v hv hm => hc (((readFields_holds h).signedHeaders v hv).2.2 hm)

/-- Accepted names ascend strictly, and were cut from the header's own bytes. -/
theorem parseAuthorization_signed {value : Str} {auth : AuthorizationV4}
    (h : parseAuthorization value = .ok auth) :
    auth.signedHeaders.Pairwise (· < ·) ∧ auth.signedHeaders ≠ [] ∧
      (∀ name ∈ auth.signedHeaders, (59 : UInt8) ∉ name) ∧
      ∀ c, c ∉ value → c ∉ join 59 auth.signedHeaders := by
  obtain ⟨_, hread, hchecked, hapart, -⟩ := parsed_fields h
  refine ⟨hchecked.ascending, List.ne_nil_of_mem hchecked.host, hapart.names, fun c hc => ?_⟩
  exact readFields_lacks hc hread _ rfl

end Credentials

section Verification

/-- The credentials a request presents. -/
def presented (req : Request) : Option AuthorizationV4 :=
  (req.headers.get (bytes "authorization")).bind fun a => (parseCredentials a).toOption

theorem presented_signed {req : Request} {auth : AuthorizationV4} (h : presented req = some auth) :
    auth.signedHeaders.Pairwise (· < ·) ∧ auth.signedHeaders ≠ [] ∧
      (∀ name ∈ auth.signedHeaders, (59 : UInt8) ∉ name) ∧
      (10 : UInt8) ∉ join 59 auth.signedHeaders := by
  obtain ⟨a, -, ha⟩ := Option.bind_eq_some_iff.mp h
  rw [parseCredentials] at ha
  split at ha
  · cases ha
  · next text htext =>
    split at ha
    · cases hp : parseAuthorization text with
      | error e => simp [hp, Except.toOption] at ha
      | ok parsed =>
        simp only [hp, Except.toOption, Option.some.injEq] at ha
        subst ha
        obtain ⟨hs, hne, hsep, hlacks⟩ := parseAuthorization_signed hp
        refine ⟨hs, hne, hsep, hlacks 10 fun hm => ?_⟩
        simp only [toStr, Option.ite_none_right_eq_some, Option.some.injEq, List.all_eq_true]
          at htext
        have h10 := htext.1 10 (htext.2 ▸ hm)
        revert h10
        decide
    · split at ha <;> cases ha

variable {P : Platform}

/-- What `verify` settled about a request it admitted for a user. -/
structure Admitted (P : Platform) (config : AuthConfig) (now : Time) (req out : Request)
    (u : AuthedUser) (auth : AuthorizationV4) (amzDate secret payloadHash : Str) : Prop where
  presented : presented req = some auth
  dated : requestTime P config now req.headers auth.scope = .ok amzDate
  known : activeSecret u.info u.accessKeyId = .ok secret
  hash : payloadHashOf req.headers = .ok payloadHash
  signature : signatureMatches (signatureBytes P (signingKey P secret auth.scope)
    (stringToSign P amzDate auth.scope (requestText req auth payloadHash))) auth.signature = true
  body : ∃ raw headers payload, readBody config.maxBodyBytes req.headers req.body = .ok raw ∧
    verifyPayload P req.headers raw payloadHash auth amzDate (signingKey P secret auth.scope) =
      .ok (headers, payload) ∧ out.body = bodyFromBytes payload

theorem checkSignature_ok {key : Digest} {text signature : Str}
    (h : checkSignature P key text signature = .ok ()) :
    signatureMatches (signatureBytes P key text) signature = true := by
  rw [checkSignature] at h
  split at h
  · assumption
  · cases h

theorem verifyUser_ok {config : AuthConfig} {now : Time} {req out : Request} {auth : AuthorizationV4}
    {amzDate : Str} {info : UserInfo} {u : AuthedUser} (hp : presented req = some auth)
    (hd : requestTime P config now req.headers auth.scope = .ok amzDate)
    (h : verifyUser P config req auth amzDate info = .ok out) (hu : out.identity = some (.user u)) :
    ∃ secret payloadHash, Admitted P config now req out u auth amzDate secret payloadHash := by
  rw [verifyUser] at h
  simp only [throw_error, error_bind, guard_eq_ok] at h
  obtain ⟨-, h⟩ := h
  obtain ⟨secret, hs, h⟩ := bind_eq_ok.mp h
  obtain ⟨payloadHash, hh, h⟩ := bind_eq_ok.mp h
  obtain ⟨_, hsig, h⟩ := bind_eq_ok.mp h
  obtain ⟨raw, hr, h⟩ := bind_eq_ok.mp h
  obtain ⟨⟨headers, payload⟩, hv, h⟩ := bind_eq_ok.mp h
  cases h
  cases hu
  exact ⟨secret, payloadHash, hp, hd, hs, hh, checkSignature_ok hsig, raw, headers, payload, hr,
    hv, rfl⟩

/-- An admitted user's request passed every check. -/
theorem verify_admitted {md5 : Str → Str} {config : AuthConfig} {now : Time} {req out : Request}
    {u : AuthedUser} {s s' : Tables}
    (h : (verify P config now req).run.run (exec md5) s = some (.ok out, s'))
    (hu : out.identity = some (.user u)) :
    ∃ auth amzDate secret payloadHash,
      Admitted P config now req out u auth amzDate secret payloadHash := by
  have hens : (verify P config now req).run.Ensures (exec md5) s fun r _ =>
      ∀ out u, r = .ok out → out.identity = some (.user u) → ∃ auth amzDate secret payloadHash,
        Admitted P config now req out u auth amzDate secret payloadHash := by
    rw [verify]
    split
    · rw [ensures_except_bind, run_fail, ensures_done]
      intro _ _ hr
      cases hr
    · split
      · rw [run_ok, ensures_done]
        intro out u hr hid
        cases hr
        cases hid
      · next authorization ha =>
        rw [ensures_except_bind, run_lift, ensures_done]
        cases hc : parseCredentials authorization with
        | error e => intro _ _ hr; cases hr
        | ok auth =>
          have hp : presented req = some auth := by simp [presented, ha, hc, Except.toOption]
          dsimp only
          rw [ensures_except_bind, run_lift, ensures_done]
          cases hd : requestTime P config now req.headers auth.scope with
          | error e => intro _ _ hr; cases hr
          | ok amzDate =>
            dsimp only
            rw [ensures_except_bind, run_attempt, ensures_call, ensures_done]
            dsimp only
            split
            · next info _ =>
              rw [run_lift, ensures_done]
              intro out u hr hid
              exact ⟨auth, amzDate, verifyUser_ok hp hd hr hid⟩
            · rw [run_fail, ensures_done]
              intro _ _ hr
              cases hr
            · rw [run_fail, ensures_done]
              intro _ _ hr
              cases hr
  exact hens _ _ h out u rfl hu

end Verification

section Binding

variable {P : Platform} {config₁ config₂ : AuthConfig} {now₁ now₂ : Time}
  {r₁ r₂ out₁ out₂ : Request} {u₁ u₂ : AuthedUser} {auth₁ auth₂ : AuthorizationV4}
  {amzDate₁ amzDate₂ secret hash₁ hash₂ : Str}

/-- The texts the verification of a request hashes: its canonical request and its body. -/
def hashed (config : AuthConfig) (req : Request) : Set Str :=
  {t | ∃ auth hash, presented req = some auth ∧ payloadHashOf req.headers = .ok hash ∧
    t = requestText req auth hash} ∪
  {t | readBody config.maxBodyBytes req.headers req.body = .ok t}

/-- The key and the message its signature is the MAC of. -/
def authenticated (P : Platform) (config : AuthConfig) (now : Time) (secret : Str)
    (req : Request) : Set (Str × Str) :=
  {p | ∃ auth amzDate hash, presented req = some auth ∧
    requestTime P config now req.headers auth.scope = .ok amzDate ∧
    payloadHashOf req.headers = .ok hash ∧ p = ((signingKey P secret auth.scope).val,
      stringToSign P amzDate auth.scope (requestText req auth hash))}

theorem payloadHashOf_ok {headers : HeaderMap} {hash : Str} (h : payloadHashOf headers = .ok hash) :
    headerStr headers (bytes "x-amz-content-sha256") = some hash := by
  rw [payloadHashOf] at h
  split at h
  · next found hf =>
    cases h
    exact hf
  · cases h

theorem not_mem_payloadHash {headers : HeaderMap} {hash : Str}
    (h : payloadHashOf headers = .ok hash) : (10 : UInt8) ∉ hash := by
  obtain ⟨v, -, hv⟩ := Option.bind_eq_some_iff.mp (payloadHashOf_ok h)
  simp only [toStr, Option.ite_none_right_eq_some, Option.some.injEq, List.all_eq_true] at hv
  intro hm
  have h10 := hv.1 10 (hv.2 ▸ hm)
  revert h10
  decide

theorem not_mem_method (m : Method) : (10 : UInt8) ∉ m.name := by
  intro hm
  have ht := m.token
  rw [Bool.and_eq_true, List.all_eq_true] at ht
  have h10 := ht.1 10 hm
  revert h10
  decide

theorem stringToSign_digest {amzDate amzDate' text text' : Str} {scope scope' : CredentialScope}
    (h : stringToSign P amzDate scope text = stringToSign P amzDate' scope' text') :
    P.sha256 text = P.sha256 text' := by
  have hex : ∀ d : Digest, (10 : UInt8) ∉ hexEncode d.val := fun d hm => by
    have hd := mem_hexEncode hm
    revert hd
    decide
  have hsplit : ∀ a (s : CredentialScope) t, stringToSign P a s t =
      (algorithm ++ 10 :: a ++ 10 :: s.toString) ++ 10 :: sha256Hex P t := by
    intro a s t
    simp [stringToSign, join, List.intercalate, List.intersperse]
  rw [hsplit, hsplit] at h
  exact Subtype.ext (hexEncode_injective (last_cut_unique (hex _) (hex _) h).2)

/-- A digest named in hexadecimal is that of the body, which goes through as it is. -/
theorem verifyPayload_hex {headers headers' : HeaderMap} {raw hash amzDate payload : Str}
    {auth : AuthorizationV4} {key : Digest} (hl : hash.length = 64) (hx : hash.all isHexDigit = true)
    (h : verifyPayload P headers raw hash auth amzDate key = .ok (headers', payload)) :
    payload = raw ∧ hexEncode (P.sha256 raw).val = toAsciiLower hash := by
  have hne : ∀ t : Str, t.length ≠ 64 → hash ≠ t := by
    rintro t ht rfl
    exact ht hl
  have hmode : streamingMode hash = none := by
    rw [streamingMode, if_neg (hne _ (by decide)), if_neg (hne _ (by decide)),
      if_neg (hne _ (by decide))]
  rw [verifyPayload, if_neg (hne _ (by decide)), hmode] at h
  dsimp only at h
  rw [if_pos ⟨hl, hx⟩] at h
  split at h
  · next he =>
    cases h
    refine ⟨rfl, ?_⟩
    rw [← hexDecode_lower (hexDecode_hexEncode _)]
    exact beq_iff_eq.mp he
  · cases h

/-- Two requests that the handlers of the S3 routes cannot tell apart in what is signed. These
routes are not nested, so the URI they read is the one sent. -/
structure Agree (r₁ r₂ out₁ out₂ : Request) (auth₁ auth₂ : AuthorizationV4) : Prop where
  method : r₁.method = r₂.method
  signedHeaders : auth₁.signedHeaders = auth₂.signedHeaders
  values : ∀ name ∈ auth₁.signedHeaders, canonicalValue r₁.headers r₁.uri.authority name =
    canonicalValue r₂.headers r₂.uri.authority name
  payloadHash : headerStr r₁.headers (bytes "x-amz-content-sha256") =
    headerStr r₂.headers (bytes "x-amz-content-sha256")
  arguments : (Args.parse r₁.sentUri.query).pairs.Perm (Args.parse r₂.sentUri.query).pairs
  body : ∀ hash, headerStr r₁.headers (bytes "x-amz-content-sha256") = some hash →
    hash.length = 64 → hash.all isHexDigit = true → out₁.body = out₂.body
  target : ∀ bucket₁ key₁ bucket₂ key₂, target r₁.sentUri.path = some (bucket₁, key₁) →
    target r₂.sentUri.path = some (bucket₂, key₂) → (47 : UInt8) ∉ bucket₁ →
    (47 : UInt8) ∉ bucket₂ → bucket₁ = bucket₂ ∧ key₁ = key₂

/-- One signature under one secret signs one canonical request. -/
theorem same_requestText
    (a₁ : Admitted P config₁ now₁ r₁ out₁ u₁ auth₁ amzDate₁ secret hash₁)
    (a₂ : Admitted P config₂ now₂ r₂ out₂ u₂ auth₂ amzDate₂ secret hash₂)
    (sha : Set.InjOn P.sha256 (hashed config₁ r₁ ∪ hashed config₂ r₂))
    (mac : Set.InjOn (fun p : Str × Str => P.hmacSha256 p.1 p.2)
      (authenticated P config₁ now₁ secret r₁ ∪ authenticated P config₂ now₂ secret r₂))
    (hs : auth₁.signature = auth₂.signature) :
    requestText r₁ auth₁ hash₁ = requestText r₂ auth₂ hash₂ := by
  have h₁ := signatureMatches_iff.mp a₁.signature
  have h₂ := signatureMatches_iff.mp a₂.signature
  rw [hs, h₂, Option.some.injEq] at h₁
  have hpair := mac (Or.inr ⟨auth₂, amzDate₂, hash₂, a₂.presented, a₂.dated, a₂.hash, rfl⟩)
    (Or.inl ⟨auth₁, amzDate₁, hash₁, a₁.presented, a₁.dated, a₁.hash, rfl⟩) (Subtype.ext h₁)
  have htext := stringToSign_digest (congrArg Prod.snd hpair).symm
  exact sha (Or.inl (Or.inl ⟨auth₁, hash₁, a₁.presented, a₁.hash, rfl⟩))
    (Or.inr (Or.inl ⟨auth₂, hash₂, a₂.presented, a₂.hash, rfl⟩)) htext

theorem same_body (a₁ : Admitted P config₁ now₁ r₁ out₁ u₁ auth₁ amzDate₁ secret hash₁)
    (a₂ : Admitted P config₂ now₂ r₂ out₂ u₂ auth₂ amzDate₂ secret hash₁)
    (sha : Set.InjOn P.sha256 (hashed config₁ r₁ ∪ hashed config₂ r₂))
    (hl : hash₁.length = 64) (hx : hash₁.all isHexDigit = true) : out₁.body = out₂.body := by
  obtain ⟨raw₁, headers₁, payload₁, hraw₁, hv₁, hb₁⟩ := a₁.body
  obtain ⟨raw₂, headers₂, payload₂, hraw₂, hv₂, hb₂⟩ := a₂.body
  obtain ⟨rfl, hd₁⟩ := verifyPayload_hex hl hx hv₁
  obtain ⟨rfl, hd₂⟩ := verifyPayload_hex hl hx hv₂
  have hdigest := Subtype.ext (hexEncode_injective (hd₁.trans hd₂.symm))
  rw [hb₁, hb₂, sha (Or.inl (Or.inr hraw₁)) (Or.inr (Or.inr hraw₂)) hdigest]

theorem admitted_agree (a₁ : Admitted P config₁ now₁ r₁ out₁ u₁ auth₁ amzDate₁ secret hash₁)
    (a₂ : Admitted P config₂ now₂ r₂ out₂ u₂ auth₂ amzDate₂ secret hash₂)
    (sha : Set.InjOn P.sha256 (hashed config₁ r₁ ∪ hashed config₂ r₂))
    (mac : Set.InjOn (fun p : Str × Str => P.hmacSha256 p.1 p.2)
      (authenticated P config₁ now₁ secret r₁ ∪ authenticated P config₂ now₂ secret r₂))
    (hs : auth₁.signature = auth₂.signature) : Agree r₁ r₂ out₁ out₂ auth₁ auth₂ := by
  obtain ⟨hsorted, hne₁, hsep₁, hlacks₁⟩ := presented_signed a₁.presented
  obtain ⟨-, hne₂, hsep₂, hlacks₂⟩ := presented_signed a₂.presented
  have htext := same_requestText a₁ a₂ sha mac hs
  obtain ⟨hmethod, hpath, hquery, hblock, hnames, rfl⟩ := canonicalRequest_injective
    (not_mem_method r₁.method) (not_mem_method r₂.method) hlacks₁ hlacks₂
    (not_mem_payloadHash a₁.hash) (not_mem_payloadHash a₂.hash) htext
  have hsigned : auth₁.signedHeaders = auth₂.signedHeaders :=
    intercalate_injective hsep₁ hsep₂ hne₁ hne₂ hnames
  rw [← hsigned] at hblock
  exact {
    method := by
      cases h₁ : r₁.method
      cases h₂ : r₂.method
      simp only [h₁, h₂] at hmethod
      subst hmethod
      rfl
    signedHeaders := hsigned
    values := canonicalHeaders_injective hsorted hblock
    payloadHash := by rw [payloadHashOf_ok a₁.hash, payloadHashOf_ok a₂.hash]
    arguments := args_perm hquery
    body := fun hash hh hl hx => by
      rw [payloadHashOf_ok a₁.hash, Option.some.injEq] at hh
      subst hh
      exact same_body a₁ a₂ sha hl hx
    target := fun _ _ _ _ ht₁ ht₂ hn₁ hn₂ => target_unique hpath ht₁ ht₂ hn₁ hn₂ }

/-- Requests accepted for users under one secret with one signature agree in all that is
signed, where the hash and the MAC do not collide on what the two verifications feed them. -/
theorem signature_binds {md5 : Str → Str} {s₁ s₁' s₂ s₂' : Tables}
    (accepted₁ : (verify P config₁ now₁ r₁).run.run (exec md5) s₁ = some (.ok out₁, s₁'))
    (accepted₂ : (verify P config₂ now₂ r₂).run.run (exec md5) s₂ = some (.ok out₂, s₂'))
    (user₁ : out₁.identity = some (.user u₁)) (user₂ : out₂.identity = some (.user u₂))
    (secret₁ : activeSecret u₁.info u₁.accessKeyId = .ok secret)
    (secret₂ : activeSecret u₂.info u₂.accessKeyId = .ok secret)
    (presented₁ : presented r₁ = some auth₁) (presented₂ : presented r₂ = some auth₂)
    (signature : auth₁.signature = auth₂.signature)
    (sha : Set.InjOn P.sha256 (hashed config₁ r₁ ∪ hashed config₂ r₂))
    (mac : Set.InjOn (fun p : Str × Str => P.hmacSha256 p.1 p.2)
      (authenticated P config₁ now₁ secret r₁ ∪ authenticated P config₂ now₂ secret r₂)) :
    Agree r₁ r₂ out₁ out₂ auth₁ auth₂ := by
  obtain ⟨_, _, _, _, a₁⟩ := verify_admitted accepted₁ user₁
  obtain ⟨_, _, _, _, a₂⟩ := verify_admitted accepted₂ user₂
  obtain rfl := Option.some.inj (a₁.presented.symm.trans presented₁)
  obtain rfl := Option.some.inj (a₂.presented.symm.trans presented₂)
  obtain rfl := Except.ok.inj (a₁.known.symm.trans secret₁)
  obtain rfl := Except.ok.inj (a₂.known.symm.trans secret₂)
  exact admitted_agree a₁ a₂ sha mac signature

end Binding

section Spelling

def headersOf (lines : List (Str × Str)) : HeaderMap :=
  ⟨lines.filterMap fun l =>
    if h : isHeaderName l.1 = true ∧ isHeaderValue l.2 = true then
      some (⟨l.1, h.1⟩, ⟨l.2, h.2⟩) else none⟩

def bodyHash : Str := bytes "8f434346648f6b96df89dda901c5176b10a6d83961dd3c1ac88b59b2dc327aa4"
def requestHash : Str := bytes "9ab8546cbc63b638f1693e6afd683c894b0ba9a19b463646f33c9b3b3adbb460"
def requestSignature : Str :=
  bytes "981abdabbf36529b71d447b5880ac74ab6fc39ff2db58eefce8c1491a0c4f97a"
def uploadSecret : Str := bytes "wJalrXUtnFEMI/K7MDENG/bPxRfiCYEXAMPLEKEY"

def uploadText : Str :=
  bytes "PUT\n/docs/a-b\na=1%201&b=2\nhost:example.com\nx-amz-content-sha256:" ++ bodyHash ++
    bytes "\nx-amz-date:20130524T000000Z\n\nhost;x-amz-content-sha256;x-amz-date\n" ++ bodyHash

def uploadToSign : Str :=
  bytes "AWS4-HMAC-SHA256\n20130524T000000Z\n20130524/us-east-1/s3/aws4_request\n" ++ requestHash

def key₁ : Str := bytes "68896419206d6240ad4cd7dc8ba658efbf3b43b53041950083a10833824fcfbb"
def key₂ : Str := bytes "0506335cc36b4a971f6beddf0adbd976ee71222cb42c131487e0c12c5c47a025"
def key₃ : Str := bytes "05602c14e8b6aad30e7f6dec4b544071f6e4a742934bc5e36415733c47a67d44"
def key₄ : Str := bytes "dbb893acc010964918f1fd433add87c70e8b0db6be30c1fbeafefa5ec6ba8378"

/-- The digests that one upload needs. -/
def requestPlatform : Platform := .ofTables
  [(uploadText, requestHash), (bytes "hi", bodyHash)]
  [((bytes "AWS4" ++ uploadSecret, bytes "20130524"), key₁),
    (((digestOfHex key₁).val, bytes "us-east-1"), key₂),
    (((digestOfHex key₂).val, bytes "s3"), key₃),
    (((digestOfHex key₃).val, bytes "aws4_request"), key₄),
    (((digestOfHex key₄).val, uploadToSign), requestSignature)]
  [(bytes "20130524T000000Z", 1369353600000000000)]

def uploader : UserInfo :=
  { UserInfo.new (.new (bytes "alice")) [] 0 with
    accessKeys := Std.ExtTreeMap.insert ∅ (bytes "AKID")
      ⟨bytes "AKID", uploadSecret, [], true, 0⟩ }

def uploaderTables : Tables := (exec sampleMd5 (.storeUser uploader true) .empty).2

def uploadRequest (path query host : Str) (body : ObjectBody) : Request where
  method := ⟨bytes "PUT", put_token⟩
  uri := ⟨path, some query, some (bytes "example.com")⟩
  originalUri := none
  headers := headersOf <| [(bytes "x-amz-date", bytes "20130524T000000Z"),
    (bytes "x-amz-content-sha256", bodyHash),
    (bytes "authorization", bytes "AWS4-HMAC-SHA256 Credential=AKID/20130524/us-east-1/s3/" ++
      bytes "aws4_request,SignedHeaders=host;x-amz-content-sha256;x-amz-date,Signature=" ++
      requestSignature)] ++ (if host = [] then [] else [(bytes "host", host)])
  body := body
  identity := none

def plainUpload : Request :=
  uploadRequest (bytes "/docs/a-b") (bytes "a=1%201&b=2") [] [.ok (bytes "hi")]

/-- The same upload spelled otherwise: escapes, the order of the arguments, a plus sign, blanks
in a header and the chunks of the body. -/
def spelledUpload : Request :=
  uploadRequest (bytes "/d%6fcs/a%2Db") (bytes "b=2&&a=1+1") (bytes " example.com  ")
    [.ok (bytes "h"), .ok (bytes "i")]

def uploadTime : Time := 1369353600000000000
def uploadDate : Str := bytes "20130524T000000Z"

def verified (req : Request) : Request × Tables :=
  match (verify requestPlatform .default uploadTime req).run.run (exec sampleMd5)
    uploaderTables with
  | some (.ok out, s) => (out, s)
  | _ => (req, .empty)

def uploadAuth : AuthorizationV4 where
  accessKeyId := bytes "AKID"
  scope := ⟨bytes "20130524", bytes "us-east-1", bytes "s3"⟩
  signedHeaders := [bytes "host", bytes "x-amz-content-sha256", bytes "x-amz-date"]
  signature := requestSignature

/-- The two uploads hash the same two texts. -/
theorem hashed_upload {req : Request} (hp : presented req = some uploadAuth)
    (hh : payloadHashOf req.headers = .ok bodyHash)
    (ht : requestText req uploadAuth bodyHash = uploadText)
    (hb : readBody AuthConfig.default.maxBodyBytes req.headers req.body = .ok (bytes "hi")) :
    ∀ t ∈ hashed .default req, t ∈ [uploadText, bytes "hi"] := by
  rintro t (⟨auth, hash, ha, hhash, rfl⟩ | hr)
  · obtain rfl := Option.some.inj (hp.symm.trans ha)
    obtain rfl := Except.ok.inj (hh.symm.trans hhash)
    rw [ht]
    exact List.mem_cons_self
  · obtain rfl := Except.ok.inj (hb.symm.trans hr)
    exact List.mem_cons_of_mem _ List.mem_cons_self

theorem authenticated_upload {req : Request} (hp : presented req = some uploadAuth)
    (hd : requestTime requestPlatform .default uploadTime req.headers uploadAuth.scope =
      .ok uploadDate)
    (hh : payloadHashOf req.headers = .ok bodyHash)
    (ht : requestText req uploadAuth bodyHash = uploadText) :
    ∀ p ∈ authenticated requestPlatform .default uploadTime uploadSecret req,
      p = ((signingKey requestPlatform uploadSecret uploadAuth.scope).val,
        stringToSign requestPlatform uploadDate uploadAuth.scope uploadText) := by
  rintro p ⟨auth, amzDate, hash, ha, hdate, hhash, rfl⟩
  obtain rfl := Option.some.inj (hp.symm.trans ha)
  obtain rfl := Except.ok.inj (hd.symm.trans hdate)
  obtain rfl := Except.ok.inj (hh.symm.trans hhash)
  rw [ht]

theorem signature_binds_spelling :
    Agree plainUpload spelledUpload (verified plainUpload).1 (verified spelledUpload).1 uploadAuth
      uploadAuth := by
  have accepted : ∀ r ∈ [plainUpload, spelledUpload],
      (verify requestPlatform .default uploadTime r).run.run (exec sampleMd5) uploaderTables =
        some (.ok (verified r).1, (verified r).2) := by decide +kernel
  have identity : ∀ r ∈ [plainUpload, spelledUpload],
      (verified r).1.identity = some (.user ⟨uploader, bytes "AKID"⟩) := by decide +kernel
  have secret : activeSecret uploader (bytes "AKID") = .ok uploadSecret := by decide +kernel
  have present : ∀ r ∈ [plainUpload, spelledUpload], presented r = some uploadAuth := by
    decide +kernel
  have dated : ∀ r ∈ [plainUpload, spelledUpload],
      requestTime requestPlatform .default uploadTime r.headers uploadAuth.scope =
        .ok uploadDate := by decide +kernel
  have hash : ∀ r ∈ [plainUpload, spelledUpload], payloadHashOf r.headers = .ok bodyHash := by
    decide +kernel
  have text : ∀ r ∈ [plainUpload, spelledUpload],
      requestText r uploadAuth bodyHash = uploadText := by decide +kernel
  have body : ∀ r ∈ [plainUpload, spelledUpload],
      readBody AuthConfig.default.maxBodyBytes r.headers r.body = .ok (bytes "hi") := by
    decide +kernel
  have hsha : ∀ x ∈ [uploadText, bytes "hi"], ∀ y ∈ [uploadText, bytes "hi"],
      requestPlatform.sha256 x = requestPlatform.sha256 y → x = y := by decide +kernel
  have plain : plainUpload ∈ [plainUpload, spelledUpload] := List.mem_cons_self
  have spelled : spelledUpload ∈ [plainUpload, spelledUpload] :=
    List.mem_cons_of_mem _ List.mem_cons_self
  refine signature_binds (accepted _ plain) (accepted _ spelled) (identity _ plain)
    (identity _ spelled) secret secret (present _ plain) (present _ spelled) rfl ?_ ?_
  · have hsub : ∀ r ∈ [plainUpload, spelledUpload], ∀ t ∈ hashed .default r,
        t ∈ [uploadText, bytes "hi"] := fun r hr =>
      hashed_upload (present r hr) (hash r hr) (text r hr) (body r hr)
    intro x hx y hy
    exact hsha x (hx.elim (hsub _ plain x) (hsub _ spelled x)) y
      (hy.elim (hsub _ plain y) (hsub _ spelled y))
  · have hsub : ∀ r ∈ [plainUpload, spelledUpload], ∀ p ∈ authenticated _ _ _ _ r, p = _ :=
      fun r hr => authenticated_upload (present r hr) (dated r hr) (hash r hr) (text r hr)
    intro x hx y hy _
    exact (hx.elim (hsub _ plain x) (hsub _ spelled x)).trans
      (hy.elim (hsub _ plain y) (hsub _ spelled y)).symm

end Spelling

end SignatureBinding
