import Rgw.AwsChunked
import Rgw.HashChains

/-! # What a signed chunked upload binds

The signatures of a signed body form a chain from the request's own signature. Its last
value fixes every chunk. -/
namespace ChunkChain

open ByteStrings TextCodecs RgwTypes Http SigV4 AwsChunked HashChains

/-- A chunk as it stands in a body. -/
structure Frame where
  ext : Option Str
  data : Str

/-- The signature of a chunk, in lower case. -/
def Frame.signature (f : Frame) : Str := toAsciiLower ((chunkSignature f.ext).getD [])

/-- The frames of a body through its empty chunk, and what follows. -/
inductive Splits : Str → List Frame → Str → Prop where
  | last {body line rest : Str} {ext : Option Str} (hl : nextLine body = some (line, rest))
      (hp : parseHeader line = .ok (0, ext)) : Splits body [⟨ext, []⟩] rest
  | more {body line rest tail : Str} {size : ℕ} {ext : Option Str} {frames : List Frame}
      (hl : nextLine body = some (line, rest)) (hp : parseHeader line = .ok (size, ext))
      (hz : size ≠ 0) (hn : size ≤ rest.length) (hc : (rest.drop size).take 2 = crlf)
      (ht : Splits ((rest.drop size).drop 2) frames tail) :
      Splits body (⟨ext, rest.take size⟩ :: frames) tail

variable {P : Platform} {signer : ChunkSigner}

/-- Every frame's signature continues the chain. -/
def Chained (P : Platform) (signer : ChunkSigner) : Str → List Frame → Prop
  | _, [] => True
  | prev, f :: fs => verifyChunk P signer prev f.ext f.data = .ok f.signature ∧
    Chained P signer f.signature fs

/-- Every frame is accepted after the ones before it, under a signer or none. -/
def Continued (P : Platform) (signer : Option ChunkSigner) : Str → List Frame → Prop
  | _, [] => True
  | prev, f :: fs => ∃ next, continueChain P signer prev f.ext f.data = .ok next ∧
    Continued P signer next fs

theorem verifyChunk_ok {prev next : Str} {ext : Option Str} {data : Str}
    (h : verifyChunk P signer prev ext data = .ok next) :
    next = Frame.signature ⟨ext, data⟩ ∧
      next = hexEncode (signatureBytes P signer.signingKey
        (chunkStringToSign P signer.amzDate signer.scope prev data)).val := by
  rw [verifyChunk] at h
  cases hs : chunkSignature ext with
  | none => rw [hs] at h; cases h
  | some provided =>
    rw [hs] at h
    dsimp only at h
    split at h
    · next hm =>
      cases h
      refine ⟨by simp [Frame.signature, hs], ?_⟩
      exact hexDecode_lower (signatureMatches_iff.mp hm)
    · cases h

theorem chained_of_continued {prev : Str} {frames : List Frame}
    (h : Continued P (some signer) prev frames) : Chained P signer prev frames := by
  induction frames generalizing prev with
  | nil => trivial
  | cons f fs ih =>
    obtain ⟨next, hv, hfs⟩ := h
    have hnext : next = f.signature := (verifyChunk_ok hv).1
    rw [hnext] at hv hfs
    exact ⟨hv, ih hfs⟩

theorem decodeChunks_splits {signer : Option ChunkSigner} {fuel : ℕ}
    {prev payload body out rest : Str}
    (h : decodeChunks P signer fuel prev payload body = .ok (out, rest)) :
    ∃ frames, Splits body frames rest ∧ Continued P signer prev frames ∧
      out = payload ++ (frames.map Frame.data).flatten := by
  induction fuel generalizing prev payload body with
  | zero => cases h
  | succ fuel ih =>
    rw [decodeChunks] at h
    cases hl : nextLine body with
    | none => rw [hl] at h; cases h
    | some lr =>
      obtain ⟨line, tail⟩ := lr
      rw [hl] at h
      dsimp only at h
      cases hp : parseHeader line with
      | error e => rw [hp] at h; cases h
      | ok se =>
        obtain ⟨size, ext⟩ := se
        rw [hp, ok_bind] at h
        dsimp only at h
        by_cases hn : tail.length < size
        · simp [hn] at h
        rw [if_neg hn] at h
        cases hv : continueChain P signer prev ext (tail.take size) with
        | error e => simp [hv] at h
        | ok next =>
          by_cases hz : size = 0
          · subst hz
            simp only [hv, pure_ok, ok_bind, ↓reduceIte, Except.ok.injEq, Prod.mk.injEq] at h
            obtain ⟨rfl, rfl⟩ := h
            exact ⟨[⟨ext, []⟩], .last hl hp, ⟨next, hv, trivial⟩, by simp⟩
          · by_cases hc : (tail.drop size).take 2 = crlf
            · simp only [hv, ok_bind, hz, ↓reduceIte, hc, ne_eq, not_true_eq_false] at h
              obtain ⟨frames, hs, hch, rfl⟩ := ih h
              exact ⟨⟨ext, tail.take size⟩ :: frames, .more hl hp hz (by omega) hc hs,
                ⟨next, hv, hch⟩, by simp⟩
            · simp [hv, hz, hc] at h

/-- Where a body splits it splits in one way. -/
theorem splits_unique {body rest rest' : Str} {frames frames' : List Frame}
    (h : Splits body frames rest) (h' : Splits body frames' rest') :
    frames = frames' ∧ rest = rest' := by
  induction h generalizing frames' with
  | last hl hp =>
    cases h' with
    | last hl' hp' =>
      rw [hl] at hl'
      cases hl'
      rw [hp] at hp'
      cases hp'
      exact ⟨rfl, rfl⟩
    | more hl' hp' hz' =>
      rw [hl] at hl'
      cases hl'
      rw [hp] at hp'
      cases hp'
      exact absurd rfl hz'
  | more hl hp hz hn hc ht ih =>
    cases h' with
    | last hl' hp' =>
      rw [hl] at hl'
      cases hl'
      rw [hp] at hp'
      cases hp'
      exact absurd rfl hz
    | more hl' hp' hz' hn' hc' ht' =>
      rw [hl] at hl'
      cases hl'
      rw [hp] at hp'
      cases hp'
      obtain ⟨rfl, rfl⟩ := ih ht'
      exact ⟨rfl, rfl⟩

theorem splits_last {body rest : Str} {frames : List Frame} (h : Splits body frames rest) :
    ∃ before f, frames = before ++ [f] ∧ f.data = [] ∧ ∀ g ∈ before, g.data ≠ [] := by
  induction h with
  | @last _ _ _ ext => exact ⟨[], ⟨ext, []⟩, rfl, rfl, by simp⟩
  | @more _ _ rest _ size ext _ _ _ hz hn _ _ ih =>
    obtain ⟨before, f, rfl, hf, hb⟩ := ih
    refine ⟨⟨ext, rest.take size⟩ :: before, f, rfl, hf, fun g hg => ?_⟩
    rcases List.mem_cons.mp hg with rfl | hg
    · intro he
      have hlen := congrArg List.length he
      simp only [List.length_take, List.length_nil] at hlen
      omega
    · exact hb g hg

section Signatures

/-- The signature that continues a chain over a chunk. -/
def nextSignature (P : Platform) (signer : ChunkSigner) (prev data : Str) : Str :=
  hexEncode (signatureBytes P signer.signingKey
    (chunkStringToSign P signer.amzDate signer.scope prev data)).val

theorem chained_values {prev : Str} {frames : List Frame} (h : Chained P signer prev frames) :
    frames.map Frame.signature =
      values (nextSignature P signer) prev (frames.map Frame.data) := by
  induction frames generalizing prev with
  | nil => rfl
  | cons f fs ih =>
    have hf := (verifyChunk_ok h.1).2
    rw [List.map_cons, List.map_cons, values, ih h.2, hf]
    rfl

theorem chained_last {prev : Str} {before : List Frame} {f : Frame}
    (h : Chained P signer prev (before ++ [f])) :
    chain (nextSignature P signer) prev ((before ++ [f]).map Frame.data) = f.signature := by
  induction before generalizing prev with
  | nil => exact ((verifyChunk_ok h.1).2).symm
  | cons g gs ih =>
    have hg : nextSignature P signer prev g.data = g.signature := (verifyChunk_ok h.1).2.symm
    rw [List.cons_append, List.map_cons, chain, List.foldl_cons, hg]
    exact ih h.2

/-- The string to sign of a chunk determines the previous signature and the chunk's digest. -/
theorem chunkStringToSign_injective {prev prev' data data' : Str}
    (h : chunkStringToSign P signer.amzDate signer.scope prev data =
      chunkStringToSign P signer.amzDate signer.scope prev' data') :
    prev = prev' ∧ P.sha256 data = P.sha256 data' := by
  have hex : ∀ d : Digest, (10 : UInt8) ∉ hexEncode d.val := fun d hm => by
    have hd := mem_hexEncode hm
    revert hd
    decide
  have hsplit : ∀ p d, chunkStringToSign P signer.amzDate signer.scope p d =
      ((chunkAlgorithm ++ 10 :: signer.amzDate ++ 10 :: signer.scope.toString ++ [10]) ++
        (p ++ 10 :: emptySha256)) ++ 10 :: sha256Hex P d := by
    intro p d
    simp [chunkStringToSign, join, List.intercalate, List.intersperse]
  rw [hsplit, hsplit] at h
  obtain ⟨hl, hr⟩ := last_cut_unique (hex _) (hex _) h
  refine ⟨List.append_cancel_right (List.append_cancel_left hl), ?_⟩
  exact Subtype.ext (hexEncode_injective hr)

/-- The texts signed along a chain. -/
def signedTexts (P : Platform) (signer : ChunkSigner) (chunks : List Str) : Set Str :=
  {t | ∃ p ∈ Links (nextSignature P signer) signer.seedSignature chunks,
    t = chunkStringToSign P signer.amzDate signer.scope p.1 p.2}

theorem mem_of_link {seed : Str} {chunks : List Str} {p : Str × Str}
    (h : p ∈ Links (nextSignature P signer) seed chunks) : p.2 ∈ chunks := by
  obtain ⟨before, after, rfl, -⟩ := h
  exact List.mem_append_right _ List.mem_cons_self

/-- A chunk's string to sign is never the request's: their first lines differ. -/
theorem chunkStringToSign_ne {prev data rest : Str} :
    chunkStringToSign P signer.amzDate signer.scope prev data ≠ algorithm ++ 10 :: rest := by
  intro h
  have hsplit : chunkStringToSign P signer.amzDate signer.scope prev data = chunkAlgorithm ++
      10 :: join 10 [signer.amzDate, signer.scope.toString, prev, emptySha256, sha256Hex P data] := by
    simp [chunkStringToSign, join, List.intercalate, List.intersperse]
  rw [hsplit] at h
  have hcut := (first_cut_unique (by decide) (by decide) h).1
  revert hcut
  decide

/-- An accepted body is its frames, and its payload is theirs. -/
theorem decodeAwsChunked_splits {signer : Option ChunkSigner} {body : Str} {withTrailers : Bool}
    {out : DecodedChunked} (h : decodeAwsChunked P body signer withTrailers = .ok out) :
    ∃ frames rest, Splits body frames rest ∧
      Continued P signer (signer.elim [] ChunkSigner.seedSignature) frames ∧
      out.payload = (frames.map Frame.data).flatten := by
  rw [decodeAwsChunked] at h
  obtain ⟨⟨payload, rest⟩, hd, h⟩ := bind_eq_ok.mp h
  obtain ⟨frames, hs, hc, hp⟩ := decodeChunks_splits hd
  refine ⟨frames, rest, hs, hc, ?_⟩
  obtain ⟨⟨trailers, rest'⟩, -, h⟩ := bind_eq_ok.mp h
  simp only [throw_error, error_bind, guard_eq_ok, pure_ok, Except.ok.injEq] at h
  rw [← h.2]
  exact hp

theorem accepted_chunks {body : Str} {withTrailers : Bool} {out : DecodedChunked}
    (h : decodeAwsChunked P body (some signer) withTrailers = .ok out) :
    ∃ frames tail, Splits body frames tail ∧ out.payload = (frames.map Frame.data).flatten ∧
      frames.map Frame.signature =
        values (nextSignature P signer) signer.seedSignature (frames.map Frame.data) ∧
      ∃ before last, frames = before ++ [last] ∧ last.data = [] := by
  obtain ⟨frames, tail, hs, hc, hp⟩ := decodeAwsChunked_splits h
  obtain ⟨before, last, hf, hd, -⟩ := splits_last hs
  exact ⟨frames, tail, hs, hp, chained_values (chained_of_continued hc), before, last, hf, hd⟩

theorem nextSignature_injective {chunks : Set Str} {texts : Set Str} {p q : Str × Str}
    (mac : Set.InjOn (P.hmacSha256 signer.signingKey.val) texts) (sha : Set.InjOn P.sha256 chunks)
    (hp : chunkStringToSign P signer.amzDate signer.scope p.1 p.2 ∈ texts)
    (hq : chunkStringToSign P signer.amzDate signer.scope q.1 q.2 ∈ texts)
    (hp' : p.2 ∈ chunks) (hq' : q.2 ∈ chunks)
    (h : nextSignature P signer p.1 p.2 = nextSignature P signer q.1 q.2) : p = q := by
  have hmac := mac hp hq (Subtype.ext (hexEncode_injective h))
  obtain ⟨hprev, hsha⟩ := chunkStringToSign_injective hmac
  exact Prod.ext hprev (sha hp' hq' hsha)

theorem nextSignature_ne_seed {rest prev data : Str} {texts : Set Str}
    (seed : signatureMatches (signatureBytes P signer.signingKey (algorithm ++ 10 :: rest))
      signer.seedSignature = true)
    (mac : Set.InjOn (P.hmacSha256 signer.signingKey.val) texts)
    (ht : chunkStringToSign P signer.amzDate signer.scope prev data ∈ texts)
    (hr : algorithm ++ 10 :: rest ∈ texts) :
    nextSignature P signer prev data ≠ signer.seedSignature := by
  intro he
  have hseed := signatureMatches_iff.mp seed
  rw [← he, nextSignature, hexDecode_hexEncode] at hseed
  exact chunkStringToSign_ne (mac ht hr (Subtype.ext (Option.some.inj hseed)))

/-- The backward argument: one final signature, so one last chunk and one signature before it,
down to the seed, which no chunk produces. -/
theorem same_final_signature {rest body₁ body₂ tail₁ tail₂ : Str} {withTrailers₁ withTrailers₂ : Bool}
    {out₁ out₂ : DecodedChunked} {frames₁ frames₂ : List Frame}
    (seed : signatureMatches (signatureBytes P signer.signingKey (algorithm ++ 10 :: rest))
      signer.seedSignature = true)
    (accepted₁ : decodeAwsChunked P body₁ (some signer) withTrailers₁ = .ok out₁)
    (accepted₂ : decodeAwsChunked P body₂ (some signer) withTrailers₂ = .ok out₂)
    (split₁ : Splits body₁ frames₁ tail₁) (split₂ : Splits body₂ frames₂ tail₂)
    (mac : Set.InjOn (P.hmacSha256 signer.signingKey.val)
      (signedTexts P signer (frames₁.map Frame.data) ∪
        signedTexts P signer (frames₂.map Frame.data) ∪ {algorithm ++ 10 :: rest}))
    (sha : Set.InjOn P.sha256 {d | d ∈ frames₁.map Frame.data ∨ d ∈ frames₂.map Frame.data})
    (final : frames₁.getLast?.map Frame.signature = frames₂.getLast?.map Frame.signature) :
    frames₁.map Frame.data = frames₂.map Frame.data ∧
      frames₁.map Frame.signature = frames₂.map Frame.signature ∧
      out₁.payload = out₂.payload := by
  obtain ⟨_, _, hs₁, hc₁, hp₁⟩ := decodeAwsChunked_splits accepted₁
  obtain ⟨rfl, -⟩ := splits_unique split₁ hs₁
  have hc₁ : Chained P signer signer.seedSignature _ := chained_of_continued hc₁
  obtain ⟨_, _, hs₂, hc₂, hp₂⟩ := decodeAwsChunked_splits accepted₂
  obtain ⟨rfl, -⟩ := splits_unique split₂ hs₂
  have hc₂ : Chained P signer signer.seedSignature _ := chained_of_continued hc₂
  obtain ⟨before₁, last₁, rfl, -, -⟩ := splits_last split₁
  obtain ⟨before₂, last₂, rfl, -, -⟩ := splits_last split₂
  simp only [List.getLast?_concat, Option.map_some, Option.some.injEq] at final
  have hdata : (before₁ ++ [last₁]).map Frame.data = (before₂ ++ [last₂]).map Frame.data := by
    have hchain : chain (nextSignature P signer) signer.seedSignature
        ((before₁ ++ [last₁]).map Frame.data) = chain (nextSignature P signer)
        signer.seedSignature ((before₂ ++ [last₂]).map Frame.data) := by
      rw [chained_last hc₁, chained_last hc₂, final]
    refine chain_injective (fun p hp q hq he => ?_) (fun p hp => ?_) hchain
    · exact nextSignature_injective mac sha (Or.inl (Or.inl ⟨p, hp, rfl⟩))
        (Or.inl (Or.inr ⟨q, hq, rfl⟩)) (Or.inl (mem_of_link hp)) (Or.inr (mem_of_link hq)) he
    · refine nextSignature_ne_seed seed mac (Or.inl ?_) (Or.inr rfl)
      exact hp.imp (fun h => ⟨p, h, rfl⟩) fun h => ⟨p, h, rfl⟩
  refine ⟨hdata, ?_, ?_⟩
  · rw [chained_values hc₁, chained_values hc₂, hdata]
  · rw [hp₁, hp₂, hdata]

/-- What is accepted is made of verified chunks and ends with a verified empty one, and two
accepted bodies with one final signature are the same chunks. -/
theorem signed_upload_bound (P : Platform) (signer : ChunkSigner) :
    (∀ body withTrailers out, decodeAwsChunked P body (some signer) withTrailers = .ok out →
      ∃ frames tail, Splits body frames tail ∧ out.payload = (frames.map Frame.data).flatten ∧
        frames.map Frame.signature =
          values (nextSignature P signer) signer.seedSignature (frames.map Frame.data) ∧
        ∃ before last, frames = before ++ [last] ∧ last.data = []) ∧
    ∀ rest body₁ body₂ withTrailers₁ withTrailers₂ out₁ out₂ frames₁ frames₂ tail₁ tail₂,
      signatureMatches (signatureBytes P signer.signingKey (algorithm ++ 10 :: rest))
        signer.seedSignature = true →
      decodeAwsChunked P body₁ (some signer) withTrailers₁ = .ok out₁ →
      decodeAwsChunked P body₂ (some signer) withTrailers₂ = .ok out₂ →
      Splits body₁ frames₁ tail₁ → Splits body₂ frames₂ tail₂ →
      Set.InjOn (P.hmacSha256 signer.signingKey.val)
        (signedTexts P signer (frames₁.map Frame.data) ∪
          signedTexts P signer (frames₂.map Frame.data) ∪ {algorithm ++ 10 :: rest}) →
      Set.InjOn P.sha256 {d | d ∈ frames₁.map Frame.data ∨ d ∈ frames₂.map Frame.data} →
      frames₁.getLast?.map Frame.signature = frames₂.getLast?.map Frame.signature →
      frames₁.map Frame.data = frames₂.map Frame.data ∧
        frames₁.map Frame.signature = frames₂.map Frame.signature ∧
        out₁.payload = out₂.payload :=
  ⟨fun _ _ _ h => accepted_chunks h,
    fun _ _ _ _ _ _ _ _ _ _ _ seed accepted₁ accepted₂ split₁ split₂ mac sha final =>
      same_final_signature seed accepted₁ accepted₂ split₁ split₂ mac sha final⟩

end Signatures

section Spelling

def seedRest : Str := bytes "20130524T000000Z\n20130524/us-east-1/s3/aws4_request\n" ++
  bytes "cee3fed04b70f867d036f722359b0b1f2f0e5dc0efadbc082b76c4c60e316455"
def seedSignature : Str := bytes "4f232c4386841ef735655705268965c44a0e4690baa4adea153f7db9fa80a0a9"
def hiSignature : Str := bytes "8932ee93654b5de08f845c41c8573c0a72a68907037f63ff82d9d1ffeaf3d35d"
def endSignature : Str := bytes "31d10e575dfc6de817e97f967bb9a0bbfe52ded3c599ba22c748749a6d2111a5"
def hiDigest : Str := bytes "8f434346648f6b96df89dda901c5176b10a6d83961dd3c1ac88b59b2dc327aa4"

def uploadSigner : ChunkSigner where
  signingKey := digestOfHex
    (bytes "dbb893acc010964918f1fd433add87c70e8b0db6be30c1fbeafefa5ec6ba8378")
  amzDate := bytes "20130524T000000Z"
  scope := ⟨bytes "20130524", bytes "us-east-1", bytes "s3"⟩
  seedSignature := seedSignature

def chunkText (prev digest : Str) : Str :=
  bytes "AWS4-HMAC-SHA256-PAYLOAD\n20130524T000000Z\n20130524/us-east-1/s3/aws4_request\n" ++
    prev ++ 10 :: emptySha256 ++ 10 :: digest

/-- The digests that one upload of two bytes needs. -/
def uploadPlatform : Platform := .ofTables
  [(bytes "hi", hiDigest), ([], emptySha256)]
  [((uploadSigner.signingKey.val, algorithm ++ 10 :: seedRest), seedSignature),
    ((uploadSigner.signingKey.val, chunkText seedSignature hiDigest), hiSignature),
    ((uploadSigner.signingKey.val, chunkText hiSignature emptySha256), endSignature)] []

def upperCase (s : Str) : Str := s.map fun b => if isLower b then b - 32 else b

def uploadBody (size signature ending : Str) : Str :=
  size ++ bytes ";chunk-signature=" ++ signature ++ bytes "\r\nhi\r\n0;chunk-signature=" ++
    endSignature ++ ending

def uploadFrames (signature : Str) : List Frame :=
  [⟨some (bytes "chunk-signature=" ++ signature), bytes "hi"⟩,
    ⟨some (bytes "chunk-signature=" ++ endSignature), []⟩]

/-- Two spellings of one upload: sizes, letter case and endings differ, the chunks do not. -/
theorem signed_upload_bound_spelling :
    (uploadFrames hiSignature).map Frame.data = (uploadFrames (upperCase hiSignature)).map Frame.data ∧
      (uploadFrames hiSignature).map Frame.signature =
        (uploadFrames (upperCase hiSignature)).map Frame.signature ∧
      bytes "hi" = bytes "hi" := by
  have split₁ : Splits (uploadBody (bytes "2") hiSignature (bytes "\r\n\r\n"))
      (uploadFrames hiSignature) crlf := by
    refine .more (show nextLine _ = some (bytes "2;chunk-signature=" ++ hiSignature,
        bytes "hi\r\n0;chunk-signature=" ++ endSignature ++ bytes "\r\n\r\n") by decide +kernel)
      (show parseHeader _ = .ok (2, some (bytes "chunk-signature=" ++ hiSignature)) by
        decide +kernel) (by decide) (by decide +kernel) (by decide +kernel) ?_
    exact .last (show nextLine _ = some (bytes "0;chunk-signature=" ++ endSignature, crlf) by
      decide +kernel) (by decide +kernel)
  have split₂ : Splits (uploadBody (bytes "02 ") (upperCase hiSignature) crlf)
      (uploadFrames (upperCase hiSignature)) [] := by
    refine .more (show nextLine _ = some (bytes "02 ;chunk-signature=" ++ upperCase hiSignature,
        bytes "hi\r\n0;chunk-signature=" ++ endSignature ++ crlf) by decide +kernel)
      (show parseHeader _ = .ok (2, some (bytes "chunk-signature=" ++ upperCase hiSignature)) by
        decide +kernel) (by decide) (by decide +kernel) (by decide +kernel) ?_
    exact .last (show nextLine _ = some (bytes "0;chunk-signature=" ++ endSignature, []) by
      decide +kernel) (by decide +kernel)
  have hnext : nextSignature uploadPlatform uploadSigner seedSignature (bytes "hi") = hiSignature := by
    decide +kernel
  have htexts : ∀ signature, signedTexts uploadPlatform uploadSigner
      ((uploadFrames signature).map Frame.data) ⊆ {t | t ∈ [algorithm ++ 10 :: seedRest,
        chunkText seedSignature hiDigest, chunkText hiSignature emptySha256]} := by
    rintro signature t ⟨p, hp, rfl⟩
    simp only [uploadFrames, List.map_cons, List.map_nil, mem_links_cons, mem_links_nil, or_false,
      show uploadSigner.seedSignature = seedSignature from rfl, hnext] at hp
    rcases hp with rfl | rfl
    · decide +kernel
    · decide +kernel
  have hmac : ∀ x ∈ [algorithm ++ 10 :: seedRest, chunkText seedSignature hiDigest,
      chunkText hiSignature emptySha256], ∀ y ∈ [algorithm ++ 10 :: seedRest,
      chunkText seedSignature hiDigest, chunkText hiSignature emptySha256],
      uploadPlatform.hmacSha256 uploadSigner.signingKey.val x =
        uploadPlatform.hmacSha256 uploadSigner.signingKey.val y → x = y := by decide +kernel
  refine (signed_upload_bound uploadPlatform uploadSigner).2 seedRest _ _ false false
    ⟨bytes "hi", []⟩ ⟨bytes "hi", []⟩ _ _ _ _ (by decide +kernel) (by decide +kernel)
    (by decide +kernel) split₁ split₂ ?_ ?_ (by decide +kernel)
  · have hsub : signedTexts uploadPlatform uploadSigner ((uploadFrames hiSignature).map Frame.data) ∪
        signedTexts uploadPlatform uploadSigner
          ((uploadFrames (upperCase hiSignature)).map Frame.data) ∪
        {algorithm ++ 10 :: seedRest} ⊆ {t | t ∈ [algorithm ++ 10 :: seedRest,
          chunkText seedSignature hiDigest, chunkText hiSignature emptySha256]} := by
      refine Set.union_subset (Set.union_subset (htexts _) (htexts _)) ?_
      rintro t rfl
      exact List.mem_cons_self
    exact fun x hx y hy => hmac x (hsub hx) y (hsub hy)
  · have hsha : ∀ x ∈ [bytes "hi", []], ∀ y ∈ [bytes "hi", []],
        uploadPlatform.sha256 x = uploadPlatform.sha256 y → x = y := by decide +kernel
    exact fun x hx y hy => hsha x (hx.elim id id) y (hy.elim id id)

end Spelling

end ChunkChain
