import Rgw.ChunkRoundTrip

/-! # What the chunk decoder accepts

The wire format is stated on the whole body: frames, an empty one, trailer lines and an end.
Sizes are read more freely than they are written: a plus sign may stand before the digits. -/
namespace ChunkFormat

open ByteStrings TextCodecs RgwTypes Http AwsChunked ChunkChain ChunkRoundTrip

section Sizes

variable {text : Str} {bound n : ℕ}

theorem isHexDigit_of_toDigit {b : UInt8} {d : ℕ} (h : toDigit 16 b = some d) :
    isHexDigit b = true := by
  have main : ∀ b : UInt8, (toDigit 16 b).isSome = true → isHexDigit b = true :=
    forall_byte (by decide +kernel)
  apply main
  rw [h]
  rfl

theorem parseDigits_value {acc : ℕ} (h : parseDigits 16 bound acc text = some n) :
    (∀ b ∈ text, isHexDigit b = true) ∧ hexValue acc text = n := by
  induction text generalizing acc with
  | nil =>
    cases h
    exact ⟨List.forall_mem_nil _, rfl⟩
  | cons b text ih =>
    obtain ⟨d, hd, h⟩ := Option.bind_eq_some_iff.mp h
    obtain ⟨-, h⟩ := Option.ite_none_right_eq_some.mp h
    obtain ⟨hdigits, hvalue⟩ := ih h
    constructor
    · rw [List.forall_mem_cons]
      exact ⟨isHexDigit_of_toDigit hd, hdigits⟩
    · rw [hexValue, List.foldl_cons, hd]
      exact hvalue

/-- What the standard parser reads as a size: digits, or digits after a plus sign. -/
def Reads (text : Str) (n : ℕ) : Prop := Spells text n ∨ ∃ digits, text = 43 :: digits ∧ Spells digits n

theorem parseUnsigned_spells (h : parseUnsigned 16 bound text = some n)
    (hplus : text.head? ≠ some 43) : Spells text n := by
  cases text with
  | nil => cases h
  | cons b text =>
    have hb : b ≠ 43 := by
      rintro rfl
      exact hplus rfl
    rw [parseUnsigned, if_neg hb] at h
    obtain ⟨hdigits, hvalue⟩ := parseDigits_value h
    exact ⟨List.cons_ne_nil b text, hdigits, hvalue⟩

theorem parseUnsigned_reads (h : parseUnsigned 16 bound text = some n) : Reads text n := by
  by_cases hplus : text.head? = some 43
  · apply Or.inr
    obtain ⟨digits, rfl⟩ := List.head?_eq_some_iff.mp hplus
    rw [parseUnsigned, if_pos rfl] at h
    obtain ⟨hne, h⟩ := Option.ite_none_left_eq_some.mp h
    obtain ⟨hdigits, hvalue⟩ := parseDigits_value h
    exact ⟨digits, rfl, hne, hdigits, hvalue⟩
  · exact Or.inl (parseUnsigned_spells h hplus)

/-- Digits start with no plus sign. -/
theorem spells_head (h : Spells text n) : text.head? ≠ some 43 := by
  intro hplus
  obtain ⟨digits, rfl⟩ := List.head?_eq_some_iff.mp hplus
  exact (isGraphic_of_isHexDigit (h.digits 43 List.mem_cons_self)).2.1 rfl

end Sizes

section Format

/-- A chunk as it stands in a body: its first line and its data. -/
structure WireFrame where
  line : Str
  data : Str

/-- The first line of a chunk, `<size>[;<ext>]`, with a size of the given spelling and
whitespace around it. -/
structure HeaderLine (Size : Str → ℕ → Prop) (line : Str) (n : ℕ) : Prop where
  lineFree : ¬crlf <:+: line
  parts : ∃ size ext, (line = size ∨ line = size ++ 59 :: ext) ∧ 59 ∉ size ∧ Size (trim size) n

/-- A trailer line, `name:value`. -/
def TrailerLine (line : Str) : Prop := ¬crlf <:+: line ∧ ∃ name value, line = name ++ 58 :: value

def frameBytes (f : WireFrame) : Str := f.line ++ crlf ++ f.data ++ crlf

/-- A body in parts, with no byte left over. -/
structure Framing (Size : Str → ℕ → Prop) (withTrailers : Bool) (body payload : Str)
    (frames : List WireFrame) (last : Str) (trailers : List Str) (ending : Str) : Prop where
  whole : body = frames.flatMap frameBytes ++ (last ++ crlf) ++ trailers.flatMap (· ++ crlf) ++ ending
  sized : ∀ f ∈ frames, f.data ≠ [] ∧ HeaderLine Size f.line f.data.length
  closed : HeaderLine Size last 0
  trailed : ∀ t ∈ trailers, TrailerLine t
  announced : withTrailers = false → trailers = []
  ended : ending = [] ∨ ending = crlf ∨ ending = crlf ++ crlf
  joined : payload = frames.flatMap WireFrame.data

def FramedBy (Size : Str → ℕ → Prop) (withTrailers : Bool) (body payload : Str) : Prop :=
  ∃ frames last trailers ending, Framing Size withTrailers body payload frames last trailers ending

/-- The format of the protocol: sizes are hexadecimal digits alone. -/
def WireFormat (withTrailers : Bool) (body payload : Str) : Prop :=
  FramedBy Spells withTrailers body payload

/-- The size in a chunk's first line, as it is written. -/
def sizeText (line : Str) : Str := trim ((splitOnce 59 line).elim line Prod.fst)

def sizeTextsAux : ℕ → Str → List Str
  | 0, _ => []
  | fuel + 1, body =>
    match nextLine body with
    | none => []
    | some (line, rest) => sizeText line ::
      match parseUnsigned 16 (2 ^ 64) (sizeText line) with
      | none | some 0 => []
      | some (n + 1) => sizeTextsAux fuel (rest.drop (n + 1 + 2))

/-- The sizes a body announces, as they are written, through that of its empty chunk. -/
def sizeTexts (body : Str) : List Str := sizeTextsAux (body.length + 1) body

end Format

section Lines

variable {Size : Str → ℕ → Prop} {line body rest : Str} {n : ℕ} {ext : Option Str}

/-- A line that is read is followed by its end and holds none. -/
theorem nextLine_some (h : nextLine body = some (line, rest)) :
    body = line ++ (crlf ++ rest) ∧ ¬crlf <:+: line := by
  obtain ⟨i, hi, he⟩ := Option.map_eq_some_iff.mp h
  rw [Prod.mk.injEq] at he
  obtain ⟨rfl, rfl⟩ := he
  obtain ⟨⟨tail, htail⟩, hfirst⟩ := findSub_some hi
  constructor
  · have hdrop : body.drop (i + 2) = tail := by
      rw [← List.drop_drop, ← htail]
      rfl
    rw [hdrop, htail, List.take_append_drop]
  · rintro ⟨before, after, hline⟩
    have hlen := congrArg List.length hline
    simp only [List.length_append, List.length_take, crlf, List.length_cons, List.length_nil]
      at hlen
    apply hfirst before.length (by omega)
    rw [← List.take_append_drop i body, ← hline, List.append_assoc, List.append_assoc, List.drop_left]
    exact List.prefix_append crlf _

theorem sizeText_cut {size : Str} (hsize : 59 ∉ size)
    (hline : line = size ∨ ∃ ext, line = size ++ 59 :: ext) : sizeText line = trim size := by
  rcases hline with rfl | ⟨ext, rfl⟩
  · rw [sizeText, splitOnce_none.mpr hsize, Option.elim_none]
  · rw [sizeText, splitOnce_some.mpr ⟨rfl, hsize⟩, Option.elim_some]

theorem headerLine_iff :
    HeaderLine Size line n ↔ ¬crlf <:+: line ∧ Size (sizeText line) n := by
  constructor
  · rintro ⟨hfree, size, ext, hline, hsemi, hsize⟩
    refine ⟨hfree, ?_⟩
    rw [sizeText_cut hsemi (hline.imp_right fun h => ⟨ext, h⟩)]
    exact hsize
  · rintro ⟨hfree, hsize⟩
    refine ⟨hfree, ?_⟩
    cases hcut : splitOnce 59 line with
    | none =>
      have hsemi := splitOnce_none.mp hcut
      rw [sizeText_cut hsemi (Or.inl rfl)] at hsize
      exact ⟨line, [], Or.inl rfl, hsemi, hsize⟩
    | some cut =>
      obtain ⟨hline, hsemi⟩ := splitOnce_some.mp hcut
      rw [sizeText_cut hsemi (Or.inr ⟨cut.2, hline⟩)] at hsize
      exact ⟨cut.1, cut.2, Or.inr hline, hsemi, hsize⟩

theorem parseHeader_size (h : parseHeader line = .ok (n, ext)) :
    parseUnsigned 16 (2 ^ 64) (sizeText line) = some n := by
  obtain ⟨-, h⟩ := guard_eq_ok.mp h
  rw [sizeText]
  cases hcut : splitOnce 59 line with
  | none =>
    rw [hcut] at h
    dsimp only at h
    cases hp : parseUnsigned 16 (2 ^ 64) (trim line) with
    | none => rw [hp] at h; cases h
    | some size => rw [hp] at h; cases h; exact hp
  | some cut =>
    rw [hcut] at h
    dsimp only at h
    cases hp : parseUnsigned 16 (2 ^ 64) (trim cut.1) with
    | none => rw [hp] at h; cases h
    | some size => rw [hp] at h; cases h; exact hp

theorem parseTrailer_cut {t : Str × Str} (h : parseTrailer line = .ok t) :
    ∃ name value, line = name ++ 58 :: value := by
  obtain ⟨-, h⟩ := guard_eq_ok.mp h
  cases hcut : splitOnce 58 line with
  | none => rw [hcut] at h; cases h
  | some cut => exact ⟨cut.1, cut.2, (splitOnce_some.mp hcut).1⟩

end Lines

section Decoding

variable {P : Platform} {signer : Option ChunkSigner} {Size : Str → ℕ → Prop}

/-- The chunks that are read are frames, under any spelling of sizes that covers those the body
announces. -/
theorem decodeChunks_frames {fuel : ℕ} {prev payload body out rest : Str}
    (hs : ∀ t ∈ sizeTextsAux fuel body, ∀ n, parseUnsigned 16 (2 ^ 64) t = some n → Size t n)
    (h : decodeChunks P signer fuel prev payload body = .ok (out, rest)) :
    ∃ (frames : List WireFrame) (last : Str), body = frames.flatMap frameBytes ++ (last ++ crlf) ++
    rest ∧
      (∀ f ∈ frames, f.data ≠ [] ∧ HeaderLine Size f.line f.data.length) ∧
      HeaderLine Size last 0 ∧ out = payload ++ frames.flatMap WireFrame.data := by
  induction fuel generalizing prev payload body with
  | zero => cases h
  | succ fuel ih =>
    rw [decodeChunks] at h
    rw [sizeTextsAux] at hs
    cases hl : nextLine body with
    | none => rw [hl] at h; cases h
    | some cut =>
      obtain ⟨line, tail⟩ := cut
      obtain ⟨hbody, hfree⟩ := nextLine_some hl
      rw [hl] at h hs
      simp only [throw_error, error_bind] at h
      obtain ⟨⟨size, ext⟩, hp, h⟩ := bind_eq_ok.mp h
      obtain ⟨hfit, h⟩ := guard_eq_ok.mp h
      obtain ⟨next, -, h⟩ := bind_eq_ok.mp h
      have hsize := parseHeader_size hp
      dsimp only at hs
      rw [hsize, List.forall_mem_cons] at hs
      have hheader : HeaderLine Size line size := headerLine_iff.mpr ⟨hfree, hs.1 size hsize⟩
      cases size with
      | zero =>
        simp only [↓reduceIte, List.drop_zero, pure_ok, Except.ok.injEq, Prod.mk.injEq] at h
        obtain ⟨rfl, rfl⟩ := h
        refine ⟨[], line, ?_, List.forall_mem_nil _, hheader, ?_⟩
        · rw [hbody, List.flatMap_nil, List.nil_append, List.append_assoc]
        · rw [List.flatMap_nil, List.append_nil]
      | succ m =>
        simp only [Nat.add_eq_zero_iff, Nat.one_ne_zero, and_false, ↓reduceIte, guard_eq_ok] at h
        obtain ⟨hend, h⟩ := h
        dsimp only at hs
        rw [← List.drop_drop] at hs
        obtain ⟨frames, last, hrest, hframes, hlast, hout⟩ := ih hs.2 h
        have hlen : (tail.take (m + 1)).length = m + 1 := by
          rw [List.length_take]
          omega
        have htail : tail.take (m + 1) ++ (crlf ++ (tail.drop (m + 1)).drop 2) = tail := by
          have hcrlf : (tail.drop (m + 1)).take 2 = crlf := by simpa using hend
          rw [← hcrlf, List.take_append_drop, List.take_append_drop]
        refine ⟨⟨line, tail.take (m + 1)⟩ :: frames, last, ?_, ?_, hlast, ?_⟩
        · rw [hrest] at htail
          rw [hbody, List.flatMap_cons, frameBytes]
          simp only [List.append_assoc] at htail ⊢
          rw [htail]
        · rw [List.forall_mem_cons]
          refine ⟨⟨?_, ?_⟩, hframes⟩
          · apply List.ne_nil_of_length_pos
            dsimp only
            omega
          · dsimp only
            rw [hlen]
            exact hheader
        · rw [hout, List.flatMap_cons, List.append_assoc]

/-- The trailers that are read are lines, and a blank one ends them. -/
theorem decodeTrailers_lines {withTrailers : Bool} {fuel : ℕ} {read out : List (Str × Str)}
    {body rest : Str} (hf : body.length < fuel)
    (h : decodeTrailers withTrailers fuel read body = .ok (out, rest)) :
    ∃ (trailers : List Str) (ending : Str), body = trailers.flatMap (· ++ crlf) ++ ending ∧
      (∀ t ∈ trailers, TrailerLine t) ∧ (withTrailers = false → trailers = []) ∧
      (ending = rest ∨ ending = crlf ++ rest) := by
  induction fuel generalizing read body with
  | zero => omega
  | succ fuel ih =>
    rw [decodeTrailers] at h
    split at h
    · cases h
      exact ⟨[], rest, rfl, List.forall_mem_nil _, fun _ => rfl, Or.inl rfl⟩
    · next tail hl =>
      cases h
      obtain ⟨hbody, -⟩ := nextLine_some hl
      exact ⟨[], _, rfl, List.forall_mem_nil _, fun _ => rfl, Or.inr hbody⟩
    · next line tail hne hl =>
      obtain ⟨hwith, h⟩ := guard_eq_ok.mp h
      obtain ⟨trailer, ht, h⟩ := bind_eq_ok.mp h
      obtain ⟨hbody, hfree⟩ := nextLine_some hl
      have hshort := nextLine_length hl
      obtain ⟨trailers, ending, htail, htrailers, -, hending⟩ := ih (by omega) h
      refine ⟨line :: trailers, ending, ?_, ?_, ?_, hending⟩
      · rw [hbody, htail, List.flatMap_cons]
        simp only [List.append_assoc]
      · rw [List.forall_mem_cons]
        exact ⟨⟨hfree, parseTrailer_cut ht⟩, htrailers⟩
      · intro hno
        rw [hno] at hwith
        exact absurd rfl hwith

theorem decodeAwsChunked_framed {body : Str} {withTrailers : Bool} {d : DecodedChunked}
    (hs : ∀ t ∈ sizeTexts body, ∀ n, parseUnsigned 16 (2 ^ 64) t = some n → Size t n)
    (h : decodeAwsChunked P body signer withTrailers = .ok d) :
    FramedBy Size withTrailers body d.payload := by
  obtain ⟨⟨payload, afterChunks⟩, hchunks, h⟩ := bind_eq_ok.mp h
  obtain ⟨⟨read, rest⟩, htrailers, h⟩ := bind_eq_ok.mp h
  obtain ⟨hrest, h⟩ := guard_eq_ok.mp h
  cases h
  obtain ⟨frames, last, hbody, hframes, hlast, hout⟩ := decodeChunks_frames hs hchunks
  obtain ⟨trailers, ending, hafter, hlines, hannounced, hending⟩ :=
    decodeTrailers_lines (Nat.lt_succ_self _) htrailers
  refine ⟨frames, last, trailers, ending, ?_, hframes, hlast, hlines, hannounced, ?_, ?_⟩
  · rw [hbody, hafter, ← List.append_assoc]
  · have hclosed : rest = [] ∨ rest = crlf := by
      by_contra hopen
      rw [not_or] at hopen
      exact hrest hopen
    rcases hclosed with rfl | rfl
    · rw [List.append_nil] at hending
      exact hending.imp_right Or.inl
    · exact Or.inr hending
  · rw [hout, List.nil_append]

/-- A frame's line is the next one, whatever the size it announces. -/
theorem sizeTexts_plain {frames : List WireFrame} {last rest : Str}
    (hframes : ∀ f ∈ frames, HeaderLine Spells f.line f.data.length)
    (hlast : HeaderLine Spells last 0) (fuel : ℕ) :
    ∀ t ∈ sizeTextsAux fuel (frames.flatMap frameBytes ++ (last ++ crlf) ++ rest),
      t.head? ≠ some 43 := by
  induction fuel generalizing frames with
  | zero => exact List.forall_mem_nil _
  | succ fuel ih =>
    cases frames with
    | nil =>
      obtain ⟨hfree, hsize⟩ := headerLine_iff.mp hlast
      have hzero : parseUnsigned 16 (2 ^ 64) (sizeText last) = some 0 :=
        parseUnsigned_spelled hsize (by omega)
      rw [List.flatMap_nil, List.nil_append, List.append_assoc, sizeTextsAux, nextLine_append hfree]
      dsimp only
      rw [hzero, List.forall_mem_singleton]
      exact spells_head hsize
    | cons f frames =>
      rw [List.forall_mem_cons] at hframes
      obtain ⟨hfree, hsize⟩ := headerLine_iff.mp hframes.1
      have hcut : (f :: frames).flatMap frameBytes ++ (last ++ crlf) ++ rest = f.line ++ (crlf ++
          (f.data ++ (crlf ++ (frames.flatMap frameBytes ++ (last ++ crlf) ++ rest)))) := by
        rw [List.flatMap_cons, frameBytes]
        simp only [List.append_assoc]
      rw [hcut, sizeTextsAux, nextLine_append hfree]
      dsimp only
      rw [List.forall_mem_cons]
      refine ⟨spells_head hsize, ?_⟩
      cases hp : parseUnsigned 16 (2 ^ 64) (sizeText f.line) with
      | none => exact List.forall_mem_nil _
      | some n =>
        have hn := (parseUnsigned_spells hp (spells_head hsize)).value.symm.trans hsize.value
        cases n with
        | zero => exact List.forall_mem_nil _
        | succ m =>
          have hdrop : (f.data ++ (crlf ++ (frames.flatMap frameBytes ++ (last ++ crlf) ++ rest))).drop
              (m + 1 + 2) = frames.flatMap frameBytes ++ (last ++ crlf) ++ rest := by
            rw [hn, ← List.drop_drop, List.drop_left]
            rfl
          dsimp only
          rw [hdrop]
          exact ih hframes.2

theorem wireFormat_sizes {body payload : Str} {withTrailers : Bool}
    (h : WireFormat withTrailers body payload) : ∀ t ∈ sizeTexts body, t.head? ≠ some 43 := by
  obtain ⟨frames, last, trailers, ending, h⟩ := h
  rw [sizeTexts]
  generalize body.length + 1 = fuel
  rw [h.whole, List.append_assoc]
  exact sizeTexts_plain (fun f hf => (h.sized f hf).2) h.closed fuel

end Decoding

/-- Every accepted body is framed; its sizes may have plus signs. -/
theorem accepted_framed (P : Platform) (signer : Option ChunkSigner) (withTrailers : Bool)
    (body : Str) (d : DecodedChunked) (h : decodeAwsChunked P body signer withTrailers = .ok d) :
    FramedBy Reads withTrailers body d.payload :=
  decodeAwsChunked_framed (fun _ _ _ hp => parseUnsigned_reads hp) h

/-- An accepted body is in the wire format exactly when no size it announces has a plus sign. -/
theorem accepted_wireFormat_iff (P : Platform) (signer : Option ChunkSigner) (withTrailers : Bool)
    (body : Str) (d : DecodedChunked) (h : decodeAwsChunked P body signer withTrailers = .ok d) :
    WireFormat withTrailers body d.payload ↔ ∀ t ∈ sizeTexts body, t.head? ≠ some 43 := by
  constructor
  · exact wireFormat_sizes
  · intro hplain
    exact decodeAwsChunked_framed (fun t ht _ hp => parseUnsigned_spells hp (hplain t ht)) h

theorem accepted_wireFormat_hello :
    WireFormat true (bytes "5\r\nhello\r\n0\r\nx-sum:a\r\n\r\n") (bytes "hello") ↔
      ∀ t ∈ sizeTexts (bytes "5\r\nhello\r\n0\r\nx-sum:a\r\n\r\n"), t.head? ≠ some 43 :=
  accepted_wireFormat_iff uploadPlatform none true (bytes "5\r\nhello\r\n0\r\nx-sum:a\r\n\r\n")
    ⟨bytes "hello", [(bytes "x-sum", bytes "a")]⟩ (by decide)

/-- A size with a plus sign is accepted, and its chunk is read. -/
theorem plus_size_accepted :
    decodeAwsChunked uploadPlatform (bytes "+5\r\nhello\r\n0\r\n\r\n") none false =
        .ok ⟨bytes "hello", []⟩ ∧
      ¬WireFormat false (bytes "+5\r\nhello\r\n0\r\n\r\n") (bytes "hello") := by
  constructor
  · decide
  · intro h
    have hplain := wireFormat_sizes h (bytes "+5") (by decide)
    exact hplain rfl

end ChunkFormat
