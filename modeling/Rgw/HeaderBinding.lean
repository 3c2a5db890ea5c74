import Rgw.CanonicalRequest
import Rgw.StoredAttrs
import Rgw.Utf8Lossy

/-! # What a signature binds of the signed headers

Values are decoded before they are signed and stored as they arrive. So the block binds the
bytes of a value only where decoding loses none of them. -/
namespace HeaderBinding

open ByteStrings TextCodecs Utf8Lossy RgwTypes Http SigV4 CanonicalRequest RestS3Handlers
  StoredAttrs

section Values

/-- The values a signed header stands for as they arrive; `host` falls back on the authority. -/
def rawValues (headers : HeaderMap) (authority : Option Str) (name : Str) : List Str :=
  let values := headers.getAll name
  if values = [] ∧ name = bytes "host" then authority.toList else values

/-- These values trimmed, their whitespace collapsed, and joined. -/
def rawValue (headers : HeaderMap) (authority : Option Str) (name : Str) : Str :=
  join 44 ((rawValues headers authority name).map collapseWhitespace)

theorem isAsciiSpace_ascii (c : UInt8) (h : isAsciiSpace c = true) : c < 128 := by
  have main : ∀ c : UInt8, isAsciiSpace c = true → c < 128 := forall_byte (by decide +kernel)
  exact main c h

variable {g : Str → Str}

theorem collapseWhitespace_fixed (hg : AsciiFixed g) (s : Str) :
    collapseWhitespace (g s) = g (collapseWhitespace s) := by
  have hwords : splitAsciiWhitespace (g s) = (splitAsciiWhitespace s).map g := by
    rw [splitAsciiWhitespace, hg.splitOnP isAsciiSpace_ascii, List.filter_map, splitAsciiWhitespace]
    congr 1
    apply List.filter_congr
    intro a _
    have hnil : g a = [] ↔ a = [] := by
      constructor
      · exact hg.eq_nil a
      · rintro rfl
        exact hg.nil
    simp only [Function.comp_apply, ne_eq, hnil]
  rw [collapseWhitespace, hwords, join, hg.intercalate (by decide)]
  rfl

theorem plain_collapseWhitespace {s : Str} : Plain (collapseWhitespace s) ↔ Plain s := by
  rw [collapseWhitespace, join, asciiCut_plain.intercalate (by decide),
    ← asciiCut_plain.splitOnP isAsciiSpace_ascii s, splitAsciiWhitespace]
  constructor
  · intro h a ha
    by_cases hnil : a = []
    · rw [hnil]
      exact asciiCut_plain.nil
    · exact h a (List.mem_filter.mpr ⟨ha, decide_eq_true hnil⟩)
  · intro h a ha
    exact h a (List.mem_filter.mp ha).1

variable {headers : HeaderMap} {authority : Option Str} {name : Str}

theorem plain_rawValue :
    Plain (rawValue headers authority name) ↔ ∀ v ∈ rawValues headers authority name, Plain v := by
  rw [rawValue, join, asciiCut_plain.intercalate (by decide), List.forall_mem_map]
  simp only [plain_collapseWhitespace]

/-- The authority is part of a URI, which is ASCII. -/
def AsciiAuthority (authority : Option Str) : Prop := ∀ a ∈ authority, ∀ b ∈ a, b < 128

/-- What is signed is what arrives, decoded. -/
theorem canonicalValue_raw (ha : AsciiAuthority authority) (name : Str) :
    canonicalValue headers authority name =
      if rawValues headers authority name = [] then none
      else some (utf8Lossy (rawValue headers authority name)) := by
  have hvalues : headerValues headers authority name =
      (rawValues headers authority name).map fun v => utf8Lossy (collapseWhitespace v) := by
    simp only [headerValues, rawValues, List.map_eq_nil_iff]
    split
    · cases authority with
      | none => rfl
      | some a =>
        simp only [Option.map_some, Option.toList_some, List.map_cons, List.map_nil]
        rw [← collapseWhitespace_fixed asciiFixed_utf8Lossy, asciiFixed_utf8Lossy.ascii (ha a rfl)]
    · apply List.map_congr_left
      intro v _
      exact collapseWhitespace_fixed asciiFixed_utf8Lossy v
  rw [canonicalValue, hvalues]
  simp only [List.map_eq_nil_iff]
  rw [rawValue, join, join, ← asciiFixed_utf8Lossy.intercalate (by decide), List.map_map]
  rfl

end Values

section Changes

/-- A change of header values that leaves ASCII alone keeps them legal. -/
theorem isHeaderValue_fixed {g : Str → Str} (hg : AsciiFixed g) (v : HeaderValue) :
    isHeaderValue (g v.val) = true := by
  have hhigh : ∀ b : UInt8, ¬b < 128 → (b == 9 || 32 ≤ b && b ≠ 127) = true :=
    forall_byte (by decide +kernel)
  rw [isHeaderValue, List.all_eq_true]
  intro b hb
  by_cases hascii : b < 128
  · exact List.all_eq_true.mp v.2 b (hg.mem v.val b hascii hb)
  · exact hhigh b hascii

def changeValues {g : Str → Str} (hg : AsciiFixed g) (headers : HeaderMap) : HeaderMap :=
  ⟨headers.entries.map fun e => (e.1, ⟨g e.2.val, isHeaderValue_fixed hg e.2⟩)⟩

variable {g : Str → Str} {headers : HeaderMap} {authority : Option Str}

theorem getAll_changeValues (hg : AsciiFixed g) (name : Str) :
    (changeValues hg headers).getAll name = (headers.getAll name).map g := by
  rw [HeaderMap.getAll, changeValues, List.filter_map, List.map_map, HeaderMap.getAll, List.map_map]
  rfl

theorem rawValues_changeValues (hg : AsciiFixed g) (ha : AsciiAuthority authority) (name : Str) :
    rawValues (changeValues hg headers) authority name = (rawValues headers authority name).map g := by
  simp only [rawValues, getAll_changeValues, List.map_eq_nil_iff]
  split
  · cases authority with
    | none => rfl
    | some a =>
      simp only [Option.toList_some, List.map_cons, List.map_nil]
      rw [hg.ascii (ha a rfl)]
  · rfl

theorem rawValue_changeValues (hg : AsciiFixed g) (ha : AsciiAuthority authority) (name : Str) :
    rawValue (changeValues hg headers) authority name = g (rawValue headers authority name) := by
  rw [rawValue, rawValues_changeValues hg ha, List.map_map, rawValue, join, join,
    ← hg.intercalate (by decide), List.map_map]
  congr 1
  apply List.map_congr_left
  intro v _
  exact collapseWhitespace_fixed hg v

/-- A change that decoding does not see leaves the block as it is. -/
theorem canonicalHeaders_changeValues (hg : AsciiFixed g) (hl : ∀ s, utf8Lossy (g s) = utf8Lossy s)
    (ha : AsciiAuthority authority) (signed : List Str) :
    canonicalHeaders (changeValues hg headers) authority signed =
      canonicalHeaders headers authority signed := by
  rw [canonicalHeaders, canonicalHeaders]
  congr 1
  funext name
  rw [headerLine, headerLine, canonicalValue_raw ha, canonicalValue_raw ha,
    rawValue_changeValues hg ha, hl, rawValues_changeValues hg ha]
  simp only [List.map_eq_nil_iff]

end Changes

section Stored

/-- A text without its whitespace. -/
def withoutSpace (s : Str) : Str := s.filter fun b => !isAsciiSpace b

theorem withoutSpace_intercalate (sep : Str) (parts : List Str) :
    withoutSpace (sep.intercalate parts) =
      (withoutSpace sep).intercalate (parts.map withoutSpace) := by
  induction parts with
  | nil => rfl
  | cons a parts ih =>
    cases parts with
    | nil => simp
    | cons b parts =>
      rw [List.intercalate_cons_cons, withoutSpace, List.filter_append, List.filter_append]
      rw [← withoutSpace, ← withoutSpace, ← withoutSpace, ih]
      simp only [List.map_cons, List.intercalate_cons_cons]

/-- The words of a text are what is left of it without whitespace. -/
theorem flatten_words (s : Str) : (splitAsciiWhitespace s).flatten = withoutSpace s := by
  have hskip : ∀ parts : List Str, (parts.filter (· ≠ [])).flatten = parts.flatten := by
    intro parts
    induction parts with
    | nil => rfl
    | cons a parts ih => cases a <;> simp_all
  rw [splitAsciiWhitespace, hskip]
  induction s using parts_induction isAsciiSpace with
  | last a ha =>
    rw [List.splitOnP_eq_singleton ha, List.flatten_singleton, withoutSpace, List.filter_eq_self.mpr]
    intro b hb
    rw [ha b hb]
    rfl
  | cut a c t ha hc ih =>
    have hclean : a.filter (fun b => !isAsciiSpace b) = a := by
      apply List.filter_eq_self.mpr
      intro b hb
      rw [ha b hb]
      rfl
    have hspace : (!isAsciiSpace c) = false := by rw [hc]; rfl
    rw [List.splitOnP_append_cons_of_forall_mem ha c hc, List.flatten_cons, ih, withoutSpace,
      withoutSpace, List.filter_append, List.filter_cons, hspace, hclean]
    rfl

theorem withoutSpace_collapseWhitespace (s : Str) :
    withoutSpace (collapseWhitespace s) = withoutSpace s := by
  have hnone : withoutSpace [32] = [] := by decide
  have hempty : ∀ parts : List Str, ([] : Str).intercalate parts = parts.flatten := by
    intro parts
    induction parts with
    | nil => rfl
    | cons a parts ih => cases parts <;> simp_all [List.intercalate_cons_cons]
  have hwords : (splitAsciiWhitespace s).map withoutSpace = splitAsciiWhitespace s := by
    conv_rhs => rw [← List.map_id (splitAsciiWhitespace s)]
    apply List.map_congr_left
    intro a ha
    apply List.filter_eq_self.mpr
    intro b hb
    rw [of_mem_splitOnP (List.mem_filter.mp ha).1 b hb]
    rfl
  rw [collapseWhitespace, join, withoutSpace_intercalate, hnone, hempty, hwords, flatten_words]

end Stored

/-- A change of the signed values, as they arrive or as they are stored, changes the block. -/
def BindsHeaders (headers : HeaderMap) (authority : Option Str) (signed : List Str) : Prop :=
  ∀ headers' : HeaderMap,
    canonicalHeaders headers' authority signed = canonicalHeaders headers authority signed →
    (∀ name ∈ signed, rawValue headers' authority name = rawValue headers authority name) ∧
    ∀ suffix, amzMeta ++ suffix ∈ signed →
      (putAttrs headers')[rgwAttrMetaPrefix ++ suffix]?.map withoutSpace =
        (putAttrs headers)[rgwAttrMetaPrefix ++ suffix]?.map withoutSpace

section Binding

variable {headers headers' : HeaderMap} {authority : Option Str} {signed : List Str} {name : Str}

theorem rawValues_nil (h : rawValues headers authority name = []) :
    rawValue headers authority name = [] := by
  rw [rawValue, h]
  rfl

/-- A plain value is bound, and so is whether the header is there. -/
theorem rawValue_bound (ha : AsciiAuthority authority)
    (hp : ∀ v ∈ rawValues headers authority name, Plain v)
    (h : canonicalValue headers' authority name = canonicalValue headers authority name) :
    rawValue headers' authority name = rawValue headers authority name ∧
      (rawValues headers' authority name = [] ↔ rawValues headers authority name = []) := by
  rw [canonicalValue_raw ha, canonicalValue_raw ha] at h
  by_cases hnil : rawValues headers authority name = [] <;>
    by_cases hnil' : rawValues headers' authority name = []
  · rw [rawValues_nil hnil, rawValues_nil hnil', hnil, hnil']
    exact ⟨rfl, Iff.rfl⟩
  · rw [if_pos hnil, if_neg hnil'] at h
    cases h
  · rw [if_neg hnil, if_pos hnil'] at h
    cases h
  · rw [if_neg hnil, if_neg hnil', Option.some.injEq] at h
    exact ⟨(plain_rawValue.mpr hp).lossy_eq.mp h, iff_of_false hnil' hnil⟩

theorem rawValues_meta (suffix : Str) :
    rawValues headers authority (amzMeta ++ suffix) = headers.getAll (amzMeta ++ suffix) := by
  apply if_neg
  rintro ⟨-, hhost⟩
  have hpre : ¬amzMeta <+: bytes "host" := by decide
  exact hpre (hhost ▸ List.prefix_append _ _)

/-- Whitespace aside, a metadata value is stored as it is signed. -/
theorem stored_withoutSpace (headers : HeaderMap) (authority : Option Str) (suffix : Str) :
    (putAttrs headers)[rgwAttrMetaPrefix ++ suffix]?.map withoutSpace =
      if rawValues headers authority (amzMeta ++ suffix) = [] then none
      else some (withoutSpace (rawValue headers authority (amzMeta ++ suffix))) := by
  rw [putAttrs_meta, rawValue, rawValues_meta]
  cases headers.getAll (amzMeta ++ suffix) with
  | nil => rfl
  | cons v vs =>
    rw [joined, if_neg (List.cons_ne_nil v vs), Option.map_some, join, join,
      withoutSpace_intercalate, withoutSpace_intercalate, List.map_map]
    congr 2
    apply List.map_congr_left
    intro w _
    exact (withoutSpace_collapseWhitespace w).symm

theorem binds_of_plain (hs : signed.Pairwise (· < ·)) (ha : AsciiAuthority authority)
    (hp : ∀ name ∈ signed, ∀ v ∈ rawValues headers authority name, Plain v) :
    BindsHeaders headers authority signed := by
  intro headers' h
  have hvalues := canonicalHeaders_injective hs h
  constructor
  · intro name hname
    exact (rawValue_bound ha (hp name hname) (hvalues name hname)).1
  · intro suffix hname
    obtain ⟨hraw, hpresent⟩ := rawValue_bound ha (hp _ hname) (hvalues _ hname)
    rw [stored_withoutSpace headers' authority, stored_withoutSpace headers authority, hraw]
    simp only [hpresent]

theorem plain_of_binds (ha : AsciiAuthority authority) (h : BindsHeaders headers authority signed)
    (hname : name ∈ signed) : Plain (rawValue headers authority name) := by
  -- a change that decoding does not see is no change of a bound value
  have hfixed : ∀ {g : Str → Str} (_ : AsciiFixed g), (∀ s, utf8Lossy (g s) = utf8Lossy s) →
      g (rawValue headers authority name) = rawValue headers authority name := by
    intro g hg hl
    rw [← rawValue_changeValues hg ha]
    exact (h _ (canonicalHeaders_changeValues hg hl ha signed)).1 name hname
  constructor
  · rw [← hfixed asciiFixed_utf8Lossy utf8Lossy_idempotent]
    exact isUtf8_utf8Lossy _
  · intro hmark
    exact breakReplacement_ne hmark (hfixed asciiFixed_breakReplacement utf8Lossy_breakReplacement)

end Binding

/-- The block binds the signed headers exactly when every signed value is a well-formed text
without U+FFFD. -/
theorem bindsHeaders_iff (headers : HeaderMap) (authority : Option Str) (signed : List Str)
    (hs : signed.Pairwise (· < ·)) (ha : AsciiAuthority authority) :
    BindsHeaders headers authority signed ↔
      ∀ name ∈ signed, ∀ v ∈ rawValues headers authority name, Plain v := by
  constructor
  · intro h name hname
    exact plain_rawValue.mp (plain_of_binds ha h hname)
  · exact binds_of_plain hs ha

section Instances

theorem metaA_name : isHeaderName (bytes "x-amz-meta-a") = true := by decide

/-- A request with one metadata header. -/
def metaHeaders (value : HeaderValue) : HeaderMap := ⟨[(⟨bytes "x-amz-meta-a", metaA_name⟩, value)]⟩

/-- A text, and two bytes that are none. -/
def wordValue : HeaderValue := ⟨bytes "a b", by decide⟩
def tailValue : HeaderValue := ⟨[128], by decide⟩
def strayValue : HeaderValue := ⟨[255], by decide⟩

def hostAuthority : Str := bytes "h:8000"

theorem hostAuthority_ascii : AsciiAuthority (some hostAuthority) := by
  intro a ha
  cases ha
  have hall : hostAuthority.all (fun b => decide (b < 128)) = true := by decide
  simpa using hall

theorem bindsHeaders_word :
    BindsHeaders (metaHeaders wordValue) (some hostAuthority)
        [bytes "host", bytes "x-amz-meta-a"] ↔
      ∀ name ∈ [bytes "host", bytes "x-amz-meta-a"],
        ∀ v ∈ rawValues (metaHeaders wordValue) (some hostAuthority) name, Plain v :=
  bindsHeaders_iff (metaHeaders wordValue) (some hostAuthority)
    [bytes "host", bytes "x-amz-meta-a"] (by decide) hostAuthority_ascii

/-- Two values that are no texts make one block. -/
theorem malformed_values_collide :
    [bytes "host", bytes "x-amz-meta-a"].Pairwise (· < ·) ∧
      canonicalHeaders (metaHeaders tailValue) (some hostAuthority)
          [bytes "host", bytes "x-amz-meta-a"] =
        canonicalHeaders (metaHeaders strayValue) (some hostAuthority)
          [bytes "host", bytes "x-amz-meta-a"] ∧
      rawValue (metaHeaders tailValue) (some hostAuthority) (bytes "x-amz-meta-a") ≠
        rawValue (metaHeaders strayValue) (some hostAuthority) (bytes "x-amz-meta-a") := by
  decide

end Instances

end HeaderBinding
