import Rgw.RestS3Wire
import Rgw.SigV4
import Mathlib.Data.List.Perm.Basic

/-! # What a canonical request says

Each part of a canonical request is recovered from its text, up to the spellings that the
decoders of paths, queries and header values identify. -/
namespace CanonicalRequest

open ByteStrings TextCodecs Http SigV4 RestS3Wire

section Encoding

theorem uriEncode_injective (slash : Bool) : Function.Injective (uriEncode slash) :=
  percentEncode_injective (by cases slash <;> decide)

theorem not_mem_uriEncode {slash : Bool} {c : UInt8} (hc : c = 10 ∨ c = 38 ∨ c = 61) (s : Str) :
    c ∉ uriEncode slash s := by
  intro hm
  have hk := mem_percentEncode hm
  clear hm
  rcases hc with rfl | rfl | rfl <;> cases slash <;> revert hk <;> decide

theorem not_mem_canonicalUri (path : Str) : (10 : UInt8) ∉ canonicalUri path := by
  rw [canonicalUri]
  split
  · decide
  · exact not_mem_uriEncode (Or.inl rfl) _

end Encoding

section Headers

theorem not_mem_collapseWhitespace (s : Str) : (10 : UInt8) ∉ collapseWhitespace s := by
  intro h
  rcases mem_intercalate h with h | ⟨word, hw, h⟩
  · revert h
    decide
  · have hs := of_mem_splitOnP (List.mem_filter.mp hw).1 10 h
    revert hs
    decide

variable {headers headers' : HeaderMap} {authority authority' : Option Str} {name : Str}

theorem not_mem_headerValues {value : Str} (h : value ∈ headerValues headers authority name) :
    (10 : UInt8) ∉ value := by
  simp only [headerValues] at h
  split at h
  · obtain ⟨a, -, rfl⟩ := Option.map_eq_some_iff.mp (Option.mem_toList.mp h)
    exact not_mem_collapseWhitespace a
  · obtain ⟨v, -, rfl⟩ := List.mem_map.mp h
    exact not_mem_collapseWhitespace _

theorem canonicalValue_some {value : Str} (h : canonicalValue headers authority name = some value) :
    (10 : UInt8) ∉ value ∧ (58 : UInt8) ∉ name := by
  simp only [canonicalValue, Option.ite_none_left_eq_some, Option.some.injEq] at h
  obtain ⟨hne, rfl⟩ := h
  constructor
  · intro hm
    rcases mem_intercalate hm with hm | ⟨v, hv, hm⟩
    · revert hm
      decide
    · exact not_mem_headerValues hv hm
  · simp only [headerValues] at hne
    split at hne
    · next hhost =>
      rw [hhost.2]
      decide
    · -- some line carries the name, so the name is a token
      obtain ⟨v, hv⟩ := List.exists_mem_of_ne_nil _ hne
      obtain ⟨w, hw, -⟩ := List.mem_map.mp hv
      obtain ⟨e, he, -⟩ := List.mem_map.mp hw
      have hname : e.1.val = name := by simpa using (List.mem_filter.mp he).2
      have htoken := e.1.2
      rw [hname, isHeaderName, Bool.and_eq_true, List.all_eq_true] at htoken
      intro hm
      have h58 := htoken.2 58 hm
      revert h58
      decide

/-- A line for one name is no line for another, and no line at all only where it is absent. -/
theorem headerLine_append {signed : List Str} {rest : Str}
    (hp : (name :: signed).Pairwise (· < ·))
    (h : headerLine headers authority name ++ rest =
      canonicalHeaders headers' authority' signed) :
    canonicalValue headers authority name = none := by
  cases hv : canonicalValue headers authority name with
  | none => rfl
  | some value =>
    exfalso
    obtain ⟨-, hname⟩ := canonicalValue_some hv
    rw [headerLine, hv] at h
    induction signed with
    | nil => simp [canonicalHeaders] at h
    | cons other signed ih =>
      rw [List.pairwise_cons, List.pairwise_cons] at hp
      rw [canonicalHeaders, List.flatMap_cons] at h
      cases ho : canonicalValue headers' authority' other with
      | none =>
        rw [headerLine, ho, List.nil_append] at h
        refine ih (List.pairwise_cons.mpr ⟨fun n hn => ?_, hp.2.2⟩) h
        exact hp.1 n (List.mem_cons_of_mem _ hn)
      | some value' =>
        rw [headerLine, ho] at h
        simp only [List.append_assoc, List.cons_append] at h
        obtain ⟨rfl, -⟩ := first_cut_unique hname (canonicalValue_some ho).2 h
        exact absurd (hp.1 _ List.mem_cons_self) (lt_irrefl _)

/-- The header block fixes the value, or the absence, of every signed name. -/
theorem canonicalHeaders_injective {signed : List Str} (hp : signed.Pairwise (· < ·))
    (h : canonicalHeaders headers authority signed = canonicalHeaders headers' authority' signed) :
    ∀ name ∈ signed,
      canonicalValue headers authority name = canonicalValue headers' authority' name := by
  induction signed with
  | nil => simp
  | cons name signed ih =>
    have hcons : ∀ (m : HeaderMap) (a : Option Str), canonicalHeaders m a (name :: signed) =
        headerLine m a name ++ canonicalHeaders m a signed := fun _ _ => List.flatMap_cons
    rw [hcons, hcons] at h
    have hhead : canonicalValue headers authority name = canonicalValue headers' authority' name ∧
        canonicalHeaders headers authority signed = canonicalHeaders headers' authority' signed := by
      cases hv : canonicalValue headers authority name with
      | none =>
        have hl : headerLine headers authority name = [] := by rw [headerLine, hv]
        rw [hl, List.nil_append] at h
        have hv' := headerLine_append hp h.symm
        have hl' : headerLine headers' authority' name = [] := by rw [headerLine, hv']
        rw [hl', List.nil_append] at h
        exact ⟨hv'.symm, h⟩
      | some value =>
        cases hv' : canonicalValue headers' authority' name with
        | none =>
          have hl' : headerLine headers' authority' name = [] := by rw [headerLine, hv']
          rw [hl', List.nil_append] at h
          rw [headerLine_append hp h] at hv
          cases hv
        | some value' =>
          rw [headerLine, hv, headerLine, hv'] at h
          simp only [List.append_assoc, List.cons_append, List.nil_append,
            List.append_cancel_left_eq, List.cons.injEq, true_and] at h
          obtain ⟨rfl, hrest⟩ :=
            first_cut_unique (canonicalValue_some hv).1 (canonicalValue_some hv').1 h
          exact ⟨rfl, hrest⟩
    intro n hn
    rcases List.mem_cons.mp hn with rfl | hn
    · exact hhead.1
    · exact ih (List.pairwise_cons.mp hp).2 hhead.2 n hn

end Headers

section Query

theorem pairText_injective {p q : Str × Str} (hp : (61 : UInt8) ∉ p.1) (hq : (61 : UInt8) ∉ q.1)
    (h : pairText p = pairText q) : p = q := by
  obtain ⟨h₁, h₂⟩ := first_cut_unique hp hq h
  exact Prod.ext h₁ h₂

/-- The canonical pairs of a query in their order. -/
def sortedPairs (query : Str) : List (Str × Str) :=
  ((queryParts (plusToEscape query)).map canonicalPair).insertionSort pairLe

theorem mem_sortedPairs {query : Str} {p : Str × Str} (h : p ∈ sortedPairs query) {c : UInt8}
    (hc : c = 10 ∨ c = 38 ∨ c = 61) : c ∉ p.1 ∧ c ∉ p.2 := by
  rw [sortedPairs, List.mem_insertionSort] at h
  obtain ⟨q, -, rfl⟩ := List.mem_map.mp h
  exact ⟨not_mem_uriEncode hc _, not_mem_uriEncode hc _⟩

theorem not_mem_pairText {query : Str} {p : Str × Str} (h : p ∈ sortedPairs query) {c : UInt8}
    (hc : c = 10 ∨ c = 38) : c ∉ pairText p := by
  obtain ⟨h₁, h₂⟩ := mem_sortedPairs h (hc.imp id Or.inl)
  have hne : c ≠ 61 := by rcases hc with rfl | rfl <;> decide
  simp [pairText, h₁, h₂, hne]

theorem not_mem_canonicalQuery (query : Str) : (10 : UInt8) ∉ canonicalQuery query := by
  intro h
  rcases mem_intercalate h with h | ⟨t, ht, h⟩
  · revert h
    decide
  · obtain ⟨p, hp, rfl⟩ := List.mem_map.mp ht
    exact not_mem_pairText hp (Or.inl rfl) h

theorem map_pairText_injective {ps qs : List (Str × Str)} (hp : ∀ p ∈ ps, (61 : UInt8) ∉ p.1)
    (hq : ∀ q ∈ qs, (61 : UInt8) ∉ q.1) (h : ps.map pairText = qs.map pairText) : ps = qs := by
  induction ps generalizing qs with
  | nil => exact (List.map_eq_nil_iff.mp h.symm).symm
  | cons p ps ih =>
    cases qs with
    | nil => cases h
    | cons q qs =>
      rw [List.map_cons, List.map_cons, List.cons.injEq] at h
      rw [List.forall_mem_cons] at hp hq
      rw [pairText_injective hp.1 hq.1 h.1, ih hp.2 hq.2 h.2]

theorem intercalate_pairText {ps qs : List (Str × Str)} (hp : ∀ p ∈ ps, (38 : UInt8) ∉ pairText p)
    (hq : ∀ q ∈ qs, (38 : UInt8) ∉ pairText q)
    (h : join 38 (ps.map pairText) = join 38 (qs.map pairText)) :
    ps.map pairText = qs.map pairText := by
  have hne : ∀ p : Str × Str, ∀ l : List Str, join 38 (pairText p :: l) ≠ [] := by
    intro p l
    cases l <;> simp [join, pairText]
  have hmem : ∀ l : List (Str × Str), (∀ p ∈ l, (38 : UInt8) ∉ pairText p) →
      ∀ t ∈ l.map pairText, (38 : UInt8) ∉ t := by
    intro l hl t ht
    obtain ⟨p, hp, rfl⟩ := List.mem_map.mp ht
    exact hl p hp
  cases ps with
  | nil =>
    cases qs with
    | nil => rfl
    | cons q qs => exact absurd h.symm (hne q _)
  | cons p ps =>
    cases qs with
    | nil => exact absurd h (hne p _)
    | cons q qs => exact intercalate_injective (hmem _ hp) (hmem _ hq) (by simp) (by simp) h

theorem canonicalQuery_injective {query query' : Str}
    (h : canonicalQuery query = canonicalQuery query') : sortedPairs query = sortedPairs query' := by
  refine map_pairText_injective (fun p hp => ?_) (fun p hp => ?_)
    (intercalate_pairText (fun p hp => ?_) (fun p hp => ?_) h)
  · exact (mem_sortedPairs hp (Or.inr (Or.inr rfl))).1
  · exact (mem_sortedPairs hp (Or.inr (Or.inr rfl))).1
  · exact not_mem_pairText hp (Or.inr rfl)
  · exact not_mem_pairText hp (Or.inr rfl)

/-- The bytes a query part stands for. -/
def decodedPart (p : Str × Str) : Str × Str :=
  (percentDecode (plusToSpace p.1), percentDecode (plusToSpace p.2))

theorem plusToEscape_eq_nil {s : Str} : plusToEscape s = [] ↔ s = [] := by
  cases s with
  | nil => simp [plusToEscape]
  | cons b s => by_cases hb : b = 43 <;> simp [hb]

/-- Cutting a query at its separators commutes with escaping its plus signs. -/
theorem queryParts_plus (query : Str) : queryParts (plusToEscape query) =
    (queryParts query).map fun p => (plusToEscape p.1, plusToEscape p.2) := by
  have hsep : ∀ c : UInt8, c = 38 ∨ c = 61 → ∀ b, b ≠ c →
      c ∉ (if b = 43 then [37, 50, 48] else [b] : Str) := by
    intro c hc b hb
    split
    · rcases hc with rfl | rfl <;> decide
    · simpa using hb.symm
  have hsplit : (plusToEscape query).splitOn 38 = (query.splitOn 38).map plusToEscape :=
    splitOn_flatMap (by decide) (hsep 38 (Or.inl rfl)) query
  have hcut : ∀ s : Str, splitOnce 61 (plusToEscape s) =
      (splitOnce 61 s).map fun p => (plusToEscape p.1, plusToEscape p.2) :=
    splitOnce_flatMap (by decide) (hsep 61 (Or.inr rfl))
  simp only [queryParts, hsplit, List.filter_map, List.map_map]
  have hfilter : (query.splitOn 38).filter ((fun s => decide (s ≠ [])) ∘ plusToEscape) =
      (query.splitOn 38).filter fun s => decide (s ≠ []) := by
    apply List.filter_congr
    intro s _
    simp only [Function.comp_apply, ne_eq, plusToEscape_eq_nil]
  rw [hfilter]
  apply List.map_congr_left
  intro s _
  simp only [Function.comp_apply, hcut]
  cases splitOnce 61 s with
  | none => rfl
  | some p => rfl

theorem sortedPairs_perm (query : Str) : (sortedPairs query).Perm
    (((queryParts query).map decodedPart).map fun p => (uriEncode true p.1, uriEncode true p.2)) := by
  refine (List.perm_insertionSort _ _).trans (List.Perm.of_eq ?_)
  rw [queryParts_plus, List.map_map, List.map_map]
  apply List.map_congr_left
  intro p _
  simp only [Function.comp_apply, canonicalPair, uriRecode, decodedPart, percentDecode_plus]

/-- The arguments a handler reads are the decoded parts of the query. -/
theorem parse_pairs (query : Option Str) : (Args.parse query).pairs =
    ((queryParts (query.getD [])).map decodedPart).map fun p => (utf8Lossy p.1, utf8Lossy p.2) := by
  cases query with
  | none => rfl
  | some q =>
    simp only [Args.parse, Option.getD_some, queryParts, List.map_map]
    rfl

/-- One canonical query, one multiset of arguments. -/
theorem args_perm {query query' : Option Str}
    (h : canonicalQuery (query.getD []) = canonicalQuery (query'.getD [])) :
    (Args.parse query).pairs.Perm (Args.parse query').pairs := by
  have henc : Function.Injective fun p : Str × Str => (uriEncode true p.1, uriEncode true p.2) := by
    intro p q he
    simp only [Prod.mk.injEq] at he
    exact Prod.ext (uriEncode_injective true he.1) (uriEncode_injective true he.2)
  have hp := (sortedPairs_perm (query.getD [])).symm.trans
    (canonicalQuery_injective h ▸ sortedPairs_perm (query'.getD []))
  rw [parse_pairs, parse_pairs]
  exact ((List.map_perm_map_iff henc).mp hp).map _

end Query

section Path

theorem percentDecode_slash (a b : Str) :
    percentDecode (a ++ 47 :: b) = percentDecode a ++ 47 :: percentDecode b :=
  percentDecode_append_cons (by decide) (by decide) a b

theorem percentDecode_eq_nil {s : Str} (h : percentDecode s = []) : s = [] := by
  cases s with
  | nil => rfl
  | cons b s =>
    by_cases hp : b ≠ 37 ∨ ¬ HexPair s
    · rw [percentDecode_plain hp] at h
      cases h
    · push Not at hp
      obtain ⟨rfl, hp⟩ := hp
      match s, hp with
      | x :: y :: rest, hp =>
        obtain ⟨m, hm⟩ := Option.isSome_iff_exists.mp hp.1
        obtain ⟨n, hn⟩ := Option.isSome_iff_exists.mp hp.2
        rw [percentDecode_escape hm hn] at h
        cases h

theorem pathParam_some {s name : Str} (h : pathParam s = some name) : percentDecode s = name := by
  simp only [pathParam, Option.ite_none_right_eq_some, Option.some.injEq] at h
  exact h.2

/-- The three forms of a path that names a bucket, once decoded. -/
theorem target_decoded {path bucket : Str} {key : Option Str} (h : target path = some (bucket, key)) :
    (key = none ∧ percentDecode path = 47 :: bucket) ∨
    (key = none ∧ percentDecode path = 47 :: bucket ++ 47 :: []) ∨
    ∃ k, key = some k ∧ k ≠ [] ∧ percentDecode path = 47 :: bucket ++ 47 :: k := by
  have hroot : ∀ s : Str, percentDecode (47 :: s) = 47 :: percentDecode s :=
    fun s => percentDecode_slash [] s
  cases path with
  | nil => simp [target, route] at h
  | cons b path =>
    by_cases hb : b = 47
    · subst hb
      rw [target, route] at h
      by_cases hp : path = []
      · simp [hp] at h
      rw [if_neg hp] at h
      cases hs : splitOnce 47 path with
      | none =>
        simp only [hs, Option.map_eq_some_iff, Prod.mk.injEq] at h
        obtain ⟨name, hn, rfl, rfl⟩ := h
        exact Or.inl ⟨rfl, by rw [hroot, pathParam_some hn]⟩
      | some cut =>
        obtain ⟨segment, rest⟩ := cut
        obtain ⟨rfl, -⟩ := splitOnce_some.mp hs
        simp only [hs] at h
        by_cases hr : rest = []
        · subst hr
          simp only [↓reduceIte, Option.map_eq_some_iff, Prod.mk.injEq] at h
          obtain ⟨name, hn, rfl, rfl⟩ := h
          refine Or.inr (Or.inl ⟨rfl, ?_⟩)
          rw [hroot, percentDecode_slash, pathParam_some hn]
          rfl
        · simp only [hr, ↓reduceIte, Option.bind_eq_bind, Option.bind_eq_some_iff,
            Option.pure_def, Option.some.injEq, Prod.mk.injEq] at h
          obtain ⟨name, hn, k, hk, rfl, rfl⟩ := h
          refine Or.inr (Or.inr ⟨k, rfl, ?_, ?_⟩)
          · rintro rfl
            exact hr (percentDecode_eq_nil (pathParam_some hk))
          · rw [hroot, percentDecode_slash, pathParam_some hn, pathParam_some hk]
            rfl
    · rw [target, route] at h
      · cases h
      · intro p hp
        exact hb (List.cons.inj hp).1

/-- One canonical path, one bucket and key, where bucket names hold no slash. -/
theorem target_unique {path path' bucket bucket' : Str} {key key' : Option Str}
    (h : canonicalUri path = canonicalUri path') (ht : target path = some (bucket, key))
    (ht' : target path' = some (bucket', key')) (hs : (47 : UInt8) ∉ bucket)
    (hs' : (47 : UInt8) ∉ bucket') : bucket = bucket' ∧ key = key' := by
  have hne : ∀ p b k, target p = some (b, k) → p ≠ [] := by
    rintro _ _ _ h rfl
    simp [target, route] at h
  rw [canonicalUri, if_neg (hne _ _ _ ht), canonicalUri, if_neg (hne _ _ _ ht')] at h
  have hd : percentDecode path = percentDecode path' := uriEncode_injective false h
  -- a bucket alone against a bucket and a slash: the slash would be in the name
  have hclash : ∀ {a b c : Str}, (47 : UInt8) ∉ a → (47 : UInt8) :: a ≠ 47 :: b ++ 47 :: c := by
    intro a b c ha he
    rw [List.cons_append, List.cons.injEq] at he
    refine ha ?_
    rw [he.2]
    simp
  rcases target_decoded ht with ⟨rfl, hp⟩ | ⟨rfl, hp⟩ | ⟨k, rfl, hk, hp⟩ <;>
    rcases target_decoded ht' with ⟨rfl, hp'⟩ | ⟨rfl, hp'⟩ | ⟨k', rfl, hk', hp'⟩ <;>
    rw [hp, hp'] at hd
  · exact ⟨List.tail_eq_of_cons_eq hd, rfl⟩
  · exact absurd hd (hclash hs)
  · exact absurd hd (hclash hs)
  · exact absurd hd.symm (hclash hs')
  · exact ⟨(first_cut_unique hs hs' (List.tail_eq_of_cons_eq hd)).1, rfl⟩
  · exact absurd (first_cut_unique hs hs' (List.tail_eq_of_cons_eq hd)).2.symm hk'
  · exact absurd hd.symm (hclash hs')
  · exact absurd (first_cut_unique hs hs' (List.tail_eq_of_cons_eq hd)).2 hk
  · obtain ⟨rfl, rfl⟩ := first_cut_unique hs hs' (List.tail_eq_of_cons_eq hd)
    exact ⟨rfl, rfl⟩

end Path

section Parts

/-- The six parts of a canonical request. -/
theorem canonicalRequest_parts {method path query headerBlock signed hash : Str} :
    join 10 [method, path, query, headerBlock, signed, hash] =
      method ++ 10 :: (path ++ 10 :: (query ++ 10 :: (headerBlock ++ 10 :: signed ++ 10 :: hash))) := by
  simp [join, List.intercalate, List.intersperse]

theorem canonicalRequest_injective {m m' p p' q q' h h' : Str} {a a' : Option Str}
    {headers headers' : HeaderMap} {signed signed' : List Str}
    (hm : (10 : UInt8) ∉ m) (hm' : (10 : UInt8) ∉ m')
    (hs : (10 : UInt8) ∉ join 59 signed) (hs' : (10 : UInt8) ∉ join 59 signed')
    (hh : (10 : UInt8) ∉ h) (hh' : (10 : UInt8) ∉ h')
    (he : canonicalRequest m p q headers a signed h =
      canonicalRequest m' p' q' headers' a' signed' h') :
    m = m' ∧ canonicalUri p = canonicalUri p' ∧ canonicalQuery q = canonicalQuery q' ∧
      canonicalHeaders headers a signed = canonicalHeaders headers' a' signed' ∧
      join 59 signed = join 59 signed' ∧ h = h' := by
  rw [canonicalRequest, canonicalRequest, canonicalRequest_parts, canonicalRequest_parts] at he
  obtain ⟨hmethod, he⟩ := first_cut_unique hm hm' he
  obtain ⟨hpath, he⟩ := first_cut_unique (not_mem_canonicalUri p) (not_mem_canonicalUri p') he
  obtain ⟨hquery, he⟩ := first_cut_unique (not_mem_canonicalQuery q) (not_mem_canonicalQuery q') he
  obtain ⟨he, hhash⟩ := last_cut_unique hh hh' he
  obtain ⟨hblock, hsigned⟩ := last_cut_unique hs hs' he
  exact ⟨hmethod, hpath, hquery, hblock, hsigned, hhash⟩

end Parts

end CanonicalRequest
