import Rgw.ListingScan
import Rgw.Utf8Texts

/-! # The row filter of a listing

The statement compares the first characters of a name with the prefix, as many as the prefix
has before its first U+0000. -/
namespace RowFilter

open ByteStrings TextCodecs RgwSalSqlite PrefixRollup ListingScan Utf8Texts

variable {listPrefix name marker s t : Str}

section Substr

/-- The text starts with no byte that continues a character. -/
def Starts (s : Str) : Prop := ∀ b, s.head? = some b → isTail b = false

theorem starts_dropWhile (s : Str) : Starts (s.dropWhile isTail) := by
  intro b hb
  have hne : s.dropWhile isTail ≠ [] := by
    intro hnil
    rw [hnil] at hb
    cases hb
  have hhead := List.head_dropWhile_not isTail hne
  rw [List.head?_eq_some_head hne, Option.some.injEq] at hb
  rwa [hb] at hhead

theorem starts_utf8 (h : isUtf8 s = true) : Starts s := by
  intro b hb
  cases s with
  | nil => cases hb
  | cons a s =>
    cases hb
    exact isUtf8_head h

theorem sqlSubstr_isPrefix (n : ℕ) (s : Str) : sqlSubstr n s <+: s := by
  induction n generalizing s with
  | zero => exact List.nil_prefix
  | succ n ih =>
    cases s with
    | nil => exact List.nil_prefix
    | cons b s =>
      by_cases hb : b = 0
      · rw [sqlSubstr, if_pos hb]
        exact List.nil_prefix
      obtain ⟨t, ht⟩ := ih (s.dropWhile isTail)
      refine ⟨t, ?_⟩
      rw [sqlSubstr, if_neg hb, List.append_assoc, List.cons_append, ht,
        List.takeWhile_append_dropWhile]

theorem charCount_cons_tails (b : UInt8) (s : Str) :
    charCount (b :: s) = charCount [b] + charCount (s.dropWhile isTail) := by
  have hs : charCount s = charCount (s.dropWhile isTail) := by
    conv_lhs => rw [← List.takeWhile_append_dropWhile (p := isTail) (l := s)]
    rw [charCount_append, charCount_tails, Nat.zero_add]
  rw [← List.singleton_append, charCount_append, hs]

theorem charCount_sqlSubstr (n : ℕ) (s : Str) : charCount (sqlSubstr n s) ≤ n := by
  induction n generalizing s with
  | zero => exact Nat.le_refl 0
  | succ n ih =>
    cases s with
    | nil => exact Nat.zero_le _
    | cons b s =>
      by_cases hnull : b = 0
      · rw [sqlSubstr, if_pos hnull]
        exact Nat.zero_le _
      have hb : charCount [b] ≤ 1 := List.length_filter_le _ _
      have hrest := ih (s.dropWhile isTail)
      rw [sqlSubstr, if_neg hnull, List.cons_append, ← List.singleton_append, charCount_append,
        charCount_append, charCount_tails]
      omega

theorem tails_append (ht : Starts t) (s : Str) :
    (s ++ t).takeWhile isTail = s.takeWhile isTail ∧
      (s ++ t).dropWhile isTail = s.dropWhile isTail ++ t := by
  induction s with
  | nil =>
    cases t with
    | nil => exact ⟨rfl, rfl⟩
    | cons c t => simp [ht c rfl]
  | cons b s ih =>
    by_cases hb : isTail b = true
    · simpa [hb] using ih
    · simp [hb]

/-- As many characters as a text without U+0000 has, of what extends it at a character, are the
text. -/
theorem sqlSubstr_append (hs : Starts s) (hnull : 0 ∉ s) (ht : Starts t) :
    sqlSubstr (charCount s) (s ++ t) = s := by
  induction hn : s.length using Nat.strong_induction_on generalizing s with
  | _ n ih =>
    cases s with
    | nil => rfl
    | cons b s =>
      have hb : charCount [b] = 1 := by
        rw [charCount, List.filter_cons_of_pos (by simp [hs b rfl])]
        rfl
      rw [List.mem_cons, not_or] at hnull
      rw [charCount_cons_tails, hb, Nat.add_comm, List.cons_append, sqlSubstr, if_neg (Ne.symm hnull.1)]
      have hsplit := List.takeWhile_append_dropWhile (p := isTail) (l := s)
      have hrest : 0 ∉ s.dropWhile isTail := fun h => hnull.2 ((List.dropWhile_subset isTail) h)
      -- the bytes that continue `b` are those of `s`, since `t` starts with none
      have htake := tails_append ht s
      rw [htake.1, htake.2, ih _ _ (starts_dropWhile s) hrest rfl, List.cons_append, hsplit]
      rw [List.length_cons] at hn
      have hle := List.length_dropWhile_le isTail s
      omega

end Substr

section Length

theorem sqlLength_eq (h : 0 ∉ s) : sqlLength s = charCount s := by
  have hall : s.takeWhile (· ≠ 0) = s := by
    rw [List.takeWhile_eq_self_iff]
    intro b hb
    apply decide_eq_true
    intro he
    rw [he] at hb
    exact h hb
  rw [sqlLength, hall, charCount]

theorem sqlLength_lt (h : 0 ∈ s) : sqlLength s < charCount s := by
  have hcount : charCount s = charCount (s.takeWhile (· ≠ 0)) + charCount (s.dropWhile (· ≠ 0)) := by
    rw [← charCount_append, List.takeWhile_append_dropWhile]
  have hne : s.dropWhile (· ≠ 0) ≠ [] := by
    intro hnil
    rw [List.dropWhile_eq_nil_iff] at hnil
    exact absurd rfl (of_decide_eq_true (hnil 0 h))
  have hhead : (s.dropWhile (· ≠ 0)).head hne = 0 := by
    simpa using List.head_dropWhile_not (· ≠ (0 : UInt8)) hne
  have hpos : 0 < charCount (s.dropWhile (· ≠ 0)) := by
    rw [charCount, List.length_pos_iff_exists_mem]
    have hm := List.head_mem hne
    rw [hhead] at hm
    exact ⟨0, List.mem_filter.mpr ⟨hm, rfl⟩⟩
  rw [hcount]
  exact Nat.lt_add_of_pos_right hpos

end Length

section Filter

variable {delimiter : Str} {maxKeys : ℕ}

theorem rowFilter_iff : rowFilter ⟨listPrefix, delimiter, marker, maxKeys⟩ name = true ↔
    marker < name ∧ listPrefix ≤ name ∧ sqlSubstr (sqlLength listPrefix) name = listPrefix := by
  rw [rowFilter, decide_eq_true_eq]

/-- A prefix with U+0000 in it selects nothing. -/
theorem rowFilter_null (h : 0 ∈ listPrefix) :
    rowFilter ⟨listPrefix, delimiter, marker, maxKeys⟩ name = false := by
  rw [← Bool.not_eq_true, rowFilter_iff]
  rintro ⟨-, -, hs⟩
  have hlt := sqlLength_lt h
  have hle := charCount_sqlSubstr (sqlLength listPrefix) name
  rw [hs] at hle
  omega

theorem rowFilter_exact (hp : isUtf8 listPrefix = true) (h : 0 ∉ listPrefix)
    (hn : isUtf8 name = true) :
    rowFilter ⟨listPrefix, delimiter, marker, maxKeys⟩ name = true ↔
      marker < name ∧ listPrefix <+: name := by
  rw [rowFilter_iff, sqlLength_eq h]
  apply and_congr_right
  intro _
  constructor
  · rintro ⟨-, hs⟩
    rw [← hs]
    exact sqlSubstr_isPrefix _ _
  · intro hpre
    refine ⟨prefix_le hpre, ?_⟩
    obtain ⟨t, rfl⟩ := hpre
    rw [isUtf8_append hp] at hn
    exact sqlSubstr_append (starts_utf8 hp) h (starts_utf8 hn)

/-- Where names are texts, the rows that a prefix without U+0000 selects are those of its keys. -/
theorem filterExact_utf8 {tables : Tables} {bucketId : Str} (hp : isUtf8 listPrefix = true)
    (h : 0 ∉ listPrefix) (hn : ∀ (name : Str) (row : ObjectCols),
      tables.objects[(bucketId, name)]? = some row → isUtf8 name = true) :
    FilterExact tables bucketId listPrefix := by
  intro name row delimiter marker maxKeys hr
  exact rowFilter_exact hp h (hn name row hr)

/-- The filter is the prefix test, on all names and markers, for the prefixes without U+0000 and
for no other: those select nothing. -/
theorem row_filter_exact (listPrefix : Str) (text : isUtf8 listPrefix = true)
    (delimiter : Str) (maxKeys : ℕ) :
    ((∀ name marker, isUtf8 name = true → isUtf8 marker = true →
      (rowFilter ⟨listPrefix, delimiter, marker, maxKeys⟩ name = true ↔
        marker < name ∧ listPrefix <+: name)) ↔ 0 ∉ listPrefix) ∧
    (0 ∈ listPrefix → ∀ name marker,
      rowFilter ⟨listPrefix, delimiter, marker, maxKeys⟩ name = false) := by
  refine ⟨⟨fun hall hnull => ?_, fun hnull name marker hn _ => ?_⟩, fun hnull name marker => ?_⟩
  · have hself := hall listPrefix [] text rfl
    rw [rowFilter_null hnull] at hself
    have hpos : [] < listPrefix := by
      cases listPrefix with
      | nil => cases hnull
      | cons b s => exact List.nil_lt_cons b s
    exact absurd (hself.mpr ⟨hpos, List.prefix_rfl⟩) (by decide)
  · exact rowFilter_exact text hnull hn
  · exact rowFilter_null hnull

theorem row_filter_exact_docs :
    rowFilter ⟨bytes "docs/é", [], bytes "docs/a", 10⟩ (bytes "docs/été") = true ∧
      rowFilter ⟨bytes "docs/é", [], bytes "docs/a", 10⟩ (bytes "docs/etc") = false := by
  have hexact := (row_filter_exact (bytes "docs/é") (by decide +kernel) [] 10).1.mpr (by decide)
  constructor
  · rw [hexact _ _ (by decide +kernel) (by decide +kernel)]
    decide
  · rw [Bool.eq_false_iff, ne_eq, hexact _ _ (by decide +kernel) (by decide +kernel)]
    decide

/-- The key `a\x00bc` starts with `a\x00b`, and is not selected. -/
theorem null_prefix_misses : ¬∀ (listPrefix name marker delimiter : Str) (maxKeys : ℕ),
    isUtf8 listPrefix = true → isUtf8 name = true → isUtf8 marker = true →
      (rowFilter ⟨listPrefix, delimiter, marker, maxKeys⟩ name = true ↔
        marker < name ∧ listPrefix <+: name) := by
  intro claim
  have hkey := claim [97, 0, 98] [97, 0, 98, 99] [] [] 10 (by decide) (by decide) (by decide)
  have hfilter : rowFilter ⟨[97, 0, 98], [], [], 10⟩ [97, 0, 98, 99] = false := by decide
  rw [hfilter] at hkey
  exact absurd (hkey.mpr ⟨by decide, by decide⟩) (by decide)

end Filter

end RowFilter
