import Rgw.TextCodecs
import Mathlib.Data.List.TakeWhile

/-! # UTF-8 texts

A text is well formed when its characters are, one after another; so texts can be joined and
cut at character boundaries, and every character starts with a byte that continues none. -/
namespace Utf8Texts

open ByteStrings TextCodecs

variable {s t : Str}

section Characters

theorem utf8Char_pos (hs : s ≠ []) : 1 ≤ (utf8Char s).1 := by
  rw [utf8Char.eq_def]
  repeat' split
  all_goals first | exact absurd rfl hs | exact Nat.le_refl _ | decide

theorem utf8Char_le (s : Str) : (utf8Char s).1 ≤ s.length := by
  rw [utf8Char.eq_def]
  repeat' split
  all_goals simp

/-- What follows a character does not change it. -/
theorem utf8Char_append (hs : s ≠ []) (h : (utf8Char s).2 = true) (t : Str) :
    utf8Char (s ++ t) = utf8Char s := by
  rcases s with - | ⟨a, - | ⟨b, - | ⟨c, - | ⟨d, s⟩⟩⟩⟩
  · exact absurd rfl hs
  · simp only [List.cons_append, List.nil_append, utf8Char] at h ⊢
    grind
  · simp only [List.cons_append, List.nil_append, utf8Char] at h ⊢
    grind
  · simp only [List.cons_append, List.nil_append, utf8Char] at h ⊢
    grind
  · simp only [List.cons_append, utf8Char] at h ⊢

/-- A byte that continues a character starts none. -/
theorem isTail_head {b : UInt8} (h : (utf8Char (b :: s)).2 = true) : isTail b = false := by
  by_contra hb
  have hb : isTail b = true := by simpa using hb
  have hranges : ∀ b : UInt8, isTail b = true → ¬b < 128 ∧ (194 ≤ b && b ≤ 223) = false ∧
      (224 ≤ b && b ≤ 239) = false ∧ (240 ≤ b && b ≤ 244) = false :=
    forall_byte (by decide +kernel)
  obtain ⟨h₁, h₂, h₃, h₄⟩ := hranges b hb
  rw [utf8Char.eq_def] at h
  simp only [h₁, h₂, h₃, h₄] at h
  cases h

end Characters

section Texts

theorem isUtf8Aux_fuel {n m : ℕ} (hn : s.length ≤ n) (hm : s.length ≤ m) :
    isUtf8Aux n s = isUtf8Aux m s := by
  induction n generalizing s m with
  | zero =>
    obtain rfl := List.length_eq_zero_iff.mp (Nat.le_zero.mp hn)
    cases m <;> rfl
  | succ n ih =>
    cases s with
    | nil => cases m <;> rfl
    | cons b s =>
      obtain ⟨m, rfl⟩ : ∃ k, m = k + 1 := ⟨m - 1, by rw [List.length_cons] at hm; omega⟩
      have hpos := utf8Char_pos (List.cons_ne_nil b s)
      rw [List.length_cons] at hn hm
      have hlen : ((b :: s).drop (utf8Char (b :: s)).1).length ≤ s.length := by
        rw [List.length_drop, List.length_cons]
        omega
      exact congrArg _ (ih (by omega) (by omega))

/-- A text is its first character and a text. -/
theorem isUtf8_step (hs : s ≠ []) :
    isUtf8 s = ((utf8Char s).2 && isUtf8 (s.drop (utf8Char s).1)) := by
  cases s with
  | nil => exact absurd rfl hs
  | cons b s =>
    have hpos := utf8Char_pos (List.cons_ne_nil b s)
    have hfuel : isUtf8Aux s.length ((b :: s).drop (utf8Char (b :: s)).1) =
        isUtf8 ((b :: s).drop (utf8Char (b :: s)).1) := by
      refine isUtf8Aux_fuel ?_ le_rfl
      rw [List.length_drop, List.length_cons]
      omega
    rw [← hfuel]
    rfl

/-- Where a text ends, what follows is a text or is not on its own. -/
theorem isUtf8_append (hs : isUtf8 s = true) (t : Str) : isUtf8 (s ++ t) = isUtf8 t := by
  induction hn : s.length using Nat.strong_induction_on generalizing s with
  | _ n ih =>
    by_cases hnil : s = []
    · rw [hnil, List.nil_append]
    · rw [isUtf8_step hnil, Bool.and_eq_true] at hs
      have hle := utf8Char_le s
      have hpos := utf8Char_pos hnil
      have hlen : (s.drop (utf8Char s).1).length < n := by
        rw [List.length_drop]
        omega
      rw [isUtf8_step (by simp [hnil]), utf8Char_append hnil hs.1, hs.1, Bool.true_and,
        List.drop_append_of_le_length hle]
      exact ih _ hlen hs.2 rfl

theorem isUtf8_head {b : UInt8} (h : isUtf8 (b :: s) = true) : isTail b = false := by
  rw [isUtf8_step (List.cons_ne_nil b s), Bool.and_eq_true] at h
  exact isTail_head h.1

theorem isUtf8_ascii (h : ∀ b ∈ s, b < 128) : isUtf8 s = true := by
  induction s with
  | nil => rfl
  | cons b s ih =>
    rw [List.forall_mem_cons] at h
    have hb : utf8Char (b :: s) = (1, true) := by
      rw [utf8Char.eq_def]
      simp only [h.1, ↓reduceIte]
    rw [isUtf8_step (List.cons_ne_nil b s), hb]
    exact ih h.2

end Texts

section Trimming

theorem dropLeading_eq {ws : List Str} {n : ℕ} (h : ∀ w ∈ ws, ¬w <+: s) :
    dropLeading ws n s = s := by
  have hnone : ws.findSome? s.dropPrefix? = none := by
    rw [List.findSome?_eq_none_iff]
    intro w hw
    exact dropPrefix_eq_none.mpr (h w hw)
  cases n with
  | zero => rfl
  | succ n => rw [dropLeading, hnone]

theorem dropLeading_suffix (ws : List Str) (n : ℕ) (s : Str) : dropLeading ws n s <:+ s := by
  induction n generalizing s with
  | zero => exact List.suffix_refl s
  | succ n ih =>
    rw [dropLeading]
    cases hf : ws.findSome? s.dropPrefix? with
    | none => exact List.suffix_refl s
    | some r =>
      obtain ⟨w, -, hr⟩ := List.exists_of_findSome?_eq_some hf
      obtain rfl := dropPrefix_eq_some.mp hr
      exact (ih r).trans (List.suffix_append w r)

/-- With a round a byte, nothing is left to drop. -/
theorem dropLeading_clear {ws : List Str} (hws : [] ∉ ws) {n : ℕ} (hn : s.length ≤ n) :
    ∀ w ∈ ws, ¬w <+: dropLeading ws n s := by
  induction n generalizing s with
  | zero =>
    obtain rfl := List.length_eq_zero_iff.mp (Nat.le_zero.mp hn)
    intro w hw hpre
    rw [dropLeading, List.prefix_nil] at hpre
    exact hws (hpre ▸ hw)
  | succ n ih =>
    rw [dropLeading]
    cases hf : ws.findSome? s.dropPrefix? with
    | none =>
      intro w hw
      exact dropPrefix_eq_none.mp (List.findSome?_eq_none_iff.mp hf w hw)
    | some r =>
      obtain ⟨w, hw, hr⟩ := List.exists_of_findSome?_eq_some hf
      obtain rfl := dropPrefix_eq_some.mp hr
      have hpos : w ≠ [] := by
        rintro rfl
        exact hws hw
      have hlen := List.length_pos_iff.mpr hpos
      rw [List.length_append] at hn
      exact ih (by omega)

theorem trim_front (s : Str) : trim s <+: dropLeading whitespace s.length s := by
  rw [← List.reverse_suffix, trim, List.reverse_reverse]
  exact dropLeading_suffix _ _ _

theorem trim_subset (s : Str) : trim s ⊆ s := by
  intro c hc
  apply (dropLeading_suffix whitespace s.length s).subset
  exact (trim_front s).subset hc

/-- No whitespace stands at either end. -/
def Trimmed (s : Str) : Prop := ∀ w ∈ whitespace, ¬w <+: s ∧ ¬w <:+ s

theorem trim_eq (h : Trimmed s) : trim s = s := by
  have hend : ∀ w ∈ whitespace.map List.reverse, ¬w <+: s.reverse := by
    intro w hw
    obtain ⟨v, hv, rfl⟩ := List.mem_map.mp hw
    rw [List.reverse_prefix]
    exact (h v hv).2
  rw [trim, dropLeading_eq fun w hw => (h w hw).1, dropLeading_eq hend, List.reverse_reverse]

theorem trimmed_trim (s : Str) : Trimmed (trim s) := by
  have hfront : ∀ w ∈ whitespace, ¬w <+: dropLeading whitespace s.length s :=
    dropLeading_clear (by decide) le_rfl
  have hback : ∀ w ∈ whitespace.map List.reverse, ¬w <+: (trim s).reverse := by
    rw [trim, List.reverse_reverse]
    refine dropLeading_clear (by decide) ?_
    rw [List.length_reverse]
  intro w hw
  refine ⟨fun h => hfront w hw (h.trans (trim_front s)), fun h => ?_⟩
  refine hback w.reverse (List.mem_map_of_mem hw) ?_
  rwa [← List.reverse_suffix, List.reverse_reverse, List.reverse_reverse]

theorem trim_trim (s : Str) : trim (trim s) = trim s := trim_eq (trimmed_trim s)

theorem trim_space (s : Str) : trim (32 :: s) = trim s := by
  have hstep : dropLeading whitespace (32 :: s).length (32 :: s) =
      dropLeading whitespace s.length s := by
    have hfirst : whitespace.findSome? (32 :: s).dropPrefix? = some s := by
      simp [whitespace, List.findSome?, List.dropPrefix?]
    rw [List.length_cons, dropLeading, hfirst]
  rw [trim, hstep, trim]

/-- A visible character of ASCII. -/
def isGraphic (b : UInt8) : Bool := 33 ≤ b && b ≤ 126

theorem trimmed_graphic (h : ∀ b ∈ s, isGraphic b = true) : Trimmed s := by
  have hends : ∀ w ∈ whitespace, ∃ a ∈ w, isGraphic a = false := by decide
  intro w hw
  obtain ⟨a, ha, hgraphic⟩ := hends w hw
  constructor
  · intro hpre
    rw [h a (hpre.subset ha)] at hgraphic
    cases hgraphic
  · intro hsuf
    rw [h a (hsuf.subset ha)] at hgraphic
    cases hgraphic

theorem trim_graphic (h : ∀ b ∈ s, isGraphic b = true) : trim s = s :=
  trim_eq (trimmed_graphic h)

theorem not_prefix_graphic {b : UInt8} {w : Str} (hg : isGraphic b = true) (hw : w ∈ whitespace)
    (s : Str) : ¬w <+: b :: s := by
  have hfirst : ∀ w ∈ whitespace, w.head?.all (fun a => !isGraphic a) = true ∧ w ≠ [] := by
    decide
  obtain ⟨hhead, hne⟩ := hfirst w hw
  intro hpre
  rcases List.prefix_cons_iff.mp hpre with rfl | ⟨c, rfl, -⟩
  · exact hne rfl
  · simp [hg] at hhead

theorem not_mem_whitespace {b : UInt8} {w : Str} (hg : isGraphic b = true) (hw : w ∈ whitespace) :
    b ∉ w := by
  have hblank : ∀ w ∈ whitespace, ∀ a ∈ w, isGraphic a = false := by decide +kernel
  intro hb
  rw [hblank w hw b hb] at hg
  cases hg

theorem not_suffix_graphic {b : UInt8} {w : Str} (hg : isGraphic b = true) (hw : w ∈ whitespace)
    (s : Str) : ¬w <:+ s ++ [b] := by
  have hne : ∀ w ∈ whitespace, w ≠ [] := by decide
  intro hsuf
  rcases List.suffix_concat_iff.mp hsuf with rfl | ⟨t, rfl, -⟩
  · exact hne _ hw rfl
  · exact not_mem_whitespace hg hw (by simp)

/-- Pieces to drop are dropped one after another, where none of them starts another. -/
theorem dropLeading_pieces {ws pieces : List Str} (hfree : ∀ v ∈ ws, ∀ w ∈ ws, v <+: w → v = w)
    (hp : ∀ p ∈ pieces, p ∈ ws) (hs : ∀ w ∈ ws, ¬w <+: s) {n : ℕ} (hn : pieces.length ≤ n) :
    dropLeading ws n (pieces.flatten ++ s) = s := by
  induction pieces generalizing n with
  | nil => exact dropLeading_eq hs
  | cons p ps ih =>
    obtain ⟨n, rfl⟩ : ∃ k, n = k + 1 := ⟨n - 1, by rw [List.length_cons] at hn; omega⟩
    rw [List.forall_mem_cons] at hp
    rw [List.length_cons] at hn
    have hstart : p <+: p ++ (ps.flatten ++ s) := List.prefix_append _ _
    have hfirst : ws.findSome? (p ++ (ps.flatten ++ s)).dropPrefix? = some (ps.flatten ++ s) := by
      cases hf : ws.findSome? (p ++ (ps.flatten ++ s)).dropPrefix? with
      | none =>
        exact absurd hstart (dropPrefix_eq_none.mp (List.findSome?_eq_none_iff.mp hf p hp.1))
      | some r =>
        obtain ⟨w, hw, hr⟩ := List.exists_of_findSome?_eq_some hf
        have hr := dropPrefix_eq_some.mp hr
        obtain rfl : p = w := by
          rcases List.prefix_or_prefix_of_prefix hstart ⟨r, hr.symm⟩ with h | h
          · exact hfree p hp.1 w hw h
          · exact (hfree w hw p hp.1 h).symm
        rw [List.append_cancel_left hr]
    rw [List.flatten_cons, List.append_assoc, dropLeading, hfirst]
    exact ih hp.2 (by omega)

theorem length_le_flatten {pieces : List Str} (h : [] ∉ pieces) :
    pieces.length ≤ pieces.flatten.length := by
  induction pieces with
  | nil => exact Nat.le_refl 0
  | cons p ps ih =>
    rw [List.mem_cons, not_or] at h
    have hpos := List.length_pos_iff.mpr (Ne.symm h.1)
    have hrest := ih h.2
    rw [List.length_cons, List.flatten_cons, List.length_append]
    omega

/-- A visible text is what stands between any whitespace. -/
theorem trim_spaced {front back : List Str} {b : UInt8} (hf : ∀ p ∈ front, p ∈ whitespace)
    (hb : ∀ p ∈ back, p ∈ whitespace) (hg : isGraphic b = true) (h : Trimmed (b :: s)) :
    trim (front.flatten ++ (b :: s ++ back.flatten)) = b :: s := by
  have hnil : ∀ {pieces : List Str}, (∀ p ∈ pieces, p ∈ whitespace) → [] ∉ pieces := by
    intro pieces hp hm
    exact absurd (hp [] hm) (by decide)
  have hclear : ∀ w ∈ whitespace, ¬w <+: b :: s ++ back.flatten :=
    fun w hw => not_prefix_graphic hg hw _
  have hfront : dropLeading whitespace (front.flatten ++ (b :: s ++ back.flatten)).length
      (front.flatten ++ (b :: s ++ back.flatten)) = b :: s ++ back.flatten := by
    apply dropLeading_pieces (by decide) hf hclear
    have hlen := length_le_flatten (hnil hf)
    rw [List.length_append]
    omega
  -- What the end drops is the whitespace after the text, read backwards.
  have hreverse : (b :: s ++ back.flatten).reverse =
      ((back.map List.reverse).reverse).flatten ++ (b :: s).reverse := by
    rw [List.reverse_append, List.reverse_flatten]
  have hback : dropLeading (whitespace.map List.reverse) (b :: s ++ back.flatten).length
      (b :: s ++ back.flatten).reverse = (b :: s).reverse := by
    rw [hreverse]
    apply dropLeading_pieces (by decide)
    · intro p hp
      rw [List.mem_reverse] at hp
      obtain ⟨q, hq, rfl⟩ := List.mem_map.mp hp
      exact List.mem_map_of_mem (hb q hq)
    · intro w hw
      obtain ⟨v, hv, rfl⟩ := List.mem_map.mp hw
      rw [List.reverse_prefix]
      exact (h v hv).2
    · have hlen := length_le_flatten (hnil hb)
      rw [List.length_reverse, List.length_map, List.length_append]
      omega
  rw [trim, hfront, hback, List.reverse_reverse]

/-- A text with whitespace around it. -/
def Padded (core s : Str) : Prop :=
  ∃ front back : List Str, (∀ p ∈ front, p ∈ whitespace) ∧ (∀ p ∈ back, p ∈ whitespace) ∧
    s = front.flatten ++ (core ++ back.flatten)

variable {core : Str}

theorem padded_self (core : Str) : Padded core core :=
  ⟨[], [], List.forall_mem_nil _, List.forall_mem_nil _, by simp⟩

theorem Padded.front (h : Padded core s) {front : List Str} (hf : ∀ p ∈ front, p ∈ whitespace) :
    Padded core (front.flatten ++ s) := by
  obtain ⟨front', back, hfront, hback, rfl⟩ := h
  refine ⟨front ++ front', back, List.forall_mem_append.mpr ⟨hf, hfront⟩, hback, ?_⟩
  rw [List.flatten_append, List.append_assoc]

theorem Padded.back (h : Padded core s) {back : List Str} (hb : ∀ p ∈ back, p ∈ whitespace) :
    Padded core (s ++ back.flatten) := by
  obtain ⟨front, back', hfront, hback, rfl⟩ := h
  refine ⟨front, back' ++ back, hfront, List.forall_mem_append.mpr ⟨hback, hb⟩, ?_⟩
  rw [List.flatten_append, List.append_assoc, List.append_assoc]

theorem Padded.not_mem {b : UInt8} (h : Padded core s) (hg : isGraphic b = true) (hb : b ∉ core) :
    b ∉ s := by
  obtain ⟨front, back, hfront, hback, rfl⟩ := h
  have hspace : ∀ {pieces : List Str}, (∀ p ∈ pieces, p ∈ whitespace) → b ∉ pieces.flatten := by
    intro pieces hpieces hm
    obtain ⟨p, hp, hb⟩ := List.mem_flatten.mp hm
    exact not_mem_whitespace hg (hpieces p hp) hb
  rw [List.mem_append, List.mem_append, not_or, not_or]
  exact ⟨hspace hfront, hb, hspace hback⟩

/-- A trimmed text, or none, is what stands between the whitespace. -/
theorem Padded.trim_eq (h : Padded core s) (ht : Trimmed core)
    (hg : core.head?.all isGraphic = true) : trim s = core := by
  obtain ⟨front, back, hfront, hback, rfl⟩ := h
  cases core with
  | cons b core => exact trim_spaced hfront hback hg ht
  | nil =>
    have hall : ∀ p ∈ front ++ back, p ∈ whitespace := List.forall_mem_append.mpr ⟨hfront, hback⟩
    have hblank : [] ∉ front ++ back := fun hm => absurd (hall [] hm) (by decide)
    have hdrop : dropLeading whitespace (front ++ back).flatten.length
        ((front ++ back).flatten ++ []) = [] :=
      dropLeading_pieces (by decide) hall (by decide) (length_le_flatten hblank)
    rw [List.nil_append, ← List.flatten_append, trim]
    rw [List.append_nil] at hdrop
    rw [hdrop]
    rfl

/-- What is dropped is pieces. -/
theorem dropLeading_cut (ws : List Str) (n : ℕ) (s : Str) : ∃ pieces : List Str,
    (∀ p ∈ pieces, p ∈ ws) ∧ s = pieces.flatten ++ dropLeading ws n s := by
  induction n generalizing s with
  | zero => exact ⟨[], List.forall_mem_nil _, rfl⟩
  | succ n ih =>
    rw [dropLeading]
    cases hf : ws.findSome? s.dropPrefix? with
    | none => exact ⟨[], List.forall_mem_nil _, rfl⟩
    | some r =>
      obtain ⟨w, hw, hr⟩ := List.exists_of_findSome?_eq_some hf
      obtain rfl := dropPrefix_eq_some.mp hr
      obtain ⟨pieces, hp, hr'⟩ := ih r
      refine ⟨w :: pieces, List.forall_mem_cons.mpr ⟨hw, hp⟩, ?_⟩
      rw [List.flatten_cons, List.append_assoc, ← hr']

theorem padded_trim (s : Str) : Padded (trim s) s := by
  obtain ⟨front, hfront, hs⟩ := dropLeading_cut whitespace s.length s
  obtain ⟨back, hback, ht⟩ := dropLeading_cut (whitespace.map List.reverse)
    (dropLeading whitespace s.length s).length (dropLeading whitespace s.length s).reverse
  refine ⟨front, (back.map List.reverse).reverse, hfront, fun p hp => ?_, ?_⟩
  · obtain ⟨q, hq, rfl⟩ := List.mem_map.mp (List.mem_reverse.mp hp)
    obtain ⟨w, hw, rfl⟩ := List.mem_map.mp (hback q hq)
    rwa [List.reverse_reverse]
  · have hrest := congrArg List.reverse ht
    rw [List.reverse_reverse, List.reverse_append, List.reverse_flatten] at hrest
    rw [trim, ← hrest, ← hs]

end Trimming

section Counting

/-- The number of characters of a text. -/
def charCount (s : Str) : ℕ := (s.filter fun b => !isTail b).length

theorem charCount_append (s t : Str) : charCount (s ++ t) = charCount s + charCount t := by
  rw [charCount, List.filter_append, List.length_append]
  rfl

theorem charCount_tails (s : Str) : charCount (s.takeWhile isTail) = 0 := by
  rw [charCount, List.length_eq_zero_iff, List.filter_eq_nil_iff]
  intro b hb
  simp [List.mem_takeWhile_imp hb]

end Counting

end Utf8Texts
