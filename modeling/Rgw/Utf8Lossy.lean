import Rgw.Utf8Texts

/-! # Lossy decoding

Every malformed piece of a text becomes U+FFFD. A byte that continues no character ends the
piece before it, so texts are decoded between their ASCII characters. -/
namespace Utf8Lossy

open ByteStrings TextCodecs Utf8Texts

variable {s t : Str}

/-- U+FFFD. -/
def replacement : Str := [239, 191, 189]

/-- Well formed, and without U+FFFD: the texts that are decoded as themselves only. -/
structure Plain (s : Str) : Prop where
  utf8 : isUtf8 s = true
  free : ¬replacement <:+: s

section Pieces

theorem not_isTail_ascii {c : UInt8} (h : c < 128) : isTail c = false := by
  have main : ∀ c : UInt8, c < 128 → isTail c = false := forall_byte (by decide +kernel)
  exact main c h

theorem not_secondOk {a c : UInt8} (h : isTail c = false) : secondOk a c = false := by
  have main : ∀ c : UInt8, isTail c = false → (160 ≤ c && c ≤ 191) = false ∧
      (128 ≤ c && c ≤ 159) = false ∧ (144 ≤ c && c ≤ 191) = false ∧
      (128 ≤ c && c ≤ 143) = false := forall_byte (by decide +kernel)
  obtain ⟨h₁, h₂, h₃, h₄⟩ := main c h
  simp only [secondOk, h, h₁, h₂, h₃, h₄, ite_self]

/-- What follows a piece does not reach into it, unless it continues a character. -/
theorem utf8Char_break {c : UInt8} (hs : s ≠ []) (hc : isTail c = false) (t : Str) :
    utf8Char (s ++ c :: t) = utf8Char s := by
  have hsecond : ∀ a, secondOk a c = false := fun a => not_secondOk hc
  rcases s with - | ⟨a, - | ⟨b, - | ⟨d, - | ⟨e, s⟩⟩⟩⟩
  · exact absurd rfl hs
  · rcases t with - | ⟨x, - | ⟨y, t⟩⟩ <;> simp [utf8Char, hc, hsecond]
  · rcases t with - | ⟨x, t⟩ <;> cases hb : secondOk a b <;> simp [utf8Char, hc, hb]
  · cases hb : secondOk a b <;> cases hd : isTail d <;> simp [utf8Char, hc, hb, hd]
  · simp only [List.cons_append, utf8Char]

theorem utf8LossyAux_fuel {n m : ℕ} (hn : s.length ≤ n) (hm : s.length ≤ m) :
    utf8LossyAux n s = utf8LossyAux m s := by
  induction n generalizing s m with
  | zero =>
    obtain rfl := List.length_eq_zero_iff.mp (Nat.le_zero.mp hn)
    cases m <;> rfl
  | succ n ih =>
    cases s with
    | nil => cases m <;> rfl
    | cons b s =>
      obtain ⟨m, rfl⟩ : ∃ k, m = k + 1 := ⟨m - 1, by rw [List.length_cons] at hm; omega⟩
      have hpos := utf8Char_pos (List.cons_ne_nil b s)
      rw [List.length_cons] at hn hm
      have hlen : ((b :: s).drop (utf8Char (b :: s)).1).length ≤ s.length := by
        rw [List.length_drop, List.length_cons]
        omega
      exact congrArg _ (ih (by omega) (by omega))

/-- The first piece as it is decoded. -/
def firstPiece (s : Str) : Str := if (utf8Char s).2 then s.take (utf8Char s).1 else replacement

theorem utf8Lossy_step (hs : s ≠ []) :
    utf8Lossy s = firstPiece s ++ utf8Lossy (s.drop (utf8Char s).1) := by
  cases s with
  | nil => exact absurd rfl hs
  | cons b s =>
    have hpos := utf8Char_pos (List.cons_ne_nil b s)
    have hfuel : utf8LossyAux s.length ((b :: s).drop (utf8Char (b :: s)).1) =
        utf8Lossy ((b :: s).drop (utf8Char (b :: s)).1) := by
      refine utf8LossyAux_fuel ?_ le_rfl
      rw [List.length_drop, List.length_cons]
      omega
    rw [← hfuel]
    rfl

/-- Induction over the pieces of a text. -/
theorem pieces_induction {motive : Str → Prop} (nil : motive [])
    (piece : ∀ s, s ≠ [] → motive (s.drop (utf8Char s).1) → motive s) (s : Str) : motive s := by
  induction hn : s.length using Nat.strong_induction_on generalizing s with
  | _ n ih =>
    by_cases hs : s = []
    · rw [hs]
      exact nil
    · apply piece s hs
      have hpos := utf8Char_pos hs
      have hlen := List.length_pos_iff.mpr hs
      apply ih _ _ _ rfl
      rw [List.length_drop]
      omega

end Pieces

section Decoding

@[simp] theorem utf8Lossy_nil : utf8Lossy [] = [] := rfl

theorem utf8Lossy_break {c : UInt8} (hc : isTail c = false) (s t : Str) :
    utf8Lossy (s ++ c :: t) = utf8Lossy s ++ utf8Lossy (c :: t) := by
  induction s using pieces_induction with
  | nil => rfl
  | piece s hs ih =>
    have hle := utf8Char_le s
    have hfirst : firstPiece (s ++ c :: t) = firstPiece s := by
      rw [firstPiece, firstPiece, utf8Char_break hs hc, List.take_append_of_le_length hle]
    rw [utf8Lossy_step (by simp), utf8Lossy_step hs, hfirst, utf8Char_break hs hc,
      List.drop_append_of_le_length hle, ih, List.append_assoc]

theorem utf8Lossy_ascii {c : UInt8} (hc : c < 128) (s : Str) :
    utf8Lossy (c :: s) = c :: utf8Lossy s := by
  have hchar : utf8Char (c :: s) = (1, true) := by
    rw [utf8Char.eq_def]
    simp only [hc, ↓reduceIte]
  rw [utf8Lossy_step (List.cons_ne_nil c s), firstPiece, hchar]
  rfl

theorem utf8Lossy_utf8 (h : isUtf8 s = true) : utf8Lossy s = s := by
  induction s using pieces_induction with
  | nil => rfl
  | piece s hs ih =>
    rw [isUtf8_step hs, Bool.and_eq_true] at h
    rw [utf8Lossy_step hs, firstPiece, if_pos h.1, ih h.2, List.take_append_drop]

/-- A character alone is the same character. -/
theorem utf8Char_take (h : (utf8Char s).2 = true) :
    utf8Char (s.take (utf8Char s).1) = utf8Char s := by
  rcases s with - | ⟨a, - | ⟨b, - | ⟨c, - | ⟨d, s⟩⟩⟩⟩
  · rfl
  · simp only [utf8Char] at h ⊢
    grind [utf8Char]
  · simp only [utf8Char] at h ⊢
    grind [utf8Char]
  · simp only [utf8Char] at h ⊢
    grind [utf8Char]
  · simp only [utf8Char] at h ⊢
    grind [utf8Char]

theorem isUtf8_firstPiece (hs : s ≠ []) : isUtf8 (firstPiece s) = true := by
  rw [firstPiece]
  split
  · next h =>
    have hne : s.take (utf8Char s).1 ≠ [] := by
      have hpos := utf8Char_pos hs
      rw [ne_eq, List.take_eq_nil_iff, not_or]
      exact ⟨Nat.one_le_iff_ne_zero.mp hpos, hs⟩
    rw [isUtf8_step hne, utf8Char_take h, h, Bool.true_and, List.drop_take, Nat.sub_self, List.take_zero]
    rfl
  · rfl

theorem isUtf8_utf8Lossy (s : Str) : isUtf8 (utf8Lossy s) = true := by
  induction s using pieces_induction with
  | nil => rfl
  | piece s hs ih =>
    rw [utf8Lossy_step hs, isUtf8_append (isUtf8_firstPiece hs)]
    exact ih

/-- What is decoded without U+FFFD is decoded as itself. -/
theorem utf8Lossy_free (h : ¬replacement <:+: utf8Lossy s) : utf8Lossy s = s := by
  induction s using pieces_induction with
  | nil => rfl
  | piece s hs ih =>
    rw [utf8Lossy_step hs] at h ⊢
    have hgood : (utf8Char s).2 = true := by
      by_contra hbad
      apply h
      rw [firstPiece, if_neg hbad]
      exact (List.prefix_append _ _).isInfix
    rw [ih fun hin => h (hin.trans (List.suffix_append _ _).isInfix), firstPiece, if_pos hgood,
      List.take_append_drop]

theorem isUtf8_break {c : UInt8} (hc : isTail c = false) (s t : Str) :
    isUtf8 (s ++ c :: t) = (isUtf8 s && isUtf8 (c :: t)) := by
  induction s using pieces_induction with
  | nil => rfl
  | piece s hs ih =>
    rw [isUtf8_step (by simp), isUtf8_step hs, utf8Char_break hs hc,
      List.drop_append_of_le_length (utf8Char_le s), ih, Bool.and_assoc]

theorem utf8Lossy_idempotent (s : Str) : utf8Lossy (utf8Lossy s) = utf8Lossy s :=
  utf8Lossy_utf8 (isUtf8_utf8Lossy s)

/-- A plain text is decoded as itself, and nothing else is decoded as it. -/
theorem Plain.lossy_eq (h : Plain s) : utf8Lossy t = utf8Lossy s ↔ t = s := by
  rw [utf8Lossy_utf8 h.utf8]
  constructor
  · intro he
    rw [← he]
    refine (utf8Lossy_free ?_).symm
    rw [he]
    exact h.free
  · rintro rfl
    exact utf8Lossy_utf8 h.utf8

end Decoding

section Cutting

/-- A change of texts that keeps ASCII characters where they are. -/
structure AsciiFixed (g : Str → Str) : Prop where
  nil : g [] = []
  cut : ∀ (a b : Str) (c : UInt8), c < 128 → g (a ++ c :: b) = g a ++ c :: g b
  mem : ∀ (a : Str) (c : UInt8), c < 128 → c ∈ g a → c ∈ a
  eq_nil : ∀ a, g a = [] → a = []

theorem ascii_not_mem_replacement {c : UInt8} (hc : c < 128) : c ∉ replacement := by
  have hhigh : replacement.all (fun b => !decide (b < 128)) = true := by decide
  intro h
  have hbyte := List.all_eq_true.mp hhigh c h
  simp [hc] at hbyte

theorem mem_firstPiece {c : UInt8} (hc : c < 128) (h : c ∈ firstPiece s) : c ∈ s := by
  rw [firstPiece] at h
  split at h
  · exact List.mem_of_mem_take h
  · exact absurd h (ascii_not_mem_replacement hc)

theorem firstPiece_ne_nil (hs : s ≠ []) : firstPiece s ≠ [] := by
  rw [firstPiece]
  split
  · have hpos := utf8Char_pos hs
    rw [ne_eq, List.take_eq_nil_iff, not_or]
    exact ⟨Nat.one_le_iff_ne_zero.mp hpos, hs⟩
  · decide

theorem asciiFixed_utf8Lossy : AsciiFixed utf8Lossy := by
  constructor
  · rfl
  · intro a b c hc
    rw [utf8Lossy_break (not_isTail_ascii hc), utf8Lossy_ascii hc]
  · intro a c hc h
    induction a using pieces_induction with
    | nil => cases h
    | piece a ha ih =>
      rw [utf8Lossy_step ha] at h
      rcases List.mem_append.mp h with h | h
      · exact mem_firstPiece hc h
      · exact List.mem_of_mem_drop (ih h)
  · intro a h
    by_contra ha
    rw [utf8Lossy_step ha] at h
    exact firstPiece_ne_nil ha (List.append_eq_nil_iff.mp h).1

/-- Every U+FFFD becomes a byte that no character holds. -/
def breakReplacement : Str → Str
  | [] => []
  | a :: b :: c :: s => if [a, b, c] = replacement then 255 :: breakReplacement s
    else a :: breakReplacement (b :: c :: s)
  | a :: s => a :: breakReplacement s

theorem breakReplacement_replacement (s : Str) :
    breakReplacement (replacement ++ s) = 255 :: breakReplacement s := by
  rw [replacement, List.cons_append, List.cons_append, List.cons_append, List.nil_append,
    breakReplacement]
  exact if_pos rfl

theorem breakReplacement_other {a : UInt8} (h : ¬replacement <+: a :: s) :
    breakReplacement (a :: s) = a :: breakReplacement s := by
  rcases s with - | ⟨b, - | ⟨c, s⟩⟩
  · rfl
  · rfl
  · rw [breakReplacement, if_neg]
    intro he
    apply h
    rw [← he]
    exact ⟨s, rfl⟩

/-- Texts are built of U+FFFD and bytes that start none. -/
theorem replacement_induction {motive : Str → Prop} (nil : motive [])
    (mark : ∀ s, motive s → motive (replacement ++ s))
    (byte : ∀ a s, ¬replacement <+: a :: s → motive s → motive (a :: s)) (s : Str) : motive s := by
  induction hn : s.length using Nat.strong_induction_on generalizing s with
  | _ n ih =>
    cases s with
    | nil => exact nil
    | cons a s =>
      rw [List.length_cons] at hn
      by_cases h : replacement <+: a :: s
      · obtain ⟨t, ht⟩ := h
        have hlen := congrArg List.length ht
        simp only [replacement, List.length_append, List.length_cons, List.length_nil] at hlen
        rw [← ht]
        exact mark t (ih _ (by omega) t rfl)
      · exact byte a s h (ih _ (by omega) s rfl)

/-- A cut at a byte outside the pattern leaves it on one side. -/
theorem prefix_of_cut {w a b : Str} {c : UInt8} (hc : c ∉ w) (h : w <+: a ++ c :: b) : w <+: a := by
  by_cases hle : w.length ≤ a.length
  · exact List.prefix_of_prefix_length_le h (List.prefix_append a _) hle
  · exfalso
    have hback : a <+: w := by
      apply List.prefix_of_prefix_length_le (List.prefix_append a (c :: b)) h
      omega
    obtain ⟨rest, rfl⟩ := hback
    rw [List.prefix_append_right_inj] at h
    cases rest with
    | nil =>
      rw [List.append_nil] at hle
      exact hle le_rfl
    | cons d rest =>
      rw [List.cons_prefix_cons] at h
      apply hc
      rw [h.1]
      simp

theorem asciiFixed_breakReplacement : AsciiFixed breakReplacement := by
  constructor
  · rfl
  · intro a b c hc
    induction a using replacement_induction with
    | nil =>
      apply breakReplacement_other
      rintro ⟨t, ht⟩
      apply ascii_not_mem_replacement hc
      rw [← (List.cons.inj ht).1]
      exact List.mem_cons_self
    | mark s ih =>
      rw [List.append_assoc, breakReplacement_replacement, breakReplacement_replacement, ih]
      rfl
    | byte x s hx ih =>
      rw [List.cons_append, breakReplacement_other hx, breakReplacement_other, ih]
      · rfl
      · intro hpre
        exact hx (prefix_of_cut (ascii_not_mem_replacement hc) hpre)
  · intro a c hc h
    induction a using replacement_induction with
    | nil => exact h
    | mark s ih =>
      rw [breakReplacement_replacement] at h
      rcases List.mem_cons.mp h with rfl | h
      · exact absurd hc (by decide)
      · exact List.mem_append_right _ (ih h)
    | byte x s hx ih =>
      rw [breakReplacement_other hx] at h
      rcases List.mem_cons.mp h with rfl | h
      · exact List.mem_cons_self
      · exact List.mem_cons_of_mem x (ih h)
  · intro a h
    induction a using replacement_induction with
    | nil => rfl
    | mark s _ =>
      rw [breakReplacement_replacement] at h
      cases h
    | byte x s hx _ =>
      rw [breakReplacement_other hx] at h
      cases h

theorem utf8Lossy_breakReplacement (s : Str) : utf8Lossy (breakReplacement s) = utf8Lossy s := by
  have main : ∀ before, utf8Lossy (before ++ breakReplacement s) = utf8Lossy (before ++ s) := by
    induction s using replacement_induction with
    | nil => exact fun _ => rfl
    | mark s ih =>
      intro before
      have hbroken : utf8Lossy (255 :: breakReplacement s) = replacement ++
        utf8Lossy (breakReplacement s) :=
        utf8Lossy_step (List.cons_ne_nil _ _)
      have hmark : utf8Lossy (replacement ++ s) = replacement ++ utf8Lossy s :=
        utf8Lossy_step (List.cons_ne_nil _ _)
      have hrest : utf8Lossy (breakReplacement s) = utf8Lossy s := ih []
      rw [breakReplacement_replacement, utf8Lossy_break (by decide), hbroken, hrest]
      have hcut : utf8Lossy (before ++ (replacement ++ s)) =
          utf8Lossy before ++ utf8Lossy (replacement ++ s) := utf8Lossy_break (by decide) before _
      rw [hcut, hmark]
    | byte a s ha ih =>
      intro before
      have happend := ih (before ++ [a])
      rw [List.append_assoc, List.append_assoc] at happend
      rw [breakReplacement_other ha]
      exact happend
  exact main []

theorem breakReplacement_ne (h : replacement <:+: s) : breakReplacement s ≠ s := by
  intro he
  induction s using replacement_induction with
  | nil => cases List.infix_nil.mp h
  | mark s _ =>
    rw [breakReplacement_replacement] at he
    cases (List.cons.inj he).1
  | byte a s ha ih =>
    rw [breakReplacement_other ha] at he
    rcases List.infix_cons_iff.mp h with h | h
    · exact ha h
    · exact ih h (List.cons.inj he).2

end Cutting

section Separators

/-- A property of the parts of a text between ASCII characters. -/
structure AsciiCut (Q : Str → Prop) : Prop where
  nil : Q []
  cut : ∀ (a b : Str) (c : UInt8), c < 128 → (Q (a ++ c :: b) ↔ Q a ∧ Q b)

theorem infix_of_cut {w a b : Str} {c : UInt8} (hc : c ∉ w) (h : w <:+: a ++ c :: b) :
    w <:+: a ∨ w <:+: b := by
  induction a with
  | nil =>
    rcases List.infix_cons_iff.mp h with h | h
    · exact Or.inl (prefix_of_cut hc h).isInfix
    · exact Or.inr h
  | cons x a ih =>
    rcases List.infix_cons_iff.mp h with h | h
    · exact Or.inl (prefix_of_cut hc h).isInfix
    · exact (ih h).imp_left fun h => List.infix_cons_iff.mpr (Or.inr h)

theorem asciiCut_plain : AsciiCut Plain := by
  constructor
  · exact ⟨rfl, by decide⟩
  · intro a b c hc
    have hutf8 : isUtf8 (a ++ c :: b) = true ↔ isUtf8 a = true ∧ isUtf8 b = true := by
      rw [isUtf8_break (not_isTail_ascii hc), Bool.and_eq_true]
      have hone : isUtf8 ([c] ++ b) = isUtf8 b := by
        apply isUtf8_append
        apply isUtf8_ascii
        rw [List.forall_mem_singleton]
        exact hc
      rw [← hone]
      rfl
    constructor
    · rintro ⟨hs, hfree⟩
      obtain ⟨ha, hb⟩ := hutf8.mp hs
      constructor
      · exact ⟨ha, fun h => hfree (h.trans (List.prefix_append a _).isInfix)⟩
      · refine ⟨hb, fun h => hfree (h.trans ?_)⟩
        exact ((List.suffix_cons c b).trans (List.suffix_append a _)).isInfix
    · rintro ⟨ha, hb⟩
      refine ⟨hutf8.mpr ⟨ha.utf8, hb.utf8⟩, fun h => ?_⟩
      exact (infix_of_cut (ascii_not_mem_replacement hc) h).elim ha.free hb.free

variable {g : Str → Str} {Q : Str → Prop} {sep : UInt8} {p : UInt8 → Bool}

theorem AsciiFixed.ascii (hg : AsciiFixed g) (h : ∀ b ∈ s, b < 128) : g s = s := by
  induction s with
  | nil => exact hg.nil
  | cons c s ih =>
    rw [List.forall_mem_cons] at h
    have hcut := hg.cut [] s c h.1
    rw [hg.nil, ih h.2] at hcut
    exact hcut

theorem AsciiFixed.intercalate (hg : AsciiFixed g) (hsep : sep < 128) (parts : List Str) :
    [sep].intercalate (parts.map g) = g ([sep].intercalate parts) := by
  induction parts with
  | nil => exact hg.nil.symm
  | cons a parts ih =>
    cases parts with
    | nil => simp
    | cons b parts =>
      rw [List.intercalate_cons_cons, List.append_assoc, List.singleton_append, hg.cut _ _ _ hsep, ← ih,
        List.map_cons, List.map_cons, List.intercalate_cons_cons, List.append_assoc,
        List.singleton_append]

theorem AsciiCut.intercalate (hQ : AsciiCut Q) (hsep : sep < 128) (parts : List Str) :
    Q ([sep].intercalate parts) ↔ ∀ a ∈ parts, Q a := by
  induction parts with
  | nil => simpa using hQ.nil
  | cons a parts ih =>
    cases parts with
    | nil => simp
    | cons b parts =>
      rw [List.intercalate_cons_cons, List.append_assoc, List.singleton_append, hQ.cut _ _ _ hsep, ih]
      exact List.forall_mem_cons.symm

/-- Induction over the parts of a text between separators. -/
theorem parts_induction (p : UInt8 → Bool) {motive : Str → Prop}
    (last : ∀ a, (∀ b ∈ a, p b = false) → motive a)
    (cut : ∀ a c t, (∀ b ∈ a, p b = false) → p c = true → motive t → motive (a ++ c :: t))
    (s : Str) : motive s := by
  induction hn : s.length using Nat.strong_induction_on generalizing s with
  | _ n ih =>
    have hclean : ∀ b ∈ s.takeWhile fun b => !p b, p b = false := by
      intro b hb
      simpa using List.mem_takeWhile_imp hb
    have hcut := List.takeWhile_append_dropWhile (p := fun b => !p b) (l := s)
    cases hrest : s.dropWhile fun b => !p b with
    | nil =>
      rw [hrest, List.append_nil] at hcut
      rw [← hcut]
      exact last _ hclean
    | cons c t =>
      have hc := List.head?_dropWhile_not (fun b => !p b) s
      rw [hrest] at hc hcut
      have hlen := congrArg List.length hcut
      rw [List.length_append, List.length_cons] at hlen
      rw [← hcut]
      apply cut _ c t hclean
      · simpa using hc
      · exact ih _ (by omega) t rfl

theorem AsciiFixed.splitOnP (hg : AsciiFixed g) (hp : ∀ c, p c = true → c < 128) (s : Str) :
    (g s).splitOnP p = (s.splitOnP p).map g := by
  have hclean : ∀ a : Str, (∀ b ∈ a, p b = false) → ∀ b ∈ g a, p b = false := by
    intro a ha b hb
    by_contra hpb
    have hpb : p b = true := by simpa using hpb
    rw [ha b (hg.mem a b (hp b hpb) hb)] at hpb
    cases hpb
  induction s using parts_induction p with
  | last a ha =>
    rw [List.splitOnP_eq_singleton ha, List.splitOnP_eq_singleton (hclean a ha)]
    rfl
  | cut a c t ha hc ih =>
    rw [hg.cut _ _ _ (hp c hc), List.splitOnP_append_cons_of_forall_mem ha c hc,
      List.splitOnP_append_cons_of_forall_mem (hclean a ha) c hc, ih]
    rfl

theorem AsciiCut.splitOnP (hQ : AsciiCut Q) (hp : ∀ c, p c = true → c < 128) (s : Str) :
    (∀ a ∈ s.splitOnP p, Q a) ↔ Q s := by
  induction s using parts_induction p with
  | last a ha => rw [List.splitOnP_eq_singleton ha, List.forall_mem_singleton]
  | cut a c t ha hc ih =>
    rw [List.splitOnP_append_cons_of_forall_mem ha c hc, List.forall_mem_cons, ih,
      hQ.cut _ _ _ (hp c hc)]

end Separators

end Utf8Lossy
