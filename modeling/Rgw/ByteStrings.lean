import Mathlib.Algebra.Ring.Int.Defs
import Mathlib.Algebra.Ring.Nat
import Mathlib.Data.List.Lex
import Mathlib.Order.Defs.LinearOrder
import Mathlib.Tactic.Common

/-! # Byte strings

Texts are their bytes and compare bytewise. The cutting operations are stated over an
arbitrary alphabet; each has the law that characterises its cuts. -/
namespace ByteStrings

instance byteOrder : LinearOrder UInt8 where
  le_refl := UInt8.le_refl
  le_trans _ _ _ := UInt8.le_trans
  le_antisymm _ _ := UInt8.le_antisymm
  le_total := UInt8.le_total
  lt_iff_le_not_ge a b := by
    simp only [UInt8.lt_iff_toNat_lt, UInt8.le_iff_toNat_le]
    omega
  toDecidableLE := inferInstance
  toDecidableEq := inferInstance
  compare_eq_compareOfLessAndEq _ _ := rfl

abbrev Str := List UInt8

instance byteLawful : LawfulBEq UInt8 := inferInstance
instance strLawful : LawfulBEq Str := inferInstance

/-- The bytes of a literal. -/
def bytes (s : String) : Str := s.toByteArray.data.toList

section Cuts

variable {α : Type} [DecidableEq α]

/-- Cut at the first separator. -/
def splitOnce (sep : α) : List α → Option (List α × List α)
  | [] => none
  | a :: l => if a = sep then some ([], l) else (splitOnce sep l).map fun p => (a :: p.1, p.2)

theorem splitOnce_none {sep : α} {l : List α} : splitOnce sep l = none ↔ sep ∉ l := by
  induction l with
  | nil => simp [splitOnce]
  | cons a l ih =>
    by_cases ha : a = sep
    · simp [splitOnce, ha]
    · simp [splitOnce, ha, ih, Ne.symm ha]

theorem splitOnce_some {sep : α} {l a b : List α} :
    splitOnce sep l = some (a, b) ↔ l = a ++ sep :: b ∧ sep ∉ a := by
  induction l generalizing a with
  | nil => simp [splitOnce]
  | cons c l ih =>
    by_cases hc : c = sep
    · subst hc
      simp only [splitOnce, ↓reduceIte, Option.some.injEq, Prod.mk.injEq]
      constructor
      · rintro ⟨rfl, rfl⟩; simp
      · rintro ⟨h, hn⟩
        cases a with
        | nil => simpa using h
        | cons d a => simp only [List.cons_append, List.cons.injEq] at h; simp [h.1] at hn
    · simp only [splitOnce, hc, ↓reduceIte, Option.map_eq_some_iff, Prod.mk.injEq, Prod.exists]
      constructor
      · rintro ⟨a', b', h, rfl, rfl⟩
        obtain ⟨rfl, hn⟩ := ih.mp h
        simp [hn, Ne.symm hc]
      · rintro ⟨h, hn⟩
        cases a with
        | nil => simp only [List.nil_append, List.cons.injEq] at h; exact absurd h.1 hc
        | cons d a =>
          simp only [List.cons_append, List.cons.injEq] at h
          obtain ⟨rfl, rfl⟩ := h
          exact ⟨a, b, ih.mpr ⟨rfl, fun hm => hn (List.mem_cons_of_mem _ hm)⟩, rfl, rfl⟩

/-- A first cut is unique: what precedes the separator does not contain it. -/
theorem first_cut_unique {sep : α} {a a' b b' : List α} (ha : sep ∉ a) (ha' : sep ∉ a')
    (h : a ++ sep :: b = a' ++ sep :: b') : a = a' ∧ b = b' := by
  have hs : splitOnce sep (a ++ sep :: b) = some (a, b) := splitOnce_some.mpr ⟨rfl, ha⟩
  rw [h, splitOnce_some.mpr ⟨rfl, ha'⟩] at hs
  simp only [Option.some.injEq, Prod.mk.injEq] at hs
  exact ⟨hs.1.symm, hs.2.symm⟩

/-- A last cut is unique as well. -/
theorem last_cut_unique {sep : α} {a a' b b' : List α} (hb : sep ∉ b) (hb' : sep ∉ b')
    (h : a ++ sep :: b = a' ++ sep :: b') : a = a' ∧ b = b' := by
  have hr := congrArg List.reverse h
  simp only [List.reverse_append, List.reverse_cons, List.append_assoc, List.singleton_append] at hr
  have := first_cut_unique (by simpa using hb) (by simpa using hb') hr
  exact ⟨List.reverse_injective this.2, List.reverse_injective this.1⟩

omit [DecidableEq α] in
/-- No piece of a split holds a separator. -/
theorem of_mem_splitOnP {p : α → Bool} {l piece : List α} (h : piece ∈ l.splitOnP p) :
    ∀ a ∈ piece, p a = false := by
  induction l generalizing piece with
  | nil =>
    rw [List.splitOnP_nil, List.mem_singleton] at h
    subst h
    simp
  | cons b l ih =>
    rw [List.splitOnP_cons_eq_if_modifyHead] at h
    split at h
    · rcases List.mem_cons.mp h with rfl | h
      · simp
      · exact ih h
    · next hb =>
      cases hs : l.splitOnP p with
      | nil => exact absurd hs (List.splitOnP_ne_nil p l)
      | cons first rest =>
        rw [hs, List.modifyHead_cons] at h
        rcases List.mem_cons.mp h with rfl | h
        · intro a ha
          rcases List.mem_cons.mp ha with rfl | ha
          · simpa using hb
          · exact ih (hs ▸ List.mem_cons_self) a ha
        · exact ih (hs ▸ List.mem_cons_of_mem _ h)

theorem not_mem_of_mem_splitOn {sep : α} {l piece : List α} (h : piece ∈ l.splitOn sep) :
    sep ∉ piece := by
  rw [List.splitOn_eq_splitOnP] at h
  intro hs
  have hf := of_mem_splitOnP h sep hs
  simp at hf

theorem splitOn_append_left {sep : α} {a : List α} (h : sep ∉ a) (l : List α) :
    (a ++ l).splitOn sep = (l.splitOn sep).modifyHead (a ++ ·) := by
  induction a with
  | nil =>
    cases hl : l.splitOn sep with
    | nil => exact absurd hl (List.splitOn_ne_nil sep l)
    | cons first rest => simpa using hl
  | cons b a ih =>
    have hb : (b == sep) = false := by
      rw [beq_eq_false_iff_ne]
      rintro rfl
      exact h List.mem_cons_self
    have ha : sep ∉ a := fun hm => h (List.mem_cons_of_mem _ hm)
    rw [List.cons_append, List.splitOn_cons_eq_if_modifyHead, hb, ih ha]
    simp only [Bool.false_eq_true, ↓reduceIte, List.modifyHead_modifyHead]
    rfl

section Substitution

variable {sep : α} {f : α → List α}

/-- Splitting commutes with a substitution that leaves the separator alone. -/
theorem splitOn_flatMap (hs : f sep = [sep]) (hf : ∀ a, a ≠ sep → sep ∉ f a) (l : List α) :
    (l.flatMap f).splitOn sep = (l.splitOn sep).map (List.flatMap f) := by
  induction l with
  | nil => simp
  | cons a l ih =>
    by_cases ha : a = sep
    · subst ha
      rw [List.flatMap_cons, hs, List.singleton_append, List.splitOn_cons_eq_if_modifyHead,
        List.splitOn_cons_eq_if_modifyHead, ih]
      simp
    · have hb : (a == sep) = false := beq_eq_false_iff_ne.mpr ha
      rw [List.flatMap_cons, splitOn_append_left (hf a ha), ih, List.splitOn_cons_eq_if_modifyHead,
        hb]
      cases l.splitOn sep with
      | nil => rfl
      | cons first rest => simp

theorem splitOnce_flatMap (hs : f sep = [sep]) (hf : ∀ a, a ≠ sep → sep ∉ f a) (l : List α) :
    splitOnce sep (l.flatMap f) =
      (splitOnce sep l).map fun p => (p.1.flatMap f, p.2.flatMap f) := by
  cases h : splitOnce sep l with
  | none =>
    have hn := splitOnce_none.mp h
    rw [Option.map_none, splitOnce_none]
    intro hm
    obtain ⟨a, ha, hsep⟩ := List.mem_flatMap.mp hm
    refine hf a ?_ hsep
    rintro rfl
    exact hn ha
  | some p =>
    obtain ⟨rfl, hn⟩ := splitOnce_some.mp h
    rw [Option.map_some, splitOnce_some, List.flatMap_append, List.flatMap_cons, hs]
    refine ⟨rfl, fun hm => ?_⟩
    obtain ⟨a, ha, hsep⟩ := List.mem_flatMap.mp hm
    refine hf a ?_ hsep
    rintro rfl
    exact hn ha

end Substitution

/-- Pieces without the separator are recovered from their joining. -/
theorem intercalate_injective {sep : α} {xs ys : List (List α)} (hx : ∀ l ∈ xs, sep ∉ l)
    (hy : ∀ l ∈ ys, sep ∉ l) (nx : xs ≠ []) (ny : ys ≠ [])
    (h : [sep].intercalate xs = [sep].intercalate ys) : xs = ys := by
  rw [← List.splitOn_intercalate sep hx nx, h, List.splitOn_intercalate sep hy ny]

omit [DecidableEq α] in
theorem mem_intercalate {sep : List α} {c : α} {xs : List (List α)} (h : c ∈ sep.intercalate xs) :
    c ∈ sep ∨ ∃ l ∈ xs, c ∈ l := by
  induction xs with
  | nil => simp at h
  | cons x xs ih =>
    cases xs with
    | nil => exact Or.inr ⟨x, List.mem_cons_self, by simpa using h⟩
    | cons y ys =>
      rw [List.intercalate_cons_cons, List.mem_append, List.mem_append] at h
      rcases h with (h | h) | h
      · exact Or.inr ⟨x, List.mem_cons_self, h⟩
      · exact Or.inl h
      · rcases ih h with h | ⟨l, hl, hc⟩
        · exact Or.inl h
        · exact Or.inr ⟨l, List.mem_cons_of_mem _ hl, hc⟩

omit [DecidableEq α] in
theorem intercalate_append {sep : α} {xs ys : List (List α)} (hx : xs ≠ []) (hy : ys ≠ []) :
    [sep].intercalate (xs ++ ys) = [sep].intercalate xs ++ sep :: [sep].intercalate ys := by
  induction xs with
  | nil => exact absurd rfl hx
  | cons x xs ih =>
    cases xs with
    | nil => simp [List.intercalate_cons_of_ne_nil hy]
    | cons z zs =>
      have hrest := ih (List.cons_ne_nil z zs)
      have hne : z :: zs ++ ys ≠ [] := List.cons_ne_nil z (zs ++ ys)
      rw [List.cons_append, List.intercalate_cons_of_ne_nil hne, hrest, List.intercalate_cons_cons]
      simp

theorem mem_of_mem_splitOn {sep c : α} {l piece : List α} (h : piece ∈ l.splitOn sep)
    (hc : c ∈ piece) : c ∈ l := by
  have hmem : ∀ xs : List (List α), piece ∈ xs → c ∈ [sep].intercalate xs := by
    intro xs hx
    induction xs with
    | nil => cases hx
    | cons x xs ih =>
      cases xs with
      | nil =>
        rw [List.mem_singleton] at hx
        subst hx
        simpa using hc
      | cons y ys =>
        rw [List.intercalate_cons_cons]
        rcases List.mem_cons.mp hx with rfl | hx
        · simp [hc]
        · exact List.mem_append_right _ (ih hx)
  have hl := hmem _ h
  rwa [List.intercalate_splitOn] at hl

section Infixes

variable {sep : α} {w a b : List α}

omit [DecidableEq α] in
theorem prefix_before (hw : sep ∉ w) (h : w <+: a ++ sep :: b) : w <+: a := by
  rcases List.prefix_or_prefix_of_prefix h (List.prefix_append a (sep :: b)) with hp | ⟨c, rfl⟩
  · exact hp
  · rw [List.prefix_append_right_inj, List.prefix_cons_iff] at h
    rcases h with rfl | ⟨c, rfl, -⟩
    · simp
    · exact absurd (List.mem_append_right a List.mem_cons_self) hw

omit [DecidableEq α] in
theorem suffix_after (hw : sep ∉ w) (h : w <:+ a ++ sep :: b) : w <:+ b := by
  rw [← List.reverse_prefix] at h ⊢
  rw [List.reverse_append, List.reverse_cons, List.append_assoc] at h
  exact prefix_before (by simpa using hw) h

omit [DecidableEq α] in
/-- A text without the separator does not stand across it. -/
theorem infix_beside (hw : sep ∉ w) (h : w <:+: a ++ sep :: b) : w <:+: a ∨ w <:+: b := by
  rcases List.infix_append_iff.mp h with ha | hb | ⟨l, r, rfl, hl, hr⟩
  · exact Or.inl ha
  · rcases List.infix_cons_iff.mp hb with hp | hb
    · exact Or.inl ((prefix_before (a := []) hw hp).isInfix.trans List.nil_infix)
    · exact Or.inr hb
  · have hnil : r = [] := List.prefix_nil.mp
      (prefix_before (a := []) (fun hm => hw (List.mem_append_right l hm)) hr)
    rw [hnil, List.append_nil]
    exact Or.inl hl.isInfix

omit [DecidableEq α] in
theorem infix_intercalate {xs : List (List α)} (hw : sep ∉ w) (hne : w ≠ [])
    (h : w <:+: [sep].intercalate xs) : ∃ x ∈ xs, w <:+: x := by
  induction xs with
  | nil => exact absurd (List.infix_nil.mp h) hne
  | cons x xs ih =>
    cases xs with
    | nil => exact ⟨x, List.mem_cons_self, by simpa using h⟩
    | cons y ys =>
      rw [List.intercalate_cons_cons, List.append_assoc, List.singleton_append] at h
      rcases infix_beside hw h with hx | hrest
      · exact ⟨x, List.mem_cons_self, hx⟩
      · obtain ⟨z, hz, hi⟩ := ih hrest
        exact ⟨z, List.mem_cons_of_mem x hz, hi⟩

end Infixes

theorem dropPrefix_eq_some {p l r : List α} : l.dropPrefix? p = some r ↔ l = p ++ r := by
  rw [List.dropPrefix?_eq_some_iff]
  constructor
  · rintro ⟨q, rfl, hq⟩
    rw [eq_of_beq hq]
  · rintro rfl
    exact ⟨p, rfl, beq_self_eq_true p⟩

theorem dropPrefix_eq_none {p l : List α} : l.dropPrefix? p = none ↔ ¬p <+: l := by
  rw [← not_iff_not, not_not, ← ne_eq, Option.ne_none_iff_exists']
  constructor
  · rintro ⟨r, hr⟩
    exact ⟨r, (dropPrefix_eq_some.mp hr).symm⟩
  · rintro ⟨r, hr⟩
    exact ⟨r, dropPrefix_eq_some.mpr hr.symm⟩

/-- The offset of the first occurrence of a pattern. -/
def findSub (pat : List α) : List α → Option ℕ
  | [] => if pat = [] then some 0 else none
  | a :: l => if pat <+: a :: l then some 0 else (findSub pat l).map (· + 1)

theorem findSub_some {pat l : List α} {i : ℕ} (h : findSub pat l = some i) :
    pat <+: l.drop i ∧ ∀ j, j < i → ¬ pat <+: l.drop j := by
  induction l generalizing i with
  | nil =>
    simp only [findSub] at h
    split at h
    · next hp => cases h; simp [hp]
    · cases h
  | cons a l ih =>
    simp only [findSub] at h
    split at h
    · next hp => cases h; exact ⟨hp, fun j hj => absurd hj (Nat.not_lt_zero j)⟩
    · next hp =>
      obtain ⟨k, hk, rfl⟩ := Option.map_eq_some_iff.mp h
      obtain ⟨hpre, hmin⟩ := ih hk
      refine ⟨by simpa using hpre, fun j hj => ?_⟩
      cases j with
      | zero => simpa using hp
      | succ j => simpa using hmin j (by omega)

theorem findSub_none {pat l : List α} (h : findSub pat l = none) (j : ℕ) :
    ¬ pat <+: l.drop j := by
  induction l generalizing j with
  | nil =>
    simp only [findSub] at h
    split at h
    · cases h
    · next hp => simpa using hp
  | cons a l ih =>
    simp only [findSub] at h
    split at h
    · cases h
    · next hp =>
      cases j with
      | zero => simpa using hp
      | succ j => simpa using ih (by simpa using h) j

section FirstOccurrence

variable {pat l : List α}

theorem findSub_eq_some {i : ℕ} : findSub pat l = some i ↔
    pat <+: l.drop i ∧ ∀ j, j < i → ¬ pat <+: l.drop j := by
  refine ⟨findSub_some, fun h => ?_⟩
  cases hf : findSub pat l with
  | none => exact absurd h.1 (findSub_none hf i)
  | some k =>
    obtain ⟨hk, hmin⟩ := findSub_some hf
    rcases lt_trichotomy k i with hlt | rfl | hgt
    · exact absurd hk (h.2 k hlt)
    · rfl
    · exact absurd h.1 (hmin i hgt)

/-- The first occurrence stays the first when the text after it is replaced. -/
theorem findSub_extend (hp : pat ≠ []) {i : ℕ} (h : findSub pat l = some i) (t : List α) :
    findSub pat (l.take (i + pat.length) ++ t) = some i := by
  obtain ⟨hi, hmin⟩ := findSub_some h
  have hlen : i + pat.length ≤ l.length := by
    have hle := hi.length_le
    have hpos := List.length_pos_iff.mpr hp
    rw [List.length_drop] at hle
    omega
  have htake : (l.take (i + pat.length)).length = i + pat.length := by
    rw [List.length_take, Nat.min_eq_left hlen]
  have hdrop : ∀ j, j ≤ i → (l.take (i + pat.length) ++ t).drop j =
      (l.take (i + pat.length)).drop j ++ t := by
    intro j hj
    exact List.drop_append_of_le_length (by omega)
  have hshort : ∀ j, j ≤ i → (pat <+: (l.take (i + pat.length) ++ t).drop j ↔
      pat <+: l.drop j) := by
    intro j hj
    have hfit : pat.length ≤ ((l.take (i + pat.length)).drop j).length := by
      rw [List.length_drop, htake]
      omega
    have hsub : (l.take (i + pat.length)).drop j <+: l.drop j := by
      rw [List.drop_take]
      exact List.take_prefix _ _
    rw [hdrop j hj]
    constructor
    · intro hpre
      exact (List.prefix_of_prefix_length_le hpre (List.prefix_append _ t) hfit).trans hsub
    · intro hpre
      exact (List.prefix_of_prefix_length_le hpre hsub hfit).trans (List.prefix_append _ t)
  refine findSub_eq_some.mpr ⟨(hshort i le_rfl).mpr hi, fun j hj => ?_⟩
  rw [hshort j hj.le]
  exact hmin j hj

end FirstOccurrence

end Cuts

section Ascii

def isUpper (b : UInt8) : Bool := 65 ≤ b && b ≤ 90
def isLower (b : UInt8) : Bool := 97 ≤ b && b ≤ 122
def isDigit (b : UInt8) : Bool := 48 ≤ b && b ≤ 57
def isAlnum (b : UInt8) : Bool := isUpper b || isLower b || isDigit b
def isHexDigit (b : UInt8) : Bool := isDigit b || 65 ≤ b && b ≤ 70 || 97 ≤ b && b ≤ 102

/-- Space, tab, line feed, form feed and carriage return. -/
def isAsciiSpace (b : UInt8) : Bool := b == 32 || b == 9 || b == 10 || b == 12 || b == 13

def asciiLower (b : UInt8) : UInt8 := if isUpper b then b + 32 else b
def toAsciiLower (s : Str) : Str := s.map asciiLower
def eqIgnoreAsciiCase (a b : Str) : Bool := toAsciiLower a == toAsciiLower b

/-- The words between runs of ASCII whitespace. -/
def splitAsciiWhitespace (s : Str) : List Str := (s.splitOnP isAsciiSpace).filter (· ≠ [])

/-- A byte-wise fact is decided on its 256 instances. -/
theorem forall_byte {P : UInt8 → Prop} (h : ∀ n : Fin 256, P (UInt8.ofFin n)) (b : UInt8) : P b :=
  h b.toFin

theorem toAsciiLower_fixed {s : Str} (h : s.all (fun b => !isUpper b) = true) : toAsciiLower s = s := by
  have hsame : ∀ b ∈ s, asciiLower b = id b := by
    intro b hb
    have hlower : (!isUpper b) = true := List.all_eq_true.mp h b hb
    rw [asciiLower, if_neg (by simpa using hlower)]
    rfl
  rw [toAsciiLower, List.map_congr_left hsame, List.map_id]

end Ascii

section Numbers

/-- The value of a digit in a radix of at most 36. -/
def toDigit (radix : ℕ) (b : UInt8) : Option ℕ :=
  let d := if isDigit b then b.toNat - 48
    else if isLower b then b.toNat - 87
    else if isUpper b then b.toNat - 55
    else radix
  if d < radix then some d else none

def parseDigits (radix bound : ℕ) : ℕ → Str → Option ℕ
  | acc, [] => some acc
  | acc, b :: l => do
    let d ← toDigit radix b
    if acc * radix + d < bound then parseDigits radix bound (acc * radix + d) l else none

/-- A number below `bound`: one or more digits after an optional plus sign. -/
def parseUnsigned (radix bound : ℕ) : Str → Option ℕ
  | [] => none
  | b :: l => if b = 43 then (if l = [] then none else parseDigits radix bound 0 l)
    else parseDigits radix bound 0 (b :: l)

/-- A decimal number of `w` bits in two's complement, with an optional sign. -/
def parseSigned (w : ℕ) : Str → Option ℤ
  | [] => none
  | b :: l =>
    if b = 45 then (if l = [] then none else (parseDigits 10 (2 ^ (w - 1) + 1) 0 l).map fun n => -n)
    else (parseUnsigned 10 (2 ^ (w - 1)) (b :: l)).map Int.ofNat

def decimalDigits : ℕ → ℕ → Str → Str
  | 0, _, acc => acc
  | fuel + 1, n, acc =>
    let acc := UInt8.ofNat (48 + n % 10) :: acc
    if n < 10 then acc else decimalDigits fuel (n / 10) acc

def decimal (n : ℕ) : Str := decimalDigits (n + 1) n []

theorem isDigit_ofNat {d : ℕ} (h : d < 10) : isDigit (UInt8.ofNat (48 + d)) = true := by
  revert d
  decide

theorem decimalDigits_isDigit {fuel n : ℕ} {acc : Str} (h : acc.all isDigit) :
    (decimalDigits fuel n acc).all isDigit := by
  induction fuel generalizing n acc with
  | zero => exact h
  | succ fuel ih =>
    have hacc : (UInt8.ofNat (48 + n % 10) :: acc).all isDigit := by
      rw [List.all_cons, isDigit_ofNat (Nat.mod_lt _ (by decide)), h, Bool.and_self]
    rw [decimalDigits]
    split
    · exact hacc
    · exact ih hacc

theorem decimal_isDigit (n : ℕ) : (decimal n).all isDigit := decimalDigits_isDigit rfl

theorem toDigit_ofNat {d : ℕ} (h : d < 10) : toDigit 10 (UInt8.ofNat (48 + d)) = some d := by
  revert d
  decide

/-- The digits are read from the highest, so what is written first is read last. -/
theorem parseDigits_decimalDigits {bound fuel n : ℕ} {acc : Str} (hf : n < fuel) (hb : n < bound) :
    parseDigits 10 bound 0 (decimalDigits fuel n acc) = parseDigits 10 bound n acc := by
  have hdigit : n % 10 < 10 := Nat.mod_lt _ (by decide)
  induction fuel generalizing n acc with
  | zero => omega
  | succ fuel ih =>
    have hread : ∀ m, m * 10 + n % 10 = n → parseDigits 10 bound m
        (UInt8.ofNat (48 + n % 10) :: acc) = parseDigits 10 bound n acc := by
      intro m hm
      simp only [parseDigits, toDigit_ofNat hdigit, Option.bind_eq_bind, Option.bind_some, hm, hb,
        ↓reduceIte]
    rw [decimalDigits]
    split
    · exact hread 0 (by omega)
    · rw [ih (by omega) (by omega) (Nat.mod_lt _ (by decide))]
      exact hread (n / 10) (by omega)

theorem parseDigits_decimal {bound n : ℕ} (h : n < bound) :
    parseDigits 10 bound 0 (decimal n) = some n := parseDigits_decimalDigits (Nat.lt_succ_self n) h

theorem decimalDigits_ne_nil {fuel n : ℕ} {acc : Str} (h : acc ≠ [] ∨ 0 < fuel) :
    decimalDigits fuel n acc ≠ [] := by
  induction fuel generalizing n acc with
  | zero => exact h.resolve_right (Nat.lt_irrefl 0)
  | succ fuel ih =>
    rw [decimalDigits]
    split
    · exact List.cons_ne_nil _ _
    · exact ih (.inl (List.cons_ne_nil _ _))

/-- A decimal has no sign to skip. -/
theorem parseUnsigned_decimal {bound n : ℕ} (h : n < bound) :
    parseUnsigned 10 bound (decimal n) = some n := by
  have hread := parseDigits_decimal h
  have hdigits := decimal_isDigit n
  cases hd : decimal n with
  | nil => exact absurd hd (decimalDigits_ne_nil (.inr (Nat.succ_pos n)))
  | cons b l =>
    rw [hd] at hread hdigits
    have hsign : b ≠ 43 := by
      rintro rfl
      cases (Bool.and_eq_true_iff.mp hdigits).1
    rw [parseUnsigned, if_neg hsign, hread]

theorem decimal_injective : Function.Injective decimal := by
  intro n m h
  have hn := @parseDigits_decimal (n + m + 1) n (by omega)
  rw [h, parseDigits_decimal (by omega)] at hn
  exact (Option.some.inj hn).symm

example : decimal 1024 = bytes "1024" := by decide

end Numbers

end ByteStrings
