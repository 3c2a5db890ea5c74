import Rgw.ByteStrings
import Mathlib.Data.Fintype.Basic
import Mathlib.Data.List.Basic

/-! # Percent, hexadecimal and UTF-8 codecs over byte strings

Percent decoding leaves a malformed escape as it stands, so it is total. Every encoder
comes with the decoder that undoes it. -/
namespace TextCodecs

open ByteStrings

def hexUpper (n : ℕ) : UInt8 := if n < 10 then UInt8.ofNat (48 + n) else UInt8.ofNat (55 + n)
def hexLower (n : ℕ) : UInt8 := if n < 10 then UInt8.ofNat (48 + n) else UInt8.ofNat (87 + n)

theorem toDigit_hexUpper (n : Fin 16) : toDigit 16 (hexUpper n) = some n.val := by
  revert n; decide

theorem toDigit_hexLower (n : Fin 16) : toDigit 16 (hexLower n) = some n.val := by
  revert n; decide

theorem toDigit_lt {radix d : ℕ} {b : UInt8} (h : toDigit radix b = some d) : d < radix := by
  simp only [toDigit, Option.ite_none_right_eq_some, Option.some.injEq] at h
  exact h.2 ▸ h.1

/-- The high and low nibble of a byte, and the byte they make. -/
theorem nibbles (b : UInt8) :
    b.toNat / 16 < 16 ∧ UInt8.ofNat (16 * (b.toNat / 16) + b.toNat % 16) = b := by
  have hb := b.toNat_lt
  refine ⟨by omega, ?_⟩
  rw [Nat.div_add_mod, UInt8.ofNat_toNat]

theorem hexUpper_nibbles (b : UInt8) :
    toDigit 16 (hexUpper (b.toNat / 16)) = some (b.toNat / 16) ∧
    toDigit 16 (hexUpper (b.toNat % 16)) = some (b.toNat % 16) :=
  ⟨toDigit_hexUpper ⟨b.toNat / 16, (nibbles b).1⟩,
    toDigit_hexUpper ⟨b.toNat % 16, Nat.mod_lt _ (by decide)⟩⟩

theorem hexLower_nibbles (b : UInt8) :
    toDigit 16 (hexLower (b.toNat / 16)) = some (b.toNat / 16) ∧
    toDigit 16 (hexLower (b.toNat % 16)) = some (b.toNat % 16) :=
  ⟨toDigit_hexLower ⟨b.toNat / 16, (nibbles b).1⟩,
    toDigit_hexLower ⟨b.toNat % 16, Nat.mod_lt _ (by decide)⟩⟩

section Percent

/-- `%XX` becomes its byte; anything else stands for itself. -/
def percentDecode : Str → Str
  | [] => []
  | b :: h :: l :: rest =>
    match b == 37, toDigit 16 h, toDigit 16 l with
    | true, some x, some y => UInt8.ofNat (16 * x + y) :: percentDecode rest
    | _, _, _ => b :: percentDecode (h :: l :: rest)
  | b :: rest => b :: percentDecode rest

def percentByte (keep : UInt8 → Bool) (b : UInt8) : Str :=
  if keep b then [b] else [37, hexUpper (b.toNat / 16), hexUpper (b.toNat % 16)]

def percentEncode (keep : UInt8 → Bool) (s : Str) : Str := s.flatMap (percentByte keep)

/-- Two hexadecimal digits stand at the head. -/
def HexPair : Str → Prop
  | h :: l :: _ => (toDigit 16 h).isSome ∧ (toDigit 16 l).isSome
  | _ => False

theorem percentDecode_plain {b : UInt8} {s : Str} (h : b ≠ 37 ∨ ¬ HexPair s) :
    percentDecode (b :: s) = b :: percentDecode s := by
  match s with
  | [] => rfl
  | [_] => rfl
  | x :: y :: rest =>
    simp only [percentDecode]
    split
    · next hb hx hy =>
      have hp : HexPair (x :: y :: rest) := by simp [HexPair, hx, hy]
      exact absurd hp (h.resolve_left (by simpa using hb))
    · rfl

theorem percentDecode_escape {x y : UInt8} {m n : ℕ} (hx : toDigit 16 x = some m)
    (hy : toDigit 16 y = some n) (rest : Str) :
    percentDecode (37 :: x :: y :: rest) = UInt8.ofNat (16 * m + n) :: percentDecode rest := by
  simp [percentDecode, hx, hy]

@[simp] theorem percentDecode_nil : percentDecode [] = [] := rfl

theorem percentDecode_percentByte {keep : UInt8 → Bool} (h : keep 37 = false) (b : UInt8)
    (rest : Str) : percentDecode (percentByte keep b ++ rest) = b :: percentDecode rest := by
  by_cases hk : keep b
  · have hb : b ≠ 37 := by rintro rfl; simp [h] at hk
    simpa [percentByte, hk] using percentDecode_plain (Or.inl hb)
  · have hn := hexUpper_nibbles b
    simp only [percentByte, hk, Bool.false_eq_true, ↓reduceIte, List.cons_append, List.nil_append]
    rw [percentDecode_escape hn.1 hn.2, (nibbles b).2]

theorem percentDecode_percentEncode {keep : UInt8 → Bool} (h : keep 37 = false) (s : Str) :
    percentDecode (percentEncode keep s) = s := by
  induction s with
  | nil => rfl
  | cons b s ih =>
    change percentDecode (percentByte keep b ++ percentEncode keep s) = _
    rw [percentDecode_percentByte h, ih]

theorem percentEncode_injective {keep : UInt8 → Bool} (h : keep 37 = false) :
    Function.Injective (percentEncode keep) := fun a b he => by
  rw [← percentDecode_percentEncode h a, he, percentDecode_percentEncode h]

/-- The encoder writes kept bytes, percent signs and uppercase digits only. -/
theorem mem_percentEncode {keep : UInt8 → Bool} {s : Str} {c : UInt8}
    (h : c ∈ percentEncode keep s) :
    keep c = true ∨ c = 37 ∨ isDigit c = true ∨ isUpper c = true := by
  obtain ⟨b, -, hb⟩ := List.mem_flatMap.mp h
  by_cases hk : keep b
  · simp only [percentByte, hk, ↓reduceIte, List.mem_singleton] at hb
    exact Or.inl (hb ▸ hk)
  · have digit : ∀ n : Fin 16, isDigit (hexUpper n) = true ∨ isUpper (hexUpper n) = true := by
      decide
    simp only [percentByte, hk, Bool.false_eq_true, ↓reduceIte, List.mem_cons, List.not_mem_nil,
      or_false] at hb
    rcases hb with rfl | rfl | rfl
    · exact Or.inr (Or.inl rfl)
    · exact Or.inr (Or.inr (digit ⟨_, (nibbles b).1⟩))
    · exact Or.inr (Or.inr (digit ⟨_, Nat.mod_lt _ (by decide)⟩))

/-- No escape reaches across a byte that is neither a percent sign nor a digit. -/
theorem percentDecode_append_cons {c : UInt8} (hc : toDigit 16 c = none) (hp : c ≠ 37)
    (a b : Str) : percentDecode (a ++ c :: b) = percentDecode a ++ c :: percentDecode b := by
  induction a using percentDecode.induct with
  | case1 => simp [percentDecode_plain (Or.inl hp)]
  | case2 x h l rest m n hn hm hx ih =>
    simp only [beq_iff_eq] at hx
    subst hx
    simp only [List.cons_append]
    rw [percentDecode_escape hm hn, percentDecode_escape hm hn, ih, List.cons_append]
  | case3 x h l rest hno ih =>
    have hplain : ∀ t, x ≠ 37 ∨ ¬ HexPair (h :: l :: t) := by
      intro t
      by_contra hcon
      push Not at hcon
      obtain ⟨m, hm⟩ := Option.isSome_iff_exists.mp hcon.2.1
      obtain ⟨n, hn⟩ := Option.isSome_iff_exists.mp hcon.2.2
      exact hno m n (by simp [hcon.1]) hm hn
    simp only [List.cons_append] at ih ⊢
    rw [percentDecode_plain (hplain _), percentDecode_plain (hplain _), ih, List.cons_append]
  | case4 x rest hshort ih =>
    have hsplit : x ≠ 37 ∨ ¬ HexPair (rest ++ c :: b) := by
      apply Or.inr
      intro hpair
      match rest with
      | [] =>
        cases b <;> simp [HexPair, hc] at hpair
      | [y] => simp [HexPair, hc] at hpair
      | y :: z :: r => exact hshort y z r rfl
    have hplain : x ≠ 37 ∨ ¬ HexPair rest := by
      apply Or.inr
      intro hpair
      match rest with
      | [] => exact hpair
      | [y] => exact hpair
      | y :: z :: r => exact hshort y z r rfl
    rw [List.cons_append, percentDecode_plain hsplit, percentDecode_plain hplain, ih,
      List.cons_append]

/-- Form encoding: a plus sign is a space, read before the escapes are. -/
def plusToSpace (s : Str) : Str := s.map fun b => if b = 43 then 32 else b
def plusToEscape (s : Str) : Str := s.flatMap fun b => if b = 43 then [37, 50, 48] else [b]

@[simp] theorem plusToEscape_cons (b : UInt8) (s : Str) :
    plusToEscape (b :: s) = (if b = 43 then [37, 50, 48] else [b]) ++ plusToEscape s := rfl
@[simp] theorem plusToSpace_cons (b : UInt8) (s : Str) :
    plusToSpace (b :: s) = (if b = 43 then 32 else b) :: plusToSpace s := rfl

theorem hexPair_plus {s : Str} : HexPair (plusToEscape s) ↔ HexPair (plusToSpace s) := by
  have sp : (toDigit 16 32).isSome = false := by decide
  have pc : (toDigit 16 37).isSome = false := by decide
  match s with
  | [] => rfl
  | [x] => by_cases hx : x = 43 <;> simp [HexPair, hx, plusToEscape, plusToSpace, pc]
  | x :: y :: rest =>
    by_cases hx : x = 43 <;> by_cases hy : y = 43 <;> simp [HexPair, hx, hy, sp, pc]

/-- The two readings of a plus sign, as an escaped and as a literal space, agree. -/
theorem percentDecode_plus (s : Str) :
    percentDecode (plusToEscape s) = percentDecode (plusToSpace s) := by
  have main : ∀ n, ∀ s : Str, s.length ≤ n →
      percentDecode (plusToEscape s) = percentDecode (plusToSpace s) := by
    intro n
    induction n with
    | zero => intro s hs; simp [List.length_eq_zero_iff.mp (Nat.le_zero.mp hs), plusToEscape,
        plusToSpace]
    | succ n ih =>
      intro s hs
      cases s with
      | nil => rfl
      | cons b s =>
        simp only [List.length_cons, Nat.add_le_add_iff_right] at hs
        by_cases hb : b = 43
        · have h32 : percentDecode (37 :: 50 :: 48 :: plusToEscape s) =
              32 :: percentDecode (plusToEscape s) :=
            percentDecode_escape (m := 2) (n := 0) (by decide) (by decide) _
          simp only [plusToEscape_cons, plusToSpace_cons, hb, ↓reduceIte, List.cons_append,
            List.nil_append, h32, ih s hs]
          exact (percentDecode_plain (Or.inl (by decide))).symm
        · simp only [plusToEscape_cons, plusToSpace_cons, hb, ↓reduceIte, List.singleton_append]
          by_cases hp : b ≠ 37 ∨ ¬ HexPair (plusToEscape s)
          · rw [percentDecode_plain hp, percentDecode_plain (by rwa [← hexPair_plus]), ih s hs]
          · push Not at hp
            obtain ⟨rfl, hp⟩ := hp
            -- an escape: its two digits are no plus signs, so both forms hold the same ones
            match s, hp with
            | [x], hp =>
              have h37 : (toDigit 16 37).isSome = false := by decide
              by_cases hx : x = 43 <;> simp [HexPair, hx, plusToEscape, h37] at hp
            | x :: y :: rest, hp =>
              have hx : x ≠ 43 := by rintro rfl; revert hp; simp [HexPair]; decide
              have hy : y ≠ 43 := by
                rintro rfl; revert hp; simp only [plusToEscape_cons, hx]; simp [HexPair]
                intro _; decide
              simp only [plusToEscape_cons, hx, hy, ↓reduceIte, List.cons_append, List.nil_append,
                HexPair, Option.isSome_iff_exists] at hp
              obtain ⟨⟨m, hm⟩, k, hk⟩ := hp
              simp only [plusToEscape_cons, plusToSpace_cons, hx, hy, ↓reduceIte,
                List.cons_append, List.nil_append]
              rw [percentDecode_escape hm hk, percentDecode_escape hm hk,
                ih rest (by simp only [List.length_cons] at hs; omega)]
  exact main s.length s le_rfl

end Percent

section Hex

def hexEncode (s : Str) : Str :=
  s.flatMap fun b => [hexLower (b.toNat / 16), hexLower (b.toNat % 16)]

/-- Pairs of hexadecimal digits of either case; an odd length is refused. -/
def hexDecode : Str → Option Str
  | [] => some []
  | h :: l :: rest => do
    let x ← toDigit 16 h
    let y ← toDigit 16 l
    let s ← hexDecode rest
    some (UInt8.ofNat (16 * x + y) :: s)
  | [_] => none

@[simp] theorem hexEncode_cons (b : UInt8) (s : Str) : hexEncode (b :: s) =
    hexLower (b.toNat / 16) :: hexLower (b.toNat % 16) :: hexEncode s := rfl

theorem hexDecode_hexEncode (s : Str) : hexDecode (hexEncode s) = some s := by
  induction s with
  | nil => rfl
  | cons b s ih =>
    have hn := hexLower_nibbles b
    simp only [hexEncode_cons, hexDecode, hn.1, hn.2, ih, Option.bind_eq_bind, Option.bind_some,
      (nibbles b).2]

theorem hexEncode_injective : Function.Injective hexEncode := fun a b h => by
  have := hexDecode_hexEncode a
  rw [h, hexDecode_hexEncode] at this
  exact (Option.some.inj this).symm

theorem hexLower_of_toDigit {b : UInt8} {d : ℕ} (h : toDigit 16 b = some d) :
    asciiLower b = hexLower d := by
  have main : ∀ b : UInt8, (toDigit 16 b).all fun d => asciiLower b == hexLower d :=
    forall_byte (by decide +kernel)
  simpa [h] using main b

/-- Folding the case of an accepted spelling gives the canonical one. -/
theorem hexDecode_lower {s d : Str} (h : hexDecode s = some d) : toAsciiLower s = hexEncode d := by
  induction s using hexDecode.induct generalizing d with
  | case1 => cases h; rfl
  | case2 x y rest ih =>
    simp only [hexDecode, Option.bind_eq_bind, Option.bind_eq_some_iff, Option.some.injEq] at h
    obtain ⟨m, hm, n, hn, t, ht, rfl⟩ := h
    have hm16 := toDigit_lt hm
    have hn16 := toDigit_lt hn
    have hbyte : (UInt8.ofNat (16 * m + n)).toNat = 16 * m + n := by
      rw [UInt8.toNat_ofNat']; omega
    have hdiv : (16 * m + n) / 16 = m := by omega
    have hmod : (16 * m + n) % 16 = n := by omega
    simp only [hexEncode_cons, hbyte, hdiv, hmod]
    rw [← ih ht, ← hexLower_of_toDigit hm, ← hexLower_of_toDigit hn]
    rfl
  | case3 => cases h

theorem mem_hexEncode {s : Str} {c : UInt8} (h : c ∈ hexEncode s) : isHexDigit c = true := by
  have digit : ∀ n : Fin 16, isHexDigit (hexLower n) = true := by decide
  obtain ⟨b, -, hb⟩ := List.mem_flatMap.mp h
  simp only [List.mem_cons, List.not_mem_nil, or_false] at hb
  rcases hb with rfl | rfl
  · exact digit ⟨_, (nibbles b).1⟩
  · exact digit ⟨_, Nat.mod_lt _ (by decide)⟩

/-- The MD5 digests of the texts that the examples store. -/
def sampleDigests : List (Str × Str) :=
  [([], bytes "d41d8cd98f00b204e9800998ecf8427e"), (bytes "x", bytes "9dd4e461268c8034f5c8564e155c67a6"),
    (bytes "hi", bytes "49f68a5c8493ec2c0bf489821c21fc3b"),
    (bytes "hello", bytes "5d41402abc4b2a76b9719d911017c592"),
    (bytes "hello world", bytes "5eb63bbbe01eeed093cb22bb8f5acdc3"),
    (bytes "goodbye", bytes "69faab6268350295550de7d587bc323d")]

def sampleMd5 (text : Str) : Str := ((sampleDigests.lookup text).bind hexDecode).getD []

end Hex

section Utf8

def isTail (b : UInt8) : Bool := 128 ≤ b && b ≤ 191

/-- What may follow a leading byte of three or four. -/
def secondOk (lead b : UInt8) : Bool :=
  if lead = 224 then 160 ≤ b && b ≤ 191
  else if lead = 237 then 128 ≤ b && b ≤ 159
  else if lead = 240 then 144 ≤ b && b ≤ 191
  else if lead = 244 then 128 ≤ b && b ≤ 143
  else isTail b

/-- The length of the first character, or of the longest piece of one when it is malformed,
and whether it is well formed. -/
def utf8Char : Str → ℕ × Bool
  | [] => (0, true)
  | a :: t =>
    if a < 128 then (1, true)
    else if 194 ≤ a && a ≤ 223 then
      match t with
      | b :: _ => if isTail b then (2, true) else (1, false)
      | [] => (1, false)
    else if 224 ≤ a && a ≤ 239 then
      match t with
      | b :: c :: _ => if !secondOk a b then (1, false) else if isTail c then (3, true) else (2, false)
      | [b] => if secondOk a b then (2, false) else (1, false)
      | [] => (1, false)
    else if 240 ≤ a && a ≤ 244 then
      match t with
      | b :: c :: d :: _ =>
        if !secondOk a b then (1, false) else if !isTail c then (2, false)
        else if isTail d then (4, true) else (3, false)
      | [b, c] => if !secondOk a b then (1, false) else if isTail c then (3, false) else (2, false)
      | [b] => if secondOk a b then (2, false) else (1, false)
      | [] => (1, false)
    else (1, false)

def isUtf8Aux : ℕ → Str → Bool
  | _, [] => true
  | 0, _ => false
  | n + 1, s => (utf8Char s).2 && isUtf8Aux n (s.drop (utf8Char s).1)

def isUtf8 (s : Str) : Bool := isUtf8Aux s.length s

def utf8LossyAux : ℕ → Str → Str
  | _, [] => []
  | 0, _ => []
  | n + 1, s =>
    (if (utf8Char s).2 then s.take (utf8Char s).1 else [239, 191, 189]) ++
      utf8LossyAux n (s.drop (utf8Char s).1)

/-- Every malformed piece becomes U+FFFD. -/
def utf8Lossy (s : Str) : Str := utf8LossyAux s.length s

/-- The encodings of the characters with the `White_Space` property. -/
def whitespace : List Str :=
  [[9], [10], [11], [12], [13], [32], [194, 133], [194, 160], [225, 154, 128]] ++
  ([128, 129, 130, 131, 132, 133, 134, 135, 136, 137, 138, 168, 169, 175].map
    fun c => [226, 128, c]) ++ [[226, 129, 159], [227, 128, 128]]

def dropLeading (ws : List Str) : ℕ → Str → Str
  | 0, s => s
  | n + 1, s =>
    match ws.findSome? s.dropPrefix? with
    | some r => dropLeading ws n r
    | none => s

/-- Without the whitespace at both ends. -/
def trim (s : Str) : Str :=
  let t := dropLeading whitespace s.length s
  (dropLeading (whitespace.map List.reverse) t.length t.reverse).reverse

example : trim (bytes " a b\t") = bytes "a b" := by decide

end Utf8

end TextCodecs
