import Rgw.CanonicalRequest
import Mathlib.Data.Prod.Lex

/-! # Canonical paths and queries are normal forms

Two spellings have one canonical form exactly when they stand for the same bytes, and a
canonical form is its own. -/
namespace CanonicalForms

open ByteStrings TextCodecs SigV4 CanonicalRequest

section Escaping

/-- A hexadecimal digit in the case the encoder writes. -/
def isUpperHex (b : UInt8) : Bool := isDigit b || 65 ≤ b && b ≤ 70

/-- Plain bytes of one kind, and `%XX`. -/
inductive Escaped (plain : UInt8 → Bool) : Str → Prop where
  | nil : Escaped plain []
  | plain {b : UInt8} {s : Str} : plain b = true → Escaped plain s → Escaped plain (b :: s)
  | escape {x y : UInt8} {s : Str} : isUpperHex x = true → isUpperHex y = true →
      Escaped plain s → Escaped plain (37 :: x :: y :: s)

theorem isUpperHex_hexUpper {n : ℕ} (h : n < 16) : isUpperHex (hexUpper n) = true := by
  have digit : ∀ n : Fin 16, isUpperHex (hexUpper n) = true := by decide
  exact digit ⟨n, h⟩

theorem escaped_percentEncode (keep : UInt8 → Bool) (s : Str) :
    Escaped keep (percentEncode keep s) := by
  induction s with
  | nil => exact .nil
  | cons b s ih =>
    change Escaped keep (percentByte keep b ++ percentEncode keep s)
    rw [percentByte]
    split
    · next hk => exact .plain hk ih
    · apply Escaped.escape
      · exact isUpperHex_hexUpper (nibbles b).1
      · exact isUpperHex_hexUpper (Nat.mod_lt _ (by decide))
      · exact ih

/-- A canonical path keeps its slashes. -/
def isPathByte (b : UInt8) : Bool := isUnreserved b || b == 47

theorem escaped_path (s : Str) : Escaped isPathByte (uriEncode false s) := by
  have hkeep : (fun b => isUnreserved b || (b == 47 && !false)) = isPathByte := by
    funext b
    rw [Bool.not_false, Bool.and_true, isPathByte]
  rw [uriEncode, hkeep]
  exact escaped_percentEncode isPathByte s

theorem escaped_query (s : Str) : Escaped isUnreserved (uriEncode true s) := by
  have hkeep : (fun b => isUnreserved b || (b == 47 && !true)) = isUnreserved := by
    funext b
    rw [Bool.not_true, Bool.and_false, Bool.or_false]
  rw [uriEncode, hkeep]
  exact escaped_percentEncode isUnreserved s

theorem percentDecode_uriEncode (slash : Bool) (s : Str) :
    percentDecode (uriEncode slash s) = s := by
  apply percentDecode_percentEncode
  cases slash <;> decide

theorem plus_not_mem_uriEncode (slash : Bool) (s : Str) : (43 : UInt8) ∉ uriEncode slash s := by
  intro hm
  have hk := mem_percentEncode hm
  clear hm
  cases slash <;> revert hk <;> decide

/-- No plus sign is left to be read as a space. -/
theorem plusToSpace_uriEncode (slash : Bool) (s : Str) :
    plusToSpace (uriEncode slash s) = uriEncode slash s := by
  conv_rhs => rw [← List.map_id (uriEncode slash s)]
  apply List.map_congr_left
  intro b hb
  apply if_neg
  rintro rfl
  exact plus_not_mem_uriEncode slash s hb

end Escaping

section Paths

/-- The bytes a path stands for; no path is the root. -/
def decodedPath (path : Str) : Str := percentDecode (if path = [] then [47] else path)

theorem canonicalUri_decoded (path : Str) : canonicalUri path = uriEncode false (decodedPath path) := by
  rw [canonicalUri, decodedPath]
  split
  · decide
  · rfl

theorem canonicalUri_iff (p q : Str) :
    canonicalUri p = canonicalUri q ↔ decodedPath p = decodedPath q := by
  rw [canonicalUri_decoded, canonicalUri_decoded]
  exact (uriEncode_injective false).eq_iff

theorem decodedPath_canonicalUri (path : Str) : decodedPath (canonicalUri path) = decodedPath path := by
  have hroot : decodedPath path ≠ [] := by
    rw [decodedPath]
    split
    · decide
    · next hne =>
      intro h
      exact hne (percentDecode_eq_nil h)
  have hne : canonicalUri path ≠ [] := by
    intro h
    apply hroot
    rw [← percentDecode_uriEncode false (decodedPath path), ← canonicalUri_decoded, h]
    rfl
  rw [decodedPath, if_neg hne, canonicalUri_decoded, percentDecode_uriEncode]

theorem canonicalUri_idempotent (path : Str) : canonicalUri (canonicalUri path) = canonicalUri path := by
  rw [canonicalUri_iff]
  exact decodedPath_canonicalUri path

end Paths

section Queries

/-- The parameters a query stands for. -/
def decodedPairs (query : Str) : List (Str × Str) := (queryParts query).map decodedPart

def encodePair (p : Str × Str) : Str × Str := (uriEncode true p.1, uriEncode true p.2)

theorem pairLe_iff {a b : Str × Str} : pairLe a b ↔ toLex a ≤ toLex b := Prod.Lex.le_iff.symm

instance pairLe_total : Std.Total pairLe where
  total a b := by
    rw [pairLe_iff, pairLe_iff]
    exact le_total _ _

instance pairLe_trans : IsTrans (Str × Str) pairLe where
  trans a b c hab hbc := by
    rw [pairLe_iff] at *
    exact le_trans hab hbc

theorem pairLe_antisymm {a b : Str × Str} (hab : pairLe a b) (hba : pairLe b a) : a = b := by
  rw [pairLe_iff] at *
  exact toLex.injective (le_antisymm hab hba)

theorem sortedPairs_sorted (query : Str) : (sortedPairs query).Pairwise pairLe :=
  List.pairwise_insertionSort pairLe _

theorem sortedPairs_decoded (query : Str) :
    (sortedPairs query).Perm ((decodedPairs query).map encodePair) := sortedPairs_perm query

theorem encodePair_injective : Function.Injective encodePair := by
  intro p q h
  obtain ⟨hname, hvalue⟩ := Prod.mk.inj h
  exact Prod.ext (uriEncode_injective true hname) (uriEncode_injective true hvalue)

theorem canonicalQuery_iff (a b : Str) :
    canonicalQuery a = canonicalQuery b ↔ (decodedPairs a).Perm (decodedPairs b) := by
  constructor
  · intro h
    have hperm := (sortedPairs_decoded a).symm.trans
      (canonicalQuery_injective h ▸ sortedPairs_decoded b)
    exact (List.map_perm_map_iff encodePair_injective).mp hperm
  · intro h
    have hperm : (sortedPairs a).Perm (sortedPairs b) :=
      (sortedPairs_decoded a).trans ((h.map encodePair).trans (sortedPairs_decoded b).symm)
    have hsorted : sortedPairs a = sortedPairs b :=
      hperm.eq_of_pairwise (fun _ _ _ _ => pairLe_antisymm) (sortedPairs_sorted a)
        (sortedPairs_sorted b)
    exact congrArg (fun pairs => join 38 (pairs.map pairText)) hsorted

/-- Joined pairs are cut where they were joined. -/
theorem queryParts_join {pairs : List (Str × Str)}
    (h : ∀ p ∈ pairs, (38 : UInt8) ∉ pairText p ∧ (61 : UInt8) ∉ p.1) :
    queryParts (join 38 (pairs.map pairText)) = pairs := by
  by_cases hnil : pairs = []
  · rw [hnil]
    decide
  · have hmem : ∀ t ∈ pairs.map pairText, (38 : UInt8) ∉ t := by
      intro t ht
      obtain ⟨p, hp, rfl⟩ := List.mem_map.mp ht
      exact (h p hp).1
    have hne : pairs.map pairText ≠ [] := by
      rw [ne_eq, List.map_eq_nil_iff]
      exact hnil
    have hfilter : (pairs.map pairText).filter (· ≠ []) = pairs.map pairText := by
      rw [List.filter_eq_self]
      intro t ht
      obtain ⟨p, -, rfl⟩ := List.mem_map.mp ht
      simp [pairText]
    rw [queryParts, join, List.splitOn_intercalate 38 hmem hne, hfilter, List.map_map]
    conv_rhs => rw [← List.map_id pairs]
    apply List.map_congr_left
    intro p hp
    have hcut : splitOnce 61 (pairText p) = some p := splitOnce_some.mpr ⟨rfl, (h p hp).2⟩
    rw [Function.comp_apply, hcut]
    rfl

theorem queryParts_canonicalQuery (query : Str) :
    queryParts (canonicalQuery query) = sortedPairs query := by
  apply queryParts_join
  intro p hp
  constructor
  · exact not_mem_pairText hp (Or.inr rfl)
  · exact (mem_sortedPairs hp (Or.inr (Or.inr rfl))).1

theorem decodedPart_encodePair (p : Str × Str) : decodedPart (encodePair p) = p := by
  rw [decodedPart, encodePair]
  dsimp only
  rw [plusToSpace_uriEncode, plusToSpace_uriEncode, percentDecode_uriEncode, percentDecode_uriEncode]

theorem decodedPairs_canonicalQuery (query : Str) :
    (decodedPairs (canonicalQuery query)).Perm (decodedPairs query) := by
  rw [decodedPairs, queryParts_canonicalQuery]
  apply ((sortedPairs_decoded query).map decodedPart).trans
  rw [List.map_map]
  apply List.Perm.of_eq
  conv_rhs => rw [← List.map_id (decodedPairs query)]
  apply List.map_congr_left
  intro p _
  exact decodedPart_encodePair p

theorem canonicalQuery_idempotent (query : Str) :
    canonicalQuery (canonicalQuery query) = canonicalQuery query := by
  rw [canonicalQuery_iff]
  exact decodedPairs_canonicalQuery query

theorem escaped_sortedPairs {query : Str} {p : Str × Str} (h : p ∈ sortedPairs query) :
    Escaped isUnreserved p.1 ∧ Escaped isUnreserved p.2 := by
  obtain ⟨q, -, rfl⟩ := List.mem_map.mp ((sortedPairs_decoded query).mem_iff.mp h)
  exact ⟨escaped_query q.1, escaped_query q.2⟩

end Queries

/-- Canonical paths and queries are equal exactly when what they decode to is, canonical forms
are their own, and they are written in unreserved bytes, uppercase escapes and separators. -/
theorem canonical_normal_forms :
    (∀ p q, canonicalUri p = canonicalUri q ↔ decodedPath p = decodedPath q) ∧
    (∀ a b, canonicalQuery a = canonicalQuery b ↔ (decodedPairs a).Perm (decodedPairs b)) ∧
    (∀ p, canonicalUri (canonicalUri p) = canonicalUri p) ∧
    (∀ a, canonicalQuery (canonicalQuery a) = canonicalQuery a) ∧
    (∀ p, Escaped isPathByte (canonicalUri p)) ∧
    (∀ a, ∃ pairs : List (Str × Str), canonicalQuery a = join 38 (pairs.map pairText) ∧
      pairs.Pairwise pairLe ∧ ∀ p ∈ pairs, Escaped isUnreserved p.1 ∧ Escaped isUnreserved p.2) := by
  refine ⟨canonicalUri_iff, canonicalQuery_iff, canonicalUri_idempotent, canonicalQuery_idempotent,
    ?_, ?_⟩
  · intro p
    rw [canonicalUri_decoded]
    exact escaped_path _
  · intro a
    exact ⟨sortedPairs a, rfl, sortedPairs_sorted a, fun p hp => escaped_sortedPairs hp⟩

example : decodedPairs (bytes "b=%2B+&&a&=%4") =
    [(bytes "b", bytes "+ "), (bytes "a", []), ([], bytes "%4")] := by decide

end CanonicalForms
