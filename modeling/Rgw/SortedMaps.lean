import Mathlib.Tactic.Common
import Rgw.ByteStrings

/-! # Sorted maps

Maps in key order, keyed by a text or by a pair of texts. Equality of maps is equality of
their entries. -/
namespace SortedMaps

open ByteStrings Std

abbrev Map (ν : Type) := ExtTreeMap Str ν compare

theorem compare_lt {a b : Str} : compare a b = .lt ↔ a < b := by
  induction a generalizing b with
  | nil => cases b <;> simp
  | cons x a ih =>
    cases b with
    | nil => simp
    | cons y b =>
      rw [List.compare_cons_cons, Ordering.then_eq_lt, List.cons_lt_cons_iff, ih,
        LawfulEqOrd.compare_eq_iff_eq, compare_lt_iff_lt]

section Pairs

/-- Pairs in lexicographic order. -/
def comparePair : Str × Str → Str × Str → Ordering :=
  compareLex (compareOn Prod.fst) (compareOn Prod.snd)

instance : TransCmp comparePair := inferInstanceAs (TransCmp (compareLex _ _))

instance : LawfulEqCmp comparePair where
  eq_of_compare {a b} h := by
    rw [comparePair, compareLex_eq_eq] at h
    exact Prod.ext (LawfulEqCmp.eq_of_compare h.1) (LawfulEqCmp.eq_of_compare h.2)

abbrev PairMap (ν : Type) := ExtTreeMap (Str × Str) ν comparePair

theorem comparePair_lt {a b : Str × Str} :
    comparePair a b = .lt ↔ a.1 < b.1 ∨ a.1 = b.1 ∧ a.2 < b.2 := by
  rw [comparePair, compareLex, Ordering.then_eq_lt, compareOn, compareOn, compare_lt, compare_lt,
    LawfulEqOrd.compare_eq_iff_eq]

end Pairs

section Entries

variable {κ ν : Type} {cmp : κ → κ → Ordering} [TransCmp cmp] [LawfulEqCmp cmp]
  {t : ExtTreeMap κ ν cmp}

theorem getElem?_insert_eq [DecidableEq κ] (k a : κ) (v : ν) :
    (t.insert k v)[a]? = if k = a then some v else t[a]? := by
  simp [ExtTreeMap.getElem?_insert, LawfulEqCmp.compare_eq_iff_eq]

theorem getElem?_erase_eq [DecidableEq κ] (k a : κ) :
    (t.erase k)[a]? = if k = a then none else t[a]? := by
  simp [ExtTreeMap.getElem?_erase, LawfulEqCmp.compare_eq_iff_eq]

theorem mem_rows {k : κ} {v : ν} : (k, v) ∈ t.toList ↔ t[k]? = some v :=
  ExtTreeMap.mem_toList_iff_getElem?_eq_some

theorem mem_keys {k : κ} : k ∈ t.keys ↔ ∃ v, t[k]? = some v := by
  rw [ExtTreeMap.mem_keys, ExtTreeMap.mem_iff_isSome_getElem?, Option.isSome_iff_exists]

omit [LawfulEqCmp cmp] in
/-- The entries are in key order. -/
theorem rows_sorted : t.toList.Pairwise fun a b => cmp a.1 b.1 = .lt := by
  have h := ExtTreeMap.ordered_keys_toList (t := t)
  exact h

theorem getElem?_modify_eq [DecidableEq κ] (k a : κ) (f : ν → ν) :
    (t.modify k f)[a]? = if k = a then t[a]?.map f else t[a]? := by
  rw [ExtTreeMap.getElem?_modify]
  by_cases h : k = a
  · simp [h]
  · simp [h, LawfulEqCmp.compare_eq_iff_eq]

/-- Rows in strictly ascending order of their names are determined by what they are. -/
theorem rows_unique {l l' : List (Str × ν)} (hl : (l.map Prod.fst).Pairwise (· < ·))
    (hl' : (l'.map Prod.fst).Pairwise (· < ·)) (hmem : ∀ r, r ∈ l ↔ r ∈ l') : l = l' := by
  have hs := List.pairwise_map.mp hl
  have hs' := List.pairwise_map.mp hl'
  have hperm : l.Perm l' :=
    (List.perm_ext_iff_of_nodup (hs.imp fun hab he => by simp [he] at hab)
      (hs'.imp fun hab he => by simp [he] at hab)).mpr hmem
  exact hperm.eq_of_pairwise (fun a b _ _ hab hba => absurd hba (lt_asymm hab)) hs hs'

end Entries

end SortedMaps
