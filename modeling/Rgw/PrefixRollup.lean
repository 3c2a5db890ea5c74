import Mathlib.Data.List.Dedup
import Mathlib.Data.List.Lex
import Mathlib.Data.List.Sort
import Mathlib.Data.List.Nodup
import Mathlib.Tactic.Common

/-! # Rolling sorted words up to prefixes

A roll-up replaces some words by a prefix of theirs. Where every extension of such a prefix
is replaced by it too, rolling up keeps the lexicographic order, so a sorted list rolls up to
a sorted list, with the words of one prefix side by side. -/
namespace PrefixRollup

variable {α : Type}

section Order

variable [LinearOrder α]

theorem prefix_le {c x : List α} (h : c <+: x) : c ≤ x := by
  induction c generalizing x with
  | nil => exact not_lt.mp (List.not_lt_nil x)
  | cons a c ih =>
    obtain ⟨t, rfl⟩ := h
    rw [List.cons_append, ← not_lt, List.cons_lt_cons_iff]
    rintro (hlt | ⟨-, hlt⟩)
    · exact lt_irrefl _ hlt
    · exact not_lt.mpr (ih (List.prefix_append c t)) hlt

/-- What lies between a prefix and one of its extensions extends it as well. -/
theorem prefix_of_between {c x y : List α} (hy : c <+: y) (hc : c ≤ x) (hx : x ≤ y) :
    c <+: x := by
  induction c generalizing x y with
  | nil => exact List.nil_prefix
  | cons a c ih =>
    obtain ⟨t, rfl⟩ := hy
    cases x with
    | nil => exact absurd hc (not_le.mpr (List.nil_lt_cons a c))
    | cons b x =>
      rw [← not_lt, List.cons_lt_cons_iff, not_or] at hc
      rw [List.cons_append, ← not_lt, List.cons_lt_cons_iff, not_or] at hx
      have hba : b = a := le_antisymm (not_lt.mp hx.1) (not_lt.mp hc.1)
      subst hba
      have hcx : c ≤ x := not_lt.mp fun h => hc.2 ⟨rfl, h⟩
      have hxy : x ≤ c ++ t := not_lt.mp fun h => hx.2 ⟨rfl, h⟩
      obtain ⟨u, rfl⟩ := ih (List.prefix_append c t) hcx hxy
      exact ⟨u, rfl⟩

end Order

/-- A choice of prefixes that is the same on every extension of a chosen one. -/
structure Rollup (α : Type) where
  rolled : List α → Option (List α)
  isPrefix : ∀ {x c}, rolled x = some c → c <+: x
  stable : ∀ {x c z}, rolled x = some c → c <+: z → rolled z = some c

variable (R : Rollup α)

namespace Rollup

/-- What a word is shown as. -/
def entry (x : List α) : List α := (R.rolled x).getD x

theorem entry_some {x c : List α} (h : R.rolled x = some c) : R.entry x = c := by
  rw [entry, h, Option.getD_some]

theorem entry_none {x : List α} (h : R.rolled x = none) : R.entry x = x := by
  rw [entry, h, Option.getD_none]

theorem rolled_self {x c : List α} (h : R.rolled x = some c) : R.rolled c = some c :=
  R.stable h List.prefix_rfl

variable [LinearOrder α]

theorem entry_le (x : List α) : R.entry x ≤ x := by
  cases h : R.rolled x with
  | none => exact (R.entry_none h).le
  | some c =>
    rw [R.entry_some h]
    exact prefix_le (R.isPrefix h)

theorem entry_mono {x y : List α} (h : x ≤ y) : R.entry x ≤ R.entry y := by
  cases hy : R.rolled y with
  | none =>
    rw [R.entry_none hy]
    exact (R.entry_le x).trans h
  | some c =>
    rw [R.entry_some hy]
    rcases le_or_gt c x with hc | hc
    · have hx := R.stable hy (prefix_of_between (R.isPrefix hy) hc h)
      exact (R.entry_some hx).le
    · exact (R.entry_le x).trans hc.le

/-- A word shown as itself is never what another one is rolled up to. -/
theorem entry_ne {x y : List α} (hx : R.rolled x = none) (h : x < y) : x < R.entry y := by
  have hle := R.entry_mono h.le
  rw [R.entry_none hx] at hle
  apply lt_of_le_of_ne hle
  intro he
  cases hy : R.rolled y with
  | none =>
    rw [R.entry_none hy] at he
    exact h.ne he
  | some c =>
    rw [R.entry_some hy] at he
    rw [he, R.rolled_self hy] at hx
    cases hx

section Scan

variable (marker : List α)

/-- The entries a scan of sorted words adds, with the last prefix shown as its only memory. -/
def fresh : Option (List α) → List (List α) → List (List α)
  | _, [] => []
  | last, x :: xs =>
    match R.rolled x with
    | some c => if last = some c ∨ c ≤ marker then fresh last xs else c :: fresh (some c) xs
    | none => x :: fresh last xs

variable {marker} {last : Option (List α)} {xs : List (List α)}

/-- The memory is a shown prefix, and nothing that follows comes before it. -/
def Remembers (last : Option (List α)) (xs : List (List α)) : Prop :=
  ∀ c, last = some c → R.rolled c = some c ∧ ∀ x ∈ xs, c ≤ R.entry x

theorem remembers_tail {x : List α} (h : R.Remembers last (x :: xs)) : R.Remembers last xs :=
  fun c hc => ⟨(h c hc).1, fun y hy => (h c hc).2 y (List.mem_cons_of_mem _ hy)⟩

theorem remembers_rolled {x c : List α} (hx : R.rolled x = some c)
    (hs : (x :: xs).Pairwise (· < ·)) : R.Remembers (some c) xs := by
  intro d hd
  cases hd
  refine ⟨R.rolled_self hx, fun y hy => ?_⟩
  have hle := R.entry_mono (List.rel_of_pairwise_cons hs hy).le
  rwa [R.entry_some hx] at hle

theorem remembers_none : R.Remembers none xs := fun _ h => by cases h

theorem mem_fresh_elim (hs : xs.Pairwise (· < ·)) (hm : ∀ x ∈ xs, marker < x)
    (hl : R.Remembers last xs) {e : List α} (h : e ∈ R.fresh marker last xs) :
    (∃ x ∈ xs, e = R.entry x) ∧ marker < e ∧ last ≠ some e := by
  induction xs generalizing last with
  | nil => cases h
  | cons x xs ih =>
    have htail : ∀ y ∈ xs, marker < y := fun y hy => hm y (List.mem_cons_of_mem _ hy)
    have hlift : (∃ y ∈ xs, e = R.entry y) → ∃ y ∈ x :: xs, e = R.entry y := by
      rintro ⟨y, hy, he⟩
      exact ⟨y, List.mem_cons_of_mem _ hy, he⟩
    rw [fresh] at h
    cases hx : R.rolled x with
    | none =>
      rw [hx] at h
      rcases List.mem_cons.mp h with rfl | h
      · refine ⟨⟨e, List.mem_cons_self, (R.entry_none hx).symm⟩, hm e List.mem_cons_self, ?_⟩
        intro he
        rw [(hl e he).1] at hx
        cases hx
      · obtain ⟨hex, hgt, hne⟩ := ih hs.of_cons htail (R.remembers_tail hl) h
        exact ⟨hlift hex, hgt, hne⟩
    | some c =>
      rw [hx] at h
      dsimp only at h
      split at h
      · obtain ⟨hex, hgt, hne⟩ := ih hs.of_cons htail (R.remembers_tail hl) h
        exact ⟨hlift hex, hgt, hne⟩
      · next hc =>
        rw [not_or, not_le] at hc
        have hec := R.entry_some hx
        rcases List.mem_cons.mp h with rfl | h
        · exact ⟨⟨x, List.mem_cons_self, hec.symm⟩, hc.2, hc.1⟩
        · obtain ⟨⟨y, hy, rfl⟩, hgt, hne⟩ :=
            ih hs.of_cons htail (R.remembers_rolled hx hs) h
          refine ⟨⟨y, List.mem_cons_of_mem _ hy, rfl⟩, hgt, fun he => ?_⟩
          -- the older prefix is at most the newer one, which is at most this entry
          have hold := (hl _ he).2 x List.mem_cons_self
          rw [hec] at hold
          have hnew := (R.remembers_rolled hx hs c rfl).2 y hy
          exact hne (congrArg some (le_antisymm hnew hold))

theorem mem_fresh_intro {x : List α} (h : x ∈ xs) (hgt : marker < R.entry x)
    (hne : last ≠ some (R.entry x)) : R.entry x ∈ R.fresh marker last xs := by
  induction xs generalizing last with
  | nil => cases h
  | cons y xs ih =>
    rw [fresh]
    cases hy : R.rolled y with
    | none =>
      rcases List.mem_cons.mp h with rfl | h
      · rw [R.entry_none hy]
        exact List.mem_cons_self
      · exact List.mem_cons_of_mem _ (ih h hne)
    | some c =>
      dsimp only
      split
      · next hc =>
        rcases List.mem_cons.mp h with rfl | h
        · rw [R.entry_some hy] at hgt hne
          rcases hc with hc | hc
          · exact absurd hc hne
          · exact absurd hc (not_le.mpr hgt)
        · exact ih h hne
      · rcases List.mem_cons.mp h with rfl | h
        · rw [R.entry_some hy]
          exact List.mem_cons_self
        · by_cases he : R.entry x = c
          · rw [he]
            exact List.mem_cons_self
          · exact List.mem_cons_of_mem _ (ih h fun h => he (Option.some.inj h).symm)

theorem fresh_sorted (hs : xs.Pairwise (· < ·)) (hm : ∀ x ∈ xs, marker < x)
    (hl : R.Remembers last xs) : (R.fresh marker last xs).Pairwise (· < ·) := by
  induction xs generalizing last with
  | nil => exact List.Pairwise.nil
  | cons x xs ih =>
    have htail : ∀ y ∈ xs, marker < y := fun y hy => hm y (List.mem_cons_of_mem _ hy)
    rw [fresh]
    cases hx : R.rolled x with
    | none =>
      refine List.pairwise_cons.mpr ⟨fun e he => ?_, ih hs.of_cons htail (R.remembers_tail hl)⟩
      obtain ⟨⟨y, hy, rfl⟩, -, -⟩ :=
        R.mem_fresh_elim hs.of_cons htail (R.remembers_tail hl) he
      exact R.entry_ne hx (List.rel_of_pairwise_cons hs hy)
    | some c =>
      dsimp only
      split
      · exact ih hs.of_cons htail (R.remembers_tail hl)
      · have hr := R.remembers_rolled hx hs
        refine List.pairwise_cons.mpr ⟨fun e he => ?_, ih hs.of_cons htail hr⟩
        obtain ⟨⟨y, hy, rfl⟩, -, hne⟩ := R.mem_fresh_elim hs.of_cons htail hr he
        exact lt_of_le_of_ne ((hr c rfl).2 y hy) fun h => hne (congrArg some h)

end Scan

/-- The entries of sorted words. -/
def entries (xs : List (List α)) : List (List α) := (xs.map R.entry).dedup

theorem mem_entries {xs : List (List α)} {e : List α} :
    e ∈ R.entries xs ↔ ∃ x ∈ xs, R.entry x = e := by
  rw [entries, List.mem_dedup, List.mem_map]

theorem entries_sorted {xs : List (List α)} (h : xs.Pairwise (· < ·)) :
    (R.entries xs).Pairwise (· < ·) := by
  have hmap : (xs.map R.entry).Pairwise (· ≤ ·) :=
    List.Pairwise.map _ (fun _ _ hab => R.entry_mono hab.le) h
  have hle : (R.entries xs).Pairwise (· ≤ ·) := hmap.sublist (List.dedup_sublist _)
  have hnd : (R.entries xs).Pairwise (· ≠ ·) := List.nodup_dedup _
  exact hle.imp₂ (fun _ _ hab hne => lt_of_le_of_ne hab hne) hnd

/-- A scan of the words past a marker gives the entries past it. -/
theorem fresh_eq_filter {xs : List (List α)} (h : xs.Pairwise (· < ·)) (marker : List α) :
    R.fresh marker none (xs.filter (marker < ·)) = (R.entries xs).filter (marker < ·) := by
  have hs : (xs.filter (marker < ·)).Pairwise (· < ·) := h.filter _
  have hm : ∀ x ∈ xs.filter (marker < ·), marker < x := fun x hx => by
    simpa using (List.mem_filter.mp hx).2
  have hfresh := R.fresh_sorted hs hm R.remembers_none
  have hentries : ((R.entries xs).filter (marker < ·)).Pairwise (· < ·) :=
    (R.entries_sorted h).filter _
  refine List.Perm.eq_of_pairwise (fun _ _ _ _ hab hba => absurd hab hba.not_gt) hfresh hentries ?_
  apply (List.perm_ext_iff_of_nodup (hfresh.imp ne_of_lt) (hentries.imp ne_of_lt)).mpr
  intro e
  rw [List.mem_filter, R.mem_entries]
  constructor
  · intro he
    obtain ⟨⟨x, hx, rfl⟩, hgt, -⟩ := R.mem_fresh_elim hs hm R.remembers_none he
    exact ⟨⟨x, (List.mem_filter.mp hx).1, rfl⟩, by simpa using hgt⟩
  · rintro ⟨⟨x, hx, rfl⟩, hgt⟩
    have hgt : marker < R.entry x := by simpa using hgt
    refine R.mem_fresh_intro (List.mem_filter.mpr ⟨hx, ?_⟩) hgt (by simp)
    simpa using lt_of_lt_of_le hgt (R.entry_le x)

end Rollup

end PrefixRollup
