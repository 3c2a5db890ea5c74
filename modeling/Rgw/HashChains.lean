import Mathlib.Data.List.Basic
import Mathlib.Data.List.Induction
import Mathlib.Data.Set.Basic
import Mathlib.Tactic.Common

/-! # Hash chains

Each value of a chain is made of the one before it and an item. Where no two links collide
and none leads back to the seed, the last value determines every item. -/
namespace HashChains

variable {σ δ : Type} (link : σ → δ → σ)

def chain (seed : σ) (items : List δ) : σ := items.foldl link seed

/-- The pairs a chain links. -/
def Links (seed : σ) (items : List δ) : Set (σ × δ) :=
  {p | ∃ before after, items = before ++ p.2 :: after ∧ p.1 = chain link seed before}

/-- The values after the seed. -/
def values (seed : σ) : List δ → List σ
  | [] => []
  | d :: ds => link seed d :: values (link seed d) ds

variable {link} {seed : σ} {items items' : List δ}

@[simp] theorem chain_snoc (items : List δ) (d : δ) :
    chain link seed (items ++ [d]) = link (chain link seed items) d := by
  simp [chain]

theorem mem_links_last (items : List δ) (d : δ) :
    (chain link seed items, d) ∈ Links link seed (items ++ [d]) := ⟨items, [], rfl, rfl⟩

@[simp] theorem mem_links_nil {p : σ × δ} : p ∉ Links link seed [] := by
  rintro ⟨before, after, h, -⟩
  cases before <;> cases h

@[simp] theorem mem_links_cons {d : δ} {p : σ × δ} :
    p ∈ Links link seed (d :: items) ↔ p = (seed, d) ∨ p ∈ Links link (link seed d) items := by
  constructor
  · rintro ⟨before, after, h, hp⟩
    cases before with
    | nil =>
      cases h
      exact Or.inl (Prod.ext hp rfl)
    | cons e before =>
      cases h
      exact Or.inr ⟨before, after, rfl, hp⟩
  · rintro (rfl | ⟨before, after, rfl, hp⟩)
    · exact ⟨[], items, rfl, rfl⟩
    · exact ⟨d :: before, after, rfl, hp⟩

theorem links_mono (items : List δ) (d : δ) :
    Links link seed items ⊆ Links link seed (items ++ [d]) := by
  rintro p ⟨before, after, rfl, hp⟩
  exact ⟨before, after ++ [d], by simp, hp⟩

/-- Chains from one seed to one value are the same chain. -/
theorem chain_injective
    (inj : ∀ p ∈ Links link seed items, ∀ q ∈ Links link seed items',
      link p.1 p.2 = link q.1 q.2 → p = q)
    (fresh : ∀ p ∈ Links link seed items ∪ Links link seed items', link p.1 p.2 ≠ seed)
    (h : chain link seed items = chain link seed items') : items = items' := by
  induction items using List.reverseRecOn generalizing items' with
  | nil =>
    rcases List.eq_nil_or_concat' items' with rfl | ⟨rest, d, rfl⟩
    · rfl
    · rw [chain_snoc] at h
      exact absurd h.symm (fresh _ (Or.inr (mem_links_last rest d)))
  | append_singleton items d ih =>
    rcases List.eq_nil_or_concat' items' with rfl | ⟨rest, d', rfl⟩
    · rw [chain_snoc] at h
      exact absurd h (fresh _ (Or.inl (mem_links_last items d)))
    · rw [chain_snoc, chain_snoc] at h
      have hlast := inj _ (mem_links_last items d) _ (mem_links_last rest d') h
      simp only [Prod.mk.injEq] at hlast
      have hrest : items = rest := by
        refine ih (fun p hp q hq => ?_) (fun p hp => ?_) hlast.1
        · exact inj p (links_mono items d hp) q (links_mono rest d' hq)
        · exact fresh p (hp.imp (fun hp => links_mono items d hp) fun hp => links_mono rest d' hp)
      rw [hrest, hlast.2]

end HashChains
