import Rgw.Interaction
import Mathlib.Logic.Relation

/-! # Programs that are stopped

A process may end between two of its calls and be started again. What an attempt leaves is a state
of its run; attempts follow one another, and in the end one runs through. -/
namespace Restarts

open Interaction Relation

variable {C : Type} {R : C → Type} {α β ε σ : Type} {exec : Exec C R σ}

section Stops

/-- A program that was stopped at a call, or at its end, left this state. -/
inductive Leaves (exec : Exec C R σ) : Prog C R α → σ → σ → Prop where
  | stop (p : Prog C R α) (s : σ) : Leaves exec p s s
  | call (c : C) (k : R c → Prog C R α) {s s' : σ}
    (rest : Leaves exec (k (exec c s).1) (exec c s).2 s') :
      Leaves exec (.call c k) s s'

variable {p : Prog C R α} {s s' : σ}

theorem leaves_done {a : α} (h : Leaves exec (.done a) s s') : s' = s := by
  cases h
  rfl

theorem leaves_call {c : C} {k : R c → Prog C R α} (h : Leaves exec (.call c k) s s') :
    s' = s ∨ Leaves exec (k (exec c s).1) (exec c s).2 s' := by
  cases h with
  | stop => exact .inl rfl
  | call _ _ rest => exact .inr rest

theorem leaves_end {a : α} (h : p.run exec s = some (a, s')) : Leaves exec p s s' := by
  induction p generalizing s with
  | done b =>
    cases h
    exact .stop _ _
  | cut => cases h
  | call c k ih => exact .call c k (ih _ h)

/-- The state that a program leaves when it is stopped after some calls. -/
def stopAfter (exec : Exec C R σ) : ℕ → Prog C R α → σ → σ
  | n + 1, .call c k, s => stopAfter exec n (k (exec c s).1) (exec c s).2
  | _, _, s => s

theorem leaves_stopAfter (n : ℕ) (p : Prog C R α) (s : σ) : Leaves exec p s (stopAfter exec n p s) := by
  induction n generalizing p s with
  | zero => exact .stop p s
  | succ n ih =>
    cases p with
    | done a => exact .stop _ _
    | cut => exact .stop _ _
    | call c k => exact .call c k (ih _ _)

/-- Stopped in the first part, or after it. -/
theorem leaves_bind {f : α → Prog C R β} (h : Leaves exec (p >>= f) s s') :
    Leaves exec p s s' ∨ ∃ a t, p.run exec s = some (a, t) ∧ Leaves exec (f a) t s' := by
  induction p generalizing s with
  | done a => exact .inr ⟨a, s, rfl, h⟩
  | cut =>
    cases h
    exact .inl (.stop _ _)
  | call c k ih =>
    rcases leaves_call h with rfl | h
    · exact .inl (.stop _ _)
    · rcases ih _ h with h | ⟨a, t, hr, ht⟩
      · exact .inl (.call c k h)
      · exact .inr ⟨a, t, hr, ht⟩

theorem leaves_except_bind {x : ExceptT ε (Prog C R) α} {f : α → ExceptT ε (Prog C R) β}
    (h : Leaves exec (x >>= f).run s s') : Leaves exec x.run s s' ∨
      ∃ a t, x.run.run exec s = some (.ok a, t) ∧ Leaves exec (f a).run t s' := by
  rcases leaves_bind (f := ExceptT.bindCont f) h with h | ⟨r, t, hr, ht⟩
  · exact .inl h
  · cases r with
    | ok a => exact .inr ⟨a, t, hr, ht⟩
    | error e =>
      obtain rfl := leaves_done ht
      exact .inl (leaves_end hr)

/-- What the calls of a discipline keep, a program of the discipline leaves. -/
theorem leaves_keeps {d : Discipline C R} {I : σ → Prop} {h : List (Event C R)}
    {Q : List (Event C R) → α → Prop} (keep : ∀ h c s, d.allowed h c → I s → I (exec c s).2)
    (obeys : p.Obeys d Q h) (left : Leaves exec p s s') (start : I s) : I s' := by
  induction left generalizing h with
  | stop => exact start
  | call c k _ ih => exact ih (obeys.2 _) (keep h c _ obeys.1 start)

end Stops

section Attempts

/-- Attempts one after another, each stopped somewhere. -/
def Attempts (exec : Exec C R σ) (p : ℕ → Prog C R α) : σ → σ → Prop :=
  ReflTransGen fun s s' => ∃ n, Leaves exec (p n) s s'

/-- An attempt leaves the work begun or done, and on work that is done it has no effect. -/
theorem attempts_begun_or_done {p : ℕ → Prog C R α} {begun complete : σ → Prop} {s s' : σ}
    (on : ∀ n s s', begun s → Leaves exec (p n) s s' → begun s' ∨ complete s')
    (stay : ∀ n s s', complete s → Leaves exec (p n) s s' → s' = s) (h : Attempts exec p s s')
    (start : begun s) : begun s' ∨ complete s' := by
  induction h with
  | refl => exact .inl start
  | tail _ hlast ih =>
    obtain ⟨n, hlast⟩ := hlast
    rcases ih with hbegun | hcomplete
    · exact on n _ _ hbegun hlast
    · rw [stay n _ _ hcomplete hlast]
      exact .inr hcomplete

end Attempts

end Restarts
