import Rgw.Interaction
import Mathlib.Data.List.Infix

/-! # What programs make of replies

A program among others knows of the state only the replies it gets. Whatever the others do,
what it returns is what it makes of replies that states of the run gave. -/
namespace Replies

open Interaction

variable {C : Type} {R : C → Type} {α β ε σ ι : Type}

section Programs

/-- Whatever honest replies a program gets, what it returns satisfies `Q`. -/
def Yields (honest : Event C R → Prop) (Q : α → Prop) : Prog C R α → Prop
  | .done a => Q a
  | .cut => True
  | .call c k => ∀ r, honest ⟨c, r⟩ → Yields honest Q (k r)

variable {honest honest' : Event C R → Prop} {P Q : α → Prop} {p : Prog C R α}

@[simp] theorem yields_done {a : α} : Yields honest Q (.done a) ↔ Q a := Iff.rfl
@[simp] theorem yields_cut : Yields honest Q (.cut : Prog C R α) ↔ True := Iff.rfl
@[simp] theorem yields_call {c : C} {k : R c → Prog C R α} :
    Yields honest Q (.call c k) ↔ ∀ r, honest ⟨c, r⟩ → Yields honest Q (k r) := Iff.rfl

theorem yields_mono (h : Yields honest P p) (hi : ∀ a, P a → Q a) : Yields honest Q p := by
  induction p with
  | done a => exact hi a h
  | cut => trivial
  | call c k ih => exact fun r hr => ih r (h r hr)

/-- Fewer replies to reckon with. -/
theorem yields_weaken (h : Yields honest Q p) (hi : ∀ e, honest' e → honest e) : Yields honest' Q p := by
  induction p with
  | done a => exact h
  | cut => trivial
  | call c k ih => exact fun r hr => ih r (h r (hi _ hr))

theorem yields_and (hp : Yields honest P p) (hq : Yields honest Q p) :
    Yields honest (fun a => P a ∧ Q a) p := by
  induction p with
  | done a => exact ⟨hp, hq⟩
  | cut => trivial
  | call c k ih => exact fun r hr => ih r (hp r hr) (hq r hr)

theorem yields_bind {f : α → Prog C R β} {Q : β → Prop} :
    Yields honest Q (p >>= f) ↔ Yields honest (fun a => Yields honest Q (f a)) p := by
  induction p with
  | done a => rfl
  | cut => rfl
  | call c k ih => simp only [call_bind, yields_call, ih]

/-- A program that may fail goes on from the value, or ends with the failure. -/
theorem yields_except_bind {x : ExceptT ε (Prog C R) α} {f : α → ExceptT ε (Prog C R) β}
    {Q : Except ε β → Prop} : Yields honest Q (x >>= f).run ↔ Yields honest (fun r => match r with
      | .ok a => Yields honest Q (f a).run
      | .error e => Q (.error e)) x.run := by
  change Yields honest Q (x.run >>= ExceptT.bindCont f) ↔ _
  rw [yields_bind]
  constructor <;> intro hx <;> refine yields_mono hx fun r hr => ?_ <;> cases r <;> exact hr

end Programs

section Runs

variable [DecidableEq ι] {exec : Exec C R σ} {x y : Config C R α σ ι} {t : List (ι × Event C R)}

/-- A reply that one of these states gives. -/
def Given (exec : Exec C R σ) (S : σ → Prop) (e : Event C R) : Prop :=
  ∃ s, S s ∧ e.2 = (exec e.1 s).1

/-- A program of one call makes of a reply what it would make of it alone. -/
theorem yields_once {S : σ → Prop} {c : C} {k : R c → Prog C R α} {Q : α → Prop}
    (hk : ∀ r, ∃ a, k r = .done a) (h : ∀ s, S s → ∃ a s', (Prog.call c k).run exec s =
    some (a, s') ∧ Q a) :
    Yields (Given exec S) Q (.call c k) := by
  rintro r ⟨s, hs, hr⟩
  obtain ⟨a, ha⟩ := hk r
  obtain ⟨b, s', hrun, hb⟩ := h s hs
  dsimp only at hr
  rw [run_call, ← hr, ha, run_done] at hrun
  cases hrun
  rw [ha]
  exact hb

/-- A state that a run passes. -/
def Passes (exec : Exec C R σ) (x : Config C R α σ ι) (t : List (ι × Event C R)) (s : σ) : Prop :=
  ∃ before z, before <:+ t ∧ Trace exec x before z ∧ z.state = s

theorem Passes.earlier {s : σ} {e : ι × Event C R} (h : Passes exec x t s) :
    Passes exec x (e :: t) s := by
  obtain ⟨before, z, hle, hz, hs⟩ := h
  exact ⟨before, z, hle.trans (List.suffix_cons _ _), hz, hs⟩

theorem passes_end (run : Trace exec x t y) : Passes exec x t y.state :=
  ⟨t, y, List.suffix_rfl, run, rfl⟩

/-- The calls of a run say which states it passed. -/
theorem passes_state {s : σ} (h : Passes exec x t s) :
    ∃ before ∈ t.tails, s = before.foldr (fun e s => (exec e.2.1 s).2) x.state := by
  obtain ⟨before, z, hle, hz, rfl⟩ := h
  refine ⟨before, (List.mem_tails before t).mpr hle, ?_⟩
  clear hle
  induction hz with
  | nil => rfl
  | snoc _ hs ih =>
    cases hs with
    | call s p i c k hi =>
      rw [List.foldr_cons, ← ih]

/-- A state a run passes has every property that its start has and the calls of the run keep. -/
theorem passes_kept {inv : σ → Prop} (start : inv x.state)
    (keep : ∀ s, ∀ e ∈ t, inv s → inv (exec e.2.1 s).2) {s : σ} (h : Passes exec x t s) : inv s := by
  obtain ⟨before, z, hle, hz, rfl⟩ := h
  have hcalls : ∀ e ∈ before, e ∈ t := fun e he => hle.subset he
  clear hle
  induction hz with
  | nil => exact start
  | snoc _ hs ih =>
    have hbefore := ih fun e he => hcalls e (List.mem_cons_of_mem _ he)
    cases hs with
    | call s p i c k hi => exact keep s _ (hcalls _ List.mem_cons_self) hbefore

theorem passes_invariant {inv : σ → Prop} (start : inv x.state) (keep : ∀ s c, inv s → inv (exec c s).2)
    {s : σ} (h : Passes exec x t s) : inv s :=
  passes_kept start (fun s e _ hs => keep s e.2.1 hs) h

theorem trace_given {S : σ → Prop} (run : Trace exec x t y)
    (passes : ∀ before z, before <:+ t → Trace exec x before z → S z.state) {i : ι} {Q : α → Prop}
    (h : Yields (Given exec S) Q (x.threads i)) : Yields (Given exec S) Q (y.threads i) := by
  induction run with
  | nil => exact h
  | @snoc t y e z run hs ih =>
    have hy := ih fun before z hle => passes before z (hle.trans (List.suffix_cons _ _))
    cases hs with
    | call s p j c k hj =>
      by_cases hij : j = i
      · subst j
        simp only [hj, yields_call] at hy
        simpa using hy _ ⟨s, passes t _ (List.suffix_cons _ _) run, rfl⟩
      · simpa [Function.update_of_ne (Ne.symm hij)] using hy

/-- What a thread returns it made of replies of states on the way. -/
theorem trace_yields (run : Trace exec x t y) {i : ι} {Q : α → Prop} {a : α}
    (h : Yields (Given exec (Passes exec x t)) Q (x.threads i)) (ended : y.threads i = .done a) :
    Q a := by
  have hy := trace_given run (fun before z hle hz => ⟨before, z, hle, hz, rfl⟩) h
  rw [ended] at hy
  exact hy

end Runs

end Replies
