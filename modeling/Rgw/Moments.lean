import Rgw.Interaction
import Mathlib.Data.List.Infix
import Mathlib.Data.List.Nodup

/-! # The moments at which programs take effect

A program of several calls that runs among others may still act as if it were one call: at
some moment between its first call and its last it would, run alone, have answered the same
and left the state the same. Programs that all do so can be run one after another instead. -/
namespace Moments

open Interaction

variable {C : Type} {R : C → Type} {α σ ι : Type} {exec : Exec C R σ}

section Residuals

/-- What is left of a program after these calls, latest first. -/
inductive Goes (p : Prog C R α) : List (Event C R) → Prog C R α → Prop where
  | start : Goes p [] p
  | call {h : List (Event C R)} {c : C} {k : R c → Prog C R α} (before : Goes p h (.call c k))
      (r : R c) : Goes p (⟨c, r⟩ :: h) (k r)

variable {p q : Prog C R α} {h : List (Event C R)}

/-- The first call comes off at the other end. -/
theorem Goes.first {e : Event C R} (hg : Goes p (h ++ [e]) q) :
    ∃ k, p = .call e.1 k ∧ Goes (k e.2) h q := by
  generalize hl : h ++ [e] = l at hg
  induction hg generalizing h with
  | start => simp at hl
  | @call h' c k before r ih =>
    cases h with
    | nil =>
      obtain ⟨rfl, rfl⟩ := List.cons.inj hl
      cases before
      exact ⟨k, rfl, .start⟩
    | cons e' h =>
      obtain ⟨rfl, rfl⟩ := List.cons.inj hl
      obtain ⟨k', hp, hk⟩ := ih rfl
      exact ⟨k', hp, .call hk r⟩

theorem Goes.of_nil (hg : Goes p [] q) : p = q := by
  cases hg with
  | start => rfl

/-- A program that has ended went no further. -/
theorem Goes.of_done {a : α} (hg : Goes (.done a) h q) : h = [] ∧ q = .done a := by
  induction hg with
  | start => exact ⟨rfl, rfl⟩
  | call before r ih => cases ih.2

/-- A program with a call to make has yet to make it, or goes on from the answer. -/
theorem Goes.next {c : C} {k : R c → Prog C R α} (hg : Goes (.call c k) h q) :
    h = [] ∧ q = .call c k ∨ ∃ r h', h = h' ++ [⟨c, r⟩] ∧ Goes (k r) h' q := by
  rcases List.eq_nil_or_concat' h with rfl | ⟨h', ⟨c', r⟩, rfl⟩
  · exact Or.inl ⟨rfl, hg.of_nil.symm⟩
  · obtain ⟨k', hk, hrest⟩ := hg.first
    cases hk
    exact Or.inr ⟨r, h', rfl, hrest⟩

theorem Goes.of_call {c : C} {k : R c → Prog C R α} {a : α} (hg : Goes (.call c k) h (.done a)) :
    ∃ r h', h = h' ++ [⟨c, r⟩] ∧ Goes (k r) h' (.done a) := by
  rcases hg.next with ⟨-, hcut⟩ | hmade
  · cases hcut
  · exact hmade

/-- A program whose answers the state would give again, and stay, does the rest there. -/
theorem Goes.run_eq (hg : Goes p h q) {s : σ} (quiet : ∀ e ∈ h, exec e.1 s = (e.2, s)) :
    p.run exec s = q.run exec s := by
  induction hg with
  | start => rfl
  | call before r ih =>
    rw [ih fun e he => quiet e (List.mem_cons_of_mem _ he), run_call,
      quiet _ List.mem_cons_self]

variable [DecidableEq ι] {x y : Config C R α σ ι} {t : List (ι × Event C R)}

theorem trace_goes (run : Trace exec x t y) (i : ι) : Goes (x.threads i) (seen i t) (y.threads i) := by
  induction run with
  | nil => exact .start
  | snoc _ hs ih =>
    cases hs with
    | call s p j c k hj =>
      by_cases hij : j = i
      · subst j
        simp only [hj] at ih
        simpa using Goes.call ih (exec c s).1
      · rw [seen_cons_ne hij]
        simpa [Function.update_of_ne (Ne.symm hij)] using ih

/-- Who has ended stays so. -/
theorem trace_ended (run : Trace exec x t y) {i : ι} {a : α} (hx : x.threads i = .done a) :
    y.threads i = .done a := by
  have hg := trace_goes run i
  rw [hx] at hg
  exact hg.of_done.2

/-- A call of a run was the next one of its thread. -/
theorem trace_call (run : Trace exec x t y) {i : ι} {e : Event C R} (he : (i, e) ∈ t) :
    ∃ before z k, Trace exec x before z ∧ z.threads i = .call e.1 k := by
  induction run with
  | nil => cases he
  | snoc hr hs ih =>
    rcases List.mem_cons.mp he with hnow | he
    · cases hs with
      | call s p j c k hj =>
        cases hnow
        exact ⟨_, _, k, hr, hj⟩
    · exact ih he

end Residuals

section Offsets

/-- A discipline for what follows the calls `h₀`. -/
def Discipline.after (d : Discipline C R) (h₀ : List (Event C R)) : Discipline C R where
  allowed h c := ∃ h', h = h' ++ h₀ ∧ d.allowed h' c
  mayCut h := ∃ h', h = h' ++ h₀ ∧ d.mayCut h'

theorem obeys_after {d : Discipline C R} {Q : List (Event C R) → α → Prop} {p : Prog C R α}
    {h : List (Event C R)} (hp : p.Obeys d Q h) (h₀ : List (Event C R)) :
    p.Obeys (Discipline.after d h₀) (fun h' a => ∃ h, h' = h ++ h₀ ∧ Q h a) (h ++ h₀) := by
  induction p generalizing h with
  | done a => exact ⟨h, rfl, hp⟩
  | cut => exact ⟨h, rfl, hp⟩
  | call c k ih => exact ⟨⟨h, rfl, hp.1⟩, fun r => ih r (hp.2 r)⟩

end Offsets

section Splitting

/-- Of two moments of a run one is not later, or calls were made in between. -/
theorem split_before {β : Type} {t m after before after' : List β} (h : t = after ++ before)
    (h' : t = after' ++ m) : m <:+ before ∨ ∃ e later, m = e :: later ++ before ∧
      after = after' ++ e :: later := by
  subst h
  rcases List.append_eq_append_iff.mp h' with ⟨l, rfl, rfl⟩ | ⟨l, rfl, rfl⟩
  · exact Or.inl (List.suffix_append _ _)
  · cases l with
    | nil => exact Or.inl List.suffix_rfl
    | cons e later => exact Or.inr ⟨e, later, rfl, rfl⟩

variable [DecidableEq ι] {x y y' : Config C R α σ ι} {t before after : List (ι × Event C R)}
  {S : List (ι × Event C R) → Config C R α σ ι → ι × Event C R → Config C R α σ ι → Prop}

theorem step_state {e : ι × Event C R} (h : Step exec x e y) :
    e.2.2 = (exec e.2.1 x.state).1 ∧ y.state = (exec e.2.1 x.state).2 := by
  cases h with
  | call s p i c k hi => exact ⟨rfl, rfl⟩

theorem step_unique {e : ι × Event C R} {z : Config C R α σ ι} (h : Step exec x e y)
    (h' : Step exec x e z) : y = z := by
  cases h with
  | call s p i c k hi =>
    cases h' with
    | call _ _ _ _ k' hi' =>
      rw [hi] at hi'
      cases hi'
      rfl

/-- The calls of a run say what it came to. -/
theorem trace_unique (h : Trace exec x t y) (h' : Trace exec x t y') : y = y' := by
  induction h generalizing y' with
  | nil =>
    cases h'
    rfl
  | snoc _ hs ih =>
    cases h' with
    | snoc hr hs' =>
      obtain rfl := ih hr
      exact step_unique hs hs'

theorem trace_split (h : Trace exec x (after ++ before) y) :
    ∃ z, Trace exec x before z ∧ Trace exec z after y := by
  induction after generalizing y with
  | nil => exact ⟨y, h, .nil⟩
  | cons e after ih =>
    cases h with
    | snoc hr hs =>
      obtain ⟨z, hz, hy⟩ := ih hr
      exact ⟨z, hz, .snoc hy hs⟩

theorem trace_append {z : Config C R α σ ι} (h : Trace exec x before z) (h' : Trace exec z after y) :
    Trace exec x (after ++ before) y := by
  induction h' with
  | nil => exact h
  | snoc _ hs ih => exact .snoc ih hs

theorem seen_append (i : ι) : seen i (after ++ before) = seen i after ++ seen i before := by
  simp [seen]

theorem seen_suffix {i : ι} (h : before <:+ t) : seen i before <:+ seen i t := by
  obtain ⟨after, rfl⟩ := h
  rw [seen_append]
  exact List.suffix_append _ _

/-- What holds along a run holds of each of its steps. -/
theorem Along.step {e : ι × Event C R} {z z' : Config C R α σ ι} (h : Along exec S x t y)
    (made : e :: before <:+ t) (run : Trace exec x before z) (hs : Step exec z e z') :
    S before z e z' := by
  induction h with
  | nil => cases List.suffix_nil.mp made
  | @snoc t y e' w hr hs' hS ih =>
    rcases List.suffix_cons_iff.mp made with he | hlater
    · obtain ⟨rfl, rfl⟩ := List.cons.inj he
      obtain rfl := trace_unique run hr.trace
      obtain rfl := step_unique hs hs'
      exact hS
    · exact ih hlater

/-- An answer is one that the state gave when the call was made. -/
theorem trace_reply (h : Trace exec x t y) {e : ι × Event C R} (he : e ∈ t) :
    ∃ before z, e :: before <:+ t ∧ Trace exec x before z ∧ e.2.2 = (exec e.2.1 z.state).1 := by
  induction h with
  | nil => cases he
  | @snoc t y f z hr hs ih =>
    rcases List.mem_cons.mp he with rfl | he
    · exact ⟨t, y, List.suffix_rfl, hr, (step_state hs).1⟩
    · obtain ⟨before, w, made, hw, hreply⟩ := ih he
      exact ⟨before, w, made.trans (List.suffix_cons _ _), hw, hreply⟩

/-- A run is as `S` says when each of its steps is. -/
theorem Trace.along_steps (h : Trace exec x t y) (hi : ∀ e before z z', e :: before <:+ t →
    Trace exec x before z → Step exec z e z' → S before z e z') : Along exec S x t y := by
  induction h with
  | nil => exact .nil
  | snoc hr hs ih =>
    refine .snoc (ih ?_) hs (hi _ _ _ _ List.suffix_rfl hr hs)
    intro e before z z' made
    exact hi e before z z' (made.trans (List.suffix_cons _ _))

/-- Where a thread's latest call stands. -/
theorem seen_split {i : ι} {e : Event C R} {h : List (Event C R)} (hs : seen i t = e :: h) :
    ∃ after before, t = after ++ (i, e) :: before ∧ seen i after = [] ∧ seen i before = h := by
  induction t with
  | nil => cases hs
  | cons f t ih =>
    obtain ⟨j, f⟩ := f
    by_cases hj : j = i
    · subst j
      rw [seen_cons_self] at hs
      obtain ⟨rfl, rfl⟩ := List.cons.inj hs
      exact ⟨[], t, rfl, rfl, rfl⟩
    · rw [seen_cons_ne hj] at hs
      obtain ⟨after, before, rfl, hafter, hbefore⟩ := ih hs
      exact ⟨(j, f) :: after, before, rfl, by rw [seen_cons_ne hj, hafter], hbefore⟩

/-- Where a thread's first call stands. -/
theorem seen_first {i : ι} {e : Event C R} {h : List (Event C R)} (hs : seen i t = h ++ [e]) :
    ∃ after before, t = after ++ (i, e) :: before ∧ seen i after = h ∧ seen i before = [] := by
  induction t generalizing h with
  | nil => simp at hs
  | cons f t ih =>
    obtain ⟨j, f⟩ := f
    by_cases hj : j = i
    · subst j
      rw [seen_cons_self] at hs
      cases h with
      | nil =>
        obtain ⟨rfl, hnone⟩ := List.cons.inj hs
        exact ⟨[], t, rfl, rfl, hnone⟩
      | cons g h =>
        obtain ⟨rfl, hrest⟩ := List.cons.inj hs
        obtain ⟨after, before, rfl, hafter, hbefore⟩ := ih hrest
        exact ⟨_ :: after, before, rfl, by rw [seen_cons_self, hafter], hbefore⟩
    · rw [seen_cons_ne hj] at hs
      obtain ⟨after, before, rfl, hafter, hbefore⟩ := ih hs
      exact ⟨(j, f) :: after, before, rfl, by rw [seen_cons_ne hj, hafter], hbefore⟩

/-- A run around the first and the last call of a thread, with what it called in between. -/
inductive FirstLast (exec : Exec C R σ) (x : Config C R α σ ι) (i : ι) (first last : Event C R)
    (inner : List (Event C R)) (y : Config C R α σ ι) : List (ι × Event C R) → Prop where
  | mk {after between before : List (ι × Event C R)} {z₁ z₁' z₂ z₂' : Config C R α σ ι}
      (done : seen i after = []) (calls : seen i between = inner) (fresh : seen i before = [])
      (start : Trace exec x before z₁) (call₁ : Step exec z₁ (i, first) z₁')
      (middle : Trace exec z₁' between z₂) (call₂ : Step exec z₂ (i, last) z₂')
      (rest : Trace exec z₂' after y) :
      FirstLast exec x i first last inner y
        (after ++ (i, last) :: (between ++ (i, first) :: before))

theorem first_last (run : Trace exec x t y) {i : ι} {first last : Event C R}
    {inner : List (Event C R)} (hs : seen i t = last :: (inner ++ [first])) :
    FirstLast exec x i first last inner y t := by
  obtain ⟨after, prior, rfl, hafter, hprior⟩ := seen_split hs
  obtain ⟨between, before, rfl, hbetween, hbefore⟩ := seen_first hprior
  obtain ⟨w, hw, hrest⟩ := trace_split run
  cases hw with
  | snoc hr hs₂ =>
    obtain ⟨w', hw', hmiddle⟩ := trace_split hr
    cases hw' with
    | snoc hstart hs₁ => exact .mk hafter hbetween hbefore hstart hs₁ hmiddle hs₂ hrest

end Splitting

section Effects

variable [DecidableEq ι]

/-- Apart from the latest call of `m`, no call of the thread changes anything. -/
def StillBut (i : ι) (m before : List (ι × Event C R)) (y : Config C R α σ ι)
    (e : ι × Event C R) (z : Config C R α σ ι) : Prop :=
  e.1 = i → e :: before ≠ m → z.state = y.state

/-- All a thread did in a run it did when just the calls `m` were made: alone it would have
answered and left the same there, and nothing else it did changed the state. That moment is
neither before its first call nor after its last. -/
inductive EffectAt (exec : Exec C R σ) (x : Config C R α σ ι) (i : ι) (a : α)
    (t : List (ι × Event C R)) (y : Config C R α σ ι) : List (ι × Event C R) → Prop where
  | idle (answer : x.threads i = .done a) : EffectAt exec x i a t y []
  | call {before : List (ι × Event C R)} {e : Event C R} {z z' : Config C R α σ ι}
      (made : (i, e) :: before <:+ t) (run : Trace exec x before z) (step : Step exec z (i, e) z')
      (alone : (x.threads i).run exec z.state = some (a, z'.state))
      (still : Along exec (StillBut i ((i, e) :: before)) x t y) :
      EffectAt exec x i a t y ((i, e) :: before)
  | between {after before : List (ι × Event C R)} {z : Config C R α σ ι}
      (split : t = after ++ before) (run : Trace exec x before z) (begun : seen i before ≠ [])
      (unfinished : seen i after ≠ []) (alone : (x.threads i).run exec z.state = some (a, z.state))
      (still : Along exec (StillBut i []) x t y) : EffectAt exec x i a t y before

/-- A thread answered `a` and took effect at one moment of the run. -/
def TookEffect (exec : Exec C R σ) (x : Config C R α σ ι) (i : ι) (a : α)
    (t : List (ι × Event C R)) (y : Config C R α σ ι) : Prop :=
  ∃ m, EffectAt exec x i a t y m

/-- One thread made its last call before another made its first. -/
def Before (t : List (ι × Event C R)) (i j : ι) : Prop :=
  ∃ after before, t = after ++ before ∧ seen i before ≠ [] ∧ seen i after = [] ∧
    seen j before = [] ∧ seen j after ≠ []

variable {x y : Config C R α σ ι} {i j : ι} {a b : α} {t m m' : List (ι × Event C R)}

theorem EffectAt.suffix (h : EffectAt exec x i a t y m) : m <:+ t := by
  cases h with
  | idle answer => exact List.nil_suffix
  | call made => exact made
  | between split =>
    rw [split]
    exact List.suffix_append _ _

/-- A thread that made calls had begun at its moment. -/
theorem EffectAt.begun (h : EffectAt exec x i a t y m) (run : Trace exec x t y)
    (hi : seen i t ≠ []) : seen i m ≠ [] := by
  cases h with
  | idle answer =>
    have hg := trace_goes run i
    rw [answer] at hg
    exact absurd hg.of_done.1 hi
  | call => simp
  | between _ _ begun => exact begun

/-- By its last call a thread's moment has come. -/
theorem EffectAt.ended (h : EffectAt exec x i a t y m) {after before : List (ι × Event C R)}
    (split : t = after ++ before) (hi : seen i after = []) : m <:+ before := by
  obtain ⟨after', hafter⟩ := h.suffix
  rcases split_before split hafter.symm with hle | ⟨e, later, hm, rfl⟩
  · exact hle
  cases h with
  | idle answer => exact List.nil_suffix
  | @call b e' z z' made run step alone still =>
    obtain ⟨rfl, -⟩ := List.cons.inj hm
    rw [seen_append, seen_cons_self] at hi
    simp at hi
  | between split' run begun unfinished alone still =>
    obtain rfl := List.append_cancel_right (split'.symm.trans hafter.symm)
    rw [seen_append] at hi
    exact absurd (List.append_eq_nil_iff.mp hi).1 unfinished

/-- A thread that ended before another began had its moment first. -/
theorem EffectAt.not_before (hi : EffectAt exec x i a t y m) (hj : EffectAt exec x j b t y m')
    (run : Trace exec x t y) (hle : m <:+ m') : ¬Before t j i := by
  rintro ⟨after, before, split, -, hover, hstart, hleft⟩
  have hlate : m <:+ before := hle.trans (hj.ended split hover)
  have hcalls : seen i t ≠ [] := by
    rw [split, seen_append]
    simp [hleft]
  have hnone := (seen_suffix (i := i) hlate)
  rw [hstart] at hnone
  exact hi.begun run hcalls (List.suffix_nil.mp hnone)

/-- The calls a thread made before its latest one are earlier in the run. -/
theorem made_before {after before before' : List (ι × Event C R)} {e f : Event C R}
    (split : t = after ++ (i, e) :: before) (hafter : seen i after = [])
    (made : (i, f) :: before' <:+ t) (hne : (i, f) :: before' ≠ (i, e) :: before) :
    f ∈ seen i before := by
  obtain ⟨after', hafter'⟩ := made
  rcases split_before split hafter'.symm with hle | ⟨g, later, hm, rfl⟩
  · rcases List.suffix_cons_iff.mp hle with heq | hle
    · exact absurd heq hne
    · exact mem_seen.mpr (hle.subset List.mem_cons_self)
  · obtain ⟨rfl, -⟩ := List.cons.inj hm
    rw [seen_append, seen_cons_self] at hafter
    simp at hafter

variable {after before : List (ι × Event C R)} {e : Event C R} {z z' : Config C R α σ ι}

/-- What a thread answered it would have answered at its last call, had its earlier answers
been the same there. -/
theorem run_again (run : Trace exec x before z) (step : Step exec z (i, e) z')
    (ended : z'.threads i = .done a) (again : ∀ f ∈ seen i before, exec f.1 z.state = (f.2, z.state)) :
    (x.threads i).run exec z.state = some (a, z'.state) := by
  rw [(trace_goes run i).run_eq again]
  cases step with
  | call s p _ c k hi =>
    have hk : Function.update p i (k (exec c s).1) i = .done a := ended
    rw [Function.update_self] at hk
    change (p i).run exec s = _
    rw [hi, run_call, hk, run_done]

/-- A thread that changes nothing until its last call may take effect there. -/
theorem tookEffect_last (run : Trace exec x (after ++ (i, e) :: before) y) (hafter : seen i after = [])
    (hz : Trace exec x before z) (step : Step exec z (i, e) z')
    (alone : (x.threads i).run exec z.state = some (a, z'.state))
    (silent : ∀ f ∈ seen i before, ∀ s, (exec f.1 s).2 = s) :
    TookEffect exec x i a (after ++ (i, e) :: before) y := by
  refine ⟨(i, e) :: before, .call (List.suffix_append _ _) hz step alone ?_⟩
  refine Trace.along_steps run fun f before' w w' made _ hstep he hne => ?_
  obtain ⟨j, f⟩ := f
  obtain rfl : j = i := he
  have hf := made_before rfl hafter made hne
  cases hstep with
  | call s p i c k hi => exact silent _ hf s

end Effects

section Orders

/-- Programs run alone, one after another. -/
inductive Serial (exec : Exec C R σ) (p : ι → Prog C R α) (a : ι → α) : List ι → σ → σ → Prop where
  | nil (s : σ) : Serial exec p a [] s s
  | snoc {order : List ι} {s s' s'' : σ} {i : ι} (before : Serial exec p a order s s')
      (alone : (p i).run exec s' = some (a i, s'')) : Serial exec p a (order ++ [i]) s s''

variable {p : ι → Prog C R α} {a : ι → α}

theorem Serial.reads {order l : List ι} {s s' : σ} (h : Serial exec p a order s s')
    (reads : ∀ i ∈ l, (p i).run exec s' = some (a i, s')) : Serial exec p a (order ++ l) s s' := by
  induction l using List.reverseRecOn with
  | nil => simpa using h
  | append_singleton l i ih =>
    rw [← List.append_assoc]
    exact .snoc (ih fun j hj => reads j (by simp [hj])) (reads i (by simp))

variable [DecidableEq ι] {x y z z' : Config C R α σ ι} {i : ι} {b : α} {L : List ι}
  {t m before : List (ι × Event C R)} {e : ι × Event C R} {μ : ι → List (ι × Event C R)}

/-- Every other call of a thread changed nothing. -/
theorem EffectAt.still (h : EffectAt exec x e.1 b t y m) (made : e :: before <:+ t)
    (run : Trace exec x before z) (step : Step exec z e z') (hm : e :: before ≠ m) :
    z'.state = z.state := by
  cases h with
  | idle answer =>
    have hg := trace_goes run e.1
    rw [answer] at hg
    cases step with
    | call s p i c k hi => cases hi.symm.trans hg.of_done.2
  | call _ _ _ _ still => exact Along.step still made run step rfl hm
  | between _ _ _ _ _ still => exact Along.step still made run step rfl (List.cons_ne_nil _ _)

/-- At its moment a thread makes the call that counts, or could have been run right after. -/
theorem EffectAt.alone (h : EffectAt exec x i b t y (e :: before)) (run : Trace exec x before z)
    (step : Step exec z e z') :
    e.1 = i ∧ (x.threads i).run exec z.state = some (b, z'.state) ∨
      (x.threads i).run exec z'.state = some (b, z'.state) ∧ (e.1 = i → z'.state = z.state) := by
  cases h with
  | call _ run' step' alone _ =>
    obtain rfl := trace_unique run run'
    obtain rfl := step_unique step step'
    exact Or.inl ⟨rfl, alone⟩
  | between split run' _ _ alone still =>
    obtain rfl := trace_unique (Trace.snoc run step) run'
    have made : e :: before <:+ t := split ▸ List.suffix_append _ _
    exact Or.inr ⟨alone, fun he => Along.step still made run step he (List.cons_ne_nil _ _)⟩

open scoped Classical in
/-- Whoever takes effect at a call is run after those before it: first the caller, if it is
among them, then the others. -/
theorem serial_step (nodup : L.Nodup) (eff : ∀ i ∈ L, EffectAt exec x i (a i) t y (μ i))
    (rest : Along exec (fun _ y e z => e.1 ∉ L → z.state = y.state) x t y)
    (made : e :: before <:+ t) (run : Trace exec x before z) (step : Step exec z e z') :
    ∃ now : List ι, now.Nodup ∧ (∀ i, i ∈ now ↔ i ∈ L ∧ μ i = e :: before) ∧
      ∀ order s, Serial exec x.threads a order s z.state →
        Serial exec x.threads a (order ++ now) s z'.state := by
  by_cases hw : (e.1 ∈ L ∧ μ e.1 = e :: before) ∧
      (x.threads e.1).run exec z.state = some (a e.1, z'.state)
  · obtain ⟨⟨hL, hμ⟩, hrun⟩ := hw
    refine ⟨e.1 :: (L.filter fun i => μ i = e :: before ∧ i ≠ e.1), ?_, fun i => ?_, ?_⟩
    · exact List.nodup_cons.mpr ⟨by simp, nodup.filter _⟩
    · by_cases hi : i = e.1
      · subst hi
        simp [hL, hμ]
      · simp [hi]
    · intro order s hserial
      rw [List.append_cons]
      refine (hserial.snoc hrun).reads fun i hi => ?_
      simp only [List.mem_filter, decide_eq_true_eq] at hi
      obtain ⟨hiL, hiμ, hne⟩ := hi
      rcases (hiμ ▸ eff i hiL).alone run step with ⟨he, -⟩ | ⟨halone, -⟩
      · exact absurd he.symm hne
      · exact halone
  · have hsame : z'.state = z.state := by
      by_cases hL : e.1 ∈ L
      · by_cases hμ : μ e.1 = e :: before
        · rcases (hμ ▸ eff e.1 hL).alone run step with ⟨-, hrun⟩ | ⟨-, hsame⟩
          · exact absurd ⟨⟨hL, hμ⟩, hrun⟩ hw
          · exact hsame rfl
        · exact (eff e.1 hL).still made run step (Ne.symm hμ)
      · exact Along.step rest made run step hL
    refine ⟨L.filter fun i => μ i = e :: before, nodup.filter _, fun i => by simp, ?_⟩
    intro order s hserial
    refine (hsame ▸ hserial).reads fun i hi => ?_
    simp only [List.mem_filter, decide_eq_true_eq] at hi
    obtain ⟨hiL, hiμ⟩ := hi
    rcases (hiμ ▸ eff i hiL).alone run step with ⟨rfl, hrun⟩ | ⟨halone, -⟩
    · exact absurd ⟨⟨hiL, hiμ⟩, hrun⟩ hw
    · exact halone

open scoped Classical in
/-- Up to any moment of a run, the threads that took effect could have been run in the order
of their moments. -/
theorem serial_upto (nodup : L.Nodup) (eff : ∀ i ∈ L, EffectAt exec x i (a i) t y (μ i))
    (rest : Along exec (fun _ y e z => e.1 ∉ L → z.state = y.state) x t y)
    (run : Trace exec x before z) (made : before <:+ t) :
    ∃ order : List ι, order.Nodup ∧ (∀ i, i ∈ order ↔ i ∈ L ∧ μ i <:+ before) ∧
      Serial exec x.threads a order x.state z.state ∧ order.Pairwise fun i j => μ i <:+ μ j := by
  induction run with
  | nil =>
    have hnil : ∀ i ∈ L.filter fun i => μ i = [], μ i = [] := by simp
    refine ⟨L.filter fun i => μ i = [], nodup.filter _, fun i => by simp, ?_, ?_⟩
    · have hstart : Serial exec x.threads a [] x.state x.state := .nil x.state
      refine hstart.reads (l := L.filter fun i => μ i = []) fun i hi => ?_
      have heff := eff i (List.mem_filter.mp hi).1
      rw [hnil i hi] at heff
      cases heff with
      | idle answer => rw [answer, run_done]
      | between _ _ begun => exact absurd (seen_nil i) begun
    · refine List.pairwise_of_forall_mem_list fun i hi j _ => ?_
      rw [hnil i hi]
      exact List.nil_suffix
  | @snoc before z e z' hr step ih =>
    obtain ⟨order, hnodup, hmem, hserial, horder⟩ := ih ((List.suffix_cons _ _).trans made)
    obtain ⟨now, hnow, hnowMem, hextend⟩ := serial_step nodup eff rest made hr step
    have hlater : ∀ i ∈ order, ∀ j ∈ now, μ i <:+ μ j ∧ i ≠ j := by
      intro i hi j hj
      have hle := ((hmem i).mp hi).2
      have hat := ((hnowMem j).mp hj).2
      refine ⟨hat ▸ hle.trans (List.suffix_cons _ _), ?_⟩
      rintro rfl
      have hlen := hle.length_le
      rw [hat, List.length_cons] at hlen
      omega
    refine ⟨order ++ now, ?_, fun i => ?_, hextend order x.state hserial, ?_⟩
    · exact List.nodup_append.mpr ⟨hnodup, hnow, fun i hi j hj => (hlater i hi j hj).2⟩
    · rw [List.mem_append, hmem, hnowMem, List.suffix_cons_iff]
      tauto
    · refine List.pairwise_append.mpr ⟨horder, ?_, fun i hi j hj => (hlater i hi j hj).1⟩
      refine List.pairwise_of_forall_mem_list fun i hi j hj => ?_
      rw [((hnowMem i).mp hi).2, ((hnowMem j).mp hj).2]

/-- Threads that each took effect at one moment, among others that changed nothing, can be run
one after another with the same answers and the same end, in an order that keeps to the one
in which they ran when they did not overlap. -/
theorem serial (run : Trace exec x t y) (nodup : L.Nodup)
    (eff : ∀ i ∈ L, TookEffect exec x i (a i) t y)
    (rest : Along exec (fun _ y e z => e.1 ∉ L → z.state = y.state) x t y) :
    ∃ order : List ι, order.Perm L ∧ Serial exec x.threads a order x.state y.state ∧
      order.Pairwise fun i j => ¬Before t j i := by
  choose! μ hμ using eff
  obtain ⟨order, hnodup, hmem, hserial, horder⟩ :=
    serial_upto nodup hμ rest run List.suffix_rfl
  have hmem' : ∀ i, i ∈ order ↔ i ∈ L := by
    intro i
    rw [hmem]
    exact ⟨fun h => h.1, fun h => ⟨h, (hμ i h).suffix⟩⟩
  refine ⟨order, (List.perm_ext_iff_of_nodup hnodup nodup).mpr hmem', hserial, ?_⟩
  refine horder.imp_of_mem fun {i j} hi hj hle => ?_
  exact (hμ i ((hmem' i).mp hi)).not_before (hμ j ((hmem' j).mp hj)) run hle

end Orders

end Moments
