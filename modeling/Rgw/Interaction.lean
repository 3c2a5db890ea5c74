import Mathlib.Logic.Function.Basic
import Mathlib.Data.List.Basic
import Mathlib.Tactic.Common

/-! # Programs that interact with a shared state

A program is a tree of calls and continuations. Calls are atomic; between two calls of one
thread any other thread may call. An unbounded loop is unrolled to a limit and cut there,
so a statement about every limit is one about the loop. -/
namespace Interaction

variable {C : Type} {R : C → Type} {α β ε σ ι : Type}

inductive Prog (C : Type) (R : C → Type) (α : Type) where
  | done (a : α)
  | cut
  | call (c : C) (k : R c → Prog C R α)

def Prog.bind : Prog C R α → (α → Prog C R β) → Prog C R β
  | .done a, f => f a
  | .cut, _ => .cut
  | .call c k, f => .call c fun r => (k r).bind f

instance : Monad (Prog C R) where
  pure := .done
  bind := .bind

@[simp] theorem pure_eq (a : α) : (pure a : Prog C R α) = .done a := rfl
@[simp] theorem done_bind (a : α) (f : α → Prog C R β) : (Prog.done a >>= f) = f a := rfl
@[simp] theorem cut_bind (f : α → Prog C R β) : ((.cut : Prog C R α) >>= f) = .cut := rfl
@[simp] theorem call_bind (c : C) (k : R c → Prog C R α) (f : α → Prog C R β) :
    (Prog.call c k >>= f) = .call c fun r => k r >>= f := rfl

theorem bind_done (p : Prog C R α) : (p >>= Prog.done) = p := by
  induction p with
  | done => rfl
  | cut => rfl
  | call c k ih => rw [call_bind]; exact congrArg _ (funext ih)

theorem bind_assoc' {γ : Type} (p : Prog C R α) (f : α → Prog C R β) (g : β → Prog C R γ) :
    (p >>= f) >>= g = p >>= fun a => f a >>= g := by
  induction p with
  | done => rfl
  | cut => rfl
  | call c k ih => simp only [call_bind]; exact congrArg _ (funext ih)

instance : LawfulMonad (Prog C R) :=
  LawfulMonad.mk' (Prog C R) bind_done (fun _ _ => rfl) bind_assoc'

/-- How the shared state answers a call. -/
abbrev Exec (C : Type) (R : C → Type) (σ : Type) := (c : C) → σ → R c × σ

section Sequential

/-- A program run with nothing in between; nothing when it is cut. -/
def Prog.run (exec : Exec C R σ) : Prog C R α → σ → Option (α × σ)
  | .done a, s => some (a, s)
  | .cut, _ => none
  | .call c k, s => (k (exec c s).1).run exec (exec c s).2

variable (exec : Exec C R σ)

@[simp] theorem run_done (a : α) (s : σ) : (Prog.done a : Prog C R α).run exec s = some (a, s) := rfl
@[simp] theorem run_cut (s : σ) : (.cut : Prog C R α).run exec s = none := rfl
@[simp] theorem run_call (c : C) (k : R c → Prog C R α) (s : σ) :
    (Prog.call c k).run exec s = (k (exec c s).1).run exec (exec c s).2 := rfl

theorem run_bind (p : Prog C R α) (f : α → Prog C R β) (s : σ) :
    (p >>= f).run exec s = (p.run exec s).bind fun x => (f x.1).run exec x.2 := by
  induction p generalizing s with
  | done => rfl
  | cut => rfl
  | call c k ih => exact ih _ _

/-- Partial correctness of a run from `s`. -/
def Prog.Ensures (p : Prog C R α) (s : σ) (Q : α → σ → Prop) : Prop :=
  ∀ a s', p.run exec s = some (a, s') → Q a s'

variable {exec}

theorem ensures_done {a : α} {s : σ} {Q : α → σ → Prop} :
    (Prog.done a : Prog C R α).Ensures exec s Q ↔ Q a s := by
  simp [Prog.Ensures]

theorem ensures_call {c : C} {k : R c → Prog C R α} {s : σ} {Q : α → σ → Prop} :
    (Prog.call c k).Ensures exec s Q ↔ (k (exec c s).1).Ensures exec (exec c s).2 Q := Iff.rfl

theorem ensures_bind {p : Prog C R α} {f : α → Prog C R β} {s : σ} {Q : β → σ → Prop} :
    (p >>= f).Ensures exec s Q ↔ p.Ensures exec s fun a s' => (f a).Ensures exec s' Q := by
  constructor
  · intro h a s' hp b s'' hf
    exact h b s'' (by rw [run_bind, hp]; exact hf)
  · intro h b s'' hr
    rw [run_bind] at hr
    obtain ⟨⟨a, s'⟩, hp, hf⟩ := Option.bind_eq_some_iff.mp hr
    exact h a s' hp b s'' hf

theorem Prog.Ensures.mono {p : Prog C R α} {s : σ} {P Q : α → σ → Prop}
    (h : p.Ensures exec s P) (hi : ∀ a s', P a s' → Q a s') : p.Ensures exec s Q :=
  fun a s' hr => hi a s' (h a s' hr)

end Sequential

/-- A call with the answer it got. -/
abbrev Event (C : Type) (R : C → Type) := (c : C) × R c

section Discipline

/-- What a program may call, and when a loop of it may be cut, after the calls so far. -/
structure Discipline (C : Type) (R : C → Type) where
  allowed : List (Event C R) → C → Prop
  mayCut : List (Event C R) → Prop

/-- Whatever the answers are, each call is allowed by the answers before it (latest first),
and `Q` holds of the result. -/
def Prog.Obeys (d : Discipline C R) (Q : List (Event C R) → α → Prop) :
    Prog C R α → List (Event C R) → Prop
  | .done a, h => Q h a
  | .cut, h => d.mayCut h
  | .call c k, h => d.allowed h c ∧ ∀ r, (k r).Obeys d Q (⟨c, r⟩ :: h)

variable {d : Discipline C R} {h : List (Event C R)}

@[simp] theorem obeys_done {Q : List (Event C R) → α → Prop} {a : α} :
    (Prog.done a).Obeys d Q h ↔ Q h a := Iff.rfl
@[simp] theorem obeys_cut {Q : List (Event C R) → α → Prop} :
    (.cut : Prog C R α).Obeys d Q h ↔ d.mayCut h := Iff.rfl
@[simp] theorem obeys_call {Q : List (Event C R) → α → Prop} {c : C} {k : R c → Prog C R α} :
    (Prog.call c k).Obeys d Q h ↔ d.allowed h c ∧ ∀ r, (k r).Obeys d Q (⟨c, r⟩ :: h) := Iff.rfl

theorem Prog.Obeys.mono {p : Prog C R α} {P Q : List (Event C R) → α → Prop}
    (hp : p.Obeys d P h) (hi : ∀ h' a, h <:+ h' → P h' a → Q h' a) : p.Obeys d Q h := by
  induction p generalizing h with
  | done a => exact hi h a List.suffix_rfl hp
  | cut => exact hp
  | call c k ih =>
    exact ⟨hp.1, fun r => ih r (hp.2 r) fun h' a hs => hi h' a ((List.suffix_cons _ _).trans hs)⟩

/-- What keeps to a discipline keeps to a laxer one. -/
theorem Prog.Obeys.weaken {d' : Discipline C R} {p : Prog C R α} {Q : List (Event C R) → α → Prop}
    (hp : p.Obeys d Q h) (ha : ∀ h c, d.allowed h c → d'.allowed h c)
    (hc : ∀ h, d.mayCut h → d'.mayCut h) : p.Obeys d' Q h := by
  induction p generalizing h with
  | done a => exact hp
  | cut => exact hc h hp
  | call c k ih => exact ⟨ha h c hp.1, fun r => ih r (hp.2 r)⟩

/-- Two disciplines at once. -/
def Discipline.both (d d' : Discipline C R) : Discipline C R where
  allowed h c := d.allowed h c ∧ d'.allowed h c
  mayCut h := d.mayCut h ∧ d'.mayCut h

theorem Prog.Obeys.and {d' : Discipline C R} {p : Prog C R α} {P Q : List (Event C R) → α → Prop}
    (hp : p.Obeys d P h) (hp' : p.Obeys d' Q h) :
    p.Obeys (d.both d') (fun h' a => P h' a ∧ Q h' a) h := by
  induction p generalizing h with
  | done a => exact ⟨hp, hp'⟩
  | cut => exact ⟨hp, hp'⟩
  | call c k ih => exact ⟨⟨hp.1, hp'.1⟩, fun r => ih r (hp.2 r) (hp'.2 r)⟩

theorem obeys_bind {p : Prog C R α} {f : α → Prog C R β} {Q : List (Event C R) → β → Prop} :
    (p >>= f).Obeys d Q h ↔ p.Obeys d (fun h' a => (f a).Obeys d Q h') h := by
  induction p generalizing h with
  | done => rfl
  | cut => rfl
  | call c k ih => simp only [call_bind, obeys_call, ih]

end Discipline

section Alone

/-- An invariant that every allowed call keeps holds at the end of a run on its own. -/
theorem run_invariant {exec : Exec C R σ} {d : Discipline C R} (inv : List (Event C R) → σ → Prop)
    (keep : ∀ h s c, inv h s → d.allowed h c → inv (⟨c, (exec c s).1⟩ :: h) (exec c s).2)
    {Q : List (Event C R) → α → Prop} {p : Prog C R α} {h : List (Event C R)} {s s' : σ} {a : α}
    (hs : inv h s) (hp : p.Obeys d Q h) (hr : p.run exec s = some (a, s')) :
    ∃ h', inv h' s' ∧ Q h' a := by
  induction p generalizing h s with
  | done b =>
    cases hr
    exact ⟨h, hs, hp⟩
  | cut => cases hr
  | call c k ih => exact ih _ (keep h s c hs hp.1) (hp.2 _) hr

/-- What may call anything and is never cut. -/
def uncut (C : Type) (R : C → Type) : Discipline C R := ⟨fun _ _ => True, fun _ => False⟩

/-- A program that is never cut returns. -/
theorem run_uncut {exec : Exec C R σ} {Q : List (Event C R) → α → Prop} {p : Prog C R α}
    {h : List (Event C R)} (hp : p.Obeys (uncut C R) Q h) (s : σ) : ∃ r, p.run exec s = some r := by
  induction p generalizing h s with
  | done a => exact ⟨(a, s), rfl⟩
  | cut => exact hp.elim
  | call c k ih => exact ih _ (hp.2 _) _

end Alone

section Related

/-- Two states that answer every allowed call alike, and stay related, cannot be told apart
by a program that obeys. -/
theorem run_related {σ₁ σ₂ : Type} {e₁ : Exec C R σ₁} {e₂ : Exec C R σ₂} {d : Discipline C R}
    (rel : List (Event C R) → σ₁ → σ₂ → Prop)
    (keep : ∀ h s₁ s₂ c, rel h s₁ s₂ → d.allowed h c → (e₁ c s₁).1 = (e₂ c s₂).1 ∧
      rel (⟨c, (e₁ c s₁).1⟩ :: h) (e₁ c s₁).2 (e₂ c s₂).2)
    (whole : ∀ h s₁ s₂, rel h s₁ s₂ → ¬d.mayCut h)
    {Q : List (Event C R) → α → Prop} {p : Prog C R α} {h : List (Event C R)} {s₁ : σ₁} {s₂ : σ₂}
    (hs : rel h s₁ s₂) (hp : p.Obeys d Q h) :
    ∃ a t₁ t₂ h', p.run e₁ s₁ = some (a, t₁) ∧ p.run e₂ s₂ = some (a, t₂) ∧ rel h' t₁ t₂ ∧
      Q h' a := by
  induction p generalizing h s₁ s₂ with
  | done a => exact ⟨a, s₁, s₂, h, rfl, rfl, hs, hp⟩
  | cut => exact absurd hp (whole h s₁ s₂ hs)
  | call c k ih =>
    obtain ⟨hr, hs'⟩ := keep h s₁ s₂ c hs hp.1
    simp only [run_call, ← hr]
    exact ih _ hs' (hp.2 _)

end Related

section Interleaved

structure Config (C : Type) (R : C → Type) (α σ ι : Type) where
  state : σ
  threads : ι → Prog C R α

variable [DecidableEq ι]

/-- One atomic call of one thread. -/
inductive Step (exec : Exec C R σ) : Config C R α σ ι → ι × Event C R → Config C R α σ ι → Prop where
  | call (s : σ) (p : ι → Prog C R α) (i : ι) (c : C) (k : R c → Prog C R α)
      (hi : p i = .call c k) :
      Step exec ⟨s, p⟩ (i, ⟨c, (exec c s).1⟩)
        ⟨(exec c s).2, Function.update p i (k (exec c s).1)⟩

/-- A run from a configuration with its calls, latest first. -/
inductive Trace (exec : Exec C R σ) (x : Config C R α σ ι) :
    List (ι × Event C R) → Config C R α σ ι → Prop where
  | nil : Trace exec x [] x
  | snoc {t y e z} : Trace exec x t y → Step exec y e z → Trace exec x (e :: t) z

/-- What one thread has seen of a run. -/
def seen (i : ι) (t : List (ι × Event C R)) : List (Event C R) :=
  (t.filter fun e => e.1 = i).map Prod.snd

@[simp] theorem seen_nil (i : ι) : seen i ([] : List (ι × Event C R)) = [] := rfl
@[simp] theorem seen_cons_self (i : ι) (e : Event C R) (t : List (ι × Event C R)) :
    seen i ((i, e) :: t) = e :: seen i t := by simp [seen]
theorem seen_cons_ne {i j : ι} (hij : j ≠ i) (e : Event C R) (t : List (ι × Event C R)) :
    seen i ((j, e) :: t) = seen i t := by simp [seen, hij]

theorem mem_seen {i : ι} {e : Event C R} {t : List (ι × Event C R)} :
    e ∈ seen i t ↔ (i, e) ∈ t := by
  simp [seen]

variable {exec : Exec C R σ} {d : ι → Discipline C R}
  {Q : ι → List (Event C R) → α → Prop}

theorem step_obeys {x y : Config C R α σ ι} {i : ι} {e : Event C R} {t : List (ι × Event C R)}
    (hs : Step exec x (i, e) y)
    (hx : ∀ j, (x.threads j).Obeys (d j) (Q j) (seen j t)) :
    (d i).allowed (seen i t) e.1 ∧
      ∀ j, (y.threads j).Obeys (d j) (Q j) (seen j ((i, e) :: t)) := by
  cases hs with
  | call s p i c k hi =>
    have hp := hx i
    simp only [hi, obeys_call] at hp
    refine ⟨hp.1, fun j => ?_⟩
    by_cases hj : j = i
    · subst j
      simpa using hp.2 _
    · rw [seen_cons_ne (Ne.symm hj)]
      simpa [Function.update_of_ne hj] using hx j

/-- Threads that obey at the start obey throughout. -/
theorem trace_obeys {x y : Config C R α σ ι} {t : List (ι × Event C R)}
    (h : Trace exec x t y) (hx : ∀ j, (x.threads j).Obeys (d j) (Q j) []) :
    ∀ j, (y.threads j).Obeys (d j) (Q j) (seen j t) := by
  induction h with
  | nil => exact hx
  | snoc _ hs ih => exact (step_obeys hs ih).2

/-- An invariant of the state and the run so far, kept by every allowed call, holds
throughout a run of threads that obey. -/
theorem trace_invariant (inv : List (ι × Event C R) → σ → Prop)
    (keep : ∀ t s i c, inv t s → (d i).allowed (seen i t) c →
      inv ((i, ⟨c, (exec c s).1⟩) :: t) (exec c s).2)
    {x y : Config C R α σ ι} {t : List (ι × Event C R)} (h : Trace exec x t y)
    (hx : ∀ j, (x.threads j).Obeys (d j) (Q j) []) (start : inv [] x.state) :
    inv t y.state := by
  induction h with
  | nil => exact start
  | snoc hr hs ih =>
    have ha := (step_obeys hs (trace_obeys hr hx)).1
    cases hs with
    | call s p i c k hi => exact keep _ s i c ih ha

section Stepwise

/-- A run whose every step, after the calls before it, is as `S` says. -/
inductive Along (exec : Exec C R σ)
    (S : List (ι × Event C R) → Config C R α σ ι → ι × Event C R → Config C R α σ ι → Prop)
    (x : Config C R α σ ι) : List (ι × Event C R) → Config C R α σ ι → Prop where
  | nil : Along exec S x [] x
  | snoc {t y e z} : Along exec S x t y → Step exec y e z → S t y e z → Along exec S x (e :: t) z

variable {S S' : List (ι × Event C R) → Config C R α σ ι → ι × Event C R → Config C R α σ ι → Prop}
  {x y : Config C R α σ ι} {t : List (ι × Event C R)}

theorem Along.trace (h : Along exec S x t y) : Trace exec x t y := by
  induction h with
  | nil => exact .nil
  | snoc _ hs _ ih => exact .snoc ih hs

theorem Trace.along (h : Trace exec x t y) (hi : ∀ t y e z, Trace exec x t y → Step exec y e z →
    S t y e z) : Along exec S x t y := by
  induction h with
  | nil => exact .nil
  | snoc hr hs ih => exact .snoc ih hs (hi _ _ _ _ hr hs)

theorem Along.mono (h : Along exec S x t y) (hi : ∀ t y e z, Trace exec x t y → Step exec y e z →
    S t y e z → S' t y e z) : Along exec S' x t y := by
  induction h with
  | nil => exact .nil
  | snoc hr hs hS ih => exact .snoc ih hs (hi _ _ _ _ hr.trace hs hS)

/-- A run is as `S` says when each of its calls is, after the calls before it. -/
theorem Trace.along_of_suffix (h : Trace exec x t y)
    (hi : ∀ e before, e :: before <:+ t → ∀ y z, S before y e z) : Along exec S x t y := by
  induction h with
  | nil => exact .nil
  | snoc hr hs ih =>
    refine .snoc (ih ?_) hs (hi _ _ List.suffix_rfl _ _)
    intro e before hsuffix
    exact hi e before (hsuffix.trans (List.suffix_cons _ _))

/-- An invariant kept by every step that a thread may take and that is as `S` says. -/
theorem along_invariant (inv : List (ι × Event C R) → σ → Prop)
    (keep : ∀ t y i e z, inv t y.state → Step exec y (i, e) z → S t y (i, e) z →
      (d i).allowed (seen i t) e.1 → inv ((i, e) :: t) z.state)
    (h : Along exec S x t y) (hx : ∀ j, (x.threads j).Obeys (d j) (Q j) [])
    (start : inv [] x.state) : inv t y.state := by
  induction h with
  | nil => exact start
  | snoc hr hs hS ih => exact keep _ _ _ _ _ ih hs hS (step_obeys hs (trace_obeys hr.trace hx)).1

end Stepwise

section Recent

variable {β : Type} {p : β → Prop} {l : List β}

/-- What a history, latest first, holds since the latest entry that satisfies `p`. -/
def Since (p : β → Prop) (l : List β) (b : β) : Prop :=
  ∃ after m before, l = after ++ m :: before ∧ p m ∧ (∀ y ∈ after, ¬p y) ∧ b ∈ after

/-- Of the entries that satisfy `p` one is the latest. -/
theorem latest_split (h : ∃ m ∈ l, p m) :
    ∃ after m before, l = after ++ m :: before ∧ p m ∧ ∀ y ∈ after, ¬p y := by
  induction l with
  | nil =>
    obtain ⟨m, hm, -⟩ := h
    cases hm
  | cons b l ih =>
    by_cases hb : p b
    · exact ⟨[], b, l, rfl, hb, fun _ hy => by cases hy⟩
    · have htail : ∃ m ∈ l, p m := by
        obtain ⟨m, hm, hp⟩ := h
        rcases List.mem_cons.mp hm with rfl | hm
        · exact absurd hp hb
        · exact ⟨m, hm, hp⟩
      obtain ⟨after, m, before, rfl, hp, hnone⟩ := ih htail
      refine ⟨b :: after, m, before, rfl, hp, ?_⟩
      intro y hy
      rcases List.mem_cons.mp hy with rfl | hy
      · exact hb
      · exact hnone y hy

/-- What an entry of a history, latest first, gave and no later one took. -/
def Remaining {γ : Type} (gives takes : β → γ → Prop) (l : List β) (x : γ) : Prop :=
  ∃ after m before, l = after ++ m :: before ∧ gives m x ∧ ∀ y ∈ after, ¬takes y x

variable {γ : Type} {gives takes : β → γ → Prop} {x : γ}

/-- The latest entry gives, or takes what is left of the rest. -/
theorem remaining_cons {b : β} : Remaining gives takes (b :: l) x ↔
    gives b x ∨ Remaining gives takes l x ∧ ¬takes b x := by
  constructor
  · rintro ⟨after, m, before, he, hgives, hkept⟩
    cases after with
    | nil =>
      obtain ⟨rfl, -⟩ := List.cons.inj he
      exact Or.inl hgives
    | cons y after =>
      obtain ⟨rfl, rfl⟩ := List.cons.inj he
      rw [List.forall_mem_cons] at hkept
      exact Or.inr ⟨⟨after, m, before, rfl, hgives, hkept.2⟩, hkept.1⟩
  · rintro (hgives | ⟨⟨after, m, before, rfl, hgives, hkept⟩, htakes⟩)
    · exact ⟨[], b, l, rfl, hgives, List.forall_mem_nil _⟩
    · exact ⟨b :: after, m, before, rfl, hgives, List.forall_mem_cons.mpr ⟨htakes, hkept⟩⟩

end Recent

section Schedules

/-- The next call of one thread, made. -/
def Config.next (exec : Exec C R σ) (x : Config C R α σ ι) (i : ι) :
    Option ((ι × Event C R) × Config C R α σ ι) :=
  match x.threads i with
  | .call c k => some ((i, ⟨c, (exec c x.state).1⟩),
      ⟨(exec c x.state).2, Function.update x.threads i (k (exec c x.state).1)⟩)
  | _ => none

/-- What a thread has come to. -/
def Prog.result : Prog C R α → Option α
  | .done a => some a
  | _ => none

theorem result_eq_some {p : Prog C R α} {a : α} : p.result = some a ↔ p = .done a := by
  cases p <;> simp [Prog.result]

/-- The threads call in the order of a schedule. -/
def Config.play (exec : Exec C R σ) :
    List ι → List (ι × Event C R) × Config C R α σ ι →
      Option (List (ι × Event C R) × Config C R α σ ι)
  | [], r => some r
  | i :: is, (t, x) => (x.next exec i).bind fun r => Config.play exec is (r.1 :: t, r.2)

theorem next_step {x y : Config C R α σ ι} {i : ι} {e : ι × Event C R}
    (h : x.next exec i = some (e, y)) : Step exec x e y := by
  obtain ⟨s, p⟩ := x
  rw [Config.next] at h
  cases hi : p i with
  | done a => simp [hi] at h
  | cut => simp [hi] at h
  | call c k =>
    simp only [hi, Option.some.injEq, Prod.mk.injEq] at h
    obtain ⟨rfl, rfl⟩ := h
    exact .call s p i c k hi

theorem play_trace {x y z : Config C R α σ ι} {schedule : List ι} {t t' : List (ι × Event C R)}
    (hr : Trace exec x t y) (h : Config.play exec schedule (t, y) = some (t', z)) :
    Trace exec x t' z := by
  induction schedule generalizing t y with
  | nil =>
    cases h
    exact hr
  | cons i schedule ih =>
    rw [Config.play] at h
    obtain ⟨⟨e, y'⟩, hn, h⟩ := Option.bind_eq_some_iff.mp h
    exact ih (.snoc hr (next_step hn)) h

end Schedules

end Interleaved

section Failing

/-- The discipline of a program that may fail, at a bind. -/
theorem obeys_except_bind {d : Discipline C R} {h : List (Event C R)}
    {x : ExceptT ε (Prog C R) α} {f : α → ExceptT ε (Prog C R) β}
    {Q : List (Event C R) → Except ε β → Prop} :
    (x >>= f).run.Obeys d Q h ↔ x.run.Obeys d (fun h' r => match r with
      | .ok a => (f a).run.Obeys d Q h'
      | .error e => Q h' (.error e)) h := by
  change (x.run >>= ExceptT.bindCont f).Obeys d Q h ↔ _
  rw [obeys_bind]
  constructor <;> intro hx <;> refine hx.mono fun h' r _ hr => ?_ <;> cases r <;> exact hr

theorem ensures_except_bind {exec : Exec C R σ} {s : σ}
    {x : ExceptT ε (Prog C R) α} {f : α → ExceptT ε (Prog C R) β} {Q : Except ε β → σ → Prop} :
    (x >>= f).run.Ensures exec s Q ↔ x.run.Ensures exec s fun r s' => match r with
      | .ok a => (f a).run.Ensures exec s' Q
      | .error e => Q (.error e) s' := by
  change (x.run >>= ExceptT.bindCont f).Ensures exec s Q ↔ _
  rw [ensures_bind]
  constructor <;> intro hx <;> refine hx.mono fun r s' hr => ?_ <;> cases r with
  | ok a => exact hr
  | error e =>
    first
      | exact (ensures_done (a := (Except.error e : Except ε β))).mp hr
      | exact (ensures_done (a := (Except.error e : Except ε β))).mpr hr

/-- A sequential run goes on from the value it got, or stops with the failure. -/
theorem run_except_bind {exec : Exec C R σ} (s : σ) (x : ExceptT ε (Prog C R) α)
    (f : α → ExceptT ε (Prog C R) β) :
    (x >>= f).run.run exec s = (x.run.run exec s).bind fun r => match r.1 with
      | .ok a => (f a).run.run exec r.2
      | .error e => some (.error e, r.2) := by
  change (x.run >>= ExceptT.bindCont f).run exec s = _
  rw [run_bind]
  refine congrArg _ (funext fun r => ?_)
  obtain ⟨r, s'⟩ := r
  cases r with
  | ok a => rfl
  | error e => rfl

end Failing

section Rounds

variable {exec : Exec C R σ} {rounds n m : ℕ} {s s' s'' : σ}

/-- With more than `n` rounds a run ends so; with fewer it may be cut. -/
def Prog.Settles (exec : Exec C R σ) (rounds n : ℕ) (p : Prog C R α) (s : σ) (a : α) (s' : σ) :
    Prop :=
  p.run exec s = some (a, s') ∨ rounds ≤ n ∧ p.run exec s = none

theorem Prog.Settles.run_eq {p : Prog C R α} {a : α} (h : p.Settles exec rounds n s a s')
    (hr : n < rounds) : p.run exec s = some (a, s') := by
  rcases h with h | ⟨hle, -⟩
  · exact h
  · omega

theorem Prog.Settles.mono {p : Prog C R α} {a : α} (h : p.Settles exec rounds n s a s')
    (hn : n ≤ m) : p.Settles exec rounds m s a s' := by
  rcases h with h | ⟨hle, hcut⟩
  · exact Or.inl h
  · exact Or.inr ⟨Nat.le_trans hle hn, hcut⟩

/-- A turn of a loop takes one round more, and leaves less to do after it. -/
theorem Prog.Settles.turn {p : Prog C R α} {a : α} (h : p.Settles exec rounds n s a s')
    (hn : n < m) : p.Settles exec (rounds + 1) m s a s' := by
  rcases h with h | ⟨hle, hcut⟩
  · exact Or.inl h
  · refine Or.inr ⟨?_, hcut⟩
    omega

/-- A loop that settles once it may take a turn settles with any number of rounds. -/
theorem settles_rounds {loop : ℕ → Prog C R α} {a : α} (hcut : (loop 0).run exec s = none)
    (hturn : ∀ rounds, (loop (rounds + 1)).Settles exec (rounds + 1) n s a s') (rounds : ℕ) :
    (loop rounds).Settles exec rounds n s a s' := by
  cases rounds with
  | zero => exact Or.inr ⟨Nat.zero_le n, hcut⟩
  | succ rounds => exact hturn rounds

/-- However many rounds there are, a run that ends ends so. -/
theorem Prog.Settles.unique {p : Prog C R α} {a : α} (h : p.Settles exec rounds n s a s')
    {r : α × σ} (hr : p.run exec s = some r) : r = (a, s') := by
  rcases h with h | ⟨-, hcut⟩
  · rw [h] at hr
    exact (Option.some.inj hr).symm
  · rw [hcut] at hr
    cases hr

theorem settles_except_bind {x : ExceptT ε (Prog C R) α} {f : α → ExceptT ε (Prog C R) β} {a : α}
    {b : Except ε β} (hx : x.run.Settles exec rounds n s (.ok a) s')
    (hf : (f a).run.Settles exec rounds n s' b s'') :
    (x >>= f).run.Settles exec rounds n s b s'' := by
  rw [Prog.Settles, run_except_bind]
  rcases hx with hx | ⟨hle, hcut⟩
  · rw [hx]
    exact hf
  · rw [hcut]
    exact Or.inr ⟨hle, rfl⟩

end Rounds

end Interaction
