import Mathlib.Data.List.Sort
import Mathlib.Data.List.Nodup
import Mathlib.Tactic.Common

/-! # Paging through a sorted list

A server answers a request with the next entries after a marker, at most a given number of
them; a client that asks again from the last entry of each full page sees every entry once. -/
namespace Paging

variable {α ρ : Type}

structure Page (α : Type) where
  entries : List α
  truncated : Bool
  /-- Where to go on. -/
  next : Option α

/-- The pages a client gets, asking again while they are truncated; nothing when it runs out of
rounds or the server fails it. -/
def fetchAll (fetch : ρ → Option (Page α)) (follow : ρ → α → ρ) : ℕ → ρ → Option (List (Page α))
  | 0, _ => none
  | fuel + 1, r =>
    match fetch r with
    | none => none
    | some page =>
      if page.truncated then
        match page.next with
        | none => none
        | some m => (fetchAll fetch follow fuel (follow r m)).map (page :: ·)
      else some [page]

/-- Every page that a client gets is one that it was answered with. -/
theorem fetchAll_fetched {fetch : ρ → Option (Page α)} {follow : ρ → α → ρ} {fuel : ℕ} {r : ρ}
    {pages : List (Page α)} (h : fetchAll fetch follow fuel r = some pages) :
    ∀ page ∈ pages, ∃ r', fetch r' = some page := by
  induction fuel generalizing r pages with
  | zero => cases h
  | succ fuel ih =>
    rw [fetchAll] at h
    cases hfetch : fetch r with
    | none =>
      rw [hfetch] at h
      cases h
    | some page =>
      rw [hfetch] at h
      dsimp only at h
      split at h
      · split at h
        · cases h
        · obtain ⟨rest, hrest, rfl⟩ := Option.map_eq_some_iff.mp h
          exact List.forall_mem_cons.mpr ⟨⟨r, hfetch⟩, ih hrest⟩
      · cases h
        exact List.forall_mem_singleton.mpr ⟨r, hfetch⟩

variable [LinearOrder α]

/-- The entries past a marker. -/
def after (all : List α) (marker : α) : List α := all.filter (marker < ·)

theorem mem_after {all : List α} {marker e : α} : e ∈ after all marker ↔ e ∈ all ∧ marker < e := by
  rw [after, List.mem_filter, decide_eq_true_eq]

theorem after_sorted {all : List α} (hs : all.Pairwise (· < ·)) (marker : α) :
    (after all marker).Pairwise (· < ·) := hs.filter _

/-- A page shows the first entries past a marker, and says where it stopped short. -/
structure Serves (all : List α) (limit : ℕ) (marker : α) (page : Page α) : Prop where
  entries : page.entries.Perm ((after all marker).take limit)
  truncated : page.truncated = decide (limit < (after all marker).length)
  next : page.truncated = true → page.next = ((after all marker).take limit).getLast?

variable {all : List α} {limit : ℕ} {marker : α}

theorem Serves.length_le {page : Page α} (h : Serves all limit marker page) :
    page.entries.length ≤ limit := by
  rw [h.entries.length_eq]
  exact List.length_take_le _ _

/-- What has a greater key than the last of the first few follows them. -/
theorem filter_last {β : Type} (key : β → α) {l : List β}
    (hs : l.Pairwise fun a b => key a < key b) {m : β} (hm : (l.take limit).getLast? = some m) :
    l.filter (fun b => key m < key b) = l.drop limit := by
  obtain ⟨before, hb⟩ := List.getLast?_eq_some_iff.mp hm
  have hl : l = (before ++ [m]) ++ l.drop limit := by
    rw [← hb, List.take_append_drop]
  rw [hl, List.pairwise_append] at hs
  obtain ⟨hfirst, -, hcross⟩ := hs
  rw [List.pairwise_append] at hfirst
  have hdrop : (before ++ [m]).filter (fun b => key m < key b) = [] := by
    rw [List.filter_eq_nil_iff]
    intro x hx
    rw [decide_eq_true_eq, not_lt]
    rcases List.mem_append.mp hx with hx | hx
    · exact (hfirst.2.2 x hx m List.mem_cons_self).le
    · exact (congrArg key (List.mem_singleton.mp hx)).le
  have hkeep : (l.drop limit).filter (fun b => key m < key b) = l.drop limit := by
    rw [List.filter_eq_self]
    intro x hx
    rw [decide_eq_true_eq]
    exact hcross m (List.mem_append_right _ List.mem_cons_self) x hx
  calc l.filter (fun b => key m < key b)
      = ((before ++ [m]) ++ l.drop limit).filter (fun b => key m < key b) := by rw [← hl]
    _ = l.drop limit := by rw [List.filter_append, hdrop, hkeep, List.nil_append]

theorem mem_drop_last {β : Type} (key : β → α) {l : List β}
    (hs : l.Pairwise fun a b => key a < key b) {m b : β} (hm : (l.take limit).getLast? = some m) :
    b ∈ l.drop limit ↔ b ∈ l ∧ key m < key b := by
  rw [← filter_last key hs hm, List.mem_filter, decide_eq_true_eq]

/-- Past the last entry of a full page come the entries the page left out. -/
theorem after_last {l : List α} (hs : l.Pairwise (· < ·)) {m : α}
    (hm : (l.take limit).getLast? = some m) : after l m = l.drop limit :=
  filter_last id hs hm

theorem after_after {m : α} (h : marker ≤ m) : after (after all marker) m = after all m := by
  rw [after, after, List.filter_filter]
  apply List.filter_congr
  intro x _
  by_cases hx : m < x
  · simp [hx, lt_of_le_of_lt h hx]
  · simp [hx]

/-- A page that is not truncated shows all that is past its marker. -/
theorem Serves.whole {page : Page α} (h : Serves all limit marker page) (ht : page.truncated = false) :
    page.entries.Perm (after all marker) := by
  have hshort : (after all marker).length ≤ limit := by
    have hflag := h.truncated
    rw [ht] at hflag
    exact Nat.le_of_not_lt (of_decide_eq_false hflag.symm)
  have hentries := h.entries
  rwa [List.take_of_length_le hshort] at hentries

/-- A truncated page tells where to go on, and something is left there. -/
theorem Serves.resumes {page : Page α} (hs : all.Pairwise (· < ·)) (hl : 0 < limit)
    (h : Serves all limit marker page) (ht : page.truncated = true) :
    ∃ m, page.next = some m ∧ m ∈ page.entries ∧ after all m = (after all marker).drop limit ∧
      after all m ≠ [] := by
  have hlong : limit < (after all marker).length := by
    have hflag := h.truncated
    rw [ht] at hflag
    exact of_decide_eq_true hflag.symm
  have hnext := h.next ht
  have hsome : ((after all marker).take limit) ≠ [] := by
    rw [← List.length_pos_iff, List.length_take]
    omega
  rw [List.getLast?_eq_some_getLast hsome] at hnext
  have hm := List.getLast_mem hsome
  have hgt := (mem_after.mp (List.mem_of_mem_take hm)).2
  have hrest : after all (((after all marker).take limit).getLast hsome) =
      (after all marker).drop limit := by
    rw [← after_after hgt.le]
    exact after_last (after_sorted hs marker) (List.getLast?_eq_some_getLast hsome)
  refine ⟨_, hnext, h.entries.mem_iff.mpr hm, hrest, ?_⟩
  rw [hrest, ← List.length_pos_iff, List.length_drop]
  omega

/-- Pages from a marker on, each going on where the one before it stopped. -/
inductive Paged (all : List α) (limit : ℕ) : α → List (Page α) → Prop where
  | last {marker : α} {page : Page α} (serves : Serves all limit marker page)
      (whole : page.truncated = false) : Paged all limit marker [page]
  | more {marker m : α} {page : Page α} {pages : List (Page α)} (serves : Serves all limit marker page)
      (part : page.truncated = true) (stops : m ∈ page.entries)
      (rest : after all m = (after all marker).drop limit) (left : after all m ≠ [])
      (paged : Paged all limit m pages) : Paged all limit marker (page :: pages)

section Pages

variable {pages : List (Page α)}

theorem Paged.length_le (h : Paged all limit marker pages) :
    ∀ page ∈ pages, page.entries.length ≤ limit := by
  induction h with
  | last serves _ => exact List.forall_mem_singleton.mpr serves.length_le
  | more serves _ _ _ _ _ ih => exact List.forall_mem_cons.mpr ⟨serves.length_le, ih⟩

/-- Together the pages show each entry past their start once. -/
theorem Paged.entries (h : Paged all limit marker pages) :
    (pages.flatMap Page.entries).Perm (after all marker) := by
  induction h with
  | last serves whole =>
    rw [List.flatMap_cons, List.flatMap_nil, List.append_nil]
    exact serves.whole whole
  | more serves _ _ rest _ _ ih =>
    rw [rest] at ih
    rw [List.flatMap_cons]
    have hall := serves.entries.append ih
    rwa [List.take_append_drop] at hall

/-- Where something is left, no page is empty. -/
theorem Paged.nonempty (h : Paged all limit marker pages) (hleft : after all marker ≠ []) :
    ∀ page ∈ pages, page.entries ≠ [] := by
  induction h with
  | last serves whole =>
    rw [List.forall_mem_singleton]
    intro hnil
    have hwhole := serves.whole whole
    rw [hnil] at hwhole
    exact hleft hwhole.nil_eq.symm
  | more _ _ stops _ left _ ih =>
    exact List.forall_mem_cons.mpr ⟨List.ne_nil_of_mem stops, ih left⟩

/-- A page is truncated exactly when entries are left after it. -/
theorem Paged.truncated (hs : all.Pairwise (· < ·)) (h : Paged all limit marker pages) :
    ∀ page ∈ pages, (page.truncated = true ↔ ∃ e ∈ after all marker, ∀ x ∈ page.entries, x < e) := by
  induction h with
  | last serves whole =>
    rw [List.forall_mem_singleton, whole]
    constructor
    · intro ht
      cases ht
    · rintro ⟨e, he, hpast⟩
      exact absurd (hpast e ((serves.whole whole).mem_iff.mpr he)) (lt_irrefl e)
  | @more marker m page pages serves part _ rest left paged ih =>
    have hsorted := after_sorted hs marker
    rw [← List.take_append_drop limit (after all marker), List.pairwise_append] at hsorted
    rw [List.forall_mem_cons]
    constructor
    · obtain ⟨e, he⟩ := List.exists_mem_of_ne_nil _ left
      rw [rest] at he
      refine iff_of_true part ⟨e, List.mem_of_mem_drop he, fun x hx => ?_⟩
      exact hsorted.2.2 x (serves.entries.mem_iff.mp hx) e he
    · intro later hlater
      rw [ih later hlater, rest]
      constructor
      · rintro ⟨e, he, hpast⟩
        exact ⟨e, List.mem_of_mem_drop he, hpast⟩
      · rintro ⟨e, he, hpast⟩
        refine ⟨e, ?_, hpast⟩
        rw [← List.take_append_drop limit (after all marker), List.mem_append] at he
        rcases he with hearly | hlate
        · -- a later page shows something, and all of it is past the first page
          obtain ⟨x, hx⟩ := List.exists_mem_of_ne_nil _ (paged.nonempty left later hlater)
          have hm : x ∈ after all m :=
            paged.entries.mem_iff.mp (List.mem_flatMap.mpr ⟨later, hlater, hx⟩)
          rw [rest] at hm
          exact absurd (hpast x hx) (lt_asymm (hsorted.2.2 e hearly x hm))
        · exact hlate

/-- Pages that are in order are in order together. -/
theorem Paged.sorted (hs : all.Pairwise (· < ·)) (h : Paged all limit marker pages)
    (hp : ∀ page ∈ pages, page.entries.Pairwise (· < ·)) :
    pages.flatMap Page.entries = after all marker := by
  have hantisymm : Std.Antisymm fun a b : α => a < b :=
    ⟨fun a b hab hba => absurd (hab.trans hba) (lt_irrefl _)⟩
  induction h with
  | last serves whole =>
    rw [List.forall_mem_singleton] at hp
    rw [List.flatMap_cons, List.flatMap_nil, List.append_nil]
    exact (serves.whole whole).eq_of_pairwise' hp (after_sorted hs _)
  | more serves _ _ rest _ _ ih =>
    rw [List.forall_mem_cons] at hp
    have hfirst := serves.entries.eq_of_pairwise' hp.1
      ((after_sorted hs _).sublist (List.take_sublist _ _))
    rw [List.flatMap_cons, ih hp.2, rest, hfirst, List.take_append_drop]

end Pages

variable {fetch : ρ → Option (Page α)}

/-- A client that follows the markers ends, with no more pages than entries. -/
theorem fetchAll_paged (follow : ρ → α → ρ) (inv : ρ → Prop) (start : ρ → α) (hs : all.Pairwise (· < ·))
    (hl : 0 < limit) (serve : ∀ r, inv r → ∃ page, fetch r = some page ∧
      Serves all limit (start r) page)
    (step : ∀ r m, inv r → inv (follow r m) ∧ start (follow r m) = m) {r : ρ} (hr : inv r) :
    ∃ pages, Paged all limit (start r) pages ∧ ∀ fuel, (after all (start r)).length < fuel →
      fetchAll fetch follow fuel r = some pages := by
  -- what is left past the marker shrinks with every full page
  induction hn : (after all (start r)).length using Nat.strong_induction_on generalizing r with
  | _ n ih =>
    subst hn
    obtain ⟨page, hfetch, hpage⟩ := serve r hr
    by_cases ht : page.truncated = true
    · obtain ⟨m, hnext, hm, hrest, hleft⟩ := hpage.resumes hs hl ht
      obtain ⟨hinv, hstart⟩ := step r m hr
      have hless : (after all (start (follow r m))).length < (after all (start r)).length := by
        have hpos := List.length_pos_iff.mpr hleft
        rw [hrest, List.length_drop] at hpos
        rw [hstart, hrest, List.length_drop]
        omega
      obtain ⟨pages, hpaged, hall⟩ := ih _ hless hinv rfl
      rw [hstart] at hpaged
      refine ⟨page :: pages, .more hpage ht hm hrest hleft hpaged, fun fuel hfuel => ?_⟩
      cases fuel with
      | zero => omega
      | succ fuel =>
        have htail := hall fuel (by omega)
        simp only [fetchAll, hfetch, ht, ↓reduceIte, hnext, htail, Option.map_some]
    · refine ⟨[page], .last hpage (Bool.eq_false_of_not_eq_true ht), fun fuel hfuel => ?_⟩
      cases fuel with
      | zero => omega
      | succ fuel => simp only [fetchAll, hfetch, ht, Bool.false_eq_true, ↓reduceIte]

/-- It has then seen each entry past its start once. -/
theorem fetchAll_complete (follow : ρ → α → ρ) (inv : ρ → Prop) (start : ρ → α)
    (hs : all.Pairwise (· < ·))
    (hl : 0 < limit) (serve : ∀ r, inv r → ∃ page, fetch r = some page ∧
      Serves all limit (start r) page)
    (step : ∀ r m, inv r → inv (follow r m) ∧ start (follow r m) = m) {r : ρ} (hr : inv r) :
    ∃ fuel pages, fetchAll fetch follow fuel r = some pages ∧
      (pages.flatMap Page.entries).Perm (after all (start r)) ∧
      ∀ page ∈ pages, page.entries.length ≤ limit := by
  obtain ⟨pages, hpaged, hall⟩ := fetchAll_paged follow inv start hs hl serve step hr
  exact ⟨_, pages, hall _ (Nat.lt_succ_self _), hpaged.entries, hpaged.length_le⟩

end Paging
