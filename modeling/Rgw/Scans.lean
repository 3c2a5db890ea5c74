import Rgw.Paging
import Rgw.Replies
import Mathlib.Data.Finset.Card
import Mathlib.Data.Finset.Filter

/-! # Scans of a list that changes meanwhile

A client asks for page after page while entries come and go. Each page is of the list as it was
then, so together the pages show no list that ever was; yet each entry is looked for once. -/
namespace Scans

open Interaction Replies Paging

variable {α ρ : Type}

section Pages

variable [LinearOrder α]

/-- Pages from a marker on, each of some view of the list, and going on where the one before it
stopped. -/
inductive Scanned (View : List α → Prop) (limit : ℕ) : α → List (Page α) → Prop where
  | last {all : List α} {marker : α} {page : Page α} (sorted : all.Pairwise (· < ·)) (view : View all)
      (serves : Serves all limit marker page) (whole : page.truncated = false) :
      Scanned View limit marker [page]
  | more {all : List α} {marker m : α} {page : Page α} {pages : List (Page α)}
      (sorted : all.Pairwise (· < ·)) (view : View all) (serves : Serves all limit marker page)
      (part : page.truncated = true) (next : page.next = some m)
      (rest : Scanned View limit m pages) : Scanned View limit marker (page :: pages)

variable {View : List α → Prop} {limit : ℕ} {marker m e : α} {all : List α} {page : Page α}
  {pages : List (Page α)}

theorem mem_served (serves : Serves all limit marker page) (he : e ∈ page.entries) :
    e ∈ all ∧ marker < e :=
  mem_after.mp (List.mem_of_mem_take (serves.entries.mem_iff.mp he))

/-- A truncated page shows what is past its marker, up to where it stops. -/
theorem mem_truncated (sorted : all.Pairwise (· < ·)) (serves : Serves all limit marker page)
    (part : page.truncated = true) (next : page.next = some m) :
    e ∈ page.entries ↔ e ∈ all ∧ marker < e ∧ e ≤ m := by
  have hlast : ((after all marker).take limit).getLast? = some m := by rw [← serves.next part, next]
  have hsorted := after_sorted sorted marker
  have hdrop := @mem_drop_last _ _ limit _ id _ hsorted m e hlast
  have hnodup := hsorted.imp ne_of_lt
  rw [← List.take_append_drop limit (after all marker), List.pairwise_append] at hnodup
  rw [serves.entries.mem_iff, ← and_assoc, ← mem_after]
  constructor
  · intro he
    refine ⟨List.mem_of_mem_take he, not_lt.mp fun hlt => ?_⟩
    exact hnodup.2.2 e he e (hdrop.mpr ⟨List.mem_of_mem_take he, hlt⟩) rfl
  · rintro ⟨he, hle⟩
    have hsplit := he
    rw [← List.take_append_drop limit (after all marker), List.mem_append] at hsplit
    exact hsplit.resolve_right fun h => absurd (hdrop.mp h).2 (not_lt.mpr hle)

theorem marker_lt_next (serves : Serves all limit marker page) (part : page.truncated = true)
    (next : page.next = some m) : marker < m := by
  have hlast : ((after all marker).take limit).getLast? = some m := by rw [← serves.next part, next]
  exact (mem_after.mp (List.mem_of_mem_take (List.mem_of_getLast? hlast))).2

/-- What a scan shows is past its marker. -/
theorem Scanned.past (h : Scanned View limit marker pages) :
    ∀ e ∈ pages.flatMap Page.entries, marker < e := by
  induction h with
  | last _ _ serves _ =>
    intro e he
    rw [List.flatMap_singleton] at he
    exact (mem_served serves he).2
  | more _ _ serves part next _ ih =>
    intro e he
    rw [List.flatMap_cons, List.mem_append] at he
    rcases he with he | he
    · exact (mem_served serves he).2
    · exact (marker_lt_next serves part next).trans (ih e he)

/-- Later pages show greater entries. -/
theorem Scanned.ordered (h : Scanned View limit marker pages) :
    pages.Pairwise fun p q => ∀ a ∈ p.entries, ∀ b ∈ q.entries, a < b := by
  induction h with
  | last => exact List.pairwise_singleton _ _
  | more sorted _ serves part next rest ih =>
    refine List.pairwise_cons.mpr ⟨fun q hq a ha b hb => ?_, ih⟩
    exact ((mem_truncated sorted serves part next).mp ha).2.2.trans_lt
      (rest.past b (List.mem_flatMap.mpr ⟨q, hq, hb⟩))

theorem served_nodup (sorted : all.Pairwise (· < ·)) (serves : Serves all limit marker page) :
    page.entries.Nodup := by
  have htake := (after_sorted sorted marker).sublist (List.take_sublist limit _)
  exact serves.entries.nodup_iff.mpr (htake.imp ne_of_lt)

/-- No entry is shown twice. -/
theorem Scanned.nodup (h : Scanned View limit marker pages) : (pages.flatMap Page.entries).Nodup := by
  rw [List.nodup_flatMap]
  refine ⟨?_, h.ordered.imp fun hlt e he he' => lt_irrefl e (hlt e he e he')⟩
  induction h with
  | last sorted _ serves _ => exact List.forall_mem_singleton.mpr (served_nodup sorted serves)
  | more sorted _ serves _ _ _ ih => exact List.forall_mem_cons.mpr ⟨served_nodup sorted serves, ih⟩

/-- Every page is full but the last, which is no longer. -/
theorem Scanned.full (h : Scanned View limit marker pages) :
    (∀ page ∈ pages.dropLast, page.entries.length = limit) ∧
      ∀ page ∈ pages, page.entries.length ≤ limit := by
  induction h with
  | last _ _ serves _ =>
    exact ⟨fun page hp => (by cases hp), List.forall_mem_singleton.mpr serves.length_le⟩
  | @more all marker m page pages sorted _ serves part next rest ih =>
    have hne : pages ≠ [] := by
      rintro rfl
      cases rest
    rw [List.dropLast_cons_of_ne_nil hne, List.forall_mem_cons, List.forall_mem_cons]
    refine ⟨⟨?_, ih.1⟩, serves.length_le, ih.2⟩
    have hlong := serves.truncated
    rw [part] at hlong
    rw [serves.entries.length_eq, List.length_take]
    exact Nat.min_eq_left (of_decide_eq_true hlong.symm).le

/-- Pages in order, of entries in order. -/
theorem Scanned.ascending (h : Scanned View limit marker pages)
    (each : ∀ page ∈ pages, page.entries.Pairwise (· < ·)) :
    (pages.flatMap Page.entries).Pairwise (· < ·) := by
  rw [List.flatMap_def, List.pairwise_flatten]
  exact ⟨List.forall_mem_map.mpr each, List.pairwise_map.mpr h.ordered⟩

/-- Each entry past the marker was looked for in one of the views, and is shown if it was there. -/
theorem Scanned.looked (h : Scanned View limit marker pages) (he : marker < e) :
    ∃ all, View all ∧ (e ∈ pages.flatMap Page.entries ↔ e ∈ all) := by
  induction h with
  | @last all _ page _ view serves whole =>
    refine ⟨all, view, ?_⟩
    rw [List.flatMap_singleton, (serves.whole whole).mem_iff, mem_after]
    exact and_iff_left he
  | @more all _ m page pages sorted view serves part next rest ih =>
    by_cases hm : m < e
    · obtain ⟨all', view', hiff⟩ := ih hm
      refine ⟨all', view', ?_⟩
      rw [List.flatMap_cons, List.mem_append, hiff, mem_truncated sorted serves part next]
      exact or_iff_right fun h => not_lt.mpr h.2.2 hm
    · refine ⟨all, view, ?_⟩
      rw [List.flatMap_cons, List.mem_append, mem_truncated sorted serves part next,
        or_iff_left fun h => hm (rest.past e h)]
      exact and_iff_left ⟨he, not_lt.mp hm⟩

end Pages

section Clients

variable {C : Type} {R : C → Type}

/-- A client that asks again while its pages are truncated; nothing when a request fails or it
runs out of rounds. -/
def scan (fetch : ρ → Prog C R (Option (Page α))) (follow : ρ → α → ρ) :
    ℕ → ρ → Prog C R (Option (List (Page α)))
  | 0, _ => .done none
  | fuel + 1, r => fetch r >>= fun
    | none => .done none
    | some page =>
      if page.truncated then match page.next with
        | none => .done none
        | some m => scan fetch follow fuel (follow r m) >>= fun pages => .done (pages.map (page :: ·))
      else .done (some [page])

variable [LinearOrder α] {honest : Event C R → Prop} {View : List α → Prop} {limit : ℕ}
  {fetch : ρ → Prog C R (Option (Page α))} {follow : ρ → α → ρ}

/-- A client whose every page is of a view scans the views, and ends before it has asked more often
than there are entries ahead of it in all of them. -/
theorem scan_ahead (inv : ρ → Prop) (start : ρ → α) (hl : 0 < limit)
    (serve : ∀ r, inv r → Yields honest (fun reply => ∃ page all, reply = some page ∧
      all.Pairwise (· < ·) ∧ View all ∧ Serves all limit (start r) page) (fetch r))
    (step : ∀ r m, inv r → inv (follow r m) ∧ start (follow r m) = m) (F : Finset α) (fuel : ℕ) {r : ρ}
    (hr : inv r) (hF : ∀ all, View all → ∀ e ∈ all, start r < e → e ∈ F)
    (enough : (F.filter (start r < ·)).card < fuel) :
    Yields honest (fun reply => ∃ pages, reply = some pages ∧ Scanned View limit (start r) pages)
      (scan fetch follow fuel r) := by
  induction fuel generalizing r with
  | zero => omega
  | succ fuel ih =>
    rw [scan, yields_bind]
    refine yields_mono (serve r hr) fun reply hreply => ?_
    obtain ⟨page, all, rfl, sorted, view, serves⟩ := hreply
    dsimp only
    by_cases ht : page.truncated = true
    · obtain ⟨m, hnext, hm, -, -⟩ := serves.resumes sorted hl ht
      obtain ⟨hinv, hstart⟩ := step r m hr
      obtain ⟨hall, hlt⟩ := mem_served serves hm
      -- the entry where the page stopped is never ahead again
      have hless : (F.filter (m < ·)).card < (F.filter (start r < ·)).card := by
        refine Finset.card_lt_card (Finset.ssubset_iff_subset_ne.mpr ⟨?_, fun heq => ?_⟩)
        · intro e he
          rw [Finset.mem_filter] at he ⊢
          exact ⟨he.1, hlt.trans he.2⟩
        · have hmem : m ∈ F.filter (start r < ·) :=
            Finset.mem_filter.mpr ⟨hF all view m hall hlt, hlt⟩
          rw [← heq, Finset.mem_filter] at hmem
          exact lt_irrefl m hmem.2
      rw [if_pos ht, hnext]
      dsimp only
      rw [yields_bind]
      rw [← hstart] at hless
      refine yields_mono (ih hinv (fun all view e he hlt' => ?_) (by omega)) fun later hlater => ?_
      · rw [hstart] at hlt'
        exact hF all view e he (hlt.trans hlt')
      · obtain ⟨rest, rfl, hrest⟩ := hlater
        rw [hstart] at hrest
        exact ⟨page :: rest, rfl, .more sorted view serves ht hnext hrest⟩
    · rw [if_neg ht]
      exact ⟨[page], rfl, .last sorted view serves (Bool.eq_false_of_not_eq_true ht)⟩

theorem scan_yields (inv : ρ → Prop) (start : ρ → α) (hl : 0 < limit)
    (serve : ∀ r, inv r → Yields honest (fun reply => ∃ page all, reply = some page ∧
      all.Pairwise (· < ·) ∧ View all ∧ Serves all limit (start r) page) (fetch r))
    (step : ∀ r m, inv r → inv (follow r m) ∧ start (follow r m) = m) (F : Finset α) (fuel : ℕ) {r : ρ}
    (hr : inv r) (hF : ∀ all, View all → ∀ e ∈ all, e ∈ F) (enough : F.card < fuel) :
    Yields honest (fun reply => ∃ pages, reply = some pages ∧ Scanned View limit (start r) pages)
      (scan fetch follow fuel r) :=
  scan_ahead inv start hl serve step F fuel hr (fun all view e he _ => hF all view e he)
    ((Finset.card_filter_le F _).trans_lt enough)

omit [LinearOrder α] in
/-- What every page has, the pages of a scan have. -/
theorem scan_each {G : Page α → Prop}
    (each : ∀ r, Yields honest (fun reply => ∀ page, reply = some page → G page) (fetch r)) (fuel : ℕ)
    (r : ρ) : Yields honest (fun reply => ∀ pages, reply = some pages → ∀ page ∈ pages, G page)
      (scan fetch follow fuel r) := by
  induction fuel generalizing r with
  | zero =>
    rintro pages ⟨⟩
  | succ fuel ih =>
    rw [scan, yields_bind]
    refine yields_mono (each r) fun reply hreply => ?_
    cases reply with
    | none => rintro pages ⟨⟩
    | some page =>
      have hpage := hreply page rfl
      dsimp only
      split
      · split
        · rintro pages ⟨⟩
        · rw [yields_bind]
          refine yields_mono (ih _) fun later hlater pages heq => ?_
          obtain ⟨rest, hrest, rfl⟩ := Option.map_eq_some_iff.mp heq
          exact List.forall_mem_cons.mpr ⟨hpage, hlater rest hrest⟩
      · rintro pages ⟨⟩
        exact List.forall_mem_singleton.mpr hpage

end Clients

end Scans
