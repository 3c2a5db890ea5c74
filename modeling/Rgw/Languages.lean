import Mathlib.Computability.Language
import Rgw.ByteStrings

/-! # Languages of separated lists

A word is a list of items with a separator between each two of them exactly when every piece
that the separators cut it into is an item. -/
namespace Languages

open ByteStrings Computability

variable {α : Type} {p : α → Bool} {l item : Language α} {w : List α}

section Letters

/-- The words of one letter that is as `p` says. -/
def letter (p : α → Bool) : Language α := {w | ∃ a, p a = true ∧ w = [a]}

theorem mem_letter_mul : w ∈ letter p * l ↔ ∃ a rest, p a = true ∧ rest ∈ l ∧ w = a :: rest := by
  rw [Language.mem_mul]
  constructor
  · rintro ⟨_, ⟨a, ha, rfl⟩, rest, hrest, rfl⟩
    exact ⟨a, rest, ha, hrest, rfl⟩
  · rintro ⟨a, rest, ha, hrest, rfl⟩
    exact ⟨[a], ⟨a, ha, rfl⟩, rest, hrest, rfl⟩

theorem mem_mul_letter : w ∈ l * letter p ↔ ∃ front a, front ∈ l ∧ p a = true ∧ w = front ++ [a] := by
  rw [Language.mem_mul]
  constructor
  · rintro ⟨front, hfront, _, ⟨a, ha, rfl⟩, rfl⟩
    exact ⟨front, a, hfront, ha, rfl⟩
  · rintro ⟨front, a, hfront, ha, rfl⟩
    exact ⟨front, hfront, [a], ⟨a, ha, rfl⟩, rfl⟩

theorem mem_letter_kstar : w ∈ (letter p)∗ ↔ ∀ a ∈ w, p a = true := by
  rw [Language.mem_kstar]
  constructor
  · rintro ⟨pieces, rfl, hpieces⟩ a ha
    obtain ⟨piece, hpiece, ha⟩ := List.mem_flatten.mp ha
    obtain ⟨b, hb, rfl⟩ := hpieces piece hpiece
    rwa [List.mem_singleton.mp ha]
  · intro hw
    refine ⟨w.map fun a => [a], ?_, fun piece hpiece => ?_⟩
    · rw [← List.flatMap_def, List.flatMap_singleton']
    · obtain ⟨a, ha, rfl⟩ := List.mem_map.mp hpiece
      exact ⟨a, hw a ha, rfl⟩

end Letters

section Separated

variable [DecidableEq α] {sep : α}

theorem splitOn_cut {front : List α} (h : sep ∉ front) (rest : List α) :
    (front ++ sep :: rest).splitOn sep = front :: rest.splitOn sep := by
  rw [splitOn_append_left h, List.splitOn_cons_eq_if_modifyHead]
  simp

theorem splitOn_whole (h : sep ∉ w) : w.splitOn sep = [w] := by
  have hw := splitOn_append_left h []
  rwa [List.append_nil, List.splitOn_nil, List.modifyHead_cons, List.append_nil] at hw

/-- A given number of items with separators between them. -/
theorem mem_separated_pow (hi : ∀ w ∈ item, sep ∉ w) (n : ℕ) :
    w ∈ item * (letter (· == sep) * item) ^ n ↔
      (w.splitOn sep).length = n + 1 ∧ ∀ piece ∈ w.splitOn sep, piece ∈ item := by
  induction n generalizing w with
  | zero =>
    rw [pow_zero, mul_one]
    constructor
    · intro hw
      rw [splitOn_whole (hi w hw)]
      exact ⟨rfl, List.forall_mem_singleton.mpr hw⟩
    · rintro ⟨hlen, hall⟩
      obtain ⟨piece, hpiece⟩ := List.length_eq_one_iff.mp hlen
      have hw : [sep].intercalate (w.splitOn sep) = w := List.intercalate_splitOn sep
      rw [hpiece, List.intercalate_singleton] at hw
      rw [hpiece, List.forall_mem_singleton, hw] at hall
      exact hall
  | succ n ih =>
    rw [pow_succ', mul_assoc, Language.mem_mul]
    constructor
    · rintro ⟨front, hfront, _, htail, rfl⟩
      obtain ⟨a, rest, ha, hrest, rfl⟩ := mem_letter_mul.mp htail
      obtain rfl : a = sep := by simpa using ha
      obtain ⟨hlen, hall⟩ := ih.mp hrest
      rw [splitOn_cut (hi front hfront), List.length_cons, hlen]
      exact ⟨rfl, List.forall_mem_cons.mpr ⟨hfront, hall⟩⟩
    · rintro ⟨hlen, hall⟩
      have hw : [sep].intercalate (w.splitOn sep) = w := List.intercalate_splitOn sep
      cases hs : w.splitOn sep with
      | nil => exact absurd hs (List.splitOn_ne_nil sep w)
      | cons front pieces =>
        rw [hs, List.length_cons, Nat.succ_inj] at hlen
        rw [hs, List.forall_mem_cons] at hall
        have hne : pieces ≠ [] := List.ne_nil_of_length_eq_add_one hlen
        have hpieces := List.splitOn_intercalate sep (fun piece hm => hi piece (hall.2 piece hm)) hne
        rw [hs, List.intercalate_cons_of_ne_nil hne, List.append_assoc, List.singleton_append] at hw
        refine ⟨front, hall.1, _, mem_letter_mul.mpr ⟨sep, _, beq_self_eq_true sep, ih.mpr ?_, rfl⟩, hw⟩
        rw [hpieces]
        exact ⟨hlen, hall.2⟩

/-- Any positive number of items with separators between them. -/
def separated (sep : α) (item : Language α) : Language α := item * (letter (· == sep) * item)∗

theorem mem_separated (hi : ∀ w ∈ item, sep ∉ w) :
    w ∈ separated sep item ↔ ∀ piece ∈ w.splitOn sep, piece ∈ item := by
  rw [separated, Language.kstar_eq_iSup_pow, Language.mul_iSup, Language.mem_iSup]
  constructor
  · rintro ⟨n, hn⟩
    exact ((mem_separated_pow hi n).mp hn).2
  · intro hall
    have hpos := List.length_pos_iff.mpr (List.splitOn_ne_nil sep w)
    refine ⟨(w.splitOn sep).length - 1, (mem_separated_pow hi _).mpr ⟨?_, hall⟩⟩
    omega

end Separated

end Languages
