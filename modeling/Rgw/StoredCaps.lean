import Rgw.UserMutations

/-! # Capabilities as they are stored

Every record an operation stores has capabilities of known types with permissions that have a
text, so its document is read back. -/
namespace StoredCaps

open ByteStrings TextCodecs SortedMaps RgwTypes RgwAdminOps UserMutations

section Folds

variable {α β ε : Type}

/-- What each step of a fold keeps, a fold that succeeds keeps. -/
theorem foldlM_invariant (inv : β → Prop) {f : β → α → Except ε β} {l : List α}
    (step : ∀ b a b', a ∈ l → inv b → f b a = .ok b' → inv b') {b b' : β} (hb : inv b)
    (h : l.foldlM f b = .ok b') : inv b' := by
  induction l generalizing b with
  | nil =>
    cases h
    exact hb
  | cons a l ih =>
    rw [List.foldlM_cons] at h
    obtain ⟨b₁, h₁, h⟩ := bind_eq_ok.mp h
    exact ih (fun b a b' ha => step b a b' (List.mem_cons_of_mem _ ha))
      (step b a b₁ List.mem_cons_self hb h₁) h

/-- A fold that succeeds took a step at every entry. -/
theorem foldlM_steps {f : β → α → Except ε β} {l : List α} {b b' : β} (h : l.foldlM f b = .ok b')
    {a : α} (ha : a ∈ l) : ∃ c c', f c a = .ok c' := by
  induction l generalizing b with
  | nil => cases ha
  | cons a₀ l ih =>
    rw [List.foldlM_cons] at h
    obtain ⟨b₁, h₁, h⟩ := bind_eq_ok.mp h
    rcases List.mem_cons.mp ha with rfl | ha
    · exact ⟨b, b₁, h₁⟩
    · exact ih h ha

end Folds

section Permissions

/-- A permission that has a text. -/
def Usable (p : CapPerm) : Prop := p = .read ∨ p = .write ∨ p = .all

instance : DecidablePred Usable := fun p =>
  inferInstanceAs (Decidable (p = .read ∨ p = .write ∨ p = .all))

theorem usable_union {p q : CapPerm} (hp : Usable p) (hq : Usable q) : Usable (p.union q) := by
  rcases hp with rfl | rfl | rfl <;> rcases hq with rfl | rfl | rfl <;> decide

theorem parsePart_usable {part : Str} {p : CapPerm} (h : CapPerm.parsePart part = .ok p) :
    Usable p := by
  rw [CapPerm.parsePart] at h
  split at h
  · cases h
    exact Or.inr (Or.inr rfl)
  · split at h
    · cases h
      exact Or.inl rfl
    · split at h
      · cases h
        exact Or.inr (Or.inl rfl)
      · cases h

theorem none_union (p : CapPerm) : CapPerm.none.union p = p := by
  simp [CapPerm.union, CapPerm.none]

/-- A text has at least one part, so what it parses to is not empty. -/
theorem parse_usable {s : Str} {p : CapPerm} (h : CapPerm.parse s = .ok p) : Usable p := by
  rw [CapPerm.parse] at h
  cases hparts : (s.splitOn 44).map trim with
  | nil => exact absurd (List.map_eq_nil_iff.mp hparts) (List.splitOn_ne_nil _ _)
  | cons part parts =>
    rw [hparts, List.foldlM_cons] at h
    obtain ⟨first, hfirst, h⟩ := bind_eq_ok.mp h
    refine foldlM_invariant Usable (fun b a b' _ hb hstep => ?_) ?_ h
    · obtain ⟨q, hq, hstep⟩ := bind_eq_ok.mp hstep
      cases hstep
      exact usable_union hb (parsePart_usable hq)
    · obtain ⟨q, hq, hstep⟩ := bind_eq_ok.mp hfirst
      cases hstep
      rw [none_union]
      exact parsePart_usable hq

theorem parse_toString {p : CapPerm} (h : Usable p) : CapPerm.parse p.toString = .ok p := by
  rcases h with rfl | rfl | rfl
  · decide +kernel
  · decide +kernel
  · decide +kernel

end Permissions

section Caps

/-- Types that exist and permissions that have a text. -/
def GoodCaps (caps : UserCaps) : Prop :=
  ∀ (cap : Str) (p : CapPerm), caps.entries[cap]? = some p → cap ∈ validCapTypes ∧ Usable p

variable {caps caps' : UserCaps}

theorem goodCaps_new : GoodCaps .new := fun cap p h => by simp [UserCaps.new] at h

theorem goodCaps_insert (hc : GoodCaps caps) {cap : Str} {p : CapPerm} (hv : cap ∈ validCapTypes)
    (hp : Usable p) : GoodCaps ⟨caps.entries.insert cap p⟩ := by
  intro cap' p' h
  rw [getElem?_insert_eq] at h
  split at h
  · next he =>
    cases h
    exact ⟨he ▸ hv, hp⟩
  · exact hc cap' p' h

theorem goodCaps_add (hc : GoodCaps caps) {cap : Str} {p : CapPerm} (hp : Usable p)
    (h : caps.add cap p = .ok caps') : GoodCaps caps' := by
  rw [UserCaps.add] at h
  split at h
  · next hv =>
    cases h
    refine goodCaps_insert hc hv ?_
    cases hentry : caps.entries[cap]? with
    | none =>
      rw [Option.getD_none, none_union]
      exact hp
    | some q => exact usable_union (hc cap q hentry).2 hp
  · cases h

theorem goodCaps_addItem (hc : GoodCaps caps) {item : Str} (h : caps.addItem item = .ok caps') :
    GoodCaps caps' := by
  rw [UserCaps.addItem] at h
  split at h
  · obtain ⟨p, hp, h⟩ := bind_eq_ok.mp h
    exact goodCaps_add hc (parse_usable hp) h
  · cases h

theorem goodCaps_addFromString (hc : GoodCaps caps) {s : Str}
    (h : caps.addFromString s = .ok caps') : GoodCaps caps' :=
  foldlM_invariant GoodCaps (fun _ _ _ _ hb hstep => goodCaps_addItem hb hstep) hc h

theorem goodCaps_deserialize {entries : List CapEntry} (h : UserCaps.deserialize entries = .ok caps) :
    GoodCaps caps := by
  refine foldlM_invariant GoodCaps (fun b e b' _ hb hstep => ?_) goodCaps_new h
  obtain ⟨p, hp, hstep⟩ := bind_eq_ok.mp hstep
  exact goodCaps_add hb (parse_usable hp) hstep

theorem usable_difference {p q : CapPerm} (hp : Usable p) (hq : Usable q)
    (hn : (p.difference q).isNone = false) : Usable (p.difference q) := by
  revert hn
  rcases hp with rfl | rfl | rfl <;> rcases hq with rfl | rfl | rfl <;> decide

theorem goodCaps_remove (hc : GoodCaps caps) {cap : Str} {p : CapPerm} (hp : Usable p) :
    GoodCaps (caps.remove cap p) := by
  rw [UserCaps.remove]
  cases hentry : caps.entries[cap]? with
  | none => exact hc
  | some held =>
    dsimp only
    by_cases hn : (held.difference p).isNone = true
    · rw [if_pos hn]
      intro cap' p' h
      rw [getElem?_erase_eq] at h
      split at h
      · cases h
      · exact hc cap' p' h
    · rw [if_neg hn]
      obtain ⟨hv, hheld⟩ := hc cap held hentry
      exact goodCaps_insert hc hv (usable_difference hheld hp (Bool.eq_false_of_not_eq_true hn))

theorem goodCaps_removeAll (hc : GoodCaps caps) {entries : List (Str × CapPerm)}
    (hu : ∀ e ∈ entries, Usable e.2) :
    GoodCaps (entries.foldl (fun caps e => caps.remove e.1 e.2) caps) := by
  induction entries generalizing caps with
  | nil => exact hc
  | cons e entries ih =>
    rw [List.forall_mem_cons] at hu
    exact ih (goodCaps_remove hc hu.1) hu.2

theorem usable_iter (hc : GoodCaps caps) : ∀ e ∈ caps.iter, Usable e.2 := by
  intro e he
  exact (hc e.1 e.2 (mem_rows.mp he)).2

/-- Entries of new types are read one after another as what they were written from. -/
theorem deserialize_entries {l : List (Str × CapPerm)} (hl : (l.map Prod.fst).Nodup)
    (hgood : ∀ e ∈ l, e.1 ∈ validCapTypes ∧ Usable e.2) {b : UserCaps}
    (hb : ∀ e ∈ l, b.entries[e.1]? = none) :
    ∃ b', (l.map fun e => (⟨e.1, e.2.toString⟩ : CapEntry)).foldlM (fun caps e => do
        let perm ← CapPerm.parse e.perm
        caps.add e.capType perm) b = .ok b' ∧
      ∀ (cap : Str) (p : CapPerm), b'.entries[cap]? = some p ↔
        (cap, p) ∈ l ∨ b.entries[cap]? = some p := by
  induction l generalizing b with
  | nil => exact ⟨b, rfl, by simp⟩
  | cons e l ih =>
    obtain ⟨cap, p⟩ := e
    rw [List.map_cons, List.nodup_cons] at hl
    rw [List.forall_mem_cons] at hgood hb
    have hadd : b.add cap p = .ok ⟨b.entries.insert cap p⟩ := by
      rw [UserCaps.add, if_pos hgood.1.1, hb.1, Option.getD_none, none_union]
    have hfresh : ∀ e ∈ l, (b.entries.insert cap p)[e.1]? = none := by
      intro e he
      have hne : cap ≠ e.1 := by
        rintro rfl
        exact hl.1 (List.mem_map.mpr ⟨e, he, rfl⟩)
      rw [getElem?_insert_eq, if_neg hne, hb.2 e he]
    obtain ⟨b', hfold, hb'⟩ := @ih hl.2 hgood.2 ⟨b.entries.insert cap p⟩ hfresh
    refine ⟨b', ?_, fun cap' p' => ?_⟩
    · rw [List.map_cons, List.foldlM_cons, parse_toString hgood.1.2, ok_bind, hadd, ok_bind]
      exact hfold
    · rw [hb' cap' p', getElem?_insert_eq]
      by_cases hcap : cap = cap'
      · subst hcap
        simp [hb.1, or_comm, eq_comm]
      · simp [hcap, Ne.symm hcap]

/-- Good capabilities are what is read back from what they are stored as. -/
theorem deserialize_serialize (hc : GoodCaps caps) :
    UserCaps.deserialize caps.serialize = .ok caps := by
  have hrows : ∀ e ∈ caps.iter, e.1 ∈ validCapTypes ∧ Usable e.2 := fun e he =>
    hc e.1 e.2 (mem_rows.mp he)
  have hnodup : (caps.iter.map Prod.fst).Nodup := by
    rw [UserCaps.iter, Std.ExtTreeMap.map_fst_toList_eq_keys]
    exact Std.ExtTreeMap.nodup_keys
  obtain ⟨caps', hfold, hread⟩ := @deserialize_entries _ hnodup hrows .new fun _ _ => by
    simp [UserCaps.new]
  obtain ⟨entries'⟩ := caps'
  have hentries : entries' = caps.entries := by
    apply Std.ExtTreeMap.ext_getElem?
    intro cap
    apply Option.ext
    intro p
    rw [hread cap p, UserCaps.iter, mem_rows]
    simp [UserCaps.new]
  rw [UserCaps.deserialize, UserCaps.serialize, hfold, hentries]

end Caps

section Records

variable {info loaded : UserInfo}

theorem created_caps {draws : Draws} {params : UserCreateParams} (h : Created draws params info) :
    GoodCaps info.caps := by
  obtain ⟨caps, hcaps, hinfo⟩ := h
  have hgood : GoodCaps caps := by
    cases hparam : nonempty params.caps with
    | none =>
      rw [hparam] at hcaps
      cases hcaps
      exact goodCaps_new
    | some text =>
      rw [hparam] at hcaps
      exact goodCaps_addFromString goodCaps_new hcaps
  rcases hinfo with ⟨-, -, -, rfl⟩ | ⟨id, key, -, -, rfl⟩ <;> exact hgood

theorem parseCaps_good {text : Str} {caps : UserCaps} (h : parseCaps text = .ok caps) :
    GoodCaps caps := by
  rw [parseCaps] at h
  split at h
  · cases h
  · exact goodCaps_addFromString goodCaps_new h

theorem edit_caps {m : Mutation} (h : Edit m loaded (some info)) (hc : GoodCaps loaded.caps) :
    GoodCaps info.caps := by
  cases m with
  | userModify draws params =>
    rcases h with ⟨-, -, -, rfl⟩ | ⟨id, key, -, -, rfl⟩ <;> exact hc
  | keyCreate draws accessKey secretKey generate =>
    obtain ⟨id, key, -, -, rfl⟩ := h
    exact hc
  | keyRemove accessKey =>
    obtain ⟨-, rfl⟩ := h
    exact hc
  | capsAdd text =>
    obtain ⟨parsed, added, hparsed, hadded, rfl⟩ := h
    have husable := usable_iter (parseCaps_good hparsed)
    exact foldlM_invariant GoodCaps
      (fun b e b' he hb hstep => goodCaps_add hb (husable e he) hstep) hc hadded
  | capsRemove text =>
    obtain ⟨parsed, hparsed, rfl⟩ := h
    exact goodCaps_removeAll hc (usable_iter (parseCaps_good hparsed))
  | userRemove fuel purgeData => cases h

end Records

end StoredCaps
