import Rgw.DeleteDocuments

/-! # Documents that break off

The walk leaves through the end of the input wherever it comes. What it has read by then counts,
so a document that breaks off after an entry is taken for one with the entries up to there. -/
namespace CutDocuments

open ByteStrings RgwTypes Http RestS3Wire DeleteDocuments

variable {events : List XmlEvent} {e : XmlEvent} {w w' : DeleteWalk} {name : Str}

section Splits

variable {α : Type} {l : List α} {x : α}

/-- A place of a longer list is its last, or one of the list before. -/
theorem split_snoc {before later : List α} {a : α} : l ++ [x] = before ++ a :: later ↔
    (before = l ∧ a = x ∧ later = []) ∨ ∃ rest, later = rest ++ [x] ∧ l = before ++ a :: rest := by
  constructor
  · intro he
    rcases List.eq_nil_or_concat later with rfl | ⟨rest, y, rfl⟩
    · obtain ⟨rfl, hx⟩ := List.append_inj' he rfl
      cases hx
      exact Or.inl ⟨rfl, rfl, rfl⟩
    · have hsplit : l ++ [x] = (before ++ a :: rest) ++ [y] := by simpa using he
      obtain ⟨rfl, hx⟩ := List.append_inj' hsplit rfl
      cases hx
      exact Or.inr ⟨rest, List.concat_eq_append, rfl⟩
  · rintro (⟨rfl, rfl, rfl⟩ | ⟨rest, rfl, rfl⟩)
    · rfl
    · rw [List.append_assoc, List.cons_append]

theorem forall_split_snoc {P : List α → α → Prop} :
    (∀ before a later, l ++ [x] = before ++ a :: later → P before a) ↔
      (∀ before a later, l = before ++ a :: later → P before a) ∧ P l x := by
  constructor
  · intro h
    refine ⟨fun before a later he => ?_, h l x [] rfl⟩
    exact h before a (later ++ [x]) (split_snoc.mpr (Or.inr ⟨later, rfl, he⟩))
  · rintro ⟨hl, hx⟩ before a later he
    rcases split_snoc.mp he with ⟨rfl, rfl, -⟩ | ⟨rest, -, he⟩
    · exact hx
    · exact hl before a rest he

end Splits

section Places

/-- The elements that are open after an event, innermost first. -/
def openWith (path : List Str) : XmlEvent → List Str
  | .start name => name :: path
  | .close => path.tail
  | _ => path

def openAfter (events : List XmlEvent) : List Str := events.foldl openWith []

/-- The name of the element that an event begins. -/
def begun : XmlEvent → Option Str
  | .start name | .empty name => some name
  | _ => none

/-- The element that an event ends, with those around it. -/
def ended (path : List Str) : XmlEvent → Option (List Str)
  | .close => some path
  | .empty name => some (name :: path)
  | _ => none

def keyPath : List Str := [bytes "Key", bytes "Object", bytes "Delete"]
def objectPath : List Str := [bytes "Object", bytes "Delete"]

/-- How many entries end. -/
def entriesFrom (path : List Str) : List XmlEvent → ℕ
  | [] => 0
  | e :: events =>
    (if ended path e = some objectPath then 1 else 0) + entriesFrom (openWith path e) events

/-- Whether a place is about the key of an entry: it begins the entry, or ends it. -/
def Turns (before : List XmlEvent) (e : XmlEvent) : Prop :=
  begun e = some (bytes "Object") ∧ openAfter before = [bytes "Delete"] ∨
  ended (openAfter before) e = some objectPath

/-- A key has ended, and no entry has begun or ended since. -/
def Keyed (events : List XmlEvent) : Prop :=
  ∃ before e later, events = before ++ e :: later ∧ ended (openAfter before) e = some keyPath ∧
    ∀ mid e' rest, later = mid ++ e' :: rest → ¬Turns (before ++ e :: mid) e'

/-- What the markup allows in itself. -/
def Legible : XmlEvent → Prop
  | .bad => False
  | .charRef c => c ≠ none
  | .entityRef name => name ∈ entities.map Prod.fst
  | _ => True

/-- What the format allows: one root of its name, and no entry without a key. -/
structure Allowed (before : List XmlEvent) (e : XmlEvent) : Prop where
  legible : Legible e
  root : ∀ name, begun e = some name → openAfter before = [] →
    name = bytes "Delete" ∧ ∀ e' ∈ before, begun e' = none
  keyed : ended (openAfter before) e = some objectPath → e = .close ∧ Keyed before

/-- Everything in it is allowed, as far as it goes. -/
def Sound (events : List XmlEvent) : Prop :=
  ∀ before e later, events = before ++ e :: later → Allowed before e

theorem openAfter_snoc (events : List XmlEvent) (e : XmlEvent) :
    openAfter (events ++ [e]) = openWith (openAfter events) e := by
  rw [openAfter, List.foldl_append]
  rfl

theorem sound_snoc : Sound (events ++ [e]) ↔ Sound events ∧ Allowed events e := forall_split_snoc

theorem entriesFrom_snoc (path : List Str) (events : List XmlEvent) (e : XmlEvent) :
    entriesFrom path (events ++ [e]) = entriesFrom path events +
      if ended (events.foldl openWith path) e = some objectPath then 1 else 0 := by
  induction events generalizing path with
  | nil =>
    rw [List.nil_append, entriesFrom, entriesFrom, entriesFrom, Nat.add_comm]
    rfl
  | cons e' events ih =>
    rw [List.cons_append, entriesFrom, ih, entriesFrom, Nat.add_assoc]
    rfl

theorem keyed_snoc : Keyed (events ++ [e]) ↔
    ended (openAfter events) e = some keyPath ∨ Keyed events ∧ ¬Turns events e := by
  constructor
  · rintro ⟨before, e', later, hsplit, hended, hquiet⟩
    rcases split_snoc.mp hsplit with ⟨rfl, rfl, -⟩ | ⟨rest, rfl, rfl⟩
    · exact Or.inl hended
    · obtain ⟨hrest, hlast⟩ := (forall_split_snoc (P := fun mid x =>
        ¬Turns (before ++ e' :: mid) x)).mp hquiet
      exact Or.inr ⟨⟨before, e', rest, rfl, hended, hrest⟩, hlast⟩
  · rintro (hended | ⟨⟨before, e', rest, rfl, hended, hquiet⟩, hlast⟩)
    · refine ⟨events, e, [], rfl, hended, fun mid x rest he => ?_⟩
      cases mid <;> cases he
    · refine ⟨before, e', rest ++ [e], by rw [List.append_assoc, List.cons_append], hended, ?_⟩
      exact (forall_split_snoc (P := fun mid x => ¬Turns (before ++ e' :: mid) x)).mpr ⟨hquiet, hlast⟩

end Places

section Steps

/-- What the walk knows after some events. -/
structure Reached (events : List XmlEvent) (w : DeleteWalk) : Prop where
  path : w.path = openAfter events
  root : w.sawRoot = true ↔ ∃ e ∈ events, begun e ≠ none
  outer : ∀ name ∈ w.path.getLast?, name = bytes "Delete"
  key : w.key.isSome = true ↔ Keyed events
  entries : w.req.objects.length = entriesFrom [] events

theorem reached_start : Reached [] .start where
  path := rfl
  root := by simp [DeleteWalk.start]
  outer := by simp [DeleteWalk.start]
  key := by
    constructor
    · intro h
      cases h
    · rintro ⟨before, e, later, h, -⟩
      cases before <;> cases h
  entries := rfl

theorem root_snoc (h : Reached events w) : (∃ x ∈ events ++ [e], begun x ≠ none) ↔
    w.sawRoot = true ∨ begun e ≠ none := by
  rw [h.root]
  constructor
  · rintro ⟨x, hx, hb⟩
    rcases List.mem_append.mp hx with hx | hx
    · exact Or.inl ⟨x, hx, hb⟩
    · rw [List.mem_singleton.mp hx] at hb
      exact Or.inr hb
  · rintro (⟨x, hx, hb⟩ | hb)
    · exact ⟨x, List.mem_append_left _ hx, hb⟩
    · exact ⟨e, List.mem_append_right _ List.mem_cons_self, hb⟩

theorem entries_snoc (h : Reached events w) : entriesFrom [] (events ++ [e]) =
    w.req.objects.length + if ended w.path e = some objectPath then 1 else 0 := by
  rw [entriesFrom_snoc, ← openAfter, h.entries, h.path]

/-- Only the root has nothing but the root open. -/
theorem path_single (h : Reached events w) : w.path.length = 1 ↔ w.path = [bytes "Delete"] := by
  constructor
  · intro hlen
    obtain ⟨name, hname⟩ := List.length_eq_one_iff.mp hlen
    have houter := h.outer name (by rw [hname]; rfl)
    rw [hname, houter]
  · intro hpath
    rw [hpath]
    rfl

/-- Text and comments. -/
theorem reached_content (h : Reached events w) (hb : begun e = none) (he : ∀ path, ended path e = none)
    (ho : ∀ path, openWith path e = path) (s : Str) : Reached (events ++ [e]) (addContent w s) where
  path := by rw [openAfter_snoc, ho]; exact h.path
  root := by
    have hnone : ¬begun e ≠ none := not_not.mpr hb
    rw [root_snoc h, or_iff_left hnone]
    exact Iff.rfl
  outer := h.outer
  key := by
    have hturns : ¬Turns events e := by
      rw [Turns, hb, he]
      simp
    rw [keyed_snoc, he]
    simp only [reduceCtorEq, false_or, hturns, not_false_eq_true, and_true]
    exact h.key
  entries := by
    rw [entries_snoc h, he]
    rfl

theorem allowed_content (hl : Legible e) (hb : begun e = none) (he : ∀ path, ended path e = none) :
    Allowed events e where
  legible := hl
  root := by
    intro name hname
    rw [hb] at hname
    cases hname
  keyed := by
    intro hended
    rw [he] at hended
    cases hended

/-- What ending an element does. -/
structure Closed (w w' : DeleteWalk) : Prop where
  path : w'.path = w.path.tail
  root : w'.sawRoot = w.sawRoot
  key : w'.key.isSome = if w.path = keyPath then true
    else if w.path = objectPath then false else w.key.isSome
  entries : w'.req.objects.length = w.req.objects.length + if w.path = objectPath then 1 else 0

theorem closeElement_ok (h : closeElement w = .ok w') :
    (w.path = objectPath → w.key.isSome = true) ∧ Closed w w' := by
  rw [closeElement] at h
  dsimp only at h
  split at h
  · next hp =>
    cases h
    have hkey : w.path = keyPath := hp
    have hne : w.path ≠ objectPath := by rw [hkey]; decide
    exact ⟨fun hobject => absurd hobject hne, rfl, rfl,
      by rw [if_pos hkey]; rfl, by rw [if_neg hne]; rfl⟩
  · next hkey =>
    have hkey : ¬w.path = keyPath := hkey
    split at h
    · next hp =>
      cases h
      have hne : w.path ≠ objectPath := by rw [hp]; decide
      exact ⟨fun hobject => absurd hobject hne, rfl, rfl, by rw [if_neg hkey, if_neg hne],
        by rw [if_neg hne]; rfl⟩
    · split at h
      · next hp =>
        have hobject : w.path = objectPath := hp
        split at h
        · cases h
        · next key hsome =>
          cases h
          exact ⟨fun _ => by rw [hsome]; rfl, rfl, rfl, by rw [if_neg hkey, if_pos hobject]; rfl,
            by rw [if_pos hobject, List.length_append]; rfl⟩
      · next hp =>
        have hne : w.path ≠ objectPath := hp
        split at h <;> cases h <;>
          exact ⟨fun hobject => absurd hobject hne, rfl, rfl, by rw [if_neg hkey, if_neg hne],
            by rw [if_neg hne]; rfl⟩

theorem closeElement_allowed (h : w.path = objectPath → w.key.isSome = true) :
    ∃ w', closeElement w = .ok w' := by
  rw [closeElement]
  dsimp only
  split
  · exact ⟨_, rfl⟩
  · split
    · exact ⟨_, rfl⟩
    · split
      · next hp =>
        obtain ⟨key, hkey⟩ := Option.isSome_iff_exists.mp (h hp)
        rw [hkey]
        exact ⟨_, rfl⟩
      · split <;> exact ⟨_, rfl⟩

theorem reached_close (h : Reached events w) (hc : closeElement w = .ok w') :
    Allowed events .close ∧ Reached (events ++ [.close]) w' := by
  obtain ⟨hkeyed, closed⟩ := closeElement_ok hc
  have hended : ended (openAfter events) .close = some w.path := congrArg some h.path.symm
  refine ⟨⟨trivial, fun name hname => (by cases hname), fun hobject => ?_⟩, ?_⟩
  · rw [hended, Option.some_inj] at hobject
    exact ⟨rfl, h.key.mp (hkeyed hobject)⟩
  · exact {
      path := by rw [openAfter_snoc, closed.path, h.path]; rfl
      root := by rw [root_snoc h, closed.root, or_iff_left (fun hb => hb rfl)]
      outer := by
        rw [closed.path]
        intro name hname
        apply h.outer
        cases hpath : w.path with
        | nil => rw [hpath] at hname; cases hname
        | cons x path =>
          rw [hpath] at hname
          cases path with
          | nil => cases hname
          | cons y path => rwa [List.getLast?_cons_cons]
      key := by
        have hturns : Turns events .close ↔ w.path = objectPath := by
          rw [Turns, hended, Option.some_inj]
          exact or_iff_right fun hb => by cases hb.1
        rw [keyed_snoc, hended, Option.some_inj, hturns, closed.key, ← h.key]
        by_cases hkey : w.path = keyPath
        · simp [hkey]
        · by_cases hobject : w.path = objectPath
          · simp [hobject, show objectPath ≠ keyPath by decide]
          · simp [hkey, hobject]
      entries := by
        rw [entries_snoc h, closed.entries]
        simp only [ended, Option.some_inj] }

theorem openElement_allowed (h : ¬(w.path = [] ∧ (name ≠ bytes "Delete" ∨ w.sawRoot = true))) :
    ∃ w', openElement w name = .ok w' := by
  rw [openElement, if_neg h]
  exact ⟨_, rfl⟩

/-- What beginning an element does. -/
structure Opened (name : Str) (w w' : DeleteWalk) : Prop where
  path : w'.path = name :: w.path
  root : w'.sawRoot = true
  key : w'.key = if w.path.length = 1 ∧ name = bytes "Object" then none else w.key
  entries : w'.req = w.req

theorem openElement_ok (h : openElement w name = .ok w') :
    ¬(w.path = [] ∧ (name ≠ bytes "Delete" ∨ w.sawRoot = true)) ∧ Opened name w w' := by
  rw [openElement] at h
  split at h
  · cases h
  · next hroot =>
    cases h
    exact ⟨hroot, rfl, rfl, rfl, rfl⟩

/-- One root, and of its name. -/
theorem rooted_iff (h : Reached events w) (hb : begun e = some name) :
    ¬(w.path = [] ∧ (name ≠ bytes "Delete" ∨ w.sawRoot = true)) ↔
    ∀ name', begun e = some name' → openAfter events = [] →
      name' = bytes "Delete" ∧ ∀ e' ∈ events, begun e' = none := by
  rw [h.root, hb, ← h.path]
  constructor
  · rintro hroot name' ⟨rfl⟩ hpath
    rw [not_and, not_or, not_not] at hroot
    obtain ⟨hname, hnone⟩ := hroot hpath
    refine ⟨hname, fun e' he' => ?_⟩
    by_contra hsome
    exact hnone ⟨e', he', hsome⟩
  · rintro hroot ⟨hpath, hwrong⟩
    obtain ⟨hname, hnone⟩ := hroot name rfl hpath
    rcases hwrong with hwrong | ⟨e', he', hsome⟩
    · exact hwrong hname
    · exact hsome (hnone e' he')

theorem opened_outer (h : Reached events w)
    (hroot : ¬(w.path = [] ∧ (name ≠ bytes "Delete" ∨ w.sawRoot = true))) :
    ∀ x ∈ (name :: w.path).getLast?, x = bytes "Delete" := by
  intro x hx
  cases hpath : w.path with
  | nil =>
    rw [hpath] at hx hroot
    cases hx
    by_contra hne
    exact hroot ⟨rfl, Or.inl hne⟩
  | cons y path =>
    rw [hpath, List.getLast?_cons_cons] at hx
    apply h.outer
    rw [hpath]
    exact hx

theorem reached_open (h : Reached events w) (ho : openElement w name = .ok w') :
    Allowed events (.start name) ∧ Reached (events ++ [.start name]) w' := by
  obtain ⟨hroot, opened⟩ := openElement_ok ho
  refine ⟨⟨trivial, (rooted_iff h rfl).mp hroot, fun hended => by cases hended⟩, ?_⟩
  exact {
    path := by rw [openAfter_snoc, opened.path, h.path]; rfl
    root := by
      rw [root_snoc h, opened.root]
      exact iff_of_true rfl (Or.inr fun hb => by cases hb)
    outer := by
      rw [opened.path]
      exact opened_outer h hroot
    key := by
      have hturns : Turns events (.start name) ↔ w.path.length = 1 ∧ name = bytes "Object" := by
        rw [path_single h, h.path, Turns, and_comm]
        simp [begun, ended]
      rw [keyed_snoc, hturns, opened.key, ← h.key]
      by_cases hobject : w.path.length = 1 ∧ name = bytes "Object"
      · simp [hobject, ended]
      · rw [if_neg hobject]
        simp [hobject, ended]
    entries := by
      rw [entries_snoc h, opened.entries]
      rfl }

/-- An element without content is read as its beginning and its end. -/
theorem reached_empty (h : Reached events w) {w₁ : DeleteWalk} (ho : openElement w name = .ok w₁)
    (hc : closeElement w₁ = .ok w') :
    Allowed events (.empty name) ∧ Reached (events ++ [.empty name]) w' := by
  obtain ⟨hroot, opened⟩ := openElement_ok ho
  obtain ⟨hkeyed, closed⟩ := closeElement_ok hc
  have hended : ended (openAfter events) (.empty name) = some w₁.path := by
    rw [opened.path, h.path]
    rfl
  have hnew : w₁.path = objectPath ↔ w.path.length = 1 ∧ name = bytes "Object" := by
    rw [opened.path, path_single h, objectPath, List.cons.injEq, and_comm]
  have hobject : ¬w₁.path = objectPath := by
    intro hp
    have hsome := hkeyed hp
    rw [opened.key, if_pos (hnew.mp hp)] at hsome
    cases hsome
  refine ⟨⟨trivial, (rooted_iff h rfl).mp hroot, fun hp => ?_⟩, ?_⟩
  · rw [hended, Option.some_inj] at hp
    exact absurd hp hobject
  · exact {
      path := by rw [openAfter_snoc, closed.path, opened.path, h.path]; rfl
      root := by
        rw [root_snoc h, closed.root, opened.root]
        exact iff_of_true rfl (Or.inr fun hb => by cases hb)
      outer := by
        rw [closed.path, opened.path]
        exact h.outer
      key := by
        have hturns : ¬Turns events (.empty name) := by
          rw [Turns, hended, Option.some_inj, not_or]
          refine ⟨fun ⟨hname, hpath⟩ => hobject (hnew.mpr ?_), hobject⟩
          rw [path_single h, h.path]
          exact ⟨hpath, Option.some_inj.mp hname⟩
        rw [keyed_snoc, hended, Option.some_inj, closed.key, if_neg hobject, opened.key,
          if_neg (mt hnew.mpr hobject), ← h.key]
        by_cases hkey : w₁.path = keyPath
        · simp [hkey]
        · simp [hkey, hturns]
      entries := by
        rw [entries_snoc h, closed.entries, opened.entries, opened.path]
        simp only [ended, Option.some_inj] }

end Steps

section Runs

theorem walk_append {rest : List XmlEvent} (h : .eof ∉ events) (w : DeleteWalk) :
    walkEvents (events ++ rest) w = walkEvents events w >>= walkEvents rest := by
  induction events generalizing w with
  | nil => rfl
  | cons e events ih =>
    rw [List.mem_cons, not_or] at h
    have hbind : ∀ {α : Type} (x : RgwResult α) (f : α → DeleteWalk),
        (x >>= fun a => walkEvents (events ++ rest) (f a)) =
          (x >>= fun a => walkEvents events (f a)) >>= walkEvents rest := by
      intro α x f
      cases x with
      | error err => rfl
      | ok a => exact ih h.2 (f a)
    cases e with
    | start name => exact hbind (openElement w name) id
    | empty name =>
      change (openElement w name >>= fun w => closeElement w >>= fun w =>
        walkEvents (events ++ rest) w) =
        (openElement w name >>= fun w => closeElement w >>= fun w => walkEvents events w) >>=
          walkEvents rest
      cases openElement w name with
      | error err => rfl
      | ok w => exact hbind (closeElement w) id
    | close => exact hbind (closeElement w) id
    | text t => exact ih h.2 (addContent w t)
    | cdata t => exact ih h.2 (addContent w t)
    | charRef c =>
      cases c with
      | none => rfl
      | some c => exact ih h.2 (addContent w c)
    | entityRef name => exact hbind (predefinedEntity name) (addContent w)
    | other => exact ih h.2 w
    | bad => rfl
    | eof => exact absurd rfl h.1

theorem entity_known {t : Str} (h : predefinedEntity name = .ok t) :
    name ∈ entities.map Prod.fst := by
  by_contra hname
  simp only [entities, List.map_cons, List.map_nil, List.mem_cons, List.not_mem_nil, or_false,
    not_or] at hname
  obtain ⟨hamp, hlt, hgt, hquot, hapos⟩ := hname
  rw [predefinedEntity, if_neg hamp, if_neg hlt, if_neg hgt, if_neg hquot, if_neg hapos] at h
  cases h

theorem step_ok (h : Reached events w) (he : e ≠ .eof) (hs : walkEvents [e] w = .ok w') :
    Allowed events e ∧ Reached (events ++ [e]) w' := by
  cases e with
  | start name =>
    obtain ⟨w₁, ho, hs⟩ := bind_eq_ok.mp hs
    cases hs
    exact reached_open h ho
  | empty name =>
    obtain ⟨w₁, ho, hs⟩ := bind_eq_ok.mp hs
    obtain ⟨w₂, hc, hs⟩ := bind_eq_ok.mp hs
    cases hs
    exact reached_empty h ho hc
  | close =>
    obtain ⟨w₁, hc, hs⟩ := bind_eq_ok.mp hs
    cases hs
    exact reached_close h hc
  | text t =>
    cases hs
    exact ⟨allowed_content trivial rfl fun _ => rfl,
      reached_content h rfl (fun _ => rfl) (fun _ => rfl) t⟩
  | cdata t =>
    cases hs
    exact ⟨allowed_content trivial rfl fun _ => rfl,
      reached_content h rfl (fun _ => rfl) (fun _ => rfl) t⟩
  | charRef c =>
    cases c with
    | none => cases hs
    | some c =>
      cases hs
      have hlegible : Legible (.charRef (some c)) := fun hnone => by cases hnone
      exact ⟨allowed_content hlegible rfl fun _ => rfl,
        reached_content h rfl (fun _ => rfl) (fun _ => rfl) c⟩
  | entityRef name =>
    obtain ⟨t, ht, hs⟩ := bind_eq_ok.mp hs
    cases hs
    exact ⟨allowed_content (e := .entityRef name) (entity_known ht) rfl fun _ => rfl,
      reached_content h rfl (fun _ => rfl) (fun _ => rfl) t⟩
  | other =>
    cases hs
    have hsame := reached_content (e := .other) h rfl (fun _ => rfl) (fun _ => rfl) []
    rw [addContent_nil] at hsame
    exact ⟨allowed_content trivial rfl fun _ => rfl, hsame⟩
  | bad => cases hs
  | eof => exact absurd rfl he

theorem step_allowed (h : Reached events w) (ha : Allowed events e) :
    ∃ w', walkEvents [e] w = .ok w' := by
  cases e with
  | start name =>
    obtain ⟨w', ho⟩ := openElement_allowed ((rooted_iff h rfl).mpr ha.root)
    exact ⟨w', bind_eq_ok.mpr ⟨w', ho, rfl⟩⟩
  | empty name =>
    obtain ⟨w₁, ho⟩ := openElement_allowed ((rooted_iff h rfl).mpr ha.root)
    have hkeyed : w₁.path = objectPath → w₁.key.isSome = true := by
      intro hobject
      rw [(openElement_ok ho).2.path, h.path] at hobject
      cases (ha.keyed (congrArg some hobject)).1
    obtain ⟨w', hc⟩ := closeElement_allowed hkeyed
    exact ⟨w', bind_eq_ok.mpr ⟨w₁, ho, bind_eq_ok.mpr ⟨w', hc, rfl⟩⟩⟩
  | close =>
    have hkeyed : w.path = objectPath → w.key.isSome = true := by
      intro hobject
      rw [h.path] at hobject
      exact h.key.mpr (ha.keyed (congrArg some hobject)).2
    obtain ⟨w', hc⟩ := closeElement_allowed hkeyed
    exact ⟨w', bind_eq_ok.mpr ⟨w', hc, rfl⟩⟩
  | text t => exact ⟨_, rfl⟩
  | cdata t => exact ⟨_, rfl⟩
  | charRef c =>
    cases c with
    | none => exact absurd rfl ha.legible
    | some c => exact ⟨_, rfl⟩
  | entityRef name =>
    obtain ⟨⟨name', t⟩, hmem, hname⟩ := List.mem_map.mp ha.legible
    cases hname
    exact ⟨_, bind_eq_ok.mpr ⟨t, predefinedEntity_eq hmem, rfl⟩⟩
  | other => exact ⟨_, rfl⟩
  | bad => exact ha.legible.elim
  | eof => exact ⟨_, rfl⟩

theorem mem_snoc_ne (h : .eof ∉ events ++ [e]) : .eof ∉ events ∧ e ≠ .eof := by
  rw [List.mem_append, not_or, List.mem_singleton] at h
  exact ⟨h.1, fun he => h.2 he.symm⟩

theorem run_reached (hne : .eof ∉ events) (h : walkEvents events .start = .ok w) :
    Sound events ∧ Reached events w := by
  induction events using List.reverseRecOn generalizing w with
  | nil =>
    cases h
    refine ⟨fun before e later hs => ?_, reached_start⟩
    cases before <;> cases hs
  | append_singleton events e ih =>
    obtain ⟨hne, he⟩ := mem_snoc_ne hne
    rw [walk_append hne] at h
    obtain ⟨w', hw', hs⟩ := bind_eq_ok.mp h
    obtain ⟨hsound, hreached⟩ := ih hne hw'
    obtain ⟨hallowed, hreached'⟩ := step_ok hreached he hs
    exact ⟨sound_snoc.mpr ⟨hsound, hallowed⟩, hreached'⟩

theorem sound_runs (hne : .eof ∉ events) (h : Sound events) :
    ∃ w, walkEvents events .start = .ok w := by
  induction events using List.reverseRecOn with
  | nil => exact ⟨_, rfl⟩
  | append_singleton events e ih =>
    obtain ⟨hne, he⟩ := mem_snoc_ne hne
    obtain ⟨hsound, hallowed⟩ := sound_snoc.mp h
    obtain ⟨w, hw⟩ := ih hne hsound
    obtain ⟨w', hs⟩ := step_allowed (run_reached hne hw).2 hallowed
    exact ⟨w', by rw [walk_append hne, hw]; exact hs⟩

/-- Nothing is listed outside a root. -/
theorem entries_of_nothing (h : ∀ e ∈ events, begun e = none) : entriesFrom [] events = 0 := by
  induction events with
  | nil => rfl
  | cons e events ih =>
    rw [List.forall_mem_cons] at h
    have hplace : openWith [] e = [] ∧ ended [] e ≠ some objectPath := by
      cases e with
      | start name => cases h.1
      | empty name => cases h.1
      | close => exact ⟨rfl, by decide⟩
      | _ => exact ⟨rfl, fun hended => by cases hended⟩
    rw [entriesFrom, hplace.1, if_neg hplace.2, ih h.2]

/-- What is taken for a request: what is sound as far as it goes, with one entry at least. -/
theorem accepts_iff (hne : .eof ∉ events) : (∃ req, parseDeleteEvents (events ++ [.eof]) = .ok req) ↔
    Sound events ∧ 1 ≤ entriesFrom [] events ∧ entriesFrom [] events ≤ 1000 := by
  constructor
  · rintro ⟨req, h⟩
    obtain ⟨w, hw, rfl, -, hsome, hfew⟩ := parseDeleteEvents_ok.mp h
    rw [walk_append hne] at hw
    obtain ⟨w', hw', heof⟩ := bind_eq_ok.mp hw
    cases heof
    obtain ⟨hsound, hreached⟩ := run_reached hne hw'
    rw [← hreached.entries]
    exact ⟨hsound, hsome, hfew⟩
  · rintro ⟨hsound, hsome, hfew⟩
    obtain ⟨w, hw⟩ := sound_runs hne hsound
    obtain ⟨-, hreached⟩ := run_reached hne hw
    have hroot : w.sawRoot = true := by
      rw [hreached.root]
      by_contra hnone
      have hzero := @entries_of_nothing events fun e he => by
        by_contra hb
        exact hnone ⟨e, he, hb⟩
      omega
    rw [← hreached.entries] at hsome hfew
    have hend : walkEvents (events ++ [.eof]) .start = .ok w := by
      rw [walk_append hne, hw]
      rfl
    exact ⟨w.req, parseDeleteEvents_ok.mpr ⟨w, hend, rfl, hroot, hsome, hfew⟩⟩

/-- The promise about a document that ends here: it is taken only if nothing in it is open. -/
def WholeIfAccepted (events : List XmlEvent) : Prop :=
  ∀ req, parseDeleteEvents (events ++ [.eof]) = .ok req → openAfter events = []

theorem whole_if_accepted_iff (events : List XmlEvent) (hne : .eof ∉ events) :
    WholeIfAccepted events ↔ openAfter events = [] ∨
      ¬(Sound events ∧ 1 ≤ entriesFrom [] events ∧ entriesFrom [] events ≤ 1000) := by
  rw [← accepts_iff hne]
  constructor
  · intro h
    by_cases haccepted : ∃ req, parseDeleteEvents (events ++ [.eof]) = .ok req
    · obtain ⟨req, hreq⟩ := haccepted
      exact Or.inl (h req hreq)
    · exact Or.inr haccepted
  · rintro (hwhole | hrefused) req hreq
    · exact hwhole
    · exact absurd ⟨req, hreq⟩ hrefused

/-- A document that breaks off after its first entry. -/
def cutDocument : List XmlEvent :=
  [.start (bytes "Delete"), .start (bytes "Object"), .start (bytes "Key"), .text (bytes "notes"),
    .close, .close]

theorem cutDocument_ends : .eof ∉ cutDocument := by simp [cutDocument]

theorem cutDocument_accepted : ¬WholeIfAccepted cutDocument := by
  intro h
  have hopen := h ⟨[⟨bytes "notes", none⟩], false⟩ rfl
  revert hopen
  decide

theorem whole_if_accepted_iff_cut : WholeIfAccepted cutDocument ↔ openAfter cutDocument = [] ∨
    ¬(Sound cutDocument ∧ 1 ≤ entriesFrom [] cutDocument ∧ entriesFrom [] cutDocument ≤ 1000) :=
  whole_if_accepted_iff cutDocument cutDocument_ends

end Runs

end CutDocuments
