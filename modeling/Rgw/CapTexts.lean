import Rgw.StoredCaps
import Rgw.Utf8Texts

/-! # What a capability string grants

A string is items between semicolons, each a type and the words for its permission. It is
accepted exactly when it spells known types and words, and what it adds is the bits that its
items give, whatever their order, repetition and spacing. -/
namespace CapTexts

open ByteStrings TextCodecs SortedMaps RgwTypes StoredCaps Utf8Texts

section Bits

/-- What a permission is made of. -/
inductive CapBit where
  | read
  | write
  deriving DecidableEq

def CapBit.perm : CapBit → CapPerm
  | read => .read
  | write => .write

/-- The user holds one bit of a capability type. -/
def Holds (caps : UserCaps) (cap : Str) (b : CapBit) : Prop := caps.checkCap cap b.perm = true

variable {p q : CapPerm} {b : CapBit} {caps caps' : UserCaps} {cap c : Str}

/-- A permission contains a bit when its byte has it at its place. -/
theorem contains_bit (p : CapPerm) (b : CapBit) :
    p.contains b.perm = p.bits.toBitVec.getLsbD (match b with | .read => 0 | .write => 1) := by
  obtain ⟨bits⟩ := p
  revert bits
  cases b with
  | read => exact forall_byte (by decide +kernel)
  | write => exact forall_byte (by decide +kernel)

theorem contains_union : (p.union q).contains b.perm = (p.contains b.perm || q.contains b.perm) := by
  simp [contains_bit, CapPerm.union]

theorem contains_difference :
    (p.difference q).contains b.perm = (p.contains b.perm && !q.contains b.perm) := by
  cases b <;> simp [contains_bit, CapPerm.difference]

theorem contains_none : CapPerm.none.contains b.perm = false := by
  cases b <;> decide

/-- A permission with a text is held when each of its bits is. -/
theorem contains_usable (hp : Usable p) :
    q.contains p = true ↔ ∀ b : CapBit, p.contains b.perm = true → q.contains b.perm = true := by
  obtain ⟨bits⟩ := q
  have hforall : ∀ P : CapBit → Prop, (∀ b, P b) ↔ P .read ∧ P .write :=
    fun P => ⟨fun h => ⟨h _, h _⟩, fun h b => by cases b; exacts [h.1, h.2]⟩
  rw [hforall]
  revert bits
  rcases hp with rfl | rfl | rfl
  · exact forall_byte (by decide +kernel)
  · exact forall_byte (by decide +kernel)
  · exact forall_byte (by decide +kernel)

theorem usable_bit (hp : Usable p) : ∃ b : CapBit, p.contains b.perm = true := by
  rcases hp with rfl | rfl | rfl
  · exact ⟨.read, by decide⟩
  · exact ⟨.write, by decide⟩
  · exact ⟨.read, by decide⟩

theorem holds_iff : Holds caps cap b ↔
    ∃ held, caps.entries[cap]? = some held ∧ held.contains b.perm = true := by
  rw [Holds, UserCaps.checkCap, Option.any_eq_true]

/-- The check of a permission asks for each of its bits. -/
theorem checkCap_iff (hp : Usable p) : caps.checkCap cap p = true ↔
    ∀ b : CapBit, p.contains b.perm = true → Holds caps cap b := by
  simp only [holds_iff, UserCaps.checkCap, Option.any_eq_true]
  constructor
  · rintro ⟨held, hentry, hheld⟩ b hb
    exact ⟨held, hentry, (contains_usable hp).mp hheld b hb⟩
  · intro h
    obtain ⟨b, hb⟩ := usable_bit hp
    obtain ⟨held, hentry, -⟩ := h b hb
    refine ⟨held, hentry, (contains_usable hp).mpr fun b hb => ?_⟩
    obtain ⟨held', hentry', hheld⟩ := h b hb
    rw [hentry] at hentry'
    rwa [Option.some.inj hentry']

theorem holds_new : ¬Holds .new c b := by
  simp [holds_iff, UserCaps.new]

theorem holds_add (h : caps.add cap p = .ok caps') :
    Holds caps' c b ↔ Holds caps c b ∨ c = cap ∧ p.contains b.perm = true := by
  rw [UserCaps.add] at h
  split at h
  · cases h
    rw [holds_iff, holds_iff, getElem?_insert_eq]
    by_cases hc : cap = c
    · subst hc
      cases caps.entries[cap]? with
      | none => simp [contains_union, contains_none]
      | some held => simp [contains_union]
    · simp [hc, Ne.symm hc]
  · cases h

theorem holds_remove : Holds (caps.remove cap p) c b ↔
    Holds caps c b ∧ ¬(c = cap ∧ p.contains b.perm = true) := by
  rw [UserCaps.remove]
  cases hentry : caps.entries[cap]? with
  | none =>
    by_cases hc : c = cap
    · subst hc
      simp [holds_iff, hentry]
    · simp [hc]
  | some held =>
    dsimp only
    by_cases hc : cap = c
    · subst hc
      by_cases hn : (held.difference p).isNone = true
      · -- what has no bits left is dropped
        have hzero : (held.difference p).contains b.perm = false := by
          have hnone : held.difference p = .none := congrArg CapPerm.mk (beq_iff_eq.mp hn)
          rw [hnone, contains_none]
        rw [contains_difference] at hzero
        rw [if_pos hn, holds_iff, holds_iff, getElem?_erase_eq, hentry]
        simpa using hzero
      · rw [if_neg hn, holds_iff, holds_iff, getElem?_insert_eq, hentry]
        simp [contains_difference]
    · have hother : Holds (if (held.difference p).isNone = true then ⟨caps.entries.erase cap⟩
          else ⟨caps.entries.insert cap (held.difference p)⟩) c b ↔ Holds caps c b := by
        split <;> simp [holds_iff, getElem?_erase_eq, getElem?_insert_eq, hc]
      rw [hother]
      simp [Ne.symm hc]

/-- Good capabilities are the bits that they hold. -/
theorem caps_ext (hc : GoodCaps caps) (hc' : GoodCaps caps')
    (h : ∀ c b, Holds caps c b ↔ Holds caps' c b) : caps = caps' := by
  have hsome : ∀ {x y : UserCaps}, GoodCaps x → GoodCaps y → (∀ c b, Holds x c b ↔ Holds y c b) →
      ∀ (c : Str) (p : CapPerm), x.entries[c]? = some p → y.entries[c]? = some p := by
    intro x y hx hy hxy c p hp
    obtain ⟨b, hb⟩ := usable_bit (hx c p hp).2
    obtain ⟨q, hq, -⟩ := holds_iff.mp ((hxy c b).mp (holds_iff.mpr ⟨p, hp, hb⟩))
    have hbits : ∀ b : CapBit, p.contains b.perm = q.contains b.perm := by
      intro b
      have hiff := hxy c b
      rw [holds_iff, holds_iff, hp, hq] at hiff
      simp only [Option.some.injEq, exists_eq_left'] at hiff
      exact Bool.eq_iff_iff.mpr hiff
    have hsame : p = q := by
      have hread := hbits .read
      have hwrite := hbits .write
      revert hread hwrite
      rcases (hx c p hp).2 with rfl | rfl | rfl <;> rcases (hy c q hq).2 with rfl | rfl | rfl <;> decide
    rw [hq, hsame]
  obtain ⟨entries⟩ := caps
  obtain ⟨entries'⟩ := caps'
  congr 1
  apply Std.ExtTreeMap.ext_getElem?
  intro c
  apply Option.ext
  intro p
  exact ⟨hsome hc hc' h c p, hsome hc' hc (fun c b => (h c b).symm) c p⟩

end Bits

section Words

/-- A word for a permission. -/
inductive PermWord where
  | star
  | read
  | write
  deriving DecidableEq

namespace PermWord

def text : PermWord → Str
  | star => bytes "*"
  | read => bytes "read"
  | write => bytes "write"

def perm : PermWord → CapPerm
  | star => .all
  | read => .read
  | write => .write

end PermWord

/-- Words between commas, with whitespace around each. -/
inductive SpellsWords : List PermWord → Str → Prop where
  | one {w s} (h : Padded (PermWord.text w) s) : SpellsWords [w] s
  | more {w s ws t} (h : Padded (PermWord.text w) s) (rest : SpellsWords ws t) :
      SpellsWords (w :: ws) (s ++ 44 :: t)

variable {w : PermWord} {words : List PermWord} {s : Str} {p : CapPerm} {b : CapBit}

theorem text_graphic (w : PermWord) : ∀ a ∈ w.text, isGraphic a = true ∧ a ≠ 44 ∧ a ≠ 59 := by
  cases w <;> decide +kernel

theorem text_trimmed (w : PermWord) : Trimmed w.text :=
  trimmed_graphic fun a ha => (text_graphic w a ha).1

theorem trim_word (h : Padded w.text s) : trim s = w.text :=
  h.trim_eq (text_trimmed w) (by cases w <;> decide)

theorem comma_not_mem (h : Padded w.text s) : (44 : UInt8) ∉ s :=
  h.not_mem (by decide) fun hm => (text_graphic w 44 hm).2.1 rfl

/-- The parts of the text are the words. -/
theorem words_split (h : SpellsWords words s) : (s.splitOn 44).map trim = words.map PermWord.text := by
  induction h with
  | one h => rw [List.splitOn_eq_singleton (comma_not_mem h), List.map_singleton, trim_word h]; rfl
  | more h _ ih =>
    rw [List.splitOn_append_cons_self_of_not_mem (comma_not_mem h), List.map_cons, List.map_cons,
      trim_word h, ih]

theorem parsePart_text (w : PermWord) : CapPerm.parsePart w.text = .ok w.perm := by
  cases w <;> decide +kernel

/-- What is read as a part is a word. -/
theorem parsePart_word {part : Str} (h : CapPerm.parsePart part = .ok p) :
    ∃ w : PermWord, part = w.text := by
  rw [CapPerm.parsePart] at h
  split at h
  · next he => exact ⟨.star, he⟩
  · split at h
    · next he => exact ⟨.read, he⟩
    · split at h
      · next he => exact ⟨.write, he⟩
      · cases h

theorem parse_texts (words : List PermWord) (q : CapPerm) :
    ∃ p, (words.map PermWord.text).foldlM
        (fun perm part => return CapPerm.union perm (← CapPerm.parsePart part)) q =
          (.ok p : RgwResult CapPerm) ∧
      ∀ b : CapBit, p.contains b.perm = true ↔
        q.contains b.perm = true ∨ ∃ w ∈ words, w.perm.contains b.perm = true := by
  induction words generalizing q with
  | nil => exact ⟨q, rfl, by simp⟩
  | cons w words ih =>
    obtain ⟨p, hfold, hbits⟩ := ih (q.union w.perm)
    refine ⟨p, ?_, fun b => ?_⟩
    · rw [List.map_cons, List.foldlM_cons, parsePart_text]
      exact hfold
    · rw [hbits b, contains_union]
      simp [or_assoc]

/-- Spelled words are read as the bits that they give. -/
theorem parse_words (h : SpellsWords words s) : ∃ p, CapPerm.parse s = .ok p ∧
    ∀ b : CapBit, p.contains b.perm = true ↔ ∃ w ∈ words, w.perm.contains b.perm = true := by
  obtain ⟨p, hfold, hbits⟩ := parse_texts words .none
  refine ⟨p, ?_, fun b => ?_⟩
  · rw [CapPerm.parse, words_split h]
    exact hfold
  · simp [hbits b, contains_none]

/-- Parts that are words, joined again. -/
theorem words_of_parts {parts : List Str} (hne : parts ≠ [])
    (h : ∀ part ∈ parts, ∃ w : PermWord, trim part = w.text) :
    ∃ words, SpellsWords words ([(44 : UInt8)].intercalate parts) := by
  have hpadded : ∀ {part : Str} {w : PermWord}, trim part = w.text → Padded w.text part :=
    fun he => he ▸ padded_trim _
  induction parts with
  | nil => exact absurd rfl hne
  | cons part parts ih =>
    rw [List.forall_mem_cons] at h
    obtain ⟨w, hw⟩ := h.1
    cases parts with
    | nil => exact ⟨[w], by simpa using SpellsWords.one (hpadded hw)⟩
    | cons next parts =>
      obtain ⟨words, hwords⟩ := ih (List.cons_ne_nil _ _) h.2
      refine ⟨w :: words, ?_⟩
      have hmore := SpellsWords.more (hpadded hw) hwords
      rwa [List.intercalate_cons_of_ne_nil (List.cons_ne_nil _ _), List.append_assoc,
        List.singleton_append]

/-- What is read as a permission is spelled words. -/
theorem words_of_parse (h : CapPerm.parse s = .ok p) : ∃ words, SpellsWords words s := by
  rw [CapPerm.parse] at h
  have hparts := words_of_parts (List.splitOn_ne_nil 44 s) fun part hp => ?_
  · rwa [List.intercalate_splitOn] at hparts
  · obtain ⟨q, q', hq⟩ := foldlM_steps h (List.mem_map_of_mem hp)
    obtain ⟨bits, hbits, -⟩ := bind_eq_ok.mp hq
    exact parsePart_word hbits

/-- Whitespace after the last word is spacing. -/
theorem words_back (h : SpellsWords words s) {back : List Str} (hb : ∀ p ∈ back, p ∈ whitespace) :
    SpellsWords words (s ++ back.flatten) := by
  induction h with
  | one h => exact .one (h.back hb)
  | more h _ ih =>
    rw [List.append_assoc, List.cons_append]
    exact .more h ih

/-- Without the whitespace at the end the text ends in a word. -/
theorem words_end (h : SpellsWords words s) : ∃ (t : Str) (back : List Str),
    (∀ p ∈ back, p ∈ whitespace) ∧ s = t ++ back.flatten ∧ SpellsWords words t ∧
      ∀ v ∈ whitespace, ¬v <:+ t := by
  induction h with
  | @one w s h =>
    obtain ⟨front, back, hfront, hback, rfl⟩ := h
    refine ⟨front.flatten ++ w.text, back, hback, by rw [List.append_assoc],
      .one ((padded_self w.text).front hfront), fun v hv hsuf => ?_⟩
    obtain ⟨init, a, htext, hg⟩ : ∃ init a, w.text = init ++ [a] ∧ isGraphic a = true := by
      cases w
      · exact ⟨[], 42, by decide, by decide⟩
      · exact ⟨bytes "rea", 100, by decide, by decide⟩
      · exact ⟨bytes "writ", 101, by decide, by decide⟩
    rw [htext, ← List.append_assoc] at hsuf
    exact not_suffix_graphic hg hv _ hsuf
  | @more w s ws t h _ ih =>
    obtain ⟨t', back, hback, rfl, hspells, hend⟩ := ih
    refine ⟨s ++ 44 :: t', back, hback, by simp, .more h hspells, fun v hv hsuf => ?_⟩
    exact hend v hv (suffix_after (not_mem_whitespace (by decide) hv) hsuf)

end Words

section Items

/-- A type with the words for its permission. -/
structure CapItem where
  capType : Str
  words : List PermWord

/-- What a list of items grants. -/
def Gives (items : List CapItem) (cap : Str) (b : CapBit) : Prop :=
  ∃ item ∈ items, item.capType = cap ∧ ∃ w ∈ item.words, w.perm.contains b.perm = true

/-- A known type and its words, around an equals sign. -/
def SpellsItem (item : CapItem) (s : Str) : Prop :=
  item.capType ∈ validCapTypes ∧ ∃ cap perm, Padded item.capType cap ∧
    SpellsWords item.words perm ∧ s = cap ++ 61 :: perm

/-- What may stand between two semicolons: an item or a blank. -/
inductive SpellsPiece : List CapItem → Str → Prop where
  | blank {s} (h : Padded [] s) : SpellsPiece [] s
  | item {item s} (h : SpellsItem item s) : SpellsPiece [item] s

inductive Spells : List CapItem → Str → Prop where
  | one {items s} (h : SpellsPiece items s) : Spells items s
  | more {items s items' t} (h : SpellsPiece items s) (rest : Spells items' t) :
      Spells (items ++ items') (s ++ 59 :: t)

variable {item : CapItem} {items : List CapItem} {s : Str} {caps caps' : UserCaps} {c : Str}
  {b : CapBit}

theorem capType_graphic {cap : Str} (h : cap ∈ validCapTypes) :
    (∃ a rest, cap = a :: rest) ∧ ∀ a ∈ cap, isGraphic a = true ∧ a ≠ 59 ∧ a ≠ 61 := by
  have hall : ∀ cap ∈ validCapTypes, cap ≠ [] ∧
      cap.all (fun a => isGraphic a && a != 59 && a != 61) = true := by decide
  obtain ⟨hne, hbytes⟩ := hall cap h
  refine ⟨List.exists_cons_of_ne_nil hne, fun a ha => ?_⟩
  simpa [and_assoc] using List.all_eq_true.mp hbytes a ha

theorem words_semicolon {words : List PermWord} (h : SpellsWords words s) : (59 : UInt8) ∉ s := by
  have hword : ∀ {w : PermWord} {s : Str}, Padded w.text s → (59 : UInt8) ∉ s :=
    fun h => h.not_mem (by decide) fun hm => (text_graphic _ 59 hm).2.2 rfl
  induction h with
  | one h => exact hword h
  | more h _ ih =>
    rw [List.mem_append, List.mem_cons, not_or, not_or]
    exact ⟨hword h, by decide, ih⟩

theorem piece_semicolon (h : SpellsPiece items s) : (59 : UInt8) ∉ s := by
  cases h with
  | blank h => exact h.not_mem (by decide) List.not_mem_nil
  | item h =>
    obtain ⟨hvalid, cap, perm, hcap, hperm, rfl⟩ := h
    have hbytes := (capType_graphic hvalid).2
    rw [List.mem_append, List.mem_cons, not_or, not_or]
    exact ⟨hcap.not_mem (by decide) fun hm => (hbytes 59 hm).2.1 rfl, by decide,
      words_semicolon hperm⟩

/-- An item is trimmed from its type to its last word, and is read as its bits of its type. -/
theorem addItem_item (h : SpellsItem item s) (caps : UserCaps) : trim s ≠ [] ∧
    ∃ caps', caps.addItem (trim s) = .ok caps' ∧
      ∀ c b, Holds caps' c b ↔ Holds caps c b ∨ Gives [item] c b := by
  obtain ⟨hvalid, cap, perm, ⟨front, gap, hfront, hgap, rfl⟩, hperm, rfl⟩ := h
  obtain ⟨⟨a, rest, htype⟩, hbytes⟩ := capType_graphic hvalid
  obtain ⟨t, back, hback, rfl, hwords, hend⟩ := words_end hperm
  have hg : isGraphic a = true := (hbytes a (htype ▸ List.mem_cons_self)).1
  have htrim : trim (front.flatten ++ (item.capType ++ gap.flatten) ++ 61 :: (t ++ back.flatten)) =
      item.capType ++ gap.flatten ++ 61 :: t := by
    have hpadded : Padded (item.capType ++ gap.flatten ++ 61 :: t)
        (front.flatten ++ (item.capType ++ gap.flatten) ++ 61 :: (t ++ back.flatten)) :=
      ⟨front, back, hfront, hback, by simp⟩
    refine hpadded.trim_eq (fun v hv => ⟨?_, fun hsuf => ?_⟩) (by simp [htype, hg])
    · rw [htype]
      exact not_prefix_graphic hg hv _
    · exact hend v hv (suffix_after (not_mem_whitespace (by decide) hv) hsuf)
  have hcap : Padded item.capType (item.capType ++ gap.flatten) := (padded_self _).back hgap
  have hcut : splitOnce 61 (item.capType ++ gap.flatten ++ 61 :: t) =
      some (item.capType ++ gap.flatten, t) :=
    splitOnce_some.mpr ⟨rfl, hcap.not_mem (by decide) fun hm => (hbytes 61 hm).2.2 rfl⟩
  have hname : trim (item.capType ++ gap.flatten) = item.capType :=
    hcap.trim_eq (trimmed_graphic fun a ha => (hbytes a ha).1) (by simp [htype, hg])
  obtain ⟨p, hparse, hbits⟩ := parse_words hwords
  obtain ⟨caps', hadd⟩ : ∃ caps', caps.add item.capType p = .ok caps' := by
    rw [UserCaps.add, if_pos hvalid]
    exact ⟨_, rfl⟩
  rw [htrim]
  refine ⟨by simp, caps', ?_, fun c b => ?_⟩
  · rw [UserCaps.addItem, hcut]
    dsimp only
    rw [hname, hparse, ok_bind, hadd]
  · rw [holds_add hadd, hbits b]
    simp only [Gives, List.mem_singleton, exists_eq_left, @eq_comm Str c]

/-- The rest of a string is added after its first piece. -/
theorem addFromString_cons (caps : UserCaps) {s : Str} (hs : (59 : UInt8) ∉ s) (t : Str) :
    caps.addFromString (s ++ 59 :: t) =
      caps.addFromString s >>= fun caps => caps.addFromString t := by
  have hone : s.splitOn 59 = [s] := List.splitOn_eq_singleton hs
  rw [UserCaps.addFromString, UserCaps.addFromString, List.splitOn_append_cons_self_of_not_mem hs,
    hone, ← List.singleton_append, List.map_append, List.filter_append, List.foldlM_append]
  rfl

theorem addFromString_piece (h : SpellsPiece items s) (caps : UserCaps) :
    ∃ caps', caps.addFromString s = .ok caps' ∧
      ∀ c b, Holds caps' c b ↔ Holds caps c b ∨ Gives items c b := by
  have hone : s.splitOn 59 = [s] := List.splitOn_eq_singleton (piece_semicolon h)
  rw [UserCaps.addFromString, hone, List.map_singleton]
  cases h with
  | blank h =>
    have hnil : trim s = [] := h.trim_eq (trimmed_graphic (List.forall_mem_nil _)) rfl
    rw [hnil]
    exact ⟨caps, rfl, by simp [Gives]⟩
  | item h =>
    obtain ⟨hne, caps', hadd, hholds⟩ := addItem_item h caps
    refine ⟨caps', ?_, hholds⟩
    rw [List.filter_singleton, decide_eq_true hne, cond_true, List.foldlM_cons, hadd]
    rfl

/-- A spelled string is accepted, and adds what its items give. -/
theorem addFromString_spelled (h : Spells items s) (caps : UserCaps) :
    ∃ caps', caps.addFromString s = .ok caps' ∧
      ∀ c b, Holds caps' c b ↔ Holds caps c b ∨ Gives items c b := by
  induction h generalizing caps with
  | one h => exact addFromString_piece h caps
  | @more items s items' t h _ ih =>
    obtain ⟨caps₁, hfirst, hholds₁⟩ := addFromString_piece h caps
    obtain ⟨caps₂, hrest, hholds₂⟩ := ih caps₁
    refine ⟨caps₂, ?_, fun c b => ?_⟩
    · rw [addFromString_cons caps (piece_semicolon h), hfirst, ok_bind, hrest]
    · rw [hholds₂ c b, hholds₁ c b, or_assoc]
      simp [Gives, or_and_right, exists_or]

/-- A piece that is read, or skipped, spells an item or a blank. -/
theorem spells_of_piece (h : trim s ≠ [] → ∃ caps caps' : UserCaps, caps.addItem (trim s) = .ok caps') :
    ∃ items, SpellsPiece items s := by
  by_cases hnil : trim s = []
  · exact ⟨[], .blank (hnil ▸ padded_trim s)⟩
  · obtain ⟨caps, caps', hadd⟩ := h hnil
    rw [UserCaps.addItem] at hadd
    cases hcut : splitOnce 61 (trim s) with
    | none =>
      rw [hcut] at hadd
      cases hadd
    | some cut =>
      obtain ⟨cap, perm⟩ := cut
      rw [hcut] at hadd
      obtain ⟨p, hparse, hadd⟩ := bind_eq_ok.mp hadd
      obtain ⟨words, hwords⟩ := words_of_parse hparse
      have hvalid : trim cap ∈ validCapTypes := by
        by_contra hno
        rw [UserCaps.add, if_neg hno] at hadd
        cases hadd
      obtain ⟨front, back, hfront, hback, hs⟩ := padded_trim s
      refine ⟨[⟨trim cap, words⟩], .item ⟨hvalid, front.flatten ++ cap, perm ++ back.flatten,
        (padded_trim cap).front hfront, words_back hwords hback, ?_⟩⟩
      rw [hs, (splitOnce_some.mp hcut).1]
      simp

theorem spells_of_pieces {pieces : List Str} (hne : pieces ≠ [])
    (h : ∀ piece ∈ pieces, ∃ items, SpellsPiece items piece) :
    ∃ items, Spells items ([(59 : UInt8)].intercalate pieces) := by
  induction pieces with
  | nil => exact absurd rfl hne
  | cons piece pieces ih =>
    rw [List.forall_mem_cons] at h
    obtain ⟨items, hpiece⟩ := h.1
    cases pieces with
    | nil => exact ⟨items, by simpa using Spells.one hpiece⟩
    | cons next pieces =>
      obtain ⟨items', hrest⟩ := ih (List.cons_ne_nil _ _) h.2
      refine ⟨items ++ items', ?_⟩
      have hmore := Spells.more hpiece hrest
      rwa [List.intercalate_cons_of_ne_nil (List.cons_ne_nil _ _), List.append_assoc,
        List.singleton_append]

/-- Exactly the spelled strings are accepted. -/
theorem accepted_iff (caps : UserCaps) (s : Str) :
    (∃ caps', caps.addFromString s = .ok caps') ↔ ∃ items, Spells items s := by
  constructor
  · rintro ⟨caps', h⟩
    rw [UserCaps.addFromString] at h
    have hpieces := spells_of_pieces (List.splitOn_ne_nil 59 s) fun piece hp =>
      spells_of_piece fun hne => ?_
    · rwa [List.intercalate_splitOn] at hpieces
    · have hmem : trim piece ∈ ((s.splitOn 59).map trim).filter (· ≠ []) :=
        List.mem_filter.mpr ⟨List.mem_map_of_mem hp, by simpa using hne⟩
      exact foldlM_steps h hmem
  · rintro ⟨items, h⟩
    obtain ⟨caps', hadd, -⟩ := addFromString_spelled h caps
    exact ⟨caps', hadd⟩

/-- Strings that grant the same are read alike: their order, repetition and spacing, and which
words they use for a permission, make no difference. -/
theorem addFromString_congr {items' : List CapItem} {s' : Str} (h : Spells items s)
    (h' : Spells items' s') (hsame : ∀ c b, Gives items c b ↔ Gives items' c b)
    (hc : GoodCaps caps) : caps.addFromString s = caps.addFromString s' := by
  obtain ⟨read, hread, hholds⟩ := addFromString_spelled h caps
  obtain ⟨read', hread', hholds'⟩ := addFromString_spelled h' caps
  have hequal : read = read' :=
    caps_ext (goodCaps_addFromString hc hread) (goodCaps_addFromString hc hread') fun c b => by
      rw [hholds c b, hholds' c b, hsame c b]
  rw [hread, hread', hequal]

end Items

end CapTexts
