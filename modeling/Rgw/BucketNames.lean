import Rgw.Languages
import Rgw.RestS3Handlers

/-! # Bucket names

A name is checked byte by byte, each dot by its two neighbours. What passes is the dotted list of
labels of the grammar, but for four numbers; and no neighbour is looked for outside the name. -/
namespace BucketNames

open ByteStrings Languages RgwTypes RestS3Handlers Computability

section Grammar

def isNameAlnum (c : UInt8) : Bool := isLower c || isDigit c
def isLabelByte (c : UInt8) : Bool := isNameAlnum c || c == 45

/-- `[a-z0-9]([a-z0-9-]*[a-z0-9])?` -/
def label : Language UInt8 :=
  letter isNameAlnum * ((letter isLabelByte)∗ * letter isNameAlnum + 1)

/-- Labels with dots between them. -/
def labels : Language UInt8 := separated 46 label

/-- `[0-9]+` -/
def digits : Language UInt8 := letter isDigit * (letter isDigit)∗

/-- Four labels, all of digits. -/
def fourNumbers : Language UInt8 := digits * (letter (· == 46) * digits) ^ 3

theorem isLabelByte_alnum {c : UInt8} (h : isNameAlnum c = true) : isLabelByte c = true := by
  rw [isLabelByte, h, Bool.true_or]

theorem isNameAlnum_labelByte {c : UInt8} (h : isLabelByte c = true) (hc : c ≠ 45) :
    isNameAlnum c = true := by
  rwa [isLabelByte, beq_eq_false_iff_ne.mpr hc, Bool.or_false] at h

theorem alnum_ne {c : UInt8} (h : isNameAlnum c = true) : c ≠ 45 ∧ c ≠ 46 := by
  constructor
  · rintro rfl
    cases h
  · rintro rfl
    cases h

theorem mem_label {w : Str} : w ∈ label ↔ w.head?.any isNameAlnum = true ∧
    w.getLast?.any isNameAlnum = true ∧ ∀ c ∈ w, isLabelByte c = true := by
  rw [label, mem_letter_mul]
  constructor
  · rintro ⟨a, rest, ha, hrest, rfl⟩
    refine ⟨ha, ?_⟩
    rcases (Language.mem_add _ _ _).mp hrest with hrest | rfl
    · obtain ⟨front, z, hfront, hz, rfl⟩ := mem_mul_letter.mp hrest
      rw [mem_letter_kstar] at hfront
      refine ⟨?_, List.forall_mem_cons.mpr ⟨isLabelByte_alnum ha, ?_⟩⟩
      · rw [← List.cons_append, List.getLast?_concat]
        exact hz
      · exact List.forall_mem_append.mpr ⟨hfront, List.forall_mem_singleton.mpr (isLabelByte_alnum hz)⟩
    · exact ⟨ha, List.forall_mem_singleton.mpr (isLabelByte_alnum ha)⟩
  · rintro ⟨hhead, hlast, hall⟩
    cases w with
    | nil => cases hhead
    | cons a rest =>
      refine ⟨a, rest, hhead, (Language.mem_add _ _ _).mpr ?_, rfl⟩
      rcases List.eq_nil_or_concat rest with rfl | ⟨front, z, rfl⟩
      · exact Or.inr rfl
      · left
        rw [List.concat_eq_append] at hlast hall ⊢
        rw [← List.cons_append, List.getLast?_concat] at hlast
        refine mem_mul_letter.mpr ⟨front, z, mem_letter_kstar.mpr fun c hc => ?_, hlast, rfl⟩
        exact hall c (List.mem_cons_of_mem _ (List.mem_append_left _ hc))

theorem mem_digits {w : Str} : w ∈ digits ↔ w ≠ [] ∧ ∀ c ∈ w, isDigit c = true := by
  rw [digits, mem_letter_mul]
  constructor
  · rintro ⟨a, rest, ha, hrest, rfl⟩
    exact ⟨List.cons_ne_nil a rest, List.forall_mem_cons.mpr ⟨ha, mem_letter_kstar.mp hrest⟩⟩
  · rintro ⟨hne, hall⟩
    cases w with
    | nil => exact absurd rfl hne
    | cons a rest =>
      rw [List.forall_mem_cons] at hall
      exact ⟨a, rest, hall.1, mem_letter_kstar.mpr hall.2, rfl⟩

theorem dot_not_mem_label {w : Str} (h : w ∈ label) : (46 : UInt8) ∉ w := by
  intro hdot
  have hbyte := (mem_label.mp h).2.2 46 hdot
  cases hbyte

theorem dot_not_mem_digits {w : Str} (h : w ∈ digits) : (46 : UInt8) ∉ w := by
  intro hdot
  have hbyte := (mem_digits.mp h).2 46 hdot
  cases hbyte

/-- The check for an address finds four numbers. -/
theorem looksLikeIpv4_iff (name : Str) : looksLikeIpv4 name = true ↔ name ∈ fourNumbers := by
  rw [fourNumbers, mem_separated_pow (fun w hw => dot_not_mem_digits hw), looksLikeIpv4]
  simp only [Bool.and_eq_true, beq_iff_eq, List.all_eq_true, decide_eq_true_eq, mem_digits]

end Grammar

section Scan

variable {before after : Option UInt8} {c : UInt8} {w tail : Str}

theorem nameByteOk_plain (hc : c ≠ 46) : nameByteOk before c after = isLabelByte c := by
  rw [nameByteOk, isLabelByte, isNameAlnum, beq_eq_false_iff_ne.mpr hc]
  simp

theorem nameByteOk_dot : nameByteOk before 46 after = true ↔
    before ≠ some 45 ∧ after ≠ some 46 ∧ after ≠ some 45 := by
  have hdot : (isLower 46 || isDigit 46 || (46 : UInt8) == 45) = false := by decide
  rw [nameByteOk, hdot]
  simp [and_assoc]

/-- The scan of a label. -/
theorem nameBytesOk_label (hw : (46 : UInt8) ∉ w) :
    nameBytesOk before w = true ↔ ∀ c ∈ w, isLabelByte c = true := by
  induction w generalizing before with
  | nil => simp [nameBytesOk]
  | cons c w ih =>
    rw [List.mem_cons, not_or] at hw
    rw [nameBytesOk, Bool.and_eq_true, nameByteOk_plain (Ne.symm hw.1), ih hw.2, List.forall_mem_cons]

/-- The scan of a label, the dot after it and what follows. -/
theorem nameBytesOk_cut (hw : (46 : UInt8) ∉ w) : nameBytesOk before (w ++ 46 :: tail) = true ↔
    (∀ c ∈ w, isLabelByte c = true) ∧ (w.getLast?.or before ≠ some 45 ∧ tail.head? ≠ some 46 ∧
      tail.head? ≠ some 45) ∧ nameBytesOk (some 46) tail = true := by
  induction w generalizing before with
  | nil =>
    rw [List.nil_append, nameBytesOk, Bool.and_eq_true, nameByteOk_dot]
    simp
  | cons c w ih =>
    rw [List.mem_cons, not_or] at hw
    have hlast : (c :: w).getLast?.or before = w.getLast?.or (some c) := by
      rw [List.getLast?_cons]
      cases w.getLast? <;> rfl
    rw [List.cons_append, nameBytesOk, Bool.and_eq_true, nameByteOk_plain (Ne.symm hw.1), ih hw.2,
      List.forall_mem_cons, hlast]
    exact and_assoc.symm

/-- Whether the outer bytes of a name are letters or digits. -/
def EndsOk (w : Str) : Prop := w.head?.any isNameAlnum = true ∧ w.getLast?.any isNameAlnum = true

theorem EndsOk.ne_nil (h : EndsOk w) : w ≠ [] := by
  rintro rfl
  cases h.1

theorem mem_label_iff (hw : (46 : UInt8) ∉ w) :
    w ∈ label ↔ EndsOk w ∧ nameBytesOk before w = true := by
  rw [mem_label, nameBytesOk_label hw, EndsOk, and_assoc]

theorem endsOk_cut (hw : w ≠ []) (ht : tail ≠ []) : EndsOk (w ++ 46 :: tail) ↔
    w.head?.any isNameAlnum = true ∧ tail.getLast?.any isNameAlnum = true := by
  have hlast : (w ++ 46 :: tail).getLast? = tail.getLast? := by
    rw [List.getLast?_append_of_ne_nil w (List.cons_ne_nil 46 tail), List.getLast?_cons_of_ne_nil ht]
  rw [EndsOk, hlast, List.head?_append_of_ne_nil w hw]

theorem EndsOk.parts (h : EndsOk (w ++ 46 :: tail)) : w ≠ [] ∧ tail ≠ [] := by
  constructor
  · rintro rfl
    cases h.1
  · rintro rfl
    have hlast := h.2
    rw [List.getLast?_concat] at hlast
    cases hlast

/-- A label and a dot in front of a name. -/
theorem scan_cut (hw : (46 : UInt8) ∉ w) :
    EndsOk (w ++ 46 :: tail) ∧ nameBytesOk before (w ++ 46 :: tail) = true ↔
      w ∈ label ∧ EndsOk tail ∧ nameBytesOk (some 46) tail = true := by
  rw [nameBytesOk_cut hw, mem_label]
  constructor
  · rintro ⟨hends, hall, ⟨hbefore, hdot, hhyphen⟩, hrest⟩
    obtain ⟨hne, hnt⟩ := hends.parts
    obtain ⟨hhead, hlast⟩ := (endsOk_cut hne hnt).mp hends
    refine ⟨⟨hhead, ?_, hall⟩, ⟨?_, hlast⟩, hrest⟩
    · -- the byte before the dot is no hyphen
      obtain ⟨z, hz⟩ := Option.isSome_iff_exists.mp (List.getLast?_isSome.mpr hne)
      rw [hz, Option.some_or, ne_eq, Option.some_inj] at hbefore
      rw [hz]
      exact isNameAlnum_labelByte (hall z (List.mem_of_getLast? hz)) hbefore
    · -- the byte after the dot is no dot and no hyphen
      cases tail with
      | nil => exact absurd rfl hnt
      | cons y tail =>
        rw [List.head?_cons, ne_eq, Option.some_inj] at hdot hhyphen
        rw [nameBytesOk, Bool.and_eq_true, nameByteOk_plain hdot] at hrest
        exact isNameAlnum_labelByte hrest.1 hhyphen
  · rintro ⟨⟨hhead, hlast, hall⟩, hends, hrest⟩
    have hne : w ≠ [] := by
      rintro rfl
      cases hhead
    obtain ⟨z, hz⟩ := Option.isSome_iff_exists.mp (List.getLast?_isSome.mpr hne)
    obtain ⟨y, hy⟩ := Option.isSome_iff_exists.mp (List.isSome_head?.mpr hends.ne_nil)
    rw [hz] at hlast
    have hhead' := hends.1
    rw [hy] at hhead'
    refine ⟨(endsOk_cut hne hends.ne_nil).mpr ⟨hhead, hends.2⟩, hall, ⟨?_, ?_, ?_⟩, hrest⟩
    · rw [hz, Option.some_or, ne_eq, Option.some_inj]
      exact (alnum_ne hlast).1
    · rw [hy, ne_eq, Option.some_inj]
      exact (alnum_ne hhead').2
    · rw [hy, ne_eq, Option.some_inj]
      exact (alnum_ne hhead').1

/-- The scan passes what the dots cut into labels. -/
theorem scan_iff (name : Str) (before : Option UInt8) :
    EndsOk name ∧ nameBytesOk before name = true ↔ ∀ piece ∈ name.splitOn 46, piece ∈ label := by
  -- induction on the name up to its first dot, which the scan goes through as one label
  induction hn : name.length using Nat.strong_induction_on generalizing name before with
  | _ n ih =>
    cases hcut : splitOnce 46 name with
    | none =>
      have hw := splitOnce_none.mp hcut
      rw [splitOn_whole hw, List.forall_mem_singleton, mem_label_iff hw]
    | some cut =>
      obtain ⟨w, tail⟩ := cut
      obtain ⟨rfl, hw⟩ := splitOnce_some.mp hcut
      have hless : tail.length < n := by
        rw [← hn, List.length_append, List.length_cons]
        omega
      rw [splitOn_cut hw, List.forall_mem_cons, scan_cut hw, ih _ hless tail (some 46) rfl]

end Scan

section Access

/-- The neighbours of a dot, looked up; nothing when a position is outside the name. -/
def neighboursOk (b : Str) (i : ℕ) : Option Bool := do
  let before ← if i = 0 then none else b[i - 1]?
  if before = 45 then return false
  let after ← b[i + 1]?
  if after = 46 then return false
  let after ← b[i + 1]?
  return after ≠ 45

def scanAt (b : Str) : ℕ → Str → Option Bool
  | _, [] => some true
  | i, c :: rest =>
    if isLower c || isDigit c || c == 45 then scanAt b (i + 1) rest
    else if c = 46 then do
      if ← neighboursOk b i then scanAt b (i + 1) rest else return false
    else some false

/-- `validate_bucket_name` with each access as a lookup; nothing stands for a panic. -/
def validateAt (b : Str) : Option (RgwResult Unit) := do
  let invalid : RgwResult Unit := .error .invalidBucketName
  if ¬(3 ≤ b.length ∧ b.length ≤ 63) then return invalid
  if !isNameAlnum (← b[0]?) then return invalid
  if !isNameAlnum (← b[b.length - 1]?) then return invalid
  if !(← scanAt b 0 b) then return invalid
  if looksLikeIpv4 b then return invalid
  return .ok ()

/-- A dot with a byte on either side has its neighbours. -/
theorem neighboursOk_eq (front rest : Str) (x y : UInt8) :
    neighboursOk (front ++ x :: 46 :: y :: rest) (front.length + 1) =
      some (nameByteOk (some x) 46 (some y)) := by
  have hbefore : (front ++ x :: 46 :: y :: rest)[front.length + 1 - 1]? = some x := by
    rw [Nat.add_sub_cancel, List.getElem?_append_right le_rfl, Nat.sub_self]
    rfl
  have hafter : (front ++ x :: 46 :: y :: rest)[front.length + 1 + 1]? = some y := by
    have hskip : front.length + 1 + 1 - front.length = 2 := by omega
    rw [List.getElem?_append_right (by omega), hskip]
    rfl
  have hok : nameByteOk (some x) 46 (some y) = decide (x ≠ 45 ∧ y ≠ 46 ∧ y ≠ 45) := by
    rw [Bool.eq_iff_iff, nameByteOk_dot]
    simp
  rw [neighboursOk, if_neg (Nat.succ_ne_zero _), hbefore, hafter, hok]
  by_cases hx : x = 45
  · simp [hx]
  · by_cases hy : y = 46
    · simp [hx, hy]
    · simp [hx, hy]

/-- Where no dot is first or last, the scan finds the neighbours that it looks up. -/
theorem scanAt_eq (pre rest : Str) (hfirst : pre = [] → rest.head? ≠ some 46)
    (hlast : (pre ++ rest).getLast? ≠ some 46) :
    scanAt (pre ++ rest) pre.length rest = some (nameBytesOk pre.getLast? rest) := by
  induction rest generalizing pre with
  | nil => rfl
  | cons c rest ih =>
    have hnext : scanAt (pre ++ c :: rest) (pre.length + 1) rest = some (nameBytesOk (some c) rest) := by
      have hrest := ih (pre ++ [c]) (fun hnil => by simp at hnil) (by simpa using hlast)
      rwa [List.append_assoc, List.singleton_append, List.length_append, List.length_singleton,
        List.getLast?_concat] at hrest
    rw [scanAt, nameBytesOk]
    by_cases hplain : isLabelByte c = true
    · have hc : c ≠ 46 := by
        rintro rfl
        cases hplain
      rw [nameByteOk_plain hc, hplain, Bool.true_and, ← hnext]
      exact if_pos hplain
    · have hother : ¬(isLower c || isDigit c || c == 45) = true := hplain
      rw [if_neg hother]
      by_cases hc : c = 46
      · subst hc
        have hpre : pre ≠ [] := fun hnil => hfirst hnil rfl
        obtain ⟨front, x, rfl⟩ := (List.eq_nil_or_concat' pre).resolve_left hpre
        cases rest with
        | nil =>
          rw [List.getLast?_concat] at hlast
          exact absurd rfl hlast
        | cons y rest =>
          have hlook := neighboursOk_eq front rest x y
          rw [List.length_append, List.length_singleton, List.append_assoc,
            List.singleton_append] at hnext ⊢
          rw [if_pos rfl, hlook, List.getLast?_concat, List.head?_cons]
          cases nameByteOk (some x) 46 (some y) with
          | false => rfl
          | true => exact hnext
      · rw [if_neg hc, nameByteOk_plain hc, Bool.eq_false_of_not_eq_true hplain]
        rfl

/-- Every access is within the name, and the check is the one of the requests. -/
theorem validateAt_eq (name : Str) : validateAt name = some (validateBucketName name) := by
  rw [validateAt, validateBucketName]
  by_cases hlen : 3 ≤ name.length ∧ name.length ≤ 63
  · have hne : name ≠ [] := List.ne_nil_of_length_pos (by omega)
    obtain ⟨first, hfirst⟩ := Option.isSome_iff_exists.mp (List.isSome_head?.mpr hne)
    obtain ⟨last, hlast⟩ := Option.isSome_iff_exists.mp (List.getLast?_isSome.mpr hne)
    have hat : name[0]? = some first := List.head?_eq_getElem?.symm.trans hfirst
    have hat' : name[name.length - 1]? = some last := List.getLast?_eq_getElem?.symm.trans hlast
    have hscan : isNameAlnum first = true → isNameAlnum last = true →
        scanAt name 0 name = some (nameBytesOk none name) := by
      intro hf hl
      refine scanAt_eq [] name (fun _ => ?_) ?_
      · rw [hfirst, ne_eq, Option.some_inj]
        exact (alnum_ne hf).2
      · rw [List.nil_append, hlast, ne_eq, Option.some_inj]
        exact (alnum_ne hl).2
    rw [if_neg (not_not.mpr hlen), if_neg (not_not.mpr hlen), hat, hat', hfirst, hlast]
    change _ = some (if (!isNameAlnum first || !isNameAlnum last) = true then _ else _)
    cases hf : isNameAlnum first with
    | false => simp [hf]
    | true =>
      cases hl : isNameAlnum last with
      | false => simp [hl]
      | true =>
        rw [hscan hf hl]
        cases nameBytesOk none name <;> cases looksLikeIpv4 name <;> simp [hf, hl]
  · rw [if_pos hlen, if_pos hlen]
    rfl

end Access

section Names

theorem validateBucketName_ok {name : Str} : validateBucketName name = .ok () ↔
    (3 ≤ name.length ∧ name.length ≤ 63) ∧ EndsOk name ∧ nameBytesOk none name = true ∧
      looksLikeIpv4 name = false := by
  have hends : (!name.head?.any isNameAlnum || !name.getLast?.any isNameAlnum) = true ↔
    ¬EndsOk name := by
    rw [EndsOk]
    cases name.head?.any isNameAlnum <;> simp
  change (if _ then _ else if (!name.head?.any isNameAlnum || !name.getLast?.any isNameAlnum) = true
    then _ else _) = _ ↔ _
  by_cases hlen : 3 ≤ name.length ∧ name.length ≤ 63
  · rw [if_neg (not_not.mpr hlen)]
    by_cases he : EndsOk name
    · rw [if_neg (fun h => hends.mp h he)]
      cases nameBytesOk none name <;> cases looksLikeIpv4 name <;> simp [hlen, he]
    · rw [if_pos (hends.mpr he)]
      simp [he]
  · rw [if_pos hlen]
    simp [hlen]

theorem validateBucketName_error (name : Str) :
    validateBucketName name = .ok () ∨ validateBucketName name = .error .invalidBucketName := by
  rw [validateBucketName]
  split_ifs
  all_goals first
    | exact Or.inr rfl
    | exact Or.inl rfl

/-- The check ends without a panic, accepts the names of the grammar that are not four numbers, of
the lengths allowed, and refuses every other. -/
theorem bucket_names (name : Str) :
    validateAt name = some (validateBucketName name) ∧
    (validateBucketName name = .ok () ↔ 3 ≤ name.length ∧ name.length ≤ 63 ∧ name ∈ labels ∧
      name ∉ fourNumbers) ∧
    (validateBucketName name = .ok () ∨ validateBucketName name = .error .invalidBucketName) := by
  refine ⟨validateAt_eq name, ?_, validateBucketName_error name⟩
  rw [validateBucketName_ok, labels, mem_separated (fun w hw => dot_not_mem_label hw),
    ← scan_iff name none, ← looksLikeIpv4_iff, Bool.not_eq_true, and_assoc, and_assoc]

example : validateAt (bytes "1.2.3.4a") = some (.ok ()) := by decide
example : validateAt (bytes "1.2.3.4") = some (.error .invalidBucketName) := by decide

end Names

end BucketNames
