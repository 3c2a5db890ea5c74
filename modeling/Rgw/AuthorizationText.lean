import Rgw.SigV4
import Rgw.Utf8Texts
import Mathlib.Data.List.Permutation

/-! # The text of an authorization

What the `Authorization` header parses to, for its three fields in any order and with any
spacing around the commas, and what is promised of everything it parses to. -/
namespace AuthorizationText

open ByteStrings TextCodecs Utf8Texts RgwTypes SigV4

section Credential

variable {credential id date region service terminator : Str}

/-- The last four components are cut off, whatever the access key id holds. -/
theorem splitCredential_eq_ok :
    splitCredential credential = .ok (id, date, region, service, terminator) ↔
      credential = id ++ 47 :: join 47 [date, region, service, terminator] ∧
        ∀ part ∈ [date, region, service, terminator], (47 : UInt8) ∉ part := by
  constructor
  · intro h
    rw [splitCredential] at h
    split at h
    · next t s r d i rest hr =>
      cases h
      have hsplit : credential.splitOn 47 =
          (i :: rest).reverse ++ [date, region, service, terminator] := by
        rw [← List.reverse_inj, hr]
        simp
      constructor
      · have hne : (i :: rest).reverse ≠ [] := by simp
        rw [join, join, ← intercalate_append hne (List.cons_ne_nil _ _), ← hsplit,
          List.intercalate_splitOn]
      · intro part hpart
        have hmem : part ∈ credential.splitOn 47 := by
          rw [hsplit]
          exact List.mem_append_right _ hpart
        exact not_mem_of_mem_splitOn hmem
    · cases h
  · rintro ⟨rfl, hparts⟩
    have hsplit : (id ++ 47 :: join 47 [date, region, service, terminator]).splitOn 47 =
        id.splitOn 47 ++ [date, region, service, terminator] := by
      rw [List.splitOn_append_cons_self, join,
        List.splitOn_intercalate 47 hparts (List.cons_ne_nil _ _)]
    obtain ⟨i, rest, hid⟩ := List.exists_cons_of_ne_nil
      (List.reverse_ne_nil_iff.mpr (List.splitOn_ne_nil 47 id))
    have hjoin : join 47 (i :: rest).reverse = id := by
      rw [← hid, List.reverse_reverse]
      exact List.intercalate_splitOn 47
    rw [splitCredential, hsplit, List.reverse_append, hid]
    simp only [List.reverse_cons, List.reverse_nil, List.nil_append, List.cons_append]
    rw [← List.reverse_cons, hjoin]

end Credential

section Fields

variable {p : Str → Prop} {f f' : Fields} {name value text : Str}

/-- What a field set holds so far. -/
structure Holds (p : Str → Prop) (f : Fields) : Prop where
  credential : ∀ v, f.credential = some v → p v
  signedHeaders : ∀ v, f.signedHeaders = some v → p v
  signature : ∀ v, f.signature = some v → p v

theorem holds_empty (p : Str → Prop) : Holds p ⟨none, none, none⟩ where
  credential := nofun
  signedHeaders := nofun
  signature := nofun

theorem set_holds (hf : Holds p f) (hv : p value) (h : f.set name value = .ok f') :
    Holds p f' := by
  have hnew : ∀ v, some value = some v → p v := fun v hv' => Option.some.inj hv' ▸ hv
  rw [Fields.set] at h
  split at h
  · obtain ⟨-, h⟩ := guard_eq_ok.mp h
    cases h
    exact { hf with credential := hnew }
  · split at h
    · obtain ⟨-, h⟩ := guard_eq_ok.mp h
      cases h
      exact { hf with signedHeaders := hnew }
    · split at h
      · obtain ⟨-, h⟩ := guard_eq_ok.mp h
        cases h
        exact { hf with signature := hnew }
      · cases h

theorem parseField_holds (hf : Holds p f)
    (hp : ∀ name value, text = name ++ 61 :: value → p (trim value))
    (h : parseField f text = .ok f') : Holds p f' := by
  rw [parseField] at h
  split at h
  · next name value hs => exact set_holds hf (hp name value (splitOnce_some.mp hs).1) h
  · cases h

theorem parseFields_holds {texts : List Str} (hf : Holds p f)
    (hp : ∀ text ∈ texts, ∀ name value, text = name ++ 61 :: value → p (trim value))
    (h : texts.foldlM parseField f = .ok f') : Holds p f' := by
  induction texts generalizing f with
  | nil =>
    cases h
    exact hf
  | cons text texts ih =>
    rw [List.forall_mem_cons] at hp
    rw [List.foldlM_cons] at h
    obtain ⟨g, hg, h⟩ := bind_eq_ok.mp h
    exact ih (parseField_holds hf hp.1 hg) hp.2 h

/-- The fields of a header value, before any is looked at. -/
def readFields (value : Str) : RgwResult Fields := do
  let rest ← afterAlgorithm value
  (((rest.splitOn 44).map trim).filter (· ≠ [])).foldlM parseField ⟨none, none, none⟩

theorem afterAlgorithm_ok {rest : Str} (h : afterAlgorithm value = .ok rest) :
    value = algorithm ++ rest := by
  rw [afterAlgorithm] at h
  split at h
  · next hd =>
    cases h
    exact dropPrefix_eq_some.mp hd
  · next hd =>
    cases h
    exact dropPrefix_eq_some.mp hd
  · cases h

/-- Every value read is trimmed and free of commas, and made of the header's own bytes. -/
theorem readFields_holds (hread : readFields value = .ok f) :
    Holds (fun v => Trimmed v ∧ (44 : UInt8) ∉ v ∧ v ⊆ value) f := by
  rw [readFields] at hread
  obtain ⟨rest, hr, h⟩ := bind_eq_ok.mp hread
  obtain rfl := afterAlgorithm_ok hr
  refine parseFields_holds (holds_empty _) ?_ h
  rintro text htext name v rfl
  obtain ⟨piece, hpiece, htrim⟩ := List.mem_map.mp (List.mem_filter.mp htext).1
  have hv : v ⊆ piece := by
    intro b hb
    apply trim_subset piece
    rw [htrim]
    exact List.mem_append_right _ (List.mem_cons_of_mem _ hb)
  refine ⟨trimmed_trim v, fun hm => ?_, fun b hb => ?_⟩
  · exact not_mem_of_mem_splitOn hpiece (hv (trim_subset v hm))
  · exact List.mem_append_right _ (mem_of_mem_splitOn hpiece (hv (trim_subset v hb)))

end Fields

section Checks

variable {value : Str} {a : AuthorizationV4}

/-- `<id>/<date>/<region>/<service>/aws4_request`. -/
def credentialText (a : AuthorizationV4) : Str := a.accessKeyId ++ 47 :: a.scope.toString

/-- What the parser asks of the parts it has cut. -/
structure Checked (a : AuthorizationV4) : Prop where
  id : a.accessKeyId ≠ []
  date : a.scope.date.length = 8 ∧ a.scope.date.all isDigit = true
  service : a.scope.service = bytes "s3"
  names : ∀ name ∈ a.signedHeaders, name ≠ [] ∧ name.any isUpper = false
  ascending : a.signedHeaders.Pairwise (· < ·)
  host : bytes "host" ∈ a.signedHeaders
  signature : a.signature.length = 64 ∧ a.signature.all isHexDigit = true

/-- No separator stands within a part. -/
structure Apart (a : AuthorizationV4) : Prop where
  region : (47 : UInt8) ∉ a.scope.region
  names : ∀ name ∈ a.signedHeaders, (59 : UInt8) ∉ name

theorem not_mem_digits {s : Str} {b : UInt8} (h : s.all isDigit = true) (hb : isDigit b = false) :
    b ∉ s := by
  intro hm
  rw [List.all_eq_true.mp h b hm] at hb
  cases hb

theorem require_eq_ok {o : Option Str} {why : String} {v : Str} :
    require o why = .ok v ↔ o = some v := by
  cases o with
  | none => simp [require]
  | some w => simp [require]

/-- What parses was read as the texts of parts that pass the checks. -/
theorem parsed_fields (h : parseAuthorization value = .ok a) : ∃ signature,
    readFields value = .ok
      ⟨some (credentialText a), some (join 59 a.signedHeaders), some signature⟩ ∧
    Checked { a with signature := signature } ∧ Apart a ∧ a.signature = toAsciiLower signature := by
  rw [parseAuthorization] at h
  obtain ⟨rest, hr, h⟩ := bind_eq_ok.mp h
  obtain ⟨fields, hf, h⟩ := bind_eq_ok.mp h
  obtain ⟨credential, hc, h⟩ := bind_eq_ok.mp h
  obtain ⟨names, hn, h⟩ := bind_eq_ok.mp h
  obtain ⟨signature, hs, h⟩ := bind_eq_ok.mp h
  obtain ⟨⟨id, date, region, service, terminator⟩, hsplit, h⟩ := bind_eq_ok.mp h
  simp only [throw_error, error_bind, pure_ok, guard_eq_ok, Except.ok.injEq] at h
  obtain ⟨hid, hterm, hdate, hservice, hnames, hchain, hhost, hsig, rfl⟩ := h
  obtain ⟨rfl, hparts⟩ := splitCredential_eq_ok.mp hsplit
  have hjoin : join 59 (names.splitOn 59) = names := List.intercalate_splitOn 59
  simp only [not_not, not_or, Bool.not_eq_true', Bool.not_eq_false] at hterm hdate hservice hsig
  subst hterm hservice
  refine ⟨signature, ?_, ?_, ?_, rfl⟩
  · rw [readFields, hr, ok_bind, hf]
    dsimp only [credentialText, CredentialScope.toString]
    rw [hjoin, ← require_eq_ok.mp hc, ← require_eq_ok.mp hn, ← require_eq_ok.mp hs]
  · exact {
      id := hid
      date := hdate
      service := rfl
      names := fun name hname => by
        have hchecked := List.any_eq_false.mp (Bool.not_eq_true _ ▸ hnames) name hname
        rw [Bool.not_eq_true, Bool.or_eq_false_iff] at hchecked
        exact ⟨beq_eq_false_iff_ne.mp hchecked.1, hchecked.2⟩
      ascending := List.isChain_iff_pairwise.mp (not_not.mp hchain)
      host := not_not.mp hhost
      signature := hsig }
  · exact {
      region := hparts region (by simp)
      names := fun _ hname => not_mem_of_mem_splitOn hname }

/-- Parts that pass the checks parse, once their texts are read. -/
theorem parse_fields (hread : readFields value = .ok
      ⟨some (credentialText a), some (join 59 a.signedHeaders), some a.signature⟩)
    (hc : Checked a) (hapart : Apart a) :
    parseAuthorization value = .ok { a with signature := toAsciiLower a.signature } := by
  obtain ⟨id, ⟨date, region, service⟩, names, signature⟩ := a
  obtain ⟨rest, hr, hf⟩ := bind_eq_ok.mp hread
  obtain ⟨hid, hdate, rfl, hnames, hascending, hhost, hsig⟩ := hc
  have hsplit : splitCredential (credentialText ⟨id, ⟨date, region, bytes "s3"⟩, names, signature⟩) =
      .ok (id, date, region, bytes "s3", bytes "aws4_request") := by
    refine splitCredential_eq_ok.mpr ⟨rfl, ?_⟩
    simp only [List.forall_mem_cons]
    refine ⟨not_mem_digits hdate.2 (by decide), hapart.region, by decide, by decide, ?_⟩
    exact List.forall_mem_nil _
  have hsigned : (join 59 names).splitOn 59 = names :=
    List.splitOn_intercalate 59 hapart.names (List.ne_nil_of_mem hhost)
  have hlower : ¬(names.any fun h => h == [] || h.any isUpper) = true := by
    rw [Bool.not_eq_true, List.any_eq_false]
    intro name hname
    simp [hnames name hname]
  have hchain : names.IsChain (· < ·) := List.isChain_iff_pairwise.mpr hascending
  rw [parseAuthorization, hr, ok_bind, hf, ok_bind]
  dsimp only
  rw [require_eq_ok.mpr rfl, ok_bind, require_eq_ok.mpr rfl, ok_bind, require_eq_ok.mpr rfl,
    ok_bind, hsplit, ok_bind]
  simp only [throw_error, error_bind, pure_ok, guard_eq_ok, hsigned]
  exact ⟨hid, by simp, by simp [hdate], by simp, hlower, not_not.mpr hchain, not_not.mpr hhost,
    by simp [hsig], trivial⟩

end Checks

section Rendering

variable {value : Str} {a : AuthorizationV4} {f : Str × Str}

/-- The three fields, each under its name. -/
def fieldsOf (a : AuthorizationV4) : List (Str × Str) :=
  [(bytes "Credential", credentialText a), (bytes "SignedHeaders", join 59 a.signedHeaders),
    (bytes "Signature", a.signature)]

/-- A field as it is written, with whitespace around it. -/
def Spaced (f : Str × Str) (piece : Str) : Prop :=
  ∃ front back : List Str, (∀ p ∈ front, p ∈ whitespace) ∧ (∀ p ∈ back, p ∈ whitespace) ∧
    piece = front.flatten ++ (pairText f ++ back.flatten)

/-- The header values that name the parts: the fields in any order, with any spacing around
the commas, after a blank or a tab. -/
def Renders (a : AuthorizationV4) (value : Str) : Prop :=
  ∃ (order : List (Str × Str)) (pieces : List Str) (gap : UInt8), order.Perm (fieldsOf a) ∧
    List.Forall₂ Spaced order pieces ∧ gap ∈ [(32 : UInt8), 9] ∧
      value = algorithm ++ gap :: join 44 pieces

/-- The usual rendering. -/
def render (a : AuthorizationV4) : Str :=
  algorithm ++ 32 :: join 44 ((fieldsOf a).map pairText)

theorem renders_render (a : AuthorizationV4) : Renders a (render a) := by
  refine ⟨fieldsOf a, (fieldsOf a).map pairText, 32, .refl _, ?_, List.mem_cons_self, rfl⟩
  rw [List.forall₂_map_right_iff, List.forall₂_same]
  intro f _
  exact ⟨[], [], List.forall_mem_nil _, List.forall_mem_nil _, by simp⟩

/-- A field that comes back as it was written. -/
structure Plain (f : Str × Str) : Prop where
  known : f.1 ∈ [bytes "Credential", bytes "SignedHeaders", bytes "Signature"]
  trimmed : Trimmed f.2
  comma : (44 : UInt8) ∉ f.2

theorem Plain.name (hf : Plain f) :
    f.1 ≠ [] ∧ f.1.all (fun b => isGraphic b && b != 44 && b != 61) = true := by
  have hall : ∀ name ∈ [bytes "Credential", bytes "SignedHeaders", bytes "Signature"],
      name ≠ [] ∧ name.all (fun b => isGraphic b && b != 44 && b != 61) = true := by decide
  exact hall f.1 hf.known

theorem Plain.name_byte (hf : Plain f) {b : UInt8} (hb : b ∈ f.1) :
    isGraphic b = true ∧ b ≠ 44 ∧ b ≠ 61 := by
  have h := List.all_eq_true.mp hf.name.2 b hb
  simpa [and_assoc] using h

theorem Plain.trim_piece (hf : Plain f) {piece : Str} (hp : Spaced f piece) :
    trim piece = pairText f := by
  have hpadded : Padded (pairText f) piece := hp
  obtain ⟨b, rest, hname⟩ := List.exists_cons_of_ne_nil hf.name.1
  have hg : isGraphic b = true := (hf.name_byte (hname ▸ List.mem_cons_self)).1
  have htext : pairText f = b :: (rest ++ 61 :: f.2) := by rw [pairText, hname, List.cons_append]
  rw [htext] at hpadded ⊢
  refine hpadded.trim_eq (fun w hw => ⟨not_prefix_graphic hg hw _, fun hsuf => ?_⟩) hg
  rw [← List.cons_append] at hsuf
  exact (hf.trimmed w hw).2 (suffix_after (not_mem_whitespace (by decide) hw) hsuf)

theorem Plain.not_mem_piece (hf : Plain f) {piece : Str} (hp : Spaced f piece) :
    (44 : UInt8) ∉ piece := by
  have hpadded : Padded (pairText f) piece := hp
  refine hpadded.not_mem (by decide) fun hm => ?_
  rcases List.mem_append.mp hm with hm | hm
  · exact (hf.name_byte hm).2.1 rfl
  · rcases List.mem_cons.mp hm with hm | hm
    · cases hm
    · exact hf.comma hm

theorem Plain.parseField (hf : Plain f) (fields : Fields) :
    parseField fields (pairText f) = fields.set f.1 f.2 := by
  have hcut : splitOnce 61 (pairText f) = some f :=
    splitOnce_some.mpr ⟨rfl, fun hm => (hf.name_byte hm).2.2 rfl⟩
  have hname : trim f.1 = f.1 := trim_graphic fun b hb => (hf.name_byte hb).1
  rw [SigV4.parseField, hcut]
  dsimp only
  rw [hname, trim_eq hf.trimmed]

/-- Whatever the order, each field lands in its place. -/
theorem set_fields {credential signedHeaders signature : Str} {order : List (Str × Str)}
    (h : order.Perm [(bytes "Credential", credential), (bytes "SignedHeaders", signedHeaders),
      (bytes "Signature", signature)]) :
    order.foldlM (fun (fields : Fields) f => fields.set f.1 f.2) ⟨none, none, none⟩ =
      .ok ⟨some credential, some signedHeaders, some signature⟩ := by
  have hm := List.mem_permutations'.mpr h
  simp only [List.permutations', List.permutations'Aux, List.flatMap_cons, List.flatMap_nil,
    List.map_cons, List.map_nil, List.append_nil, List.cons_append, List.nil_append,
    List.mem_cons, List.not_mem_nil, or_false] at hm
  rcases hm with rfl | rfl | rfl | rfl | rfl | rfl
  all_goals rfl

theorem trim_pieces {order : List (Str × Str)} {pieces : List Str} (hf : ∀ f ∈ order, Plain f)
    (hp : List.Forall₂ Spaced order pieces) : pieces.map trim = order.map pairText := by
  induction hp with
  | nil => rfl
  | cons h _ ih =>
    rw [List.forall_mem_cons] at hf
    rw [List.map_cons, List.map_cons, hf.1.trim_piece h, ih hf.2]

theorem not_mem_pieces {order : List (Str × Str)} {pieces : List Str} (hf : ∀ f ∈ order, Plain f)
    (hp : List.Forall₂ Spaced order pieces) : ∀ piece ∈ pieces, (44 : UInt8) ∉ piece := by
  induction hp with
  | nil => exact List.forall_mem_nil _
  | cons h _ ih =>
    rw [List.forall_mem_cons] at hf
    exact List.forall_mem_cons.mpr ⟨hf.1.not_mem_piece h, ih hf.2⟩

theorem foldlM_pairText {order : List (Str × Str)} (hf : ∀ f ∈ order, Plain f) (fields : Fields) :
    (order.map pairText).foldlM parseField fields =
      order.foldlM (fun (fields : Fields) f => fields.set f.1 f.2) fields := by
  induction order generalizing fields with
  | nil => rfl
  | cons f order ih =>
    rw [List.forall_mem_cons] at hf
    rw [List.map_cons, List.foldlM_cons, List.foldlM_cons, hf.1.parseField]
    congr 1
    funext fields
    exact ih hf.2 fields

/-- The blank after the algorithm is spacing before the first field. -/
theorem spaced_gap {gap : UInt8} (hgap : gap ∈ [(32 : UInt8), 9]) {piece : Str}
    (h : Spaced f piece) : Spaced f (gap :: piece) := by
  obtain ⟨front, back, hfront, hback, rfl⟩ := h
  refine ⟨[gap] :: front, back, List.forall_mem_cons.mpr ⟨?_, hfront⟩, hback, rfl⟩
  rcases List.mem_pair.mp hgap with rfl | rfl
  · decide
  · decide

theorem readFields_renders (hf : ∀ f ∈ fieldsOf a, Plain f) (h : Renders a value) :
    readFields value = .ok
      ⟨some (credentialText a), some (join 59 a.signedHeaders), some a.signature⟩ := by
  obtain ⟨order, pieces, gap, hperm, hspaced, hgap, rfl⟩ := h
  have hplain : ∀ f ∈ order, Plain f := fun f hmem => hf f (hperm.mem_iff.mp hmem)
  cases hspaced with
  | nil => exact absurd hperm.length_eq (by simp [fieldsOf])
  | @cons f piece order pieces hfirst hrest =>
    have hafter : afterAlgorithm (algorithm ++ gap :: join 44 (piece :: pieces)) =
        .ok (join 44 ((gap :: piece) :: pieces)) := by
      have hdrop : (algorithm ++ gap :: join 44 (piece :: pieces)).dropPrefix? algorithm =
          some (gap :: join 44 (piece :: pieces)) := dropPrefix_eq_some.mpr rfl
      have hjoin : join 44 ((gap :: piece) :: pieces) = gap :: join 44 (piece :: pieces) :=
        List.intercalate_cons_cons_left
      rw [afterAlgorithm, hdrop, hjoin]
      rcases List.mem_pair.mp hgap with rfl | rfl
      · rfl
      · rfl
    have hall : List.Forall₂ Spaced (f :: order) ((gap :: piece) :: pieces) :=
      .cons (spaced_gap hgap hfirst) hrest
    have hsplit : (join 44 ((gap :: piece) :: pieces)).splitOn 44 = (gap :: piece) :: pieces :=
      List.splitOn_intercalate 44 (not_mem_pieces hplain hall) (List.cons_ne_nil _ _)
    have hkept : ((f :: order).map pairText).filter (· ≠ []) = (f :: order).map pairText := by
      rw [List.filter_eq_self]
      intro text htext
      obtain ⟨g, -, rfl⟩ := List.mem_map.mp htext
      simp [pairText]
    rw [readFields, hafter, ok_bind, hsplit, trim_pieces hplain hall, hkept,
      foldlM_pairText hplain]
    exact set_fields hperm

/-- Parts that pass the checks come back from any rendering of them, the signature in lower
case. -/
theorem parse_rendered (hc : Checked a) (hapart : Apart a) (hf : ∀ f ∈ fieldsOf a, Plain f)
    (h : Renders a value) :
    parseAuthorization value = .ok { a with signature := toAsciiLower a.signature } :=
  parse_fields (readFields_renders hf h) hc hapart

end Rendering

section RoundTrip

variable {value : Str} {a : AuthorizationV4}

theorem plain_signature {s : Str} (h : s.all isHexDigit = true) : Plain (bytes "Signature", s) := by
  have hdigit : ∀ b : UInt8, isHexDigit b = true → isGraphic b = true ∧ b ≠ 44 :=
    forall_byte (by decide +kernel)
  rw [List.all_eq_true] at h
  exact {
    known := by simp
    trimmed := trimmed_graphic fun b hb => (hdigit b (h b hb)).1
    comma := fun hm => (hdigit 44 (h 44 hm)).2 rfl }

theorem lower_hexDigits {s : Str} (h : s.all isHexDigit = true) :
    (toAsciiLower s).all isHexDigit = true ∧
      (toAsciiLower s).all (fun b => !isUpper b) = true := by
  have hdigit : ∀ b : UInt8, isHexDigit b = true →
      isHexDigit (asciiLower b) = true ∧ (!isUpper (asciiLower b)) = true :=
    forall_byte (by decide +kernel)
  rw [List.all_eq_true] at h
  rw [toAsciiLower, List.all_map, List.all_map, List.all_eq_true, List.all_eq_true]
  exact ⟨fun b hb => (hdigit b (h b hb)).1, fun b hb => (hdigit b (h b hb)).2⟩

/-- Parts as a client has them: none holds a separator it is written between, and the access
key id is free to hold slashes and equals signs. -/
structure Renderable (a : AuthorizationV4) : Prop extends Checked a where
  idComma : (44 : UInt8) ∉ a.accessKeyId
  idStart : ∀ w ∈ whitespace, ¬w <+: a.accessKeyId
  regionText : (44 : UInt8) ∉ a.scope.region ∧ (47 : UInt8) ∉ a.scope.region
  nameText : ∀ name ∈ a.signedHeaders, (44 : UInt8) ∉ name ∧ (59 : UInt8) ∉ name ∧
    ∀ w ∈ whitespace, ¬w <:+: name

theorem Renderable.apart (h : Renderable a) : Apart a where
  region := h.regionText.2
  names := fun name hname => (h.nameText name hname).2.1

theorem Renderable.credential (h : Renderable a) :
    Plain (bytes "Credential", credentialText a) := by
  have hend : Trimmed (bytes "aws4_request") :=
    trimmed_graphic (List.all_eq_true.mp (by decide))
  have hscope : a.scope.toString =
      join 47 [a.scope.date, a.scope.region, a.scope.service] ++ 47 :: bytes "aws4_request" := by
    simp [CredentialScope.toString, join]
  refine ⟨by simp, fun w hw => ⟨fun hpre => ?_, fun hsuf => ?_⟩, fun hm => ?_⟩
  · exact h.idStart w hw (prefix_before (not_mem_whitespace (by decide) hw) hpre)
  · have hterm := suffix_after (not_mem_whitespace (by decide) hw) hsuf
    rw [hscope] at hterm
    exact (hend w hw).2 (suffix_after (not_mem_whitespace (by decide) hw) hterm)
  · rcases List.mem_append.mp hm with hm | hm
    · exact h.idComma hm
    · rcases List.mem_cons.mp hm with hm | hm
      · cases hm
      · rcases mem_intercalate hm with hm | ⟨part, hpart, hm⟩
        · cases List.mem_singleton.mp hm
        · simp only [List.mem_cons, List.not_mem_nil, or_false] at hpart
          rcases hpart with rfl | rfl | rfl | rfl
          · exact not_mem_digits h.date.2 (by decide) hm
          · exact h.regionText.1 hm
          · rw [h.service] at hm
            revert hm
            decide
          · revert hm
            decide

theorem Renderable.signed (h : Renderable a) :
    Plain (bytes "SignedHeaders", join 59 a.signedHeaders) := by
  have hinside : ∀ w ∈ whitespace, ¬w <:+: join 59 a.signedHeaders := by
    intro w hw hi
    have hne : w ≠ [] := by
      rintro rfl
      revert hw
      decide
    obtain ⟨name, hname, hi⟩ := infix_intercalate (not_mem_whitespace (by decide) hw) hne hi
    exact (h.nameText name hname).2.2 w hw hi
  refine ⟨by simp, fun w hw => ⟨fun hpre => ?_, fun hsuf => ?_⟩, fun hm => ?_⟩
  · exact hinside w hw hpre.isInfix
  · exact hinside w hw hsuf.isInfix
  · rcases mem_intercalate hm with hm | ⟨name, hname, hm⟩
    · cases List.mem_singleton.mp hm
    · exact (h.nameText name hname).1 hm

theorem Renderable.plain (h : Renderable a) : ∀ f ∈ fieldsOf a, Plain f := by
  simp only [fieldsOf, List.forall_mem_cons]
  exact ⟨h.credential, h.signed, plain_signature h.signature.2, List.forall_mem_nil _⟩

/-- What the parser accepts has passed its checks, and can be written as it was read. -/
theorem parsed_plain (h : parseAuthorization value = .ok a) :
    Checked a ∧ a.signature.all (fun b => !isUpper b) = true ∧ Apart a ∧
      ∀ f ∈ fieldsOf a, Plain f := by
  obtain ⟨signature, hread, hc, hapart, hs⟩ := parsed_fields h
  obtain ⟨hdigits, hlower⟩ := lower_hexDigits hc.signature.2
  have hheld := readFields_holds hread
  have hsignature : a.signature.length = 64 ∧ a.signature.all isHexDigit = true := by
    rw [hs]
    exact ⟨(List.length_map _).trans hc.signature.1, hdigits⟩
  refine ⟨{ hc with signature := hsignature }, by rw [hs, hlower], hapart, ?_⟩
  obtain ⟨hcredential, hcomma, -⟩ := hheld.credential _ rfl
  obtain ⟨hnames, hnamesComma, -⟩ := hheld.signedHeaders _ rfl
  simp only [fieldsOf, List.forall_mem_cons]
  exact ⟨⟨by simp, hcredential, hcomma⟩, ⟨by simp, hnames, hnamesComma⟩,
    plain_signature hsignature.2, List.forall_mem_nil _⟩

/-- Parsing undoes rendering, and renders the same again after whatever it accepts. -/
theorem parse_render :
    (∀ a value, Renderable a → Renders a value →
      parseAuthorization value = .ok { a with signature := toAsciiLower a.signature }) ∧
    ∀ value a, parseAuthorization value = .ok a →
      Checked a ∧ a.signature.all (fun b => !isUpper b) = true ∧
        ∀ rendered, Renders a rendered → parseAuthorization rendered = .ok a := by
  constructor
  · intro a value ha h
    exact parse_rendered ha.toChecked ha.apart ha.plain h
  · intro value a h
    obtain ⟨hc, hlower, hapart, hplain⟩ := parsed_plain h
    refine ⟨hc, hlower, fun rendered hr => ?_⟩
    have hparse := parse_rendered hc hapart hplain hr
    rw [toAsciiLower_fixed hlower] at hparse
    exact hparse

/-- A key id with separators in it, and a signature in upper case. -/
def slashedAuth : AuthorizationV4 where
  accessKeyId := bytes "AK/ID=1"
  scope := ⟨bytes "20130524", bytes "us-east-1", bytes "s3"⟩
  signedHeaders := [bytes "host", bytes "x-amz-date"]
  signature := bytes "9AB8546CBC63B638F1693E6AFD683C894B0BA9A19B463646F33C9B3B3ADBB460"

def slashedText : Str :=
  bytes "AWS4-HMAC-SHA256\t Signature=9AB8546CBC63B638F1693E6AFD683C894B0BA9A19B463646F33C9B3B" ++
    bytes "3ADBB460 ,SignedHeaders=host;x-amz-date,\tCredential=AK/ID=1/20130524/us-east-1/s3/" ++
    bytes "aws4_request "

theorem slashed_renderable : Renderable slashedAuth where
  id := by decide
  date := by decide
  service := rfl
  names := by decide
  ascending := by decide
  host := by decide
  signature := by decide
  idComma := by decide
  idStart := by decide
  regionText := by decide
  nameText := by decide

theorem slashed_renders : Renders slashedAuth slashedText := by
  refine ⟨(fieldsOf slashedAuth).reverse,
    [bytes " Signature=9AB8546CBC63B638F1693E6AFD683C894B0BA9A19B463646F33C9B3B3ADBB460 ",
      bytes "SignedHeaders=host;x-amz-date",
      bytes "\tCredential=AK/ID=1/20130524/us-east-1/s3/aws4_request "], 9,
    List.reverse_perm _, ?_, by decide, by decide +kernel⟩
  apply List.Forall₂.cons ⟨[[32]], [[32]], by decide, by decide, by decide⟩
  apply List.Forall₂.cons ⟨[], [], by decide, by decide, by decide⟩
  exact .cons ⟨[[9]], [[32]], by decide, by decide, by decide⟩ .nil

theorem parse_render_slashed :
    parseAuthorization slashedText =
        .ok { slashedAuth with signature := toAsciiLower slashedAuth.signature } ∧
      parseAuthorization (render { slashedAuth with
          signature := toAsciiLower slashedAuth.signature }) =
        .ok { slashedAuth with signature := toAsciiLower slashedAuth.signature } := by
  have hparse := parse_render.1 slashedAuth slashedText slashed_renderable slashed_renders
  exact ⟨hparse, (parse_render.2 _ _ hparse).2.2 _ (renders_render _)⟩

end RoundTrip

end AuthorizationText
