import Rgw.RestS3Handlers
import Rgw.Utf8Texts

/-! # Documents of a multi-delete

A list of entries can be written down in many ways: its texts split into pieces of every kind,
with comments among them and white space between the elements. The walk over the events of any
of them gives back the list. -/
namespace DeleteDocuments

open ByteStrings TextCodecs Utf8Texts RgwTypes Http RestS3Wire

section Documents

/-- The entities that need no declaration. -/
def entities : List (Str × Str) :=
  [(bytes "amp", bytes "&"), (bytes "lt", bytes "<"), (bytes "gt", bytes ">"), (bytes "quot", [34]),
    (bytes "apos", bytes "'")]

/-- Pieces of a text, in order, with comments among them. -/
inductive Spells : List XmlEvent → Str → Prop where
  | nil : Spells [] []
  | text (t : Str) {events : List XmlEvent} {s : Str} (h : Spells events s) :
      Spells (.text t :: events) (t ++ s)
  | cdata (t : Str) {events : List XmlEvent} {s : Str} (h : Spells events s) :
      Spells (.cdata t :: events) (t ++ s)
  | charRef (c : Str) {events : List XmlEvent} {s : Str} (h : Spells events s) :
      Spells (.charRef (some c) :: events) (c ++ s)
  | entityRef {name t : Str} (known : (name, t) ∈ entities) {events : List XmlEvent} {s : Str}
      (h : Spells events s) : Spells (.entityRef name :: events) (t ++ s)
  | comment {events : List XmlEvent} {s : Str} (h : Spells events s) : Spells (.other :: events) s

/-- White space and comments, as they stand between elements. -/
def Gap (events : List XmlEvent) : Prop :=
  ∀ e ∈ events, e = .other ∨ ∃ t, e = .text t ∧ ∀ b ∈ t, b ∈ [9, 10, 13, 32]

inductive TextElement (name : Str) : Str → List XmlEvent → Prop where
  | long {inner : List XmlEvent} {s : Str} (h : Spells inner s) :
      TextElement name s (.start name :: inner ++ [.close])
  | short : TextElement name [] [.empty name]

inductive VersionPart : Option Str → List XmlEvent → Prop where
  | absent : VersionPart none []
  | present {version : Str} {gap element : List XmlEvent} (before : Gap gap)
      (h : TextElement (bytes "VersionId") version element) : VersionPart (some version) (gap ++ element)

inductive ObjectElement : DeleteObject → List XmlEvent → Prop where
  | intro {key : Str} {versionId : Option Str} {gap element version gap' : List XmlEvent}
      (before : Gap gap) (named : TextElement (bytes "Key") key element)
      (versioned : VersionPart versionId version) (after : Gap gap') :
      ObjectElement ⟨key, versionId⟩
        (.start (bytes "Object") :: gap ++ element ++ version ++ gap' ++ [.close])

/-- What stands in the root: the entries in order, and at most one setting. -/
inductive Children : List DeleteObject → Option Bool → List XmlEvent → Prop where
  | nil : Children [] none []
  | gap {objects : List DeleteObject} {quiet : Option Bool} {gap events : List XmlEvent}
      (h : Gap gap) (rest : Children objects quiet events) : Children objects quiet (gap ++ events)
  | object {o : DeleteObject} {objects : List DeleteObject} {quiet : Option Bool}
      {element events : List XmlEvent} (h : ObjectElement o element)
      (rest : Children objects quiet events) : Children (o :: objects) quiet (element ++ events)
  | quiet {b : Bool} {t : Str} {objects : List DeleteObject} {element events : List XmlEvent}
      (h : TextElement (bytes "Quiet") t element)
      (flag : toAsciiLower t = if b then bytes "true" else bytes "false")
      (rest : Children objects none events) : Children objects (some b) (element ++ events)

/-- A whole document, to the end of the input. -/
inductive DeleteDocument (req : DeleteRequest) : List XmlEvent → Prop where
  | intro {prolog children epilog : List XmlEvent} {quiet : Option Bool} (before : Gap prolog)
      (h : Children req.objects quiet children) (flag : quiet.getD false = req.quiet)
      (after : Gap epilog) : DeleteDocument req
        (prolog ++ .start (bytes "Delete") :: children ++ .close :: epilog ++ [.eof])

end Documents

section Walks

variable {events events' : List XmlEvent} {w w' w'' : DeleteWalk} {name s : Str}

/-- The walk over some events, whatever follows them. -/
def Walks (events : List XmlEvent) (w w' : DeleteWalk) : Prop :=
  ∀ rest, walkEvents (events ++ rest) w = walkEvents rest w'

theorem Walks.trans (h : Walks events w w') (h' : Walks events' w' w'') :
    Walks (events ++ events') w w'' := by
  intro rest
  rw [List.append_assoc, h, h']

theorem walks_nil (w : DeleteWalk) : Walks [] w w := fun _ => rfl

theorem walks_start (h : openElement w name = .ok w') : Walks [.start name] w w' := by
  intro rest
  change (openElement w name >>= walkEvents rest) = _
  rw [h, ok_bind]

theorem walks_close (h : closeElement w = .ok w') : Walks [.close] w w' := by
  intro rest
  change (closeElement w >>= walkEvents rest) = _
  rw [h, ok_bind]

theorem predefinedEntity_eq {t : Str} (known : (name, t) ∈ entities) :
    predefinedEntity name = .ok t := by
  have hall : ∀ e ∈ entities, predefinedEntity e.1 = .ok e.2 := by decide
  exact hall (name, t) known

theorem addContent_addContent (w : DeleteWalk) (s t : Str) :
    addContent (addContent w s) t = addContent w (s ++ t) := by
  rw [addContent, addContent, addContent, List.append_assoc]

theorem addContent_nil (w : DeleteWalk) : addContent w [] = w := by
  rw [addContent, List.append_nil]

/-- Pieces of text are put together, comments are passed over. -/
theorem walks_spelled (h : Spells events s) (w : DeleteWalk) : Walks events w (addContent w s) := by
  induction h generalizing w with
  | nil =>
    rw [addContent_nil]
    exact walks_nil w
  | text t h ih | cdata t h ih =>
    intro rest
    rw [← addContent_addContent]
    exact ih (addContent w t) rest
  | charRef c h ih =>
    intro rest
    rw [← addContent_addContent]
    exact ih (addContent w c) rest
  | @entityRef name t known events s h ih =>
    intro rest
    rw [← addContent_addContent]
    change (predefinedEntity name >>= fun t => walkEvents (events ++ rest) (addContent w t)) = _
    rw [predefinedEntity_eq known, ok_bind]
    exact ih (addContent w t) rest
  | comment h ih => exact fun rest => ih w rest

/-- What stands between elements ends up in no element's text but the one around it. -/
theorem walks_gap (h : Gap events) (w : DeleteWalk) : ∃ s, Walks events w (addContent w s) := by
  have hspells : ∃ s, Spells events s := by
    induction events with
    | nil => exact ⟨[], .nil⟩
    | cons e events ih =>
      rw [Gap, List.forall_mem_cons] at h
      obtain ⟨s, hs⟩ := ih h.2
      rcases h.1 with rfl | ⟨t, rfl, -⟩
      · exact ⟨s, .comment hs⟩
      · exact ⟨t ++ s, .text t hs⟩
  obtain ⟨s, hs⟩ := hspells
  exact ⟨s, walks_spelled hs w⟩

/-- An element of text: its opening, its text, its end. -/
theorem walks_textElement (h : TextElement name s events) (ho : openElement w name = .ok w')
    (hc : closeElement (addContent w' s) = .ok w'') : Walks events w w'' := by
  cases h with
  | long h =>
    have hinner := (walks_start ho).trans (walks_spelled h w')
    exact hinner.trans (walks_close hc)
  | short =>
    have hempty : addContent w' [] = w' := addContent_nil w'
    rw [hempty] at hc
    intro rest
    change (openElement w name >>= fun w => closeElement w >>= walkEvents rest) = _
    rw [ho, ok_bind, hc, ok_bind]

end Walks

section Elements

variable {events : List XmlEvent} {w : DeleteWalk} {req : DeleteRequest}

/-- Between the children of the root. -/
structure InRoot (req : DeleteRequest) (w : DeleteWalk) : Prop where
  path : w.path = [bytes "Delete"]
  req : w.req = req
  root : w.sawRoot = true

/-- Between the children of an entry, with what was read of it. -/
def inObject (req : DeleteRequest) (content : Str) (key versionId : Option Str) : DeleteWalk :=
  ⟨req, [bytes "Object", bytes "Delete"], content, key, versionId, true⟩

theorem inObject_open (name content : Str) (key versionId : Option Str) :
    openElement (inObject req content key versionId) name =
      .ok ⟨req, [name, bytes "Object", bytes "Delete"], [], key, versionId, true⟩ := rfl

theorem inObject_key {content key : Str} (h : TextElement (bytes "Key") key events)
    (old versionId : Option Str) :
    Walks events (inObject req content old versionId) (inObject req [] (some key) versionId) :=
  walks_textElement h (inObject_open _ _ _ _) rfl

theorem inObject_version {content version : Str} (h : TextElement (bytes "VersionId") version events)
    (key old : Option Str) :
    Walks events (inObject req content key old) (inObject req [] key (some version)) :=
  walks_textElement h (inObject_open _ _ _ _) rfl

theorem inObject_gap (h : Gap events) (content : Str) (key versionId : Option Str) :
    ∃ content', Walks events (inObject req content key versionId)
      (inObject req content' key versionId) := by
  obtain ⟨s, hs⟩ := walks_gap h (inObject req content key versionId)
  exact ⟨content ++ s, hs⟩

theorem inObject_versionPart {versionId : Option Str} (h : VersionPart versionId events) (content : Str)
    (key : Option Str) : ∃ content', Walks events (inObject req content key none)
      (inObject req content' key versionId) := by
  cases h with
  | absent => exact ⟨content, walks_nil _⟩
  | present before h =>
    obtain ⟨content', hgap⟩ := inObject_gap before content key none
    exact ⟨[], hgap.trans (inObject_version h key none)⟩

theorem inRoot_object {o : DeleteObject} (h : ObjectElement o events) (hw : InRoot req w) :
    ∃ w', Walks events w w' ∧ InRoot { req with objects := req.objects ++ [o] } w' := by
  obtain ⟨req, path, content, key, versionId, sawRoot⟩ := w
  obtain ⟨rfl, rfl, rfl⟩ := hw
  cases h with
  | @intro key' versionId' gap element version gap' before named versioned after =>
    have hopen : openElement ⟨req, [bytes "Delete"], content, key, versionId, true⟩ (bytes "Object") =
        .ok (inObject req [] none none) := rfl
    obtain ⟨s, hbefore⟩ := @inObject_gap gap req before [] none none
    have hkey := @inObject_key element req s key' named none none
    obtain ⟨s', hversion⟩ := @inObject_versionPart version req versionId' versioned [] (some key')
    obtain ⟨s'', hafter⟩ := @inObject_gap gap' req after s' (some key') versionId'
    have hclose : closeElement (inObject req s'' (some key') versionId') =
        .ok ⟨{ req with objects := req.objects ++ [⟨key', versionId'⟩] }, [bytes "Delete"], [], none,
          none, true⟩ := rfl
    have hupto := ((walks_start hopen).trans hbefore).trans hkey
    exact ⟨_, ((hupto.trans hversion).trans hafter).trans (walks_close hclose), ⟨rfl, rfl, rfl⟩⟩

/-- The two words of the setting, in any case of their letters. -/
theorem flag_eq {b : Bool} {t : Str} (h : toAsciiLower t = if b then bytes "true" else bytes "false") :
    eqIgnoreAsciiCase (trim t) (bytes "true") = b := by
  have hlower : ∀ c : UInt8, isGraphic (asciiLower c) = true → isGraphic c = true :=
    forall_byte (by decide +kernel)
  have hgraphic : ∀ c ∈ toAsciiLower t, isGraphic c = true := by
    rw [h]
    apply List.all_eq_true.mp
    cases b <;> decide
  have htrim : trim t = t := by
    apply trim_graphic
    intro c hc
    exact hlower c (hgraphic _ (List.mem_map_of_mem hc))
  rw [eqIgnoreAsciiCase, htrim, h]
  cases b <;> decide

theorem inRoot_quiet {b : Bool} {t : Str} (h : TextElement (bytes "Quiet") t events)
    (flag : toAsciiLower t = if b then bytes "true" else bytes "false") (hw : InRoot req w) :
    ∃ w', Walks events w w' ∧ InRoot { req with quiet := b } w' := by
  obtain ⟨req, path, content, key, versionId, sawRoot⟩ := w
  obtain ⟨rfl, rfl, rfl⟩ := hw
  have hopen : openElement ⟨req, [bytes "Delete"], content, key, versionId, true⟩ (bytes "Quiet") =
      .ok ⟨req, [bytes "Quiet", bytes "Delete"], [], key, versionId, true⟩ := rfl
  have hclose : closeElement (addContent ⟨req, [bytes "Quiet", bytes "Delete"], [], key, versionId, true⟩
      t) = .ok ⟨{ req with quiet := b }, [bytes "Delete"], [], key, versionId, true⟩ := by
    rw [← flag_eq flag]
    rfl
  exact ⟨_, walks_textElement h hopen hclose, ⟨rfl, rfl, rfl⟩⟩

theorem inRoot_gap (h : Gap events) (hw : InRoot req w) : ∃ w', Walks events w w' ∧ InRoot req w' := by
  obtain ⟨s, hs⟩ := walks_gap h w
  exact ⟨_, hs, hw.path, hw.req, hw.root⟩

/-- The children are read one after another, none of them into the next. -/
theorem inRoot_children {objects : List DeleteObject} {quiet : Option Bool}
    (h : Children objects quiet events) (hw : InRoot req w) : ∃ w', Walks events w w' ∧
      InRoot ⟨req.objects ++ objects, quiet.getD req.quiet⟩ w' := by
  induction h generalizing w req with
  | nil =>
    rw [List.append_nil]
    exact ⟨w, walks_nil w, hw⟩
  | gap h rest ih =>
    obtain ⟨w', hwalk, hw'⟩ := inRoot_gap h hw
    obtain ⟨w'', hwalk', hw''⟩ := ih hw'
    exact ⟨w'', hwalk.trans hwalk', hw''⟩
  | object h rest ih =>
    obtain ⟨w', hwalk, hw'⟩ := inRoot_object h hw
    obtain ⟨w'', hwalk', hw''⟩ := ih hw'
    rw [List.append_assoc] at hw''
    exact ⟨w'', hwalk.trans hwalk', hw''⟩
  | quiet h flag rest ih =>
    obtain ⟨w', hwalk, hw'⟩ := inRoot_quiet h flag hw
    obtain ⟨w'', hwalk', hw''⟩ := ih hw'
    exact ⟨w'', hwalk.trans hwalk', hw''⟩

theorem walkEvents_document (h : DeleteDocument req events) :
    ∃ w, walkEvents events .start = .ok w ∧ w.req = req ∧ w.sawRoot = true := by
  cases h with
  | @intro prolog children epilog quiet before h flag after =>
    obtain ⟨s, hprolog⟩ := walks_gap before .start
    have hopen : openElement (addContent .start s) (bytes "Delete") =
        .ok ⟨⟨[], false⟩, [bytes "Delete"], [], none, none, true⟩ := rfl
    have hroot : InRoot ⟨[], false⟩ ⟨⟨[], false⟩, [bytes "Delete"], [], none, none, true⟩ :=
      ⟨rfl, rfl, rfl⟩
    obtain ⟨⟨req', path, content, key, versionId, sawRoot⟩, hchildren, hw⟩ := inRoot_children h hroot
    obtain ⟨rfl, rfl, rfl⟩ := hw
    have hclose : closeElement ⟨⟨[] ++ req.objects, quiet.getD false⟩, [bytes "Delete"], content, key,
        versionId, true⟩ = .ok ⟨⟨[] ++ req.objects, quiet.getD false⟩, [], [], key, versionId,
          true⟩ := rfl
    obtain ⟨s', hepilog⟩ := walks_gap after
      ⟨⟨[] ++ req.objects, quiet.getD false⟩, [], [], key, versionId, true⟩
    have hwhole := (((hprolog.trans (walks_start hopen)).trans hchildren).trans
      (walks_close hclose)).trans hepilog
    have hend := hwhole [.eof]
    simp only [List.append_assoc, List.cons_append, List.nil_append] at hend ⊢
    refine ⟨_, hend.trans rfl, ?_, rfl⟩
    change (⟨req.objects, quiet.getD false⟩ : DeleteRequest) = req
    rw [flag]

theorem parseDeleteEvents_ok : parseDeleteEvents events = .ok req ↔
    ∃ w, walkEvents events .start = .ok w ∧ w.req = req ∧ w.sawRoot = true ∧
      1 ≤ req.objects.length ∧ req.objects.length ≤ 1000 := by
  rw [parseDeleteEvents, bind_eq_ok]
  apply exists_congr
  intro w
  apply and_congr_right
  intro _
  by_cases hrefused : !w.sawRoot ∨ w.req.objects = [] ∨ maxMultiDelete < w.req.objects.length
  · simp only [hrefused, ↓reduceIte]
    constructor
    · intro h
      cases h
    · rintro ⟨rfl, hroot, hsome, hfew⟩
      rcases hrefused with h | h | h
      · simp [hroot] at h
      · rw [h] at hsome
        cases hsome
      · exact absurd h (Nat.not_lt.mpr hfew)
  · simp only [hrefused, ↓reduceIte]
    rw [not_or, not_or] at hrefused
    obtain ⟨hroot, hsome, hfew⟩ := hrefused
    constructor
    · intro h
      cases h
      exact ⟨rfl, by simpa using hroot, List.length_pos_iff.mpr hsome, Nat.not_lt.mp hfew⟩
    · rintro ⟨rfl, -⟩
      rfl

/-- The parser gives back the entries that a document lists, and its setting. -/
theorem parse_document (h : DeleteDocument req events) (hsome : 1 ≤ req.objects.length)
    (hfew : req.objects.length ≤ 1000) : parseDeleteEvents events = .ok req := by
  obtain ⟨w, hwalk, hreq, hroot⟩ := walkEvents_document h
  exact parseDeleteEvents_ok.mpr ⟨w, hwalk, hreq, hroot, hsome, hfew⟩

end Elements

end DeleteDocuments
