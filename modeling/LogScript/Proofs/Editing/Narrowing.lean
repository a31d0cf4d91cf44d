import Mathlib.Data.List.Basic
import LogScript.Proofs.Editing.Anchors

/-!
Narrowing an open session against asking again. Typing keeps a session while the text since its anchor
stays valid, whatever stands in front of the anchor. A fresh completion finds the same anchor where no
run of identifier characters ends there. Where the window once cut a run, the anchor is inside the run
and stays there, although typing less than was selected can bring the whole run back into the window.
-/

namespace LogScript

/-- Where a session stands: its anchor, and the text typed since. -/
def Session.place (s : Session) : Nat × List Char :=
  (s.offer.anchor, s.typed)

/-- Behind any text, what keeps an offer alive is replaced together with the run in front of it. -/
theorem replacedLength?_of_isValidTyped {language : Language} {front typed : List Char}
    (hvalid : language.isValidTyped typed = true)
    (hbar : typed = ['|'] → trailingRun language.isIdentifierChar front = 0)
    (hwindow : trailingRun language.isIdentifierChar (front ++ typed) ≤ windowSize)
    (explicit : Bool) :
    replacedLength? language (front ++ typed) explicit =
      some (typed.length + trailingRun language.isIdentifierChar front) := by
  rw [Language.isValidTyped, Bool.or_eq_true, Bool.and_eq_true, Bool.and_eq_true, List.all_eq_true,
    Bool.not_eq_true', beq_iff_eq, beq_iff_eq] at hvalid
  obtain ⟨hne, hall⟩ | ⟨homl, rfl⟩ := hvalid
  · have hrun := trailingRun_append_of_all hall front
    have hpos : 0 < typed.length := List.length_pos_iff.2 (by simpa using hne)
    rw [hrun] at hwindow
    have hlast : ¬(language = .oml ∧ (front ++ typed).getLast? = some '|') := by
      rintro ⟨rfl, hlast⟩
      rw [List.getLast?_append_of_ne_nil _ (List.length_pos_iff.1 hpos)] at hlast
      exact absurd (hall '|' (List.mem_of_getLast? hlast)) (by decide)
    rw [replacedLength?_eq, if_neg hlast, hrun, if_pos (by omega), Nat.min_eq_right hwindow]
  · rw [replacedLength?_eq, if_pos ⟨homl, List.getLast?_concat⟩, hbar rfl]
    rfl

/-- A fresh session for the same cursor starts behind the front text just if no run ends there. -/
theorem place_session? {language : Language} {locale : Locale} {front typed : List Char}
    (hvalid : language.isValidTyped typed = true)
    (hbar : typed = ['|'] → trailingRun language.isIdentifierChar front = 0)
    (hwindow : trailingRun language.isIdentifierChar (front ++ typed) ≤ windowSize)
    (explicit : Bool) :
    ∃ fresh, (Catalog.builtin language locale).session? (front ++ typed) explicit = some fresh ∧
      ((front.length, typed) = fresh.place ↔
        trailingRun language.isIdentifierChar front = 0) := by
  have hlength : replacedLength? (Catalog.builtin language locale).language (front ++ typed)
      explicit = some (typed.length + trailingRun language.isIdentifierChar front) :=
    replacedLength?_of_isValidTyped hvalid hbar hwindow explicit
  rw [Catalog.session?, Catalog.complete, hlength]
  refine ⟨_, rfl, ?_⟩
  have hle := trailingRun_le language.isIdentifierChar front
  have hanchor : (front ++ typed).length -
      (typed.length + trailingRun language.isIdentifierChar front) =
        front.length - trailingRun language.isIdentifierChar front := by
    rw [List.length_append]
    omega
  simp only [Session.place, Session.start, hanchor]
  constructor
  · intro hsame
    have hfront := (Prod.mk.inj hsame).1
    omega
  · intro hzero
    rw [hzero, Nat.sub_zero, List.drop_left]

namespace Editor

variable {e : Editor}

/-- Where a session goes on, the text before the cursor is what stood in front of its anchor and what
is typed since. A bar is all that is typed only if the anchor stands where the selection starts. -/
theorem Sound.take_cursor_typed (h : e.Sound) (hrooted : e.Rooted) {text : List Char}
    (htext : text ≠ []) {s next : Session} (hs : s ∈ e.session)
    (hnext : continued? s (e.document.typed text) = .ok (some next)) :
    (e.document.typed text).text.take (e.document.typed text).cursor =
        e.text.take s.offer.anchor ++ next.typed ∧
      s.offer.language.isValidTyped next.typed = true ∧
      (next.typed = ['|'] →
        trailingRun s.offer.language.isIdentifierChar (e.text.take s.offer.anchor) = 0) := by
  obtain ⟨front, back, hparts⟩ := h.document.exists_parts
  obtain ⟨htyped, hcursor, -⟩ := hparts.typed_text text
  obtain ⟨hahead, hatStart⟩ := hrooted s hs
  rw [hparts.selection] at hahead hatStart
  dsimp only at hahead hatStart
  have hfront : e.text.take s.offer.anchor = front.take s.offer.anchor := by
    rw [Editor.text, hparts.text, List.append_assoc, List.take_append_of_le_length hahead]
  have hlength : (front.take s.offer.anchor).length = s.offer.anchor := by
    rw [List.length_take, Nat.min_eq_left hahead]
  have hbefore : (e.document.typed text).text.take (e.document.typed text).cursor =
      front.take s.offer.anchor ++ (front.drop s.offer.anchor ++ text) := by
    rw [← List.append_assoc, List.take_append_drop, htyped, hcursor, ← List.length_append,
      List.take_left]
  obtain ⟨hoffer, -, hsince, hvalid⟩ := of_continued? (h.type_cases text).1.document hnext
  have hnew : next.typed = front.drop s.offer.anchor ++ text := by
    rw [hsince, Document.charsIn, ← List.drop_take, hbefore, List.drop_left' hlength]
  rw [hoffer] at hvalid
  refine ⟨by rw [hbefore, hfront, hnew], hvalid.resolve_left ?_, fun hbar => ?_⟩
  · rw [hnew]
    exact List.append_ne_nil_of_right_ne_nil _ htext
  · -- A bar alone leaves no text between the anchor and the selection.
    refine hatStart (Nat.le_antisymm hahead ?_)
    have hone := congrArg List.length hbar
    have hpos := List.length_pos_iff.2 htext
    rw [hnew, List.length_append, List.length_drop, List.length_singleton] at hone
    omega

/-- Where a session goes on, asking anew opens one too, at the same place just if no run ends at the
anchor. -/
theorem Sound.place_kept {language : Language} (h : e.Sound) (hrooted : e.Rooted)
    (hlanguage : e.config.mode.language? = some language) {text : List Char} (htext : text ≠ [])
    (hwindow : trailingRun language.isIdentifierChar
      ((e.document.typed text).text.take (e.document.typed text).cursor) ≤ windowSize)
    {s next : Session} (hs : s ∈ e.session)
    (hnext : continued? s (e.document.typed text) = .ok (some next)) :
    ∃ fresh, (Catalog.builtin language e.locale).session?
        ((e.document.typed text).text.take (e.document.typed text).cursor) false = some fresh ∧
      (next.place = fresh.place ↔
        trailingRun language.isIdentifierChar (e.text.take s.offer.anchor) = 0) := by
  have hfits := h.session s hs
  obtain rfl : s.offer.language = language :=
    Option.some.inj (hfits.language.symm.trans hlanguage)
  obtain ⟨hbefore, hvalid, hbar⟩ := h.take_cursor_typed hrooted htext hs hnext
  have hplace : next.place = ((e.text.take s.offer.anchor).length, next.typed) := by
    have hle := Nat.le_trans hfits.anchor_le hfits.cursor_le
    rw [Session.place, (of_continued? (h.type_cases text).1.document hnext).1, List.length_take,
      Nat.min_eq_left hle]
  rw [hbefore] at hwindow ⊢
  rw [hplace]
  exact place_session? hvalid hbar hwindow false

/-- Asking behind typing goes by the typed text alone, not by the session that typing left. -/
theorem Sound.session_complete_type {language : Language} (h : e.Sound)
    (hlanguage : e.config.mode.language? = some language) (text : List Char) (explicit : Bool) :
    ((e.type text).editor.complete explicit).editor.session =
      (Catalog.builtin language e.locale).session?
        ((e.document.typed text).text.take (e.document.typed text).cursor) explicit := by
  have hafter := (h.type text).1
  have hdocument := h.document_type text
  obtain ⟨document, changed, session, events, -, htype, -⟩ := h.type_eq text
  rw [htype] at hafter hdocument ⊢
  rw [← hdocument]
  exact (hafter.complete_eq hlanguage explicit).2

/-- In every state an editor can get into, a session is open after typing just if asking anew opens
one. The two have the same anchor and typed text unless the session went on from an anchor that a run
ends at. A session that goes on is the one that is open afterwards, and it keeps its anchor. -/
theorem place_type_run (config : Config) (locale : Locale) (text : List Char)
    (operations : List Operation) (language : Language) (typed : List Char) :
    let e := (new config locale text).run operations
    let after := (e.type typed).editor
    let fresh := (after.complete false).editor
    e.config.mode.language? = some language → typed ≠ [] →
    trailingRun language.isIdentifierChar (after.text.take after.cursor) ≤ windowSize →
      after.session.isSome = fresh.session.isSome ∧
        (after.session.map Session.place = fresh.session.map Session.place ↔
          ∀ s ∈ e.session, ∀ next, continued? s after.document = .ok (some next) →
            trailingRun language.isIdentifierChar (e.text.take s.offer.anchor) = 0) ∧
        ∀ s ∈ e.session, ∀ next, continued? s after.document = .ok (some next) →
          after.session = some next ∧ next.offer.anchor = s.offer.anchor := by
  intro e after fresh hlanguage hne hwindow
  have h : e.Sound := (sound_new config locale text).run operations
  have hdocument : after.document = e.document.typed typed := h.document_type typed
  have hfresh : fresh.session = _ := h.session_complete_type hlanguage typed false
  rw [Editor.text, Editor.cursor, hdocument] at hwindow
  rw [hfresh, hdocument]
  obtain ⟨htyped, ⟨s, hs, next, hnext, htype⟩ | ⟨hended, session, events, hopen, htype⟩⟩ :=
    h.type_cases typed
  · have hkept : after.session = some next := congrArg Editor.session htype
    obtain ⟨asked, hasked, hplace⟩ :=
      h.place_kept (rooted_run config locale text operations) hlanguage hne hwindow hs hnext
    rw [hkept, hasked, Option.map_some, Option.map_some, Option.some.injEq, hplace]
    refine ⟨rfl, ⟨fun hzero s' hs' next' _ => ?_, fun hall => hall s hs next hnext⟩,
      fun s' hs' next' hnext' => ?_⟩
    · cases hs.symm.trans hs'
      exact hzero
    · cases hs.symm.trans hs'
      cases hnext.symm.trans hnext'
      exact ⟨rfl, congrArg Offer.anchor (of_continued? htyped.document hnext).1⟩
  · obtain ⟨events', hanew⟩ := htyped.openSession_eq hlanguage false
    rw [hopen, Except.ok.injEq, Prod.mk.injEq] at hanew
    have hasked : after.session = _ := (congrArg Editor.session htype).trans hanew.1
    -- No session goes on, and what is said of one that does holds of none.
    have hnone {s next} (hs : s ∈ e.session)
        (hnext : continued? s (e.document.typed typed) = .ok (some next)) : False := by
      have hended := hended s hs
      rw [hnext] at hended
      cases hended
    exact ⟨congrArg Option.isSome hasked,
      iff_of_true (congrArg (Option.map Session.place) hasked)
        fun s hs next hnext => (hnone hs hnext).elim,
      fun s hs next hnext => (hnone hs hnext).elim⟩

/-- Over a slot: the session that was opened behind its name goes on with what is typed instead. -/
theorem place_type_run_slot :
    let e := (new { mode := .oml } .enUS "x = ".toList).run
      [.setCursor 4, .type "rea".toList, .accept "read".toList, .complete false]
    let after := (e.type "p/q".toList).editor
    e.session.map Session.place = some (9, "field".toList) ∧
      after.session.map Session.place = some (9, "p/q".toList) ∧
      after.session.map Session.place = (after.complete false).editor.session.map Session.place := by
  intro e after
  have hstart : ∀ s ∈ e.session,
      trailingRun Language.oml.isIdentifierChar (e.text.take s.offer.anchor) = 0 := by
    decide +kernel
  have hplace := place_type_run { mode := .oml } .enUS "x = ".toList
    [.setCursor 4, .type "rea".toList, .accept "read".toList, .complete false] .oml "p/q".toList
    (by decide +kernel) (by decide) (by decide +kernel)
  exact ⟨by decide +kernel, by decide +kernel, hplace.2.1.2 fun s hs _ _ => hstart s hs⟩

/-- With a slot selected at the end of a long run, the window cuts the run. The name typed over the slot
is shorter, so that a fresh completion finds the start of the run; the session stays where it was
opened. -/
theorem place_type_long_run :
    let e := (new { mode := .wpl } .enUS (List.replicate 244 ':')).run
      [.setCursor 244, .complete true, .accept "bool".toList, .configure { mode := .oml },
        .complete false]
    let after := (e.type "x".toList).editor
    let fresh := (after.complete false).editor
    e.config.mode.language? = some .oml ∧
      trailingRun Language.oml.isIdentifierChar (after.text.take after.cursor) ≤ windowSize ∧
      after.session.map (·.offer.anchor) = some 3 ∧
      fresh.session.map (·.offer.anchor) = some 0 ∧
      after.session.map Session.place ≠ fresh.session.map Session.place := by
  decide +kernel

end Editor

end LogScript
