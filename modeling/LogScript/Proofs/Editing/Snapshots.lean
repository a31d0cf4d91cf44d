import LogScript.Proofs.Editing.History

/-!
A document and a history of snapshots. A document keeps of each edit only where it was made and the
two pieces it exchanged. The history here keeps the whole text and the selection before each change
and behind it, and never looks at a piece. The two cannot be told apart: whatever is asked of them,
they show the same text and selection, give the same replies, and can take back and make again the
same changes.
-/

namespace LogScript

/-- A text with the selection in it. -/
structure Snapshot where
  text : List Char
  selection : Span
  deriving DecidableEq, Repr

/-- A change of the text: what was there before it, and what making it again leads to. -/
structure Revision where
  before : Snapshot
  after : Snapshot
  deriving DecidableEq, Repr

structure SnapshotHistory where
  current : Snapshot
  /-- The changes that can be taken back, latest first. -/
  past : List Revision := []
  /-- The changes that can be made again, next first. -/
  future : List Revision := []
  deriving DecidableEq, Repr

/-- What a document is asked to do. -/
inductive Document.Request where
  | replace (span : Span) (text : List Char)
  | insert (position : Nat) (text : List Char)
  | setText (text : List Char)
  | setCursor (position : Nat)
  | select (span : Span)
  | undo
  | redo
  deriving DecidableEq, Repr

namespace SnapshotHistory

def ofText (text : List Char) : SnapshotHistory where
  current := ⟨text, .at 0⟩

/-- Why a span is refused: its end lies behind the text, or else its start behind its end. -/
def refusal? (h : SnapshotHistory) (s : Span) : Option ToolError :=
  if h.current.text.length < s.stop then
    some (.offsetOutOfBounds s.stop h.current.text.length)
  else if s.stop < s.start then some (.offsetOutOfBounds s.start s.stop)
  else none

/-- Goes on with a text that has its cursor at `cursor`, unless it is the text that is there. The
snapshot before is kept, and nothing can be made again; making this change again puts the cursor at
`again`. -/
def change (h : SnapshotHistory) (text : List Char) (cursor again : Nat) :
    SnapshotHistory × Except ToolError Bool :=
  if text = h.current.text then (h, .ok false)
  else
    ({ current := ⟨text, .at cursor⟩
       past := ⟨h.current, ⟨text, .at again⟩⟩ :: h.past
       future := [] }, .ok true)

/-- Replaces a span; the cursor goes behind the new text. -/
def replace (h : SnapshotHistory) (s : Span) (text : List Char) :
    SnapshotHistory × Except ToolError Bool :=
  match h.refusal? s with
  | some error => (h, .error error)
  | none =>
    let whole := h.current.text.take s.start ++ text ++ h.current.text.drop s.stop
    h.change whole (s.start + text.length) (s.start + text.length)

/-- Where the cursor goes when the whole text is replaced: from the end to the end, from elsewhere
to where it was as far as the new text reaches. -/
def keptCursor (h : SnapshotHistory) (text : List Char) : Nat :=
  if h.current.selection.stop = h.current.text.length then text.length
  else min h.current.selection.stop text.length

def select (h : SnapshotHistory) (s : Span) : SnapshotHistory × Except ToolError Bool :=
  match h.refusal? s with
  | some error => (h, .error error)
  | none => ({ h with current := ⟨h.current.text, s⟩ }, .ok false)

/-- The history behind a request, and the reply: whether the text has changed, or why not. -/
def answer (h : SnapshotHistory) : Document.Request → SnapshotHistory × Except ToolError Bool
  | .replace span text => h.replace span text
  | .insert position text => h.replace (.at position) text
  | .setText text => h.change text (h.keptCursor text) text.length
  | .setCursor position => h.select (.at position)
  | .select span => h.select span
  | .undo =>
    match h.past with
    | [] => (h, .ok false)
    | r :: earlier => (⟨r.before, earlier, r :: h.future⟩, .ok true)
  | .redo =>
    match h.future with
    | [] => (h, .ok false)
    | r :: later => (⟨r.after, r :: h.past, later⟩, .ok true)

def run (h : SnapshotHistory) (requests : List Document.Request) : SnapshotHistory :=
  requests.foldl (fun h request => (h.answer request).1) h

def canUndo (h : SnapshotHistory) : Bool :=
  !h.past.isEmpty

def canRedo (h : SnapshotHistory) : Bool :=
  !h.future.isEmpty

end SnapshotHistory

namespace Edit

/-- An edit with the texts around it. -/
def revision (e : Edit) (before after : List Char) : Revision :=
  ⟨⟨before, e.selectionBefore⟩, ⟨after, .at (e.start + e.inserted.length)⟩⟩

/-- The revisions of edits, latest first, the last of which has led to `after`. -/
def revisionsTo (after : List Char) : List Edit → List Revision
  | [] => []
  | e :: earlier =>
    let before := Document.splice after e.start e.inserted.length e.removed
    e.revision before after :: revisionsTo before earlier

/-- The revisions of edits, next first, that are to be made from `before` on. -/
def revisionsFrom (before : List Char) : List Edit → List Revision
  | [] => []
  | e :: later =>
    let after := Document.splice before e.start e.removed.length e.inserted
    e.revision before after :: revisionsFrom after later

variable {e : Edit} {before after : List Char}

theorem Links.revisionsTo_cons (h : e.Links before after) (earlier : List Edit) :
    revisionsTo after (e :: earlier) = e.revision before after :: revisionsTo before earlier := by
  simp only [revisionsTo, h.splice_back]

theorem Links.revisionsFrom_cons (h : e.Links before after) (later : List Edit) :
    revisionsFrom before (e :: later) = e.revision before after :: revisionsFrom after later := by
  simp only [revisionsFrom, h.splice_forward]

/-- What taking the edit back removes. -/
theorem Links.within_inserted (h : e.Links before after) :
    (Span.mk e.start (e.start + e.inserted.length)).Within after := by
  obtain ⟨front, back, hstart, -, rfl⟩ := h.exchanges
  constructor
  · simp
  · simp only [List.length_append]
    omega

/-- What making the edit again removes. -/
theorem Links.within_removed (h : e.Links before after) :
    (Span.mk e.start (e.start + e.removed.length)).Within before := by
  obtain ⟨front, back, hstart, rfl, -⟩ := h.exchanges
  constructor
  · simp
  · simp only [List.length_append]
    omega

end Edit

namespace Document

/-- The history of snapshots that a document stands for. -/
def history (d : Document) : SnapshotHistory where
  current := ⟨d.text, d.selection⟩
  past := Edit.revisionsTo d.text d.undoable
  future := Edit.revisionsFrom d.text d.redoable

/-- The outcome of a change of the document that may fail; one that fails leaves it as it is. -/
def settled (d : Document) : Except ToolError (Document × Bool) → Document × Except ToolError Bool
  | .ok (next, changed) => (next, .ok changed)
  | .error error => (d, .error error)

/-- The document behind a request, and the reply: whether the text has changed, or why not. -/
def answer (d : Document) : Request → Document × Except ToolError Bool
  | .replace span text => d.settled (d.replace span text)
  | .insert position text => d.settled (d.insert position text)
  | .setText text => d.settled (.ok (d.setText text))
  | .setCursor position => d.settled ((d.setCursor position).map (·, false))
  | .select span => d.settled ((d.select span).map (·, false))
  | .undo => d.settled (.ok d.undo)
  | .redo => d.settled (.ok d.redo)

def run (d : Document) (requests : List Request) : Document :=
  requests.foldl (fun d request => (d.answer request).1) d

variable {d : Document} {s : Span} {position : Nat} {text : List Char}

theorem history_ofText (text : List Char) : (ofText text).history = .ofText text :=
  rfl

theorem checkSpan_eq (d : Document) (s : Span) :
    d.checkSpan s = (d.history.refusal? s).elim (.ok ()) .error := by
  simp only [checkSpan, checkPosition, SnapshotHistory.refusal?, history]
  by_cases hinside : s.stop ≤ d.text.length
  · have hnot : ¬ d.text.length < s.stop := by omega
    by_cases hordered : s.start ≤ s.stop
    · have hnot' : ¬ s.stop < s.start := by omega
      simp [hinside, hnot, hordered, hnot', bind, Except.bind]
    · have hbehind : s.stop < s.start := by omega
      simp [hinside, hnot, hordered, hbehind, bind, Except.bind]
  · have hbehind : d.text.length < s.stop := by omega
    simp [hinside, hbehind, bind, Except.bind]

theorem refusal?_of_refused {error : ToolError} (h : d.checkSpan s = .error error) :
    d.history.refusal? s = some error := by
  rw [checkSpan_eq] at h
  cases hrefusal : d.history.refusal? s with
  | some error' =>
    rw [hrefusal] at h
    cases h
    rfl
  | none =>
    rw [hrefusal] at h
    cases h

theorem refusal?_of_within (h : s.Within d.text) : d.history.refusal? s = none := by
  have hcheck := checkSpan_of_within h
  rw [checkSpan_eq] at hcheck
  cases hrefusal : d.history.refusal? s with
  | some error =>
    rw [hrefusal] at hcheck
    cases hcheck
  | none => rfl

/-- Exchanging a part of the text for another one changes the text as a whole. -/
theorem whole_eq_iff (hs : s.Within d.text) (text : List Char) :
    d.text.take s.start ++ text ++ d.text.drop s.stop = d.text ↔ d.charsIn s = text := by
  have hparts := text_eq_charsIn hs
  constructor
  · intro hwhole
    have hsame := hwhole.trans hparts
    simp only [List.append_left_inj, List.append_right_inj] at hsame
    exact hsame.symm
  · rintro rfl
    exact hparts.symm

/-- A new edit is a change between the texts that it links, wherever the cursor goes then. -/
theorem change_of_links {e : Edit} {after : List Char} (h : e.Links d.text after)
    (hselection : e.selectionBefore = d.selection) (hchanged : after ≠ d.text) (cursor : Nat) :
    d.history.change after cursor (e.start + e.inserted.length) =
      (history { d.commit e with selection := .at cursor }, .ok true) := by
  have htext : (d.commit e).text = after := h.splice_forward
  have hpast : Edit.revisionsTo after (e :: d.undoable) =
      e.revision d.text after :: Edit.revisionsTo d.text d.undoable :=
    h.revisionsTo_cons d.undoable
  have hnext : history { d.commit e with selection := .at cursor } =
      ⟨⟨after, .at cursor⟩, e.revision d.text after :: d.history.past, []⟩ := by
    simp only [history, htext]
    simp only [commit, applyEdit, hpast]
    rfl
  rw [hnext, Edit.revision, hselection]
  exact if_neg hchanged

theorem Sound.answer_replace (h : d.Sound) (s : Span) (text : List Char) :
    d.history.replace s text =
      ((d.settled (d.replace s text)).1.history, (d.settled (d.replace s text)).2) := by
  rw [SnapshotHistory.replace]
  rcases refused_or_within d s with ⟨error, hcheck, -⟩ | hs
  · simp only [refusal?_of_refused hcheck, replace_of_refused hcheck, settled]
  · simp only [refusal?_of_within hs, replace_of_within hs]
    by_cases hsame : d.charsIn s = text
    · have hwhole := (whole_eq_iff hs text).2 hsame
      simp only [hsame, if_true, settled]
      exact if_pos hwhole
    · have hwhole := mt (whole_eq_iff hs text).1 hsame
      simp only [hsame, if_false, settled]
      exact change_of_links (links_replace h hs text) rfl hwhole (s.start + text.length)

theorem Sound.answer_setText (h : d.Sound) (text : List Char) :
    d.history.change text (d.history.keptCursor text) text.length =
      ((d.setText text).1.history, .ok (d.setText text).2) := by
  rw [Document.setText]
  by_cases hsame : d.text = text
  · rw [if_pos hsame]
    exact if_pos hsame.symm
  · have hlinks : Edit.Links ⟨0, d.text, text, d.selection⟩ d.text text :=
      ⟨⟨[], [], rfl, by simp, by simp⟩, h.selection⟩
    have hchange := change_of_links hlinks rfl (fun htext => hsame htext.symm)
      (d.history.keptCursor text)
    rw [if_neg hsame]
    simp only [Nat.zero_add] at hchange
    exact hchange

theorem answer_select (d : Document) (s : Span) :
    d.history.select s =
      ((d.settled ((d.select s).map (·, false))).1.history,
        (d.settled ((d.select s).map (·, false))).2) := by
  rw [SnapshotHistory.select]
  rcases refused_or_within d s with ⟨error, hcheck, -⟩ | hs
  · simp only [refusal?_of_refused hcheck, select_of_refused hcheck, Except.map, settled]
  · simp only [refusal?_of_within hs, select_of_within hs, Except.map, settled]
    rfl

theorem Sound.answer_undo (h : d.Sound) :
    d.history.answer .undo = (d.undo.1.history, .ok d.undo.2) := by
  have hundoable := h.undoable
  simp only [SnapshotHistory.answer, Document.undo, history]
  cases hundo : d.undoable with
  | nil => simp only [Edit.revisionsTo, hundo]
  | cons e earlier =>
    rw [hundo] at hundoable
    cases hundoable with
    | cons links _ =>
      simp only [links.revisionsTo_cons, links.splice_back, links.revisionsFrom_cons]
      rfl

theorem Sound.answer_redo (h : d.Sound) :
    d.history.answer .redo = (d.redo.1.history, .ok d.redo.2) := by
  have hredoable := h.redoable
  simp only [SnapshotHistory.answer, Document.redo, history]
  cases hredo : d.redoable with
  | nil => simp only [Edit.revisionsFrom, hredo]
  | cons e later =>
    rw [hredo] at hredoable
    cases hredoable with
    | cons links _ =>
      simp only [applyEdit, links.revisionsFrom_cons, links.splice_forward,
        links.revisionsTo_cons]
      rfl

/-- One request: a document and its history of snapshots give the same reply, and the document
behind it stands for the history behind it. -/
theorem Sound.answer_history (h : d.Sound) (request : Request) :
    d.history.answer request =
      ((d.answer request).1.history, (d.answer request).2) := by
  cases request with
  | replace span text => exact h.answer_replace span text
  | insert position text => exact h.answer_replace (.at position) text
  | setText text => exact h.answer_setText text
  | setCursor position =>
    rw [answer, setCursor_eq_select]
    exact answer_select d (.at position)
  | select span => exact answer_select d span
  | undo => exact h.answer_undo
  | redo => exact h.answer_redo

/-- The texts and the edits that two documents hold are the same; their selections may differ. -/
structure SameEdits (d d' : Document) : Prop where
  text : d.text = d'.text
  undoable : d.undoable = d'.undoable
  redoable : d.redoable = d'.redoable

theorem SameEdits.of_eq {d' : Document} (h : d = d') : SameEdits d d' :=
  h ▸ ⟨rfl, rfl, rfl⟩

theorem sameEdits_settled {outcome : Except ToolError (Document × Bool)}
    (hkeeps : ∀ next, outcome = .ok (next, false) → SameEdits next d)
    (h : (d.settled outcome).2 ≠ .ok true) : SameEdits (d.settled outcome).1 d := by
  cases outcome with
  | error error => exact .of_eq rfl
  | ok result =>
    obtain ⟨next, changed⟩ := result
    cases changed with
    | true => exact absurd rfl h
    | false => exact hkeeps next rfl

theorem sameEdits_replace {next : Document} (h : d.replace s text = .ok (next, false)) :
    SameEdits next d :=
  .of_eq (replace_of_unchanged h rfl)

/-- The outcome of a change that never fails. -/
theorem sameEdits_of_ok {result : Document × Bool} (hsame : result.2 = false → result.1 = d)
    {next : Document} (h : (.ok result : Except ToolError _) = .ok (next, false)) :
    SameEdits next d := by
  cases h
  exact .of_eq (hsame rfl)

theorem sameEdits_select {next : Document}
    (h : (d.select s).map (·, false) = .ok (next, false)) : SameEdits next d := by
  rcases refused_or_within d s with ⟨error, hcheck, -⟩ | hs
  · rw [select_of_refused hcheck] at h
    cases h
  · rw [select_of_within hs] at h
    cases h
    exact ⟨rfl, rfl, rfl⟩

/-- A request that fails, or that reports no change, leaves the text and both lists of edits. -/
theorem sameEdits_answer {request : Request} (h : (d.answer request).2 ≠ .ok true) :
    SameEdits (d.answer request).1 d := by
  cases request with
  | replace span text => exact sameEdits_settled (fun _ => sameEdits_replace) h
  | insert position text => exact sameEdits_settled (fun _ => sameEdits_replace) h
  | setText text => exact sameEdits_settled (fun _ => sameEdits_of_ok setText_of_unchanged) h
  | setCursor position =>
    rw [answer, setCursor_eq_select] at h ⊢
    exact sameEdits_settled (fun _ => sameEdits_select) h
  | select span => exact sameEdits_settled (fun _ => sameEdits_select) h
  | undo => exact sameEdits_settled (fun _ => sameEdits_of_ok undo_of_unchanged) h
  | redo => exact sameEdits_settled (fun _ => sameEdits_of_ok redo_of_unchanged) h

theorem Sound.settled {outcome : Except ToolError (Document × Bool)} (h : d.Sound)
    (hnext : ∀ result, outcome = .ok result → result.1.Sound) : (d.settled outcome).1.Sound := by
  cases outcome with
  | error error => exact h
  | ok result => exact hnext result rfl

theorem Sound.select (h : d.Sound) (s : Span) :
    (d.settled ((d.select s).map (·, false))).1.Sound := by
  rcases refused_or_within d s with ⟨error, hcheck, -⟩ | hs
  · rw [select_of_refused hcheck]
    exact h
  · rw [select_of_within hs]
    exact h.withSelection hs

theorem Sound.answer (h : d.Sound) (request : Request) : (d.answer request).1.Sound := by
  cases request with
  | replace span text => exact h.settled (fun _ hreplace => (h.replace hreplace).1)
  | insert position text => exact h.settled (fun _ hreplace => (h.replace hreplace).1)
  | setText text => exact h.setText text
  | setCursor position =>
    rw [Document.answer, setCursor_eq_select]
    exact h.select (.at position)
  | select span => exact h.select span
  | undo => exact h.undo
  | redo => exact h.redo

theorem Sound.run (h : d.Sound) (requests : List Request) : (d.run requests).Sound := by
  induction requests generalizing d with
  | nil => exact h
  | cons request requests ih => exact ih (h.answer request)

theorem Sound.history_run (h : d.Sound) (requests : List Request) :
    (d.run requests).history = d.history.run requests := by
  induction requests generalizing d with
  | nil => rfl
  | cons request requests ih =>
    have hstep := congrArg Prod.fst (h.answer_history request)
    have hlater := ih (h.answer request)
    simp only [Document.run, SnapshotHistory.run, List.foldl_cons, hstep] at hlater ⊢
    exact hlater

/-- The document cannot be told from the history of snapshots, and what it would take back or make
again next lies in its text. -/
structure Matches (d : Document) (h : SnapshotHistory) : Prop where
  current : h.current = ⟨d.text, d.selection⟩
  history : h = d.history
  canUndo : h.canUndo = d.canUndo
  canRedo : h.canRedo = d.canRedo
  reply : ∀ request, (h.answer request).2 = (d.answer request).2
  /-- Whatever fails or changes nothing touches neither list of edits. -/
  unchanged : ∀ request, (d.answer request).2 ≠ .ok true → SameEdits (d.answer request).1 d
  undone : ∀ e ∈ d.undoable.head?, (Span.mk e.start (e.start + e.inserted.length)).Within d.text
  redone : ∀ e ∈ d.redoable.head?, (Span.mk e.start (e.start + e.removed.length)).Within d.text

theorem canUndo_history (d : Document) : d.history.canUndo = d.canUndo := by
  simp only [SnapshotHistory.canUndo, history, canUndo]
  cases d.undoable <;> rfl

theorem canRedo_history (d : Document) : d.history.canRedo = d.canRedo := by
  simp only [SnapshotHistory.canRedo, history, canRedo]
  cases d.redoable <;> rfl

theorem Sound.within_undone (h : d.Sound) {e : Edit} (he : e ∈ d.undoable.head?) :
    (Span.mk e.start (e.start + e.inserted.length)).Within d.text := by
  have hundoable := h.undoable
  obtain ⟨earlier, hundo⟩ := List.head?_eq_some_iff.1 he
  rw [hundo] at hundoable
  cases hundoable with
  | cons links _ => exact links.within_inserted

theorem Sound.within_redone (h : d.Sound) {e : Edit} (he : e ∈ d.redoable.head?) :
    (Span.mk e.start (e.start + e.removed.length)).Within d.text := by
  have hredoable := h.redoable
  obtain ⟨later, hredo⟩ := List.head?_eq_some_iff.1 he
  rw [hredo] at hredoable
  cases hredoable with
  | cons links _ => exact links.within_removed

/-- From every text on and after every sequence of requests, a document that keeps edits matches a
history that keeps whole texts. -/
theorem matches_run (text : List Char) (requests : List Request) :
    ((ofText text).run requests).Matches ((SnapshotHistory.ofText text).run requests) := by
  have hsound := (sound_ofText text).run requests
  have hhistory := (sound_ofText text).history_run requests
  rw [history_ofText] at hhistory
  rw [← hhistory]
  constructor
  case current => rfl
  case history => rfl
  case canUndo => exact canUndo_history _
  case canRedo => exact canRedo_history _
  case reply =>
    intro request
    rw [hsound.answer_history request]
  case unchanged => exact fun _ => sameEdits_answer
  case undone => exact fun _ => hsound.within_undone
  case redone => exact fun _ => hsound.within_redone

/-- Behind a change that was taken back, made again and taken back, the selection is the one from
before the change was first made. -/
example :
    ((ofText "ab".toList).run [.select ⟨0, 1⟩, .setText "xyz".toList, .undo, .setCursor 2, .redo,
      .undo]).history.current = ⟨"ab".toList, ⟨0, 1⟩⟩ := by decide

end Document

end LogScript
