import LogScript.Activity
import LogScript.Completion.Session
import LogScript.Editing.Config
import LogScript.Editing.Document
import LogScript.Highlight.Decoration
import LogScript.Highlight.Languages
import LogScript.Highlight.Semantic
import LogScript.Layout.Document

/-!
Editors. An editor holds a document and what its configuration and locale call for: a mode to
highlight in, a catalog to complete from, and a palette. That is rebuilt when the mode or the
locale changes, and only then.

An operation gives the editor behind it, its reply, the texts that the listeners of the editor
are told, and the events it causes. An operation that fails gives the editor it leaves, too.
-/

namespace LogScript

/-- What an editor needs of its mode and locale. -/
structure Wiring where
  mode : Mode
  catalog : Option Catalog
  deriving DecidableEq, Repr

namespace Wiring

def of (mode : Mode) (locale : Locale) : Wiring :=
  ⟨mode, mode.language?.map (Catalog.builtin · locale)⟩

/-- A catalog that comes with the tools is always found. -/
def events (w : Wiring) : List Event :=
  if w.catalog.isSome then [.catalogHit] else []

end Wiring

structure Editor where
  config : Config
  locale : Locale
  document : Document
  wiring : Wiring
  palette : Palette
  session : Option Session
  deriving DecidableEq, Repr

inductive Reply where
  | done
  | changed (value : Bool)
  | session (value : Option Session)
  | stops (value : Option (List Span))
  deriving DecidableEq, Repr

structure Outcome where
  editor : Editor
  reply : Except ToolError Reply
  /-- The text of the document after each committed change, for every listener. -/
  notices : List (List Char) := []
  events : List Event := []

inductive Operation where
  | setText (text : List Char)
  | format
  | undo
  | redo
  | setCursor (position : Nat)
  | replace (span : Span) (text : List Char)
  | insert (position : Nat) (text : List Char)
  | type (text : List Char)
  | complete (explicit : Bool)
  | accept (label : List Char)
  | close
  | configure (config : Config)
  | setLocale (locale : Locale)
  deriving DecidableEq, Repr

namespace Editor

def new (config : Config) (locale : Locale) (text : List Char) : Editor where
  config
  locale
  document := .ofText text
  wiring := .of config.mode locale
  palette := config.palette
  session := none

def text (e : Editor) : List Char :=
  e.document.text

def cursor (e : Editor) : Nat :=
  e.document.cursor

def tokens (e : Editor) : List Token :=
  Highlight.tokenize e.wiring.mode e.text

def semanticTokens (e : Editor) : List Semantic.Delta :=
  Semantic.encode e.text e.tokens

/-- The decorations; plain text and JSON have none. -/
def decorations (e : Editor) : List Decoration :=
  match e.wiring.mode.language? with
  | some language => Decoration.ofText (.builtin language) e.text e.tokens
  | none => []

/-- A highlighting pass. -/
def tokenizeEvents (e : Editor) : List Event :=
  [.tokenized e.tokens.length]

/-- Decorations take a highlighting pass where there are any. -/
def decorationEvents (e : Editor) : List Event :=
  if e.wiring.mode.language?.isSome then e.tokenizeEvents else []

/-- The outcome of an edit that closes the session when it changes the text. -/
def afterEdit (e : Editor) (result : Document × Bool) : Outcome :=
  if result.2 then
    { editor := { e with document := result.1, session := none }, reply := .ok (.changed true)
      notices := [result.1.text] }
  else { editor := { e with document := result.1 }, reply := .ok (.changed false) }

def setText (e : Editor) (text : List Char) : Outcome :=
  e.afterEdit (e.document.setText text)

/-- Formats the text as one edit; plain text and JSON stay as they are. -/
def format (e : Editor) : Outcome :=
  match e.config.mode.language? with
  | some language => e.setText (LogScript.format language e.text)
  | none => { editor := e, reply := .ok (.changed false) }

def undo (e : Editor) : Outcome :=
  e.afterEdit e.document.undo

def redo (e : Editor) : Outcome :=
  e.afterEdit e.document.redo

/-- Moves the cursor. The session closes even when the position lies outside the text. -/
def setCursor (e : Editor) (position : Nat) : Outcome :=
  let e := { e with session := none }
  match e.document.setCursor position with
  | .ok document => { editor := { e with document }, reply := .ok .done }
  | .error error => { editor := e, reply := .error error }

def replace (e : Editor) (span : Span) (text : List Char) : Outcome :=
  match e.document.replace span text with
  | .ok result => { e.afterEdit result with reply := .ok .done }
  | .error error => { editor := e, reply := .error error }

/-- A session for the cursor, looking at its line only; the catalog decides. -/
def openSession (e : Editor) (explicit : Bool) : Except ToolError (Option Session × List Event) :=
  match e.wiring.catalog with
  | none => .ok (none, [])
  | some catalog => do
    let (start, before) ← e.document.linePrefix e.cursor
    match catalog.complete before explicit with
    | none => return (none, [.suppressed])
    | some offer => return (some ((Session.start offer before).shift start), [.offered])

/-- Asks for completions; whatever session was open is replaced by the answer. -/
def complete (e : Editor) (explicit : Bool) : Outcome :=
  match e.openSession explicit with
  | .ok (session, events) =>
    { editor := { e with session }, reply := .ok (.session session), events }
  | .error error => { editor := e, reply := .error error }

/-- The session after typing, if it goes on: the text since its anchor has to stay valid. -/
def continued? (s : Session) (d : Document) : Except ToolError (Option Session) :=
  if s.offer.anchor ≤ d.cursor then do
    let typed ← d.slice ⟨s.offer.anchor, d.cursor⟩
    return s.update? typed
  else .ok none

/-- Types over the selection. An open session goes on if it can; otherwise completions are asked
for as for a keystroke. -/
def type (e : Editor) (text : List Char) : Outcome :=
  let idle := { e with session := none }
  match e.document.replace e.document.selection text with
  | .error error => { editor := idle, reply := .error error }
  | .ok (document, changed) =>
    let notices := if changed then [document.text] else []
    let typed := { idle with document }
    match (e.session.map (continued? · document)).getD (.ok none) with
    | .error error => { editor := typed, reply := .error error, notices }
    | .ok (some session) =>
      { editor := { typed with session := some session }, reply := .ok .done, notices }
    | .ok none =>
      match typed.openSession false with
      | .error error => { editor := typed, reply := .error error, notices }
      | .ok (session, events) =>
        { editor := { typed with session }, reply := .ok .done, notices, events }

/-- Inserts a candidate in the place of the text typed since the anchor, selects its first tab
stop, and replies with all of them. -/
def insertItem (e : Editor) (anchor : Nat) (item : Item) : Outcome :=
  let idle := { e with session := none }
  let insertion := Template.resolve item.segments
  match e.document.replace ⟨anchor, e.cursor⟩ insertion.text with
  | .error error => { editor := idle, reply := .error error }
  | .ok (document, changed) =>
    let stops := insertion.stops.map (fun s => Span.mk (anchor + s.start) (anchor + s.stop))
    let reply := Reply.stops (some stops)
    match stops.head?.elim (.ok document) document.select with
    | .error error => { editor := { idle with document }, reply := .error error }
    | .ok selected =>
      { editor := { idle with document := selected }, reply := .ok reply
        notices := if changed then [selected.text] else [] }

/-- Accepts the candidate with this label; without a session that offers it nothing happens. -/
def accept (e : Editor) (label : List Char) : Outcome :=
  match e.session with
  | none => { editor := e, reply := .ok (.stops none) }
  | some s =>
    match s.candidate? label with
    | none => { editor := e, reply := .ok (.stops none) }
    | some item => e.insertItem s.offer.anchor item

/-- Builds anew what depends on mode and locale, and closes the session. -/
def rebuild (e : Editor) : Outcome :=
  let wiring := Wiring.of e.config.mode e.locale
  { editor := { e with wiring, session := none }, reply := .ok .done, events := wiring.events }

def configure (e : Editor) (config : Config) : Outcome :=
  let palette :=
    if config.theme ≠ e.config.theme ∨ config.textColor ≠ e.config.textColor then config.palette
    else e.palette
  let next := { e with config, palette }
  if config.mode ≠ e.config.mode then next.rebuild else { editor := next, reply := .ok .done }

def setLocale (e : Editor) (locale : Locale) : Outcome :=
  if locale = e.locale then { editor := e, reply := .ok .done }
  else rebuild { e with locale }

def apply (e : Editor) : Operation → Outcome
  | .setText text => e.setText text
  | .format => e.format
  | .undo => e.undo
  | .redo => e.redo
  | .setCursor position => e.setCursor position
  | .replace span text => e.replace span text
  | .insert position text => e.replace (.at position) text
  | .type text => e.type text
  | .complete explicit => e.complete explicit
  | .accept label => e.accept label
  | .close => { editor := { e with session := none }, reply := .ok .done }
  | .configure config => e.configure config
  | .setLocale locale => e.setLocale locale

end Editor

end LogScript
