import LogScript.Completion.Session
import LogScript.Completion.Template

/-!
What an accepted candidate brings into a document. Ranking orders the candidates of an offer and
drops some; it makes none. Of the catalogs that come with the tools, every placeholder is a short
identifier, so a tab stop spans nothing else.
-/

namespace LogScript

theorem perm_insertDescending {α : Type} (less : α → α → Bool) (x : α) (ys : List α) :
    (insertDescending less x ys).Perm (x :: ys) := by
  induction ys with
  | nil => exact .refl _
  | cons y ys ih =>
    rw [insertDescending]
    split
    · exact (ih.cons y).trans (.swap x y ys)
    · exact .refl _

theorem perm_stableSort {α : Type} (less : α → α → Bool) (xs : List α) :
    (stableSort less xs).Perm xs := by
  have hfold : ∀ sorted, (xs.foldl (fun sorted x => insertDescending less x sorted) sorted).Perm
      (xs ++ sorted) := by
    induction xs with
    | nil => exact fun sorted => .refl _
    | cons x xs ih =>
      intro sorted
      exact (ih _).trans (((perm_insertDescending less x sorted).append_left xs).trans
        List.perm_middle)
  rw [stableSort]
  exact (List.reverse_perm _).trans (by simpa using hfold [])

/-- Ranking keeps the items with a match, each as often as it stands in the list. -/
theorem Scoring.perm_ranked {α : Type} (s : Scoring α) (typed : List Char) (items : List Item) :
    (s.ranked typed items).Perm
      (items.filter fun i => (Quality.of? i.label typed).isSome) := by
  have hmatching : (s.scored typed items).map Prod.snd =
      items.filter fun i => (Quality.of? i.label typed).isSome := by
    induction items with
    | nil => rfl
    | cons i items ih =>
      simp only [scored, List.filterMap_cons, List.filter_cons] at ih ⊢
      cases Quality.of? i.label typed with
      | none => exact ih
      | some q => exact congrArg (i :: ·) ih
  rw [ranked, ← hmatching]
  exact (perm_stableSort _ _).map Prod.snd

/-- Without a limit nothing is cut off, and what is ranked was a candidate. -/
theorem Session.mem_of_candidate? {s : Session} {label : List Char} {item : Item}
    (h : s.candidate? label = some item) : item ∈ s.offer.candidates := by
  have hvisible : item ∈ s.visible .unbounded := List.mem_of_find?_eq_some h
  have hmatching := (Scoring.perm_ranked _ _ _).mem_iff.1 hvisible
  exact (List.mem_filter.1 hmatching).1

/-- The name of the slot is a short identifier, in whatever language. -/
def Template.Piece.isShortName : Template.Piece → Bool
  | .text _ => true
  | .stop _ name => name.length < windowSize && name.all Language.wpl.isIdentifierChar

theorem isIdentifierChar_of_wpl {c : Char} (h : Language.wpl.isIdentifierChar c = true)
    (language : Language) : language.isIdentifierChar c = true := by
  cases language with
  | wpl => exact h
  | oml =>
    simp only [Language.isIdentifierChar, Bool.or_eq_true] at h ⊢
    simp only [h, true_or]

/-- Descriptions depend on the locale; labels and templates do not. -/
theorem map_builtin (language : Language) (locale : Locale) :
    (Catalog.builtin language locale).items.map (fun i => (i.label, i.insertText)) =
      (Catalog.builtin language .enUS).items.map (fun i => (i.label, i.insertText)) := by
  have hconstructs :
      (Catalog.constructs (.of locale) language).map (fun i => (i.label, i.insertText)) =
        (Catalog.constructs (.of .enUS) language).map (fun i => (i.label, i.insertText)) := by
    cases language <;> rfl
  simp only [Catalog.builtin, Catalog.ofEntries, List.map_append, hconstructs, List.map_map]
  rfl

/-- What holds of every label and template of one catalog holds of every item in each locale. -/
theorem of_mem_builtin {language : Language} {P : List Char × List Char → Bool}
    (hall : ((Catalog.builtin language .enUS).items.map
      (fun i => (i.label, i.insertText))).all P = true)
    {locale : Locale} {item : Item} (hitem : item ∈ (Catalog.builtin language locale).items) :
    P (item.label, item.insertText) = true := by
  have hmem := List.mem_map_of_mem (f := fun i : Item => (i.label, i.insertText)) hitem
  rw [map_builtin] at hmem
  exact List.all_eq_true.1 hall _ hmem

/-- The catalogs that come with the tools name their slots by short identifiers only. -/
theorem isShortName_of_mem_builtin {language : Language} {locale : Locale} {item : Item}
    (hitem : item ∈ (Catalog.builtin language locale).items) {piece : Template.Piece}
    (hpiece : piece ∈ Template.numbered item.segments) : piece.isShortName = true := by
  have hall : ((Catalog.builtin language .enUS).items.map (fun i => (i.label, i.insertText))).all
      fun entry => (Template.numbered (Template.parse entry.2)).all Template.Piece.isShortName := by
    cases language <;> decide +kernel
  exact List.all_eq_true.1 (of_mem_builtin hall hitem) piece hpiece

end LogScript
