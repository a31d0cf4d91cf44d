import LogScript.Proofs.Layout.ParenMarks

/-!
Code and comments in lists. Where no comma comes right behind a comment or behind a literal that its
line end cuts off, the layout splits a list at the commas that are code, and every visible character of
the list keeps its mark.
-/

namespace LogScript.Layout

open Highlight (Mark Reading marks)
open Highlight.Reading hiding marks next

variable {r : Reading} {last : Option (Char × Mark)} {c : Char} {depth : Nat}
  {rest body : List Char} {pieces : List (List Char)}

/-- Every piece but the last ends open, blank characters at its end aside. The first piece goes on
behind the character `last`. -/
def Separated (r : Reading) (last : Option (Char × Mark)) : List (List Char) → Prop
  | piece :: next :: pieces =>
    ((Highlight.Reading.marks .wpl none r piece).getLast?.or last).all (·.2.isOpen) ∧
      Separated .plain (some (',', .code)) (next :: pieces)
  | _ => True

theorem Separated.consHead {ahead : Option Char} (hrest : [','].intercalate pieces = rest)
    (h : Separated (r.next .wpl c (rest.head?.or ahead))
      (pastVisible last r (r.next .wpl c (rest.head?.or ahead)) c) pieces) :
    Separated r last (consHead c pieces) := by
  cases pieces with
  | nil => trivial
  | cons piece pieces =>
    cases pieces with
    | nil => trivial
    | cons next pieces =>
      refine ⟨?_, h.2⟩
      have hahead : r.next .wpl c (rest.head?.or ahead) = r.next .wpl c (piece.head?.or none) := by
        rw [← hrest, List.intercalate_cons_cons]
        cases piece with
        | nil => exact next_wpl_of_ne (show some ',' ≠ some '/' by decide) r c
        | cons d piece => rfl
      have hlast := h.1
      rw [hahead] at hlast
      rw [Highlight.Reading.marks]
      cases hc : isBlank c with
      | true =>
        rw [pastVisible, if_pos hc] at hlast
        rw [if_pos rfl, List.nil_append]
        exact hlast
      | false =>
        rw [pastVisible, hc, if_neg Bool.false_ne_true] at hlast
        rw [if_neg Bool.false_ne_true, List.getLast?_append, Option.or_assoc]
        exact hlast

theorem isOpen_of_goes (h : last.all (goes · (',', .code))) : last.all (·.2.isOpen) := by
  cases last with
  | none => rfl
  | some m =>
    rw [Option.all_some, goes] at h
    rw [Option.all_some]
    cases hmark : m.2 with
    | code | closing q => rfl
    | comment | opening q | inside q => rw [hmark] at h; cases h

/-- A text in parentheses: the commas that the layout finds are code behind open pieces. -/
theorem separated_commaPieces (hcarried : Carried r last)
    (htidy : tidy last (Highlight.Reading.marks .wpl (some ')') r body ++ [(')', .code)])) :
    Separated r last (commaPieces (quoting r) depth body) := by
  induction body generalizing r last depth with
  | nil => trivial
  | cons c rest ih =>
    let r' := r.next .wpl c (rest.head?.or (some ')'))
    have hstep : tidy (pastVisible last r r' c)
        (Highlight.Reading.marks .wpl (some ')') r' rest ++ [(')', .code)]) ∧
        (isBlank c = false → tame (c, r.mark r') ∧ last.all (goes · (c, r.mark r'))) := by
      unfold pastVisible
      cases hc : isBlank c with
      | true =>
        rw [marks_cons_of_blank hc] at htidy
        exact ⟨htidy, fun h => absurd h (by decide)⟩
      | false =>
        rw [marks_cons_of_not_blank hc, List.cons_append, tidy, Bool.and_eq_true,
          Bool.and_eq_true] at htidy
        exact ⟨htidy.2, fun _ => ⟨htidy.1.2, htidy.1.1⟩⟩
    obtain ⟨hrest, hvisible⟩ := hstep
    have hline : c = '\n' → r.isQuoted = false := by
      rintro rfl
      rw [marks_lineFeed] at htidy
      cases hmarks : Highlight.Reading.marks .wpl (some ')') .plain rest with
      | nil =>
        rw [hmarks, List.nil_append, tidy, Bool.and_eq_true, Bool.and_eq_true] at htidy
        exact not_quoted_of_goes hcarried (fun q => by simp) htidy.1.1
      | cons m ms =>
        rw [hmarks, List.cons_append, tidy, Bool.and_eq_true, Bool.and_eq_true] at htidy
        have hhead : m ∈ (Highlight.Reading.marks .wpl (some ')') .plain rest).head? := by
          rw [hmarks]
          rfl
        exact not_quoted_of_goes hcarried (marks_plain_head rest m hhead) htidy.1.1
    have hquoting : quoting r' = (quoting r).next c :=
      quoting_next hline fun hc => (hvisible hc).1
    cases hpiece : pieceStep (quoting r, depth) c with
    | none =>
      obtain ⟨rfl, hout, rfl⟩ := eq_of_pieceStep_eq_none hpiece
      have hcovers : (quoting r).covers ',' = false := by
        rw [hout]
        rfl
      obtain ⟨htame, hgoes⟩ := hvisible (by decide)
      obtain ⟨-, hplain, hmark⟩ := sign_of_not_covers (by decide) hcovers htame
      have hpast : pastVisible last r r' ',' = some (',', .code) := by
        rw [pastVisible, if_neg (by decide), hmark]
      have hcomma : commaPieces .outside 0 (',' :: rest) = [] :: commaPieces .outside 0 rest := rfl
      have hrest' : Separated r' (pastVisible last r r' ',') (commaPieces (quoting r') 0 rest) :=
        ih (carried_next hcarried) hrest
      rw [hpast, show r' = .plain from hplain] at hrest'
      obtain ⟨piece, pieces, hpieces⟩ :=
        List.exists_cons_of_ne_nil (commaPieces_ne_nil .outside 0 rest)
      rw [quoting, hpieces] at hrest'
      rw [hout, hcomma, hpieces]
      refine ⟨?_, hrest'⟩
      rw [hmark] at hgoes
      rw [Highlight.Reading.marks, List.getLast?_nil, Option.none_or]
      exact isOpen_of_goes hgoes
    | some s =>
      obtain ⟨q, depth'⟩ := s
      obtain rfl : q = (quoting r).next c := (pieceStep_cases hpiece).1
      rw [commaPieces_of_pieceStep hpiece, ← hquoting]
      exact (ih (carried_next hcarried) hrest).consHead (intercalate_commaPieces _ _ rest)

/-- How many visible characters stand in front makes no difference to whether the rest is open. -/
theorem Carried.isOpen_after (h : Carried r last) {text : List Char}
    (hopen : ((Highlight.Reading.marks .wpl none r text).getLast?.or last).all (·.2.isOpen)) :
    (after .wpl none r text).isOpen := by
  induction text generalizing r last with
  | nil => exact h.opens hopen
  | cons c rest ih =>
    rw [after_cons]
    refine ih (carried_next h) ?_
    unfold pastVisible
    rw [Highlight.Reading.marks] at hopen
    cases hc : isBlank c with
    | true =>
      rw [hc, if_pos rfl, List.nil_append] at hopen
      exact hopen
    | false =>
      rw [hc, if_neg Bool.false_ne_true, List.getLast?_append, Option.or_assoc] at hopen
      exact hopen

/-- Signs of commas between the marks of pieces. -/
abbrev withCommas (pieces : List (List Char)) : List (Char × Mark) :=
  [(',', Mark.code)].intercalate (pieces.map (marks .wpl))

/-- Pieces that all end open, but for the last, are read one by one. -/
theorem marks_intercalate (h : ∀ piece ∈ pieces.dropLast, (after .wpl none .plain piece).isOpen) :
    marks .wpl ([','].intercalate pieces) = withCommas pieces := by
  induction pieces with
  | nil => rfl
  | cons piece pieces ih =>
    cases pieces with
    | nil => simp [withCommas]
    | cons next pieces =>
      rw [List.dropLast_cons_cons, List.forall_mem_cons] at h
      rw [List.intercalate_cons_cons, List.append_assoc, List.singleton_append, marks,
        marks_sign (sign_wpl_of_mem (by decide)) h.1, withCommas, List.map_cons, List.map_cons,
        List.intercalate_cons_cons, List.append_assoc, List.singleton_append, ← List.map_cons,
        ← withCommas, ← ih h.2]
      rfl

/-- Pieces that end open do so as they stand, and do so trimmed. -/
theorem Separated.isOpen (h : Separated .plain last pieces) :
    ∀ piece ∈ pieces.dropLast, (after .wpl none .plain piece).isOpen ∧
      (after .wpl none .plain (trim piece)).isOpen := by
  induction pieces generalizing last with
  | nil => exact fun _ hpiece => absurd hpiece List.not_mem_nil
  | cons piece pieces ih =>
    cases pieces with
    | nil => exact fun _ hpiece => absurd hpiece List.not_mem_nil
    | cons next pieces =>
      rw [List.dropLast_cons_cons, List.forall_mem_cons]
      refine ⟨⟨(carried_plain last).isOpen_after h.1, (carried_plain last).isOpen_after ?_⟩, ih h.2⟩
      rw [Highlight.Reading.marks_trim]
      exact h.1

theorem withCommas_map_trim (pieces : List (List Char)) :
    withCommas (pieces.map trim) = withCommas pieces := by
  rw [withCommas, List.map_map]
  exact congrArg _ (List.map_congr_left fun piece _ => Highlight.marks_trim piece)

/-- The lines of a bracketed list are read item by item. -/
theorem marks_argumentLines {indent : List Char} (hindent : ∀ c ∈ indent, isBlank c)
    {trailingComma : Bool} {items : List (List Char)} (hne : items ≠ [])
    (h : ∀ piece ∈ (items ++ if trailingComma then [[]] else []).dropLast,
      (after .wpl none .plain piece).isOpen) (behind : List Char) :
    marks .wpl (argumentLines indent trailingComma items ++ behind) =
      withCommas (items ++ if trailingComma then [[]] else []) ++ marks .wpl behind := by
  have hitem : ∀ item, (after .wpl none .plain item).isOpen → ∀ more,
      marks .wpl (indent ++ (item ++ (',' :: '\n' :: more))) =
        marks .wpl item ++ (',', .code) :: marks .wpl more := by
    intro item hopen more
    rw [Highlight.marks_blanks_append hindent, marks, marks_sign (sign_wpl_of_mem (by decide)) hopen,
      marks_lineFeed]
    rfl
  induction items with
  | nil => exact absurd rfl hne
  | cons item items ih =>
    cases items with
    | nil =>
      cases trailingComma with
      | true =>
        have hopen := h item List.mem_cons_self
        have hlines : argumentLines indent true [item] ++ behind =
            indent ++ (item ++ (',' :: '\n' :: behind)) := by
          simp [argumentLines]
        rw [hlines, hitem item hopen]
        simp [withCommas, marks, Highlight.Reading.marks]
      | false =>
        have hlines : argumentLines indent false [item] ++ behind =
            indent ++ (item ++ ('\n' :: behind)) := by
          simp [argumentLines]
        rw [hlines, Highlight.marks_blanks_append hindent, Highlight.marks_append_lineFeed]
        simp [withCommas]
    | cons next items =>
      have hlines : argumentLines indent trailingComma (item :: next :: items) ++ behind =
          indent ++ (item ++ (',' :: '\n' ::
            (argumentLines indent trailingComma (next :: items) ++ behind))) := by
        rw [argumentLines.eq_3 indent trailingComma item (next :: items) (List.cons_ne_nil _ _)]
        simp
      rw [List.cons_append, List.cons_append, List.dropLast_cons_cons, List.forall_mem_cons] at h
      rw [hlines, hitem item h.1, ih (List.cons_ne_nil _ _) h.2]
      simp [withCommas, List.intercalate_cons_cons]

/-- A list of arguments keeps the marks of the text that it was read from. -/
theorem marks_argumentLines_ofText {indent : List Char} (hindent : ∀ c ∈ indent, isBlank c)
    (hitems : (Arguments.ofText body).items ≠ [])
    (htidy : tidy none (Highlight.Reading.marks .wpl (some ')') .plain body ++ [(')', .code)]))
    (behind : List Char) :
    marks .wpl (argumentLines indent (Arguments.ofText body).trailingComma
        (Arguments.ofText body).items ++ behind) =
      marks .wpl body ++ marks .wpl behind := by
  have hseparated : Separated .plain none (commaPieces .outside 0 body) :=
    separated_commaPieces (carried_plain none) htidy
  have hpieces := hseparated.isOpen
  rw [marks_argumentLines hindent hitems, items_ofText hitems, withCommas_map_trim,
    ← marks_intercalate fun piece hpiece => (hpieces piece hpiece).1, intercalate_commaPieces]
  rw [items_ofText hitems, ← List.map_dropLast]
  intro piece hpiece
  obtain ⟨untrimmed, huntrimmed, rfl⟩ := List.mem_map.1 hpiece
  exact (hpieces untrimmed huntrimmed).2

end LogScript.Layout
