import Mathlib.Data.List.Chain
import LogScript.Proofs.Completion.SnippetSymbols

/-!
Reading rendered templates back. A rendered template reads back as its own pieces exactly if no
unnamed stop stands in front of a digit and no name has anything in it that is taken for an escape
or for a stop: numbers and names are written as they are, only the text between them is escaped.
-/

namespace LogScript.Template

/-- Puts a character in front, into the first piece if that is text. -/
def consLiteral (c : Char) : List Piece → List Piece
  | .text content :: rest => .text (c :: content) :: rest
  | pieces => .text [c] :: pieces

/-- The pieces of some symbols, where `opened` is a stop with the default text read so far. There
are none if a default text has a stop in it or is never closed. -/
def piecesFrom (opened : Option (Nat × List Char)) : List Symbol → Option (List Piece)
  | [] => if opened.isNone then some [] else none
  | s :: rest =>
    match opened, s with
    | none, .literal c => (piecesFrom none rest).map (consLiteral c)
    | none, .close => (piecesFrom none rest).map (consLiteral '\x7d')
    | none, .stop n => (piecesFrom none rest).map (.stop n [] :: ·)
    | none, .opening n => piecesFrom (some (n, [])) rest
    | some (n, name), .literal c => piecesFrom (some (n, name ++ [c])) rest
    | some (n, name), .close => (piecesFrom none rest).map (.stop n name :: ·)
    | some _, .stop _ => none
    | some _, .opening _ => none

/-- The literal texts and tab stops of a snippet. -/
def readSnippet (text : List Char) : Option (List Piece) :=
  piecesFrom none (symbols text)

def Piece.isText : Piece → Bool
  | .text _ => true
  | .stop _ _ => false

theorem piecesFrom_literals (content : List Char) (us : List Symbol) :
    piecesFrom none (content.map .literal ++ us) =
      (piecesFrom none us).map (content.foldr consLiteral ·) := by
  induction content with
  | nil => simp
  | cons c content ih =>
    rw [List.map_cons, List.cons_append, piecesFrom, ih, Option.map_map]
    rfl

theorem foldr_consLiteral {content : List Char} (hne : content ≠ []) {ps : List Piece}
    (hps : ∀ p ∈ ps.head?, p.isText = false) :
    content.foldr consLiteral ps = .text content :: ps := by
  induction content with
  | nil => exact absurd rfl hne
  | cons c content ih =>
    rw [List.foldr_cons]
    cases content with
    | nil =>
      cases ps with
      | nil => rfl
      | cons p ps =>
        cases p with
        | text content => cases hps _ rfl
        | stop n name => rfl
    | cons d content => rw [ih (List.cons_ne_nil d content), consLiteral]

theorem piecesFrom_default (n : Nat) (name read : List Char) (us : List Symbol) :
    piecesFrom (some (n, read)) (name.map .literal ++ .close :: us) =
      (piecesFrom none us).map (.stop n (read ++ name) :: ·) := by
  induction name generalizing read with
  | nil => rw [List.append_nil]; rfl
  | cons c name ih =>
    rw [List.map_cons, List.cons_append, piecesFrom, ih, List.append_assoc]
    rfl

/-- A default text is made of literal characters and ends with a brace. -/
theorem exists_of_piecesFrom_default {n : Nat} {read : List Char} {us : List Symbol}
    {ps : List Piece} (h : piecesFrom (some (n, read)) us = some ps) :
    ∃ name us' ps', us = name.map .literal ++ .close :: us' ∧ piecesFrom none us' = some ps' ∧
      ps = .stop n (read ++ name) :: ps' := by
  induction us generalizing read with
  | nil => cases h
  | cons u us ih =>
    cases u with
    | literal c =>
      obtain ⟨name, us', ps', rfl, hus, rfl⟩ := ih h
      exact ⟨c :: name, us', ps', rfl, hus, by simp⟩
    | close =>
      obtain ⟨ps', hus, rfl⟩ := Option.map_eq_some_iff.1 h
      exact ⟨[], us, ps', rfl, hus, by simp⟩
    | stop m => cases h
    | opening m => cases h

/-- Pieces as templates have them: no text is empty or stands behind another text, and no name has a
closing brace in it. -/
structure Proper (ps : List Piece) : Prop where
  texts : ∀ content, .text content ∈ ps → content ≠ []
  names : ∀ n name, .stop n name ∈ ps → '\x7d' ∉ name
  apart : ps.IsChain fun p q => p.isText → q.isText = false

theorem proper_nil : Proper [] :=
  ⟨nofun, nofun, .nil⟩

theorem Proper.tail {p : Piece} {ps : List Piece} (h : Proper (p :: ps)) : Proper ps where
  texts content hc := h.texts content (List.mem_cons_of_mem p hc)
  names n name hn := h.names n name (List.mem_cons_of_mem p hn)
  apart := h.apart.tail

theorem Proper.behind_text {content : List Char} {ps : List Piece}
    (h : Proper (.text content :: ps)) : ∀ p ∈ ps.head?, p.isText = false :=
  fun p hp => (List.isChain_cons.1 h.apart).1 p hp rfl

theorem Proper.cons_text {content : List Char} (hne : content ≠ []) {ps : List Piece}
    (h : Proper ps) (hps : ∀ p ∈ ps.head?, p.isText = false) :
    Proper (.text content :: ps) where
  texts more hmore := by
    obtain heq | hmore := List.mem_cons.1 hmore
    · cases heq
      exact hne
    · exact h.texts more hmore
  names n name hn := h.names n name ((List.mem_cons.1 hn).resolve_left nofun)
  apart := List.isChain_cons.2 ⟨fun p hp _ => hps p hp, h.apart⟩

theorem Proper.cons_stop {name : List Char} (hname : '\x7d' ∉ name) {ps : List Piece}
    (h : Proper ps) (n : Nat) : Proper (.stop n name :: ps) where
  texts content hc := h.texts content ((List.mem_cons.1 hc).resolve_left nofun)
  names m other hm := by
    obtain heq | hm := List.mem_cons.1 hm
    · cases heq
      exact hname
    · exact h.names m other hm
  apart := List.isChain_cons.2 ⟨fun p _ => nofun, h.apart⟩

/-- The first digit of the second piece is taken for a digit of the number of the first. -/
def Merges : Piece → Piece → Prop
  | .stop _ [], .text (c :: _) => c.isDigit
  | _, _ => False

theorem exists_of_merges {p q : Piece} (h : Merges p q) :
    ∃ c more, q = .text (c :: more) ∧ c.isDigit := by
  unfold Merges at h
  split at h
  · exact ⟨_, _, rfl, h⟩
  · cases h

structure Readable (ps : List Piece) : Prop where
  literal : ∀ n name, .stop n name ∈ ps → Literal name
  apart : ps.IsChain fun p q => ¬ Merges p q

theorem readable_cons {p : Piece} {ps : List Piece} :
    Readable (p :: ps) ↔ (∀ n name, p = .stop n name → Literal name) ∧
      (∀ q ∈ ps.head?, ¬ Merges p q) ∧ Readable ps := by
  constructor
  · intro h
    obtain ⟨hhead, htail⟩ := List.isChain_cons.1 h.apart
    refine ⟨fun n name hp => h.literal n name (hp ▸ List.mem_cons_self), hhead, ?_, htail⟩
    exact fun n name hn => h.literal n name (List.mem_cons_of_mem p hn)
  · rintro ⟨hliteral, hhead, hps⟩
    refine ⟨fun n name hn => ?_, List.isChain_cons.2 ⟨hhead, hps.apart⟩⟩
    obtain hp | hn := List.mem_cons.1 hn
    · exact hliteral n name hp.symm
    · exact hps.literal n name hn

/-- Rendered pieces start with a digit only where the first of them is a text that does. -/
theorem head?_render {ps : List Piece} (h : Proper ps)
    (hdigit : ∀ c more, ps.head? = some (.text (c :: more)) → c.isDigit = false) :
    ∀ c ∈ (ps.flatMap renderPiece).head?, c.isDigit = false := by
  cases ps with
  | nil => simp
  | cons p ps =>
    cases p with
    | text content =>
      cases content with
      | nil => exact absurd rfl (h.texts [] List.mem_cons_self)
      | cons d more =>
        have hd := hdigit d more rfl
        simp only [List.flatMap_cons, renderPiece, escapeSnippetChar]
        split
        · simp
        · simpa using hd
    | stop n name => cases name <;> simp [renderPiece]

theorem readSnippet_nil : readSnippet [] = some [] := by
  rw [readSnippet, symbols]
  rfl

theorem readSnippet_text (content rest : List Char) :
    readSnippet (content.flatMap escapeSnippetChar ++ rest) =
      (readSnippet rest).map (content.foldr consLiteral ·) := by
  rw [readSnippet, symbols_escape, piecesFrom_literals]
  rfl

theorem readSnippet_stop (n : Nat) {run rest : List Char} (hrun : ∀ c ∈ run, c.isDigit)
    (hrest : ∀ c ∈ rest.head?, c.isDigit = false) :
    readSnippet ('$' :: (decimal n ++ (run ++ rest))) =
      (readSnippet rest).map (.stop (Nat.ofDigitChars 10 (decimal n ++ run) 0) [] :: ·) := by
  rw [readSnippet, symbols_stop n hrun hrest]
  rfl

theorem readSnippet_opening (n : Nat) (rest : List Char) :
    readSnippet ('$' :: '\x7b' :: (decimal n ++ ':' :: rest)) =
      piecesFrom (some (n, [])) (symbols rest) := by
  rw [readSnippet, symbols_opening]
  rfl

/-- A named stop reads back as itself exactly if its name is literal and the rest reads back. -/
theorem readSnippet_named_iff {n : Nat} {name rest : List Char} {ps : List Piece}
    (hname : '\x7d' ∉ name) :
    readSnippet ('$' :: '\x7b' :: (decimal n ++ ':' :: (name ++ '\x7d' :: rest))) =
        some (.stop n name :: ps) ↔
      Literal name ∧ readSnippet rest = some ps := by
  rw [readSnippet_opening]
  constructor
  · intro h
    obtain ⟨read, us, ps', hus, hrest, heq⟩ := exists_of_piecesFrom_default h
    rw [List.nil_append] at heq
    cases heq
    obtain ⟨hliteral, rfl⟩ := (literal_of_symbols name name hname hname hus).2 rfl
    exact ⟨hliteral, hrest⟩
  · rintro ⟨hliteral, hrest⟩
    rw [symbols_name hname hliteral, piecesFrom_default, List.nil_append]
    rw [readSnippet] at hrest
    rw [hrest, Option.map_some]

theorem renderPiece_named {name : List Char} (hne : name ≠ []) (n : Nat) (rest : List Char) :
    renderPiece (.stop n name) ++ rest =
      '$' :: '\x7b' :: (decimal n ++ ':' :: (name ++ '\x7d' :: rest)) := by
  cases name with
  | nil => exact absurd rfl hne
  | cons c name => simp [renderPiece]

/-- Reading does not find a text where rendering has put a stop. -/
theorem head?_readSnippet {ps qs : List Piece} (hps : ∀ p ∈ ps.head?, p.isText = false)
    (h : readSnippet (ps.flatMap renderPiece) = some qs) : ∀ q ∈ qs.head?, q.isText = false := by
  cases ps with
  | nil =>
    cases readSnippet_nil.symm.trans h
    simp
  | cons p ps =>
    cases p with
    | text content => cases hps _ rfl
    | stop n name =>
      rw [List.flatMap_cons] at h
      by_cases hname : name = []
      · subst hname
        -- The number may go on into the piece behind the stop.
        obtain ⟨run, rest, htext, hrun, hrest⟩ := exists_run Char.isDigit (ps.flatMap renderPiece)
        have hread := readSnippet_stop n hrun hrest
        rw [← htext] at hread
        obtain ⟨qs', -, rfl⟩ := Option.map_eq_some_iff.1 (hread.symm.trans h)
        simp [Piece.isText]
      · rw [renderPiece_named hname, readSnippet_opening] at h
        obtain ⟨read, us, ps', -, -, rfl⟩ := exists_of_piecesFrom_default h
        simp [Piece.isText]

theorem flatMap_escape_of_digits {digits : List Char} (h : ∀ c ∈ digits, c.isDigit) :
    digits.flatMap escapeSnippetChar = digits := by
  induction digits with
  | nil => rfl
  | cons c digits ih =>
    rw [List.forall_mem_cons] at h
    have hc : escapeSnippetChar c = [c] := by
      refine if_neg fun hc => ?_
      simp only [Bool.or_eq_true, beq_iff_eq] at hc
      obtain (rfl | rfl) | rfl := hc
      all_goals exact absurd h.1 (by decide)
    rw [List.flatMap_cons, hc, ih h.2]
    rfl

/-- A stop without a name does not read back if digits stand behind it: they are read as its own,
and the text that is read behind it has fewer characters. -/
theorem readSnippet_stop_ne {n : Nat} {c : Char} {more : List Char} {ps : List Piece}
    (h : Proper (.text (c :: more) :: ps)) (hc : c.isDigit) :
    readSnippet ('$' :: (decimal n ++ (Piece.text (c :: more) :: ps).flatMap renderPiece)) ≠
      some (.stop n [] :: .text (c :: more) :: ps) := by
  have hps := h.behind_text
  obtain ⟨run, tail, htext, hrun, htail⟩ := exists_run Char.isDigit (c :: more)
  have hne : run ≠ [] := by
    rintro rfl
    rw [List.nil_append] at htext
    exact absurd (htail c (htext ▸ rfl)) (by simp [hc])
  have hhead : ∀ d ∈ (tail.flatMap escapeSnippetChar ++ ps.flatMap renderPiece).head?,
      d.isDigit = false := by
    cases tail with
    | nil => exact head?_render h.tail fun d more' hd => nomatch hps _ hd
    | cons d tail =>
      refine head?_render (h.tail.cons_text (List.cons_ne_nil d tail) hps) fun e more' he => ?_
      cases he
      exact htail d rfl
  intro hread
  rw [List.flatMap_cons, renderPiece, htext, List.flatMap_append, flatMap_escape_of_digits hrun,
    List.append_assoc, readSnippet_stop n hrun hhead, readSnippet_text] at hread
  obtain ⟨qs, hqs, heq⟩ := Option.map_eq_some_iff.1 hread
  obtain ⟨qs, hread, rfl⟩ := Option.map_eq_some_iff.1 hqs
  have hfound := (List.cons.inj heq).2
  have htextless := head?_readSnippet hps hread
  by_cases hempty : tail = []
  · subst hempty
    rw [List.foldr_nil] at hfound
    subst hfound
    cases htextless _ rfl
  · rw [foldr_consLiteral hempty htextless, List.cons.injEq, Piece.text.injEq] at hfound
    have hlength := congrArg List.length hfound.1
    rw [List.length_append] at hlength
    have hpos := List.length_pos_iff.2 hne
    omega

/-- Rendered pieces read back as they are exactly if they are readable. -/
theorem readSnippet_render_iff {ps : List Piece} (h : Proper ps) :
    readSnippet (ps.flatMap renderPiece) = some ps ↔ Readable ps := by
  induction ps with
  | nil => exact iff_of_true readSnippet_nil ⟨nofun, .nil⟩
  | cons p ps ih =>
    rw [List.flatMap_cons, readable_cons, ← ih h.tail]
    cases p with
    | text content =>
      have hne := h.texts content List.mem_cons_self
      rw [renderPiece, readSnippet_text]
      constructor
      · intro hread
        obtain ⟨qs, hqs, heq⟩ := Option.map_eq_some_iff.1 hread
        rw [foldr_consLiteral hne (head?_readSnippet h.behind_text hqs)] at heq
        cases heq
        exact ⟨nofun, fun q _ => id, hqs⟩
      · rintro ⟨-, -, hread⟩
        rw [hread, Option.map_some, foldr_consLiteral hne h.behind_text]
    | stop n name =>
      cases name with
      | nil =>
        by_cases hmerges : ∃ q ∈ ps.head?, Merges (.stop n []) q
        · obtain ⟨q, hq, hmerges⟩ := hmerges
          obtain ⟨c, more, rfl, hc⟩ := exists_of_merges hmerges
          obtain ⟨ps, rfl⟩ := List.head?_eq_some_iff.1 hq
          exact iff_of_false (readSnippet_stop_ne h.tail hc) fun hread => hread.2.1 _ hq hmerges
        · simp only [not_exists, not_and] at hmerges
          have hhead := head?_render h.tail fun c more hc =>
            Bool.eq_false_iff.2 fun hdigit => hmerges _ hc hdigit
          have hstop := readSnippet_stop n (List.forall_mem_nil _) hhead
          rw [List.nil_append, List.append_nil, decimal, Nat.ofDigitChars_ten_toDigits] at hstop
          rw [renderPiece, decimal, List.cons_append, hstop]
          constructor
          · intro hread
            obtain ⟨qs, hqs, heq⟩ := Option.map_eq_some_iff.1 hread
            cases heq
            refine ⟨fun n' name' hname => ?_, hmerges, hqs⟩
            cases hname
            exact literal_nil
          · rintro ⟨-, -, hread⟩
            rw [hread, Option.map_some]
      | cons c name =>
        rw [renderPiece_named (List.cons_ne_nil c name),
          readSnippet_named_iff (h.names n _ List.mem_cons_self)]
        constructor
        · rintro ⟨hliteral, hread⟩
          refine ⟨fun n' name' hname => ?_, fun q _ => id, hread⟩
          cases hname
          exact hliteral
        · rintro ⟨hliteral, -, hread⟩
          exact ⟨hliteral n _ rfl, hread⟩

/-- A piece without its number. -/
def Piece.outline : Piece → Piece
  | .text content => .text content
  | .stop _ name => .stop 0 name

def Segment.outline : Segment → Piece
  | .text content => .text content
  | .slot _ name => .stop 0 name

theorem map_outline_numberFrom (segments : List Segment) :
    ∀ (next : Nat) (named : List (List Char × Nat)),
      (numberFrom next named segments).map Piece.outline = segments.map Segment.outline := by
  induction segments with
  | nil => intros; rfl
  | cons s segments ih =>
    intro next named
    cases s with
    | text content => rw [numberFrom, List.map_cons, ih]; rfl
    | slot number name =>
      cases number with
      | some n => rw [numberFrom, List.map_cons, ih]; rfl
      | none =>
        rw [numberFrom]
        split
        · rw [List.map_cons, ih]; rfl
        · split
          · rw [List.map_cons, ih]; rfl
          · rw [List.map_cons, ih]; rfl

theorem proper_of_map_outline {ps : List Piece} (h : Proper (ps.map Piece.outline)) :
    Proper ps where
  texts content hc := h.texts content (List.mem_map_of_mem hc)
  names n name hn := h.names 0 name (List.mem_map_of_mem hn)
  apart := by
    refine ((List.isChain_map Piece.outline).1 h.apart).imp fun p q hpq => ?_
    cases p <;> cases q <;> exact hpq

theorem Proper.consLiteral (c : Char) {ps : List Piece} (h : Proper ps) :
    Proper (consLiteral c ps) := by
  cases ps with
  | nil => exact h.cons_text (List.cons_ne_nil c []) nofun
  | cons p ps =>
    cases p with
    | text content => exact h.tail.cons_text (List.cons_ne_nil c content) h.behind_text
    | stop n name =>
      refine h.cons_text (List.cons_ne_nil c []) fun p hp => ?_
      cases hp
      rfl

theorem map_outline_consText (c : Char) (segments : List Segment) :
    (consText c segments).map Segment.outline =
      Template.consLiteral c (segments.map Segment.outline) := by
  cases segments with
  | nil => rfl
  | cons s segments => cases s <;> rfl

/-- The body of a slot is its name, or its name stands behind the number. -/
theorem exists_of_slotOfBody (body : List Char) :
    ∃ number name, slotOfBody body = .slot number name ∧ name ⊆ body := by
  rw [slotOfBody]
  split
  · exact ⟨none, body, rfl, List.Subset.refl _⟩
  · rename_i n hnumber
    split
    · exact ⟨some n, [], rfl, List.nil_subset _⟩
    · rename_i name hname
      have hsubset := List.drop_subset (body.takeWhile Char.isDigit).length body
      rw [hname] at hsubset
      exact ⟨some n, name, rfl, List.subset_of_cons_subset hsubset⟩
    · exact ⟨none, body, rfl, List.Subset.refl _⟩

theorem exists_of_openingOf {text : List Char} {s : Segment} {taken : Nat}
    (h : openingOf text = .slot s taken) :
    ∃ number name, s = .slot number name ∧ '\x7d' ∉ name := by
  unfold openingOf at h
  split at h
  · rename_i inner
    dsimp only at h
    split at h
    · cases h
    · cases h
      obtain ⟨number, name, hslot, hsubset⟩ := exists_of_slotOfBody (inner.takeWhile (· != '\x7d'))
      refine ⟨number, name, hslot, fun hbrace => ?_⟩
      have hbody := List.all_eq_true.1 List.all_takeWhile _ (hsubset hbrace)
      exact absurd hbody (by decide)
  · dsimp only at h
    split at h
    · cases h
      exact ⟨_, [], rfl, List.not_mem_nil⟩
    · cases h

theorem proper_parse (template : List Char) : Proper ((parse template).map Segment.outline) := by
  induction template using parse.induct with
  | case1 =>
    rw [parse]
    exact proper_nil
  | case2 c rest hc s taken hopening ih =>
    obtain ⟨number, name, rfl, hname⟩ := exists_of_openingOf hopening
    rw [parse, if_pos hc, hopening]
    exact ih.cons_stop hname 0
  | case3 c rest hc hopening =>
    rw [parse, if_pos hc, hopening]
    exact proper_nil.cons_text (List.cons_ne_nil c rest) nofun
  | case4 c rest hc hopening ih =>
    rw [parse, if_pos hc, hopening]
    simp only [map_outline_consText]
    exact ih.consLiteral c
  | case5 c rest hc ih =>
    rw [parse, if_neg hc, map_outline_consText]
    exact ih.consLiteral c

theorem proper_numbered (template : List Char) : Proper (numbered (parse template)) :=
  proper_of_map_outline (by rw [numbered, map_outline_numberFrom]; exact proper_parse template)

/-- A rendered template reads back as the pieces that are inserted for it exactly if no unnamed stop
stands in front of a digit and the names have nothing in them that is taken for an escape or for a
stop. -/
theorem readSnippet_renderSnippet_iff (template : List Char) :
    readSnippet (renderSnippet (parse template)) = some (numbered (parse template)) ↔
      Readable (numbered (parse template)) :=
  readSnippet_render_iff (proper_numbered template)

/-- The stop takes the digit behind it for a part of its own number. -/
example : readSnippet (renderSnippet (parse "$\x7b1\x7d2".toList)) = some [.stop 12 []] := by
  decide +kernel

/-- The backslash escapes the brace that is to close the default text. -/
example : readSnippet (renderSnippet (parse "$\x7ba\\\x7d;".toList)) = none := by
  decide +kernel

end LogScript.Template
