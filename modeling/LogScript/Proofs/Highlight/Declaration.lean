import LogScript.Highlight.Languages
import LogScript.Proofs.Highlight.OmlState

/-!
Declared types in OML. Such a word is highlighted as a type exactly where a colon is pending and
no equals sign stands behind the last terminator. A terminator and a declaration use up a pending
colon; a separator does not, so the colon of a header line such as `name : demo`, which ends
without a terminator, is still pending in the section behind it.
-/

namespace LogScript.Highlight

theorem listed_iff {words : List (List Char)} (h : ∀ w ∈ words, stripColons w = w)
    (word : List Char) : listed words word = true ↔ stripColons word ∈ words := by
  simp only [listed, Bool.or_eq_true, List.contains_iff_mem]
  constructor
  · rintro (hword | hword)
    · simpa [h word hword] using hword
    · exact hword
  · exact .inr

/-- No word is both a type of the privacy section and a declared type. -/
theorem not_declaredType_of_privacyType {word : List Char}
    (h : listed Vocabulary.oml.privacyTypes word = true) :
    listed Vocabulary.oml.declaredTypes word = false := by
  have hprivacy := (listed_iff (by decide +kernel) word).1 h
  have hdisjoint : ∀ w ∈ Vocabulary.oml.privacyTypes, w ∉ Vocabulary.oml.declaredTypes := by
    decide +kernel
  simp only [Bool.eq_false_iff, ne_eq]
  intro hdeclared
  exact hdisjoint _ hprivacy ((listed_iff (by decide +kernel) word).1 hdeclared)

/-- Apart from declarations and the privacy section the vocabulary has no types. -/
theorem isType_oml (word : List Char) : Vocabulary.oml.isType word = false := by
  simp [Vocabulary.isType, Vocabulary.oml, listed, startsWithAny]

theorem listed_types_oml (word : List Char) : listed Vocabulary.oml.types word = false := by
  simp [Vocabulary.oml, listed]

/-- A type that uses up a pending colon; the types of the privacy section do so only there. -/
def declares (inPrivacy : Bool) (l : Lexeme) : Bool :=
  l.category == .typeName &&
    (listed Vocabulary.oml.declaredTypes l.text ||
      (inPrivacy && listed Vocabulary.oml.privacyTypes l.text))

/-- Behind a colon the category of a word tells whether it is a declaration. -/
theorem isDeclaration_roleOf (word : List Char) (pos : Position) (call : Bool)
    (h : pos.afterColon = true) :
    (Vocabulary.oml.roleOf word pos call).isDeclaration =
      declares pos.inPrivacy ⟨word, (Vocabulary.oml.roleOf word pos call).category⟩ := by
  unfold Vocabulary.roleOf
  simp only [h, isType_oml, listed_types_oml, Bool.and_true, Bool.true_and, Bool.or_false,
    Bool.false_eq_true, if_false]
  split
  · simp_all [declares, WordRole.isDeclaration, WordRole.category]
  split
  · simp_all [declares, WordRole.isDeclaration, WordRole.category]
  split
  · simp [declares, WordRole.isDeclaration, WordRole.category]
  split
  · simp [declares, WordRole.isDeclaration, WordRole.category]
  split
  · simp [declares, WordRole.isDeclaration, WordRole.category]
  split
  · -- a type of the privacy section in front of that section
    rename_i hsection _ _ _ _ hlisted
    simpa [declares, WordRole.isDeclaration, WordRole.category,
      not_declaredType_of_privacyType hlisted] using hsection
  · simp [declares, WordRole.isDeclaration, WordRole.category]

/-- A declared type is a type behind a colon, unless an equals sign stands there too. -/
theorem category_roleOf_of_declaredType {word : List Char}
    (h : word ∈ Vocabulary.oml.declaredTypes) (pos : Position) (call : Bool) :
    (Vocabulary.oml.roleOf word pos call).category = .typeName ↔
      pos.afterColon = true ∧ pos.afterEqual = false := by
  have hlists : ∀ w ∈ Vocabulary.oml.declaredTypes,
      listed Vocabulary.oml.declaredTypes w = true ∧ listed Vocabulary.oml.privacyTypes w = false ∧
        Vocabulary.oml.isConstant w = false ∧ Vocabulary.oml.isKeyword w = false := by
    decide +kernel
  obtain ⟨hdeclared, hprivacy, hconstant, hkeyword⟩ := hlists word h
  simp only [Vocabulary.roleOf, hdeclared, hprivacy, hconstant, hkeyword, isType_oml,
    listed_types_oml, Bool.and_false, Bool.or_false, Bool.and_true, Bool.false_eq_true, if_false]
  split
  · simp_all [WordRole.category]
  split
  · simp_all [WordRole.category]
  · simp_all [WordRole.category]

/-- A colon that neither a terminator nor a declaration has used up; the list is latest first. -/
def colonPending : List Lexeme → Bool
  | [] => false
  | l :: earlier =>
    l == .colon ||
      (l != .terminator && !declares (2 ≤ earlier.count .separator) l && colonPending earlier)

/-- The lexemes behind the last terminator or separator; the list is latest first. -/
def sinceBoundary (earlier : List Lexeme) : List Lexeme :=
  earlier.takeWhile fun l => l != .terminator && l != .separator

/-- A pending colon stands behind the last boundary, or that boundary is a separator in front of
which it was pending already. -/
theorem pending_separator {earlier : List Lexeme} (h : colonPending earlier = true)
    (hcolon : .colon ∉ sinceBoundary earlier) :
    ∃ front, earlier = sinceBoundary earlier ++ .separator :: front ∧ colonPending front = true := by
  induction earlier with
  | nil => cases h
  | cons l earlier ih =>
    have hne : l ≠ .colon := by
      rintro rfl
      exact hcolon List.mem_cons_self
    simp only [colonPending, beq_false_of_ne hne, Bool.false_or, Bool.and_eq_true,
      bne_iff_ne] at h
    obtain ⟨⟨hterminator, -⟩, hpending⟩ := h
    by_cases hseparator : l = .separator
    · exact ⟨earlier, by simp [sinceBoundary, hseparator], hpending⟩
    · have hsince : sinceBoundary (l :: earlier) = l :: sinceBoundary earlier := by
        simp [sinceBoundary, hterminator, hseparator]
      rw [hsince] at hcolon ⊢
      obtain ⟨front, hfront, hpending⟩ := ih hpending (List.not_mem_of_not_mem_cons hcolon)
      exact ⟨front, congrArg (l :: ·) hfront, hpending⟩

variable {s s' : OmlState} {l : Lexeme}

theorem declares_of_ne (inPrivacy : Bool) (h : l.category ≠ .typeName) :
    declares inPrivacy l = false := by
  simp [declares, h]

theorem OmlMove.afterColon_iff (h : OmlMove Vocabulary.oml s l s') :
    s'.afterColon = true ↔
      l = .colon ∨
        (l ≠ .terminator ∧ declares s.inPrivacy l = false ∧ s.afterColon = true) := by
  have hcolon : punctuation.contains ':' = true := by decide
  have hterminator : punctuation.contains ';' = true := by decide
  cases h with
  | separator =>
    have hdeclares : declares s.inPrivacy .separator = false := declares_of_ne _ (by decide)
    simp [pastSeparator_eq, Lexeme.colon, Lexeme.terminator, hdeclares]
  | @operator c _ =>
    have hdeclares : declares s.inPrivacy (.operator c) = false :=
      declares_of_ne _ (by simp [Lexeme.operator])
    simp [pastOperator_eq, Lexeme.colon, Lexeme.terminator, hdeclares]
  | @word c rest call h =>
    cases hpending : s.afterColon with
    | false => simp [pastWord_eq, Lexeme.colon, h.ne_operator hcolon, hpending]
    | true =>
      have hdeclares := isDeclaration_roleOf (c :: rest) s.position call hpending
      have hprivacy : s.position.inPrivacy = s.inPrivacy := rfl
      simp [pastWord_eq, Lexeme.colon, Lexeme.terminator, h.ne_operator hcolon,
        h.ne_operator hterminator, hpending, hdeclares, hprivacy]
  | plain h =>
    simp [Lexeme.colon, Lexeme.terminator, h.ne_operator hcolon, h.ne_operator hterminator,
      declares_of_ne _ h.notType]

theorem afterColon_eq_of_reaches {earlier : List Lexeme}
    (h : (oml Vocabulary.oml).Reaches {} earlier s) : s.afterColon = colonPending earlier := by
  induction h with
  | start => rfl
  | @step earlier s s' l reached cuts ih =>
    have hprivacy : s.inPrivacy = decide (2 ≤ earlier.count .separator) := by
      apply Bool.eq_iff_iff.2
      simpa using inPrivacy_iff_of_reaches reached
    apply Bool.eq_iff_iff.2
    simp [(omlMove_of_cuts cuts).afterColon_iff, colonPending, ih, hprivacy, and_assoc]

/-- Only a word reads like a declared type, and the flags in front of it decide its category. -/
theorem OmlMove.category_of_declaredType (h : OmlMove Vocabulary.oml s l s')
    (hl : l.text ∈ Vocabulary.oml.declaredTypes) :
    l.category = .typeName ↔ s.afterColon = true ∧ s.afterEqual = false := by
  cases h with
  | separator => exact absurd hl (by decide)
  | operator _ =>
    have hlength : ∀ w ∈ Vocabulary.oml.declaredTypes, w.length ≠ 1 := by decide
    exact absurd rfl (hlength _ hl)
  | word rest call _ => exact category_roleOf_of_declaredType hl s.position call
  | plain h =>
    have hletter : ∀ w ∈ Vocabulary.oml.declaredTypes, w.head?.any Char.isAlpha = true := by
      decide
    obtain ⟨c, hc, hletter⟩ := (Option.any_eq_true _ _).1 (hletter _ hl)
    rw [(h.first c hc).letter] at hletter
    cases hletter

/-- A declared type is highlighted as a type where a colon is pending and no equals sign stands
behind the last terminator. -/
theorem typeName_iff_colonPending {text : List Char} {before after : List Token} {t : Token}
    (h : tokenize .oml text = before ++ t :: after)
    (ht : t.textIn text ∈ Vocabulary.oml.declaredTypes) :
    t.category = .typeName ↔
      colonPending (before.map (·.lexemeIn text)).reverse = true ∧
        .equals ∉ sinceTerminator (before.map (·.lexemeIn text)).reverse := by
  have htokens : (oml Vocabulary.oml).tokenize text = before ++ t :: after := h
  obtain ⟨s, next, hreaches, hcuts⟩ := Classifier.exists_reaches_of_tokenize htokens
  have hcategory := (omlMove_of_cuts hcuts).category_of_declaredType ht
  have hequals : s.afterEqual = false ↔
      .equals ∉ sinceTerminator (before.map (·.lexemeIn text)).reverse := by
    have hstart : (oml Vocabulary.oml).start.afterEqual = false := rfl
    have hiff := afterEqual_iff_of_reaches hreaches
    simp only [hstart, Bool.false_eq_true, and_false, or_false] at hiff
    simpa using not_congr hiff
  rw [← afterColon_eq_of_reaches hreaches, ← hequals]
  exact hcategory

/-- Whether a declared type is highlighted as a type. Where no colon stands behind the last
boundary, it is one only if that boundary is a separator in front of which a colon was pending. -/
theorem typeName_iff_of_declaredType {text : List Char} {before after : List Token} {t : Token}
    (h : tokenize .oml text = before ++ t :: after)
    (ht : t.textIn text ∈ Vocabulary.oml.declaredTypes) :
    let earlier := (before.map (·.lexemeIn text)).reverse
    (t.category = .typeName ↔
        colonPending earlier = true ∧ .equals ∉ sinceTerminator earlier) ∧
      (.colon ∉ sinceBoundary earlier → t.category = .typeName →
        ∃ front, earlier = sinceBoundary earlier ++ .separator :: front ∧
          colonPending front = true) := by
  intro earlier
  have hiff : t.category = .typeName ↔
      colonPending earlier = true ∧ .equals ∉ sinceTerminator earlier :=
    typeName_iff_colonPending h ht
  exact ⟨hiff, fun hsince htype => pending_separator (hiff.1 htype).1 hsince⟩

/-- The colon of the header makes `digit` a type in the body, where no colon stands. -/
theorem typeName_iff_of_declaredType_header :
    let text := "name : demo\n---\ndigit = 5 ;".toList
    let before : List Token :=
      [⟨0, 4, .keyword⟩, ⟨4, 5, .unstyled⟩, ⟨5, 6, .operator⟩, ⟨6, 7, .unstyled⟩,
        ⟨7, 11, .variableName⟩, ⟨11, 12, .unstyled⟩, ⟨12, 15, .keyword⟩, ⟨15, 16, .unstyled⟩]
    let digit : Token := ⟨16, 21, .typeName⟩
    let after : List Token :=
      [⟨21, 22, .unstyled⟩, ⟨22, 23, .operator⟩, ⟨23, 24, .unstyled⟩, ⟨24, 25, .number⟩,
        ⟨25, 26, .unstyled⟩, ⟨26, 27, .operator⟩]
    let earlier := (before.map (·.lexemeIn text)).reverse
    tokenize .oml text = before ++ digit :: after ∧
      digit.textIn text ∈ Vocabulary.oml.declaredTypes ∧ .colon ∉ sinceBoundary earlier ∧
      ∃ front, earlier = sinceBoundary earlier ++ .separator :: front ∧
        colonPending front = true := by
  intro text before digit after earlier
  have htokens : tokenize .oml text = before ++ digit :: after := by decide +kernel
  have hword : digit.textIn text ∈ Vocabulary.oml.declaredTypes := by decide +kernel
  have hcolon : .colon ∉ sinceBoundary earlier := by decide +kernel
  have hseparator := (typeName_iff_of_declaredType htokens hword).2 hcolon rfl
  exact ⟨htokens, hword, hcolon, hseparator⟩

end LogScript.Highlight
