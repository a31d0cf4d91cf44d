import LogScript.Proofs.Highlight.ByteRuns

/-!
Each classifier of bytes gives a step on every text that is not empty, and it is the step that the
classifier of characters takes.
-/

namespace LogScript.ByteScan

open Highlight

variable {c : Char} {rest : List Char} {first : UInt8}

/-- What the first byte tells about the first character. -/
def Opens (first : UInt8) (c : Char) : Prop :=
  ∀ x : Char, x.toNat < 0x80 → (first = ascii x ↔ c = x)

theorem exists_first (c : Char) (rest : List Char) :
    ∃ first, (bytes (c :: rest))[0]? = some first ∧ Opens first c :=
  exists_byteAt [] c rest

theorem Opens.eq_ascii (h : Opens first c) (hc : c.toNat < 0x80) : first = ascii c :=
  (h c hc).2 rfl

theorem Opens.asciiClass_eq (h : Opens first c) {accept : Char → Bool}
    (haccept : ∀ c, accept c → c.toNat < 0x80) : asciiClass accept first = accept c := by
  by_cases hc : c.toNat < 0x80
  · rw [h.eq_ascii hc, asciiClass_ascii accept hc]
  · have hno : accept c = false := Bool.eq_false_iff.2 (fun hyes => hc (haccept c hyes))
    have hfirst : ¬ first.toNat < 0x80 := by
      intro hlt
      have hvalid : (Char.ofNat first.toNat).toNat = first.toNat := by
        rw [Char.ofNat, dif_pos (Or.inl (by omega))]
        rfl
      have hx : (Char.ofNat first.toNat).toNat < 0x80 := by rw [hvalid]; exact hlt
      have hsame : first = ascii (Char.ofNat first.toNat) :=
        UInt8.toNat_inj.1 (by rw [toNat_ascii hx, hvalid])
      exact hc ((h _ hx).1 hsame ▸ hx)
    rw [hno, asciiClass]
    simp [hfirst]

theorem blanks_pos_iff : 0 < blanks (c :: rest) ↔ isBlank c := by
  rw [blanks, List.takeWhile_cons]
  cases isBlank c with
  | false => simp
  | true =>
    have := byteLength_pos (List.cons_ne_nil c (rest.takeWhile isBlank))
    simpa using this

theorem Opens.startsComment_iff (h : Opens first c) :
    first = ascii '#' ∨ ['/', '/'].isPrefixOf (c :: rest) ↔ startsComment (c :: rest) := by
  rw [h '#' (by decide), startsComment]
  simp

theorem ascii_of_punctuation (c : Char) (h : punctuation.contains c) : c.toNat < 0x80 := by
  have hall : punctuation.all (fun x => x.toNat < 0x80) = true := by decide
  have hmem : c ∈ punctuation := by simpa using h
  exact of_decide_eq_true (List.all_eq_true.1 hall c hmem)

theorem ascii_of_isWplWordChar (c : Char) (h : isWplWordChar c) : c.toNat < 0x80 := by
  simp only [isWplWordChar, Bool.or_eq_true, beq_iff_eq] at h
  obtain h | rfl := h
  · exact ascii_of_isWordChar c h
  · decide

theorem ascii_of_isOmlWordChar (c : Char) (h : isOmlWordChar c) : c.toNat < 0x80 := by
  simp only [isOmlWordChar, Bool.or_eq_true, beq_iff_eq] at h
  obtain h | rfl := h
  · exact ascii_of_isWordChar c h
  · decide

theorem ascii_of_isOmlPathChar (c : Char) (h : isOmlPathChar c) : c.toNat < 0x80 := by
  simp only [isOmlPathChar, Bool.or_eq_true, beq_iff_eq] at h
  obtain ((h | rfl) | rfl) | rfl := h
  · exact ascii_of_isWordChar c h
  all_goals decide

theorem ascii_of_isJsonOperator (c : Char) (h : isJsonOperator c) : c.toNat < 0x80 := by
  simp only [isJsonOperator, List.contains_cons, List.contains_nil, Bool.or_false, Bool.or_eq_true,
    beq_iff_eq] at h
  obtain rfl | rfl | rfl | rfl | rfl | rfl := h
  all_goals decide

theorem charLength_cons : charLength (c :: rest) = byteLength [c] := by
  simp [charLength]

theorem byteLength_singleton_of_ascii (h : c.toNat < 0x80) : byteLength [c] = 1 := by
  simp [utf8Size_of_ascii h]

theorem wordAt_of_takeWhile {accept : Char → Bool} {text word : List Char}
    (h : text.takeWhile accept = word) :
    wordAt text (byteLength word) = some (word, Run.opensCall (text.drop word.length)) := by
  subst h
  exact wordAt_eq accept text

theorem classifyWpl_eq (v : Vocabulary) (c : Char) (rest : List Char) :
    classifyWpl v (c :: rest) () = some (Highlight.classifyWpl v (c :: rest)) := by
  obtain ⟨first, hfirst, hopens⟩ := exists_first c rest
  have hquote : first = ascii '"' ∨ first = ascii '\x27' ↔ c == '"' || c.toNat == 0x27 := by
    rw [hopens '"' (by decide), hopens '\x27' (by decide), ← Char.toNat_inj (d := '\x27')]
    simp
  unfold classifyWpl Highlight.classifyWpl
  simp only [hfirst, blanks_pos_iff, hopens.startsComment_iff, hquote, number_eq,
    hopens.asciiClass_eq ascii_of_punctuation, byteRun_eq ascii_of_isWplWordChar,
    Option.bind_eq_bind, Option.bind_some, Option.pure_def]
  split
  · rfl
  split
  · rfl
  split
  · rename_i hc
    have hc : c.toNat < 0x80 ∧ c ≠ '\\' ∧ c ≠ '\n' := by
      simp only [Bool.or_eq_true, beq_iff_eq, ← Char.toNat_inj (d := '"')] at hc
      simp only [ne_eq, ← Char.toNat_inj]
      change c.toNat = 34 ∨ c.toNat = 39 at hc
      change _ ∧ ¬ c.toNat = 92 ∧ ¬ c.toNat = 10
      omega
    rw [hopens.eq_ascii hc.1, quoted_eq hc.1 hc.2.1 hc.2.2]
    rfl
  cases Run.number 1 (c :: rest) with
  | some digits => rfl
  | none =>
    simp only [Option.map_none]
    split
    · rename_i hc
      rw [Step.take, byteLength_singleton_of_ascii (ascii_of_punctuation c hc)]
    cases hword : (c :: rest).takeWhile isWplWordChar with
    | nil => simp [charLength_cons, Step.take]
    | cons d word =>
      have hpos := byteLength_pos (List.cons_ne_nil d word)
      rw [if_pos hpos, wordAt_of_takeWhile hword]
      rfl

theorem classifyOmlWord_eq (v : Vocabulary) (s : OmlState) (hopens : Opens first c) :
    classifyOmlWord v (c :: rest) s first =
      some (Highlight.classifyOmlWord v (c :: rest) s) := by
  unfold classifyOmlWord Highlight.classifyOmlWord
  simp only [hopens.asciiClass_eq ascii_of_punctuation, byteRun_eq ascii_of_isOmlWordChar,
    Option.bind_eq_bind, Option.pure_def]
  split
  · rename_i hc
    have hascii := ascii_of_punctuation c hc
    rw [Step.take, byteLength_singleton_of_ascii hascii, hopens.eq_ascii hascii,
      toNat_ascii hascii, Char.ofNat_toNat]
  cases hword : (c :: rest).takeWhile isOmlWordChar with
  | nil => simp [charLength_cons, Step.take]
  | cons d word =>
    have hpos := byteLength_pos (List.cons_ne_nil d word)
    rw [if_pos hpos, wordAt_of_takeWhile hword]
    rfl

theorem classifyOml_eq (v : Vocabulary) (s : OmlState) (c : Char) (rest : List Char) :
    classifyOml v (c :: rest) s = some (Highlight.classifyOml v (c :: rest) s) := by
  obtain ⟨first, hfirst, hopens⟩ := exists_first c rest
  have hdrop (hc : c.toNat < 0x80) : dropBytes? 1 (c :: rest) = some rest :=
    dropBytes?_of_eq (a := [c]) rfl (byteLength_singleton_of_ascii hc).symm
  unfold classifyOml Highlight.classifyOml
  simp only [hfirst, blanks_pos_iff, hopens.startsComment_iff, number_eq,
    hopens '"' (by decide), hopens '@' (by decide), hopens '/' (by decide),
    Option.bind_eq_bind, Option.bind_some, Option.pure_def, beq_iff_eq]
  split
  · rfl
  split
  · rfl
  split
  · rfl
  split
  · rename_i hc
    subst hc
    rw [hopens.eq_ascii (by decide), quoted_eq (by decide) (by decide) (by decide)]
    rfl
  cases Run.number 3 (c :: rest) with
  | some digits => rfl
  | none =>
    simp only [Option.map_none]
    split
    · rename_i hc
      rw [hdrop (by rw [hc]; decide), Option.bind_some, byteRun_eq ascii_of_isWordChar]
      have hone : byteLength [c] = 1 := byteLength_singleton_of_ascii (by rw [hc]; decide)
      cases hname : rest.takeWhile Run.isWordChar with
      | nil => simp [Step.take, hone]
      | cons d name =>
        have hpos := byteLength_pos (List.cons_ne_nil d name)
        have hlength : byteLength (c :: d :: name) = 1 + byteLength (d :: name) := by
          rw [← List.singleton_append, byteLength_append, hone]
        rw [if_pos hpos]
        change _ = some (Step.mk (byteLength (c :: d :: name)) Category.variableName s)
        rw [hlength]
    split
    · rename_i hc
      rw [hdrop (by rw [hc]; decide), Option.bind_some, byteRun_eq ascii_of_isOmlPathChar, hc,
        pathRun]
      cases hpath : rest.takeWhile isOmlPathChar with
      | nil => simpa using classifyOmlWord_eq v s (hc ▸ hopens)
      | cons d path =>
        have hpos := byteLength_pos (List.cons_ne_nil d path)
        rw [if_pos hpos]
        rfl
    · rename_i hc
      have hnone : pathRun (c :: rest) = none := by
        unfold pathRun
        split
        · rename_i heq
          exact absurd (List.cons.inj heq).1 hc
        · rfl
      rw [hnone, classifyOmlWord_eq v s hopens]

theorem prefix_of_pointGroups (limit : Nat) (text : List Char) :
    Run.pointGroups limit text <+: text := by
  induction limit generalizing text with
  | zero => exact List.nil_prefix
  | succ limit ih =>
    unfold Run.pointGroups
    split
    · rename_i rest
      have hsplit : Run.digits rest ++ rest.drop (Run.digits rest).length = rest :=
        takeWhile_append_drop Char.isDigit rest
      split
      · exact List.nil_prefix
      · obtain ⟨t, ht⟩ := ih (rest.drop (Run.digits rest).length)
        refine ⟨t, ?_⟩
        rw [List.append_assoc, ht, List.cons_append, hsplit]
    · exact List.nil_prefix

theorem prefix_of_number {limit : Nat} {text n : List Char} (h : Run.number limit text = some n) :
    n <+: text := by
  have hsign : (if text.head? = some '-' then ['-'] else []) <+: text := by
    split
    · cases text with
      | nil => contradiction
      | cons c rest => simp_all
    · exact List.nil_prefix
  rw [Run.number] at h
  obtain ⟨body, hbody⟩ := hsign
  generalize (if text.head? = some '-' then ['-'] else []) = sign at h hbody
  subst hbody
  simp only [List.drop_left] at h
  have hsplit : Run.digits body ++ body.drop (Run.digits body).length = body :=
    takeWhile_append_drop Char.isDigit body
  split at h
  · cases h
  · obtain ⟨t, ht⟩ := prefix_of_pointGroups limit (body.drop (Run.digits body).length)
    cases h
    refine ⟨t, ?_⟩
    rw [List.append_assoc, ht, List.append_assoc, hsplit]

/-- The exponent starts where the number without it ends. -/
theorem jsonNumber_eq (text : List Char) :
    jsonNumber text = some ((Highlight.jsonNumber text).map byteLength) := by
  rw [jsonNumber, number_eq, Highlight.jsonNumber]
  cases hnumber : Run.number 1 text with
  | none => rfl
  | some n =>
    obtain ⟨behind, htext⟩ := prefix_of_number hnumber
    have hbehind : text.drop n.length = behind := by rw [← htext, List.drop_left]
    have hmark (x : Char) (hx : x.toNat < 0x80) := getElem?_bytes_eq_ascii_iff hx n behind
    rw [htext] at hmark
    simp only [Option.map_some, Option.bind_eq_bind, Option.bind_some, hbehind,
      hmark 'e' (by decide), hmark 'E' (by decide), Option.pure_def]
    cases behind with
    | nil => simp [exponentRun]
    | cons mark rest =>
      simp only [List.head?_cons, Option.some.injEq, exponentRun, Bool.or_eq_true, beq_iff_eq]
      split
      · rename_i hmark
        have hone : byteLength [mark] = 1 := by
          obtain rfl | rfl := hmark <;> rfl
        have hstart : byteLength n + 1 = byteLength (n ++ [mark]) := by
          rw [byteLength_append, hone]
        have htext' : text = n ++ [mark] ++ rest := by rw [← htext]; simp
        have hsign (x : Char) (hx : x.toNat < 0x80) :
            (bytes text)[byteLength n + 1]? = some (ascii x) ↔ rest.head? = some x := by
          rw [hstart, htext', getElem?_bytes_eq_ascii_iff hx]
        simp only [hsign '+' (by decide), hsign '-' (by decide)]
        have hbytes : (if rest.head? = some '+' ∨ rest.head? = some '-' then 1 else 0) =
            byteLength ((rest.take 1).filter (fun c => c == '+' || c == '-')) := by
          cases rest with
          | nil => rfl
          | cons c rest =>
            by_cases hc : c = '+' ∨ c = '-'
            · rw [if_pos (by simpa using hc)]
              obtain rfl | rfl := hc <;> rfl
            · have hnone : ¬ (c == '+' || c == '-') := by simpa using hc
              rw [if_neg (by simpa using hc)]
              simp [hnone]
        have hrest := filter_take_one_append_drop (fun c => c == '+' || c == '-') rest
        generalize (rest.take 1).filter (fun c => c == '+' || c == '-') = sign at hbytes hrest ⊢
        have hdrop : dropBytes? (byteLength n + 1 + byteLength sign) text =
            some (rest.drop sign.length) := by
          refine dropBytes?_of_eq (a := n ++ [mark] ++ sign) ?_ (by
            rw [hstart, byteLength_append (n ++ [mark])])
          rw [htext', List.append_assoc _ sign, hrest]
        rw [hbytes, hdrop]
        have hrun : byteRun Char.isDigit (rest.drop sign.length) =
            byteLength (Run.digits (rest.drop sign.length)) := byteRun_eq ascii_of_isDigit _
        simp only [Option.bind_some, hrun]
        cases hdigits : Run.digits (rest.drop sign.length) with
        | nil => simp
        | cons d ds =>
          have hpos := byteLength_pos (List.cons_ne_nil d ds)
          rw [if_pos hpos, ← hone, ← byteLength_append, ← byteLength_append, ← byteLength_append]
          rfl
      · simp

theorem classifyJson_eq (c : Char) (rest : List Char) :
    classifyJson (c :: rest) () = some (Highlight.classifyJson (c :: rest)) := by
  obtain ⟨first, hfirst, hopens⟩ := exists_first c rest
  unfold classifyJson Highlight.classifyJson
  simp only [hfirst, blanks_pos_iff, jsonNumber_eq, hopens '"' (by decide),
    hopens.asciiClass_eq ascii_of_isJsonOperator, byteRun_eq ascii_of_isWordChar,
    Option.bind_eq_bind, Option.bind_some, Option.pure_def, beq_iff_eq]
  split
  · rfl
  split
  · rename_i hc
    subst hc
    rw [hopens.eq_ascii (by decide), quoted_eq (by decide) (by decide) (by decide)]
    rfl
  cases Highlight.jsonNumber (c :: rest) with
  | some digits => rfl
  | none =>
    simp only [Option.map_none]
    split
    · rename_i hc
      rw [Step.take, byteLength_singleton_of_ascii (ascii_of_isJsonOperator c hc)]
    have hsplit := takeWhile_append_drop Run.isWordChar (c :: rest)
    cases hword : (c :: rest).takeWhile Run.isWordChar with
    | nil => simp [charLength_cons, Step.take]
    | cons d word =>
      have hpos := byteLength_pos (List.cons_ne_nil d word)
      rw [hword] at hsplit
      have htake := takeBytes?_byteLength (d :: word) ((c :: rest).drop (d :: word).length)
      rw [hsplit] at htake
      rw [if_pos hpos, htake]
      rfl

end LogScript.ByteScan
