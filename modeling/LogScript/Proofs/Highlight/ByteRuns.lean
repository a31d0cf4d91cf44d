import LogScript.Proofs.Highlight.ByteScan

/-!
Byte positions that stand between two characters. Behind a leading run of characters the text can
be cut, and the next byte tells an ASCII character apart from every other character. So each
scanner of bytes gives the length of the run of characters that it stands for.
-/

namespace LogScript.ByteScan

theorem bytes_append (a b : List Char) : bytes (a ++ b) = bytes a ++ bytes b := by
  simp [bytes]

@[simp] theorem dropBytes?_byteLength (a b : List Char) :
    dropBytes? (byteLength a) (a ++ b) = some b := by
  induction a with
  | nil => simp [dropBytes?]
  | cons c rest ih =>
    have hpos := c.utf8Size_pos
    obtain ⟨n, hn⟩ : ∃ n, byteLength (c :: rest) = n + 1 :=
      ⟨byteLength (c :: rest) - 1, by simp only [byteLength_cons]; omega⟩
    have hle : c.utf8Size ≤ n + 1 := by simp only [byteLength_cons] at hn; omega
    have hrest : n + 1 - c.utf8Size = byteLength rest := by
      simp only [byteLength_cons] at hn
      omega
    rw [hn, List.cons_append, dropBytes?, if_pos hle, hrest, ih]

@[simp] theorem takeBytes?_byteLength (a b : List Char) :
    takeBytes? (byteLength a) (a ++ b) = some a := by
  induction a with
  | nil => simp [takeBytes?]
  | cons c rest ih =>
    have hpos := c.utf8Size_pos
    obtain ⟨n, hn⟩ : ∃ n, byteLength (c :: rest) = n + 1 :=
      ⟨byteLength (c :: rest) - 1, by simp only [byteLength_cons]; omega⟩
    have hle : c.utf8Size ≤ n + 1 := by simp only [byteLength_cons] at hn; omega
    have hrest : n + 1 - c.utf8Size = byteLength rest := by
      simp only [byteLength_cons] at hn
      omega
    rw [hn, List.cons_append, takeBytes?, if_pos hle, hrest, ih, Option.map_some]

theorem dropBytes?_of_eq {n : Nat} {text a b : List Char} (htext : text = a ++ b)
    (hn : n = byteLength a) : dropBytes? n text = some b := by
  rw [htext, hn, dropBytes?_byteLength]

theorem utf8Size_of_ascii {c : Char} (h : c.toNat < 0x80) : c.utf8Size = 1 := by
  rw [Char.utf8Size_eq_one_iff, UInt32.le_iff_toNat_le]
  exact Nat.le_of_lt_succ h

theorem toNat_ascii {c : Char} (h : c.toNat < 0x80) : (ascii c).toNat = c.toNat := by
  have h' : c.val.toNat < 0x80 := h
  rw [ascii, UInt32.toNat_toUInt8]
  exact Nat.mod_eq_of_lt (by omega)

theorem utf8EncodeChar_of_ascii {c : Char} (h : c.toNat < 0x80) :
    String.utf8EncodeChar c = [ascii c] :=
  String.utf8EncodeChar_eq_singleton (utf8Size_of_ascii h)

/-- The bytes of every other character start with a byte that is no character. -/
theorem utf8EncodeChar_of_not_ascii {c : Char} (h : ¬ c.toNat < 0x80) :
    ∃ b bs, String.utf8EncodeChar c = b :: bs ∧ 0x80 ≤ b.toNat := by
  have hc : ¬ c.val.toNat ≤ 0x7f := fun hle => h (Nat.lt_succ_of_le hle)
  unfold String.utf8EncodeChar
  rw [if_neg hc]
  split
  · refine ⟨_, _, rfl, ?_⟩
    rw [UInt8.toNat_ofNat_of_lt' (by simp only [UInt8.size]; omega)]
    omega
  · split
    · refine ⟨_, _, rfl, ?_⟩
      rw [UInt8.toNat_ofNat_of_lt' (by simp only [UInt8.size]; omega)]
      omega
    · refine ⟨_, _, rfl, ?_⟩
      rw [UInt8.toNat_ofNat_of_lt' (by simp only [UInt8.size]; omega)]
      omega

theorem asciiClass_ascii (accept : Char → Bool) {c : Char} (h : c.toNat < 0x80) :
    asciiClass accept (ascii c) = accept c := by
  rw [asciiClass, toNat_ascii h, Char.ofNat_toNat]
  simp [h]

/-- The first byte behind a leading run tells whether a given ASCII character follows it. -/
theorem getElem?_bytes_eq_ascii_iff {x : Char} (hx : x.toNat < 0x80) (a b : List Char) :
    (bytes (a ++ b))[byteLength a]? = some (ascii x) ↔ b.head? = some x := by
  rw [bytes_append, ← length_bytes, List.getElem?_append_right (Nat.le_refl _), Nat.sub_self]
  cases b with
  | nil => simp [bytes]
  | cons c rest =>
    rw [bytes, List.flatMap_cons]
    by_cases hc : c.toNat < 0x80
    · rw [utf8EncodeChar_of_ascii hc]
      simp only [List.cons_append, List.getElem?_cons_zero, Option.some.injEq, List.head?_cons]
      constructor
      · intro h
        have := congrArg UInt8.toNat h
        rw [toNat_ascii hc, toNat_ascii hx] at this
        exact Char.toNat_inj.1 this
      · intro h
        rw [h]
    · obtain ⟨first, more, he, hfirst⟩ := utf8EncodeChar_of_not_ascii hc
      rw [he]
      simp only [List.cons_append, List.getElem?_cons_zero, Option.some.injEq, List.head?_cons]
      constructor
      · rintro rfl
        rw [toNat_ascii hx] at hfirst
        omega
      · rintro rfl
        exact absurd hx hc

/-- A class of ASCII characters is a class of bytes. -/
theorem byteRun_eq {accept : Char → Bool} (h : ∀ c, accept c → c.toNat < 0x80)
    (text : List Char) : byteRun accept text = byteLength (text.takeWhile accept) := by
  induction text with
  | nil => rfl
  | cons c rest ih =>
    rw [byteRun, bytes, List.flatMap_cons]
    by_cases hc : c.toNat < 0x80
    · rw [utf8EncodeChar_of_ascii hc, List.singleton_append, List.takeWhile_cons,
        asciiClass_ascii accept hc, List.takeWhile_cons]
      cases accept c with
      | false => rfl
      | true =>
        rw [if_pos rfl, if_pos rfl, byteLength_cons, utf8Size_of_ascii hc, ← ih, List.length_cons,
          Nat.add_comm]
        rfl
    · obtain ⟨first, more, he, hfirst⟩ := utf8EncodeChar_of_not_ascii hc
      have haccept : accept c = false := Bool.eq_false_iff.2 (fun hyes => hc (h c hyes))
      have hclass : asciiClass accept first = false := by
        simp only [asciiClass, Bool.and_eq_false_imp, decide_eq_true_eq]
        omega
      rw [he, List.cons_append, List.takeWhile_cons, hclass, List.takeWhile_cons, haccept]
      rfl

theorem ascii_of_isDigit (c : Char) (h : c.isDigit) : c.toNat < 0x80 := by
  simp only [Char.isDigit, Bool.and_eq_true, decide_eq_true_eq, UInt32.le_iff_toNat_le] at h
  exact Nat.lt_of_le_of_lt h.2 (by decide)

theorem ascii_of_isAlphanum (c : Char) (h : c.isAlphanum) : c.toNat < 0x80 := by
  have hcases : (decide (c.val ≥ 'A'.val ∧ c.val ≤ 'Z'.val) ||
      (decide (c.val ≥ 'a'.val) && decide (c.val ≤ 'z'.val)) || c.isDigit) = true := h
  simp only [Bool.or_eq_true, Bool.and_eq_true, decide_eq_true_eq,
    UInt32.le_iff_toNat_le] at hcases
  obtain (h | h) | h := hcases
  · exact Nat.lt_of_le_of_lt h.2 (by decide)
  · exact Nat.lt_of_le_of_lt h.2 (by decide)
  · exact ascii_of_isDigit c h

theorem ascii_of_isWordChar (c : Char) (h : Run.isWordChar c) : c.toNat < 0x80 := by
  simp only [Run.isWordChar, Bool.or_eq_true, beq_iff_eq] at h
  obtain h | rfl := h
  · exact ascii_of_isAlphanum c h
  · decide

/-- The byte where a character starts, told apart from the bytes of ASCII characters. -/
theorem exists_byteAt (a : List Char) (c : Char) (b : List Char) :
    ∃ first, (bytes (a ++ c :: b))[byteLength a]? = some first ∧
      ∀ x : Char, x.toNat < 0x80 → (first = ascii x ↔ c = x) := by
  have hlt : byteLength a < (bytes (a ++ c :: b)).length := by
    have := c.utf8Size_pos
    rw [length_bytes, byteLength_append, byteLength_cons]
    omega
  refine ⟨_, List.getElem?_eq_getElem hlt, fun x hx => ?_⟩
  have := getElem?_bytes_eq_ascii_iff hx a (c :: b)
  rwa [List.getElem?_eq_getElem hlt, Option.some.injEq, List.head?_cons, Option.some.injEq] at this

/-- The induction is on the rest of the line: `a` has been read, `line` is still to come. -/
theorem quotedFrom_eq {q : Char} (hq : q.toNat < 0x80) (hslash : q ≠ '\\')
    (after : List Char) :
    ∀ line a : List Char,
      quotedFrom (ascii q) (a ++ line ++ after) (byteLength (a ++ line)) (byteLength a) =
        some (byteLength (a ++ Run.literalTail q line))
  | [], a => by
    rw [quotedFrom, List.append_nil, if_neg (Nat.lt_irrefl _), Run.literalTail, List.append_nil]
  | c :: rest, a => by
    have hlt : byteLength a < byteLength (a ++ c :: rest) := by
      have := c.utf8Size_pos
      rw [byteLength_append, byteLength_cons]
      omega
    obtain ⟨first, hfirst, hclass⟩ := exists_byteAt a c (rest ++ after)
    have htake : ((bytes (a ++ c :: rest ++ after)).take (byteLength (a ++ c :: rest)))[byteLength
        a]? = some first := by
      rw [List.getElem?_take_of_lt hlt, List.append_assoc, List.cons_append, hfirst]
    rw [quotedFrom, if_pos hlt, htake, Run.literalTail.eq_def]
    simp only [Option.bind_eq_bind, hclass '\\' (by decide), hclass q hq, beq_iff_eq]
    by_cases hc : c = '\\'
    · subst hc
      rw [if_pos rfl, if_pos rfl]
      cases rest with
      | nil =>
        have hstop : byteLength a + 1 = byteLength (a ++ ['\\']) := by simp; rfl
        rw [if_neg (by rw [← hstop]; exact Nat.lt_irrefl _), hstop]
        have := quotedFrom_eq hq hslash after [] (a ++ ['\\'])
        simpa [Run.literalTail] using this
      | cons escaped rest =>
        have hstart : byteLength a + 1 = byteLength (a ++ ['\\']) := by simp; rfl
        have hnext : byteLength a + 1 + escaped.utf8Size =
            byteLength (a ++ ['\\', escaped]) := by
          rw [hstart]
          simp [Nat.add_assoc]
        have hbound : byteLength a + 1 < byteLength (a ++ '\\' :: escaped :: rest) := by
          have := escaped.utf8Size_pos
          rw [hstart]
          simp only [byteLength_append, byteLength_cons, byteLength_nil]
          omega
        have hdrop : dropBytes? (byteLength a + 1) (a ++ '\\' :: escaped :: rest ++ after) =
            some (escaped :: rest ++ after) :=
          dropBytes?_of_eq (a := a ++ ['\\']) (by simp) hstart
        have hread := quotedFrom_eq hq hslash after rest (a ++ ['\\', escaped])
        rw [if_pos hbound, hdrop]
        change quotedFrom _ _ _ (byteLength a + 1 + escaped.utf8Size) = _
        rw [hnext]
        simpa only [List.append_assoc, List.cons_append, List.nil_append, Run.literalTail,
          beq_self_eq_true, if_true] using hread
    · rw [if_neg hc, if_neg hc]
      by_cases hcq : c = q
      · subst hcq
        rw [if_pos rfl, if_pos rfl, byteLength_append, byteLength_cons, utf8Size_of_ascii hq]
        rfl
      · have hdrop : dropBytes? (byteLength a) (a ++ c :: rest ++ after) =
            some (c :: rest ++ after) := dropBytes?_of_eq (by simp) rfl
        have hnext : byteLength a + c.utf8Size = byteLength (a ++ [c]) := by simp
        have hread := quotedFrom_eq hq hslash after rest (a ++ [c])
        rw [if_neg hcq, if_neg hcq, hdrop]
        change quotedFrom _ _ _ (byteLength a + c.utf8Size) = _
        rw [hnext]
        simpa only [List.append_assoc, List.cons_append, List.nil_append] using hread
termination_by line => line.length

theorem quoted_eq {q : Char} (hq : q.toNat < 0x80) (hslash : q ≠ '\\') (hline : q ≠ '\n')
    (rest : List Char) :
    quoted (ascii q) (q :: rest) = some (byteLength (Run.quoted q (q :: rest))) := by
  have hfirst := firstLine_cons hline rest
  have hsplit : q :: rest = [q] ++ firstLine rest ++ rest.dropWhile (· != '\n') := by
    rw [firstLine, List.append_assoc, List.takeWhile_append_dropWhile]
    rfl
  have hone : byteLength [q] = 1 := by simp [utf8Size_of_ascii hq]
  have hend : lineEnd (q :: rest) = byteLength ([q] ++ firstLine rest) :=
    congrArg byteLength hfirst
  have := quotedFrom_eq hq hslash (rest.dropWhile (· != '\n')) (firstLine rest) [q]
  rw [← hsplit, ← hend, hone] at this
  rw [quoted, this, Run.quoted, hfirst]
  rfl

theorem filter_take_one_append_drop (p : Char → Bool) (text : List Char) :
    (text.take 1).filter p ++ text.drop ((text.take 1).filter p).length = text := by
  cases text with
  | nil => rfl
  | cons c rest => cases hc : p c <;> simp [hc]

theorem groupsFrom_eq (limit : Nat) :
    ∀ a text : List Char, groupsFrom (a ++ text) limit (byteLength a) =
      some (byteLength (a ++ Run.pointGroups limit text)) := by
  induction limit with
  | zero =>
    intro a text
    simp [groupsFrom, Run.pointGroups]
  | succ limit ih =>
    intro a text
    have hpoint := getElem?_bytes_eq_ascii_iff (x := '.') (by decide) a text
    cases text with
    | nil =>
      rw [groupsFrom, if_neg (by rw [hpoint]; simp), Run.pointGroups, List.append_nil]
      simp
    | cons c rest =>
      by_cases hc : c = '.'
      · subst hc
        have hstart : byteLength a + 1 = byteLength (a ++ ['.']) := by simp; rfl
        have hdrop : dropBytes? (byteLength a + 1) (a ++ '.' :: rest) = some rest :=
          dropBytes?_of_eq (a := a ++ ['.']) (by simp) hstart
        have hrun : byteRun Char.isDigit rest = byteLength (Run.digits rest) :=
          byteRun_eq ascii_of_isDigit rest
        have hsplit : Run.digits rest ++ rest.drop (Run.digits rest).length = rest :=
          takeWhile_append_drop Char.isDigit rest
        rw [groupsFrom, if_pos (hpoint.2 rfl), hdrop, Run.pointGroups]
        simp only [Option.bind_eq_bind, Option.bind_some, hrun]
        cases hdigits : Run.digits rest with
        | nil => simp
        | cons d ds =>
          have hpos : byteLength (d :: ds) ≠ 0 := Nat.pos_iff_ne_zero.1 (byteLength_pos (by simp))
          rw [hdigits] at hsplit
          have htext : a ++ '.' :: rest = a ++ '.' :: d :: ds ++ rest.drop (d :: ds).length := by
            rw [List.append_assoc, List.cons_append, hsplit]
          have hnext : byteLength a + 1 + byteLength (d :: ds) =
              byteLength (a ++ '.' :: d :: ds) := by
            rw [hstart, ← byteLength_append, List.append_assoc, List.singleton_append]
          rw [if_neg hpos, hnext, htext, ih]
          simp only [List.append_assoc, List.cons_append]
      · rw [groupsFrom, if_neg (by rw [hpoint]; simpa using hc)]
        unfold Run.pointGroups
        split
        · rename_i heq
          exact absurd (List.cons.inj heq).1 hc
        · simp

theorem number_eq (limit : Nat) (text : List Char) :
    number limit text = some ((Run.number limit text).map byteLength) := by
  have hminus := getElem?_bytes_eq_ascii_iff (x := '-') (by decide) [] text
  rw [List.nil_append, byteLength_nil] at hminus
  -- The sign is a run of its own, so that digits start behind it in both readings.
  have hsign : ∃ sign : List Char, (if text.head? = some '-' then ['-'] else []) = sign ∧
      (if (bytes text)[0]? = some (ascii '-') then 1 else 0) = byteLength sign ∧
      text = sign ++ text.drop sign.length := by
    by_cases h : text.head? = some '-'
    · refine ⟨['-'], if_pos h, if_pos (hminus.2 h), ?_⟩
      cases text with
      | nil => cases h
      | cons c rest => simpa using h
    · exact ⟨[], if_neg h, if_neg (fun hb => h (hminus.1 hb)), rfl⟩
  obtain ⟨sign, hchars, hbytes, hsplit⟩ := hsign
  have hdigits : byteRun Char.isDigit (text.drop sign.length) =
      byteLength (Run.digits (text.drop sign.length)) := byteRun_eq ascii_of_isDigit _
  rw [number, Run.number, hbytes, hchars, dropBytes?_of_eq hsplit rfl]
  simp only [Option.bind_eq_bind, Option.bind_some, hdigits]
  cases hrun : Run.digits (text.drop sign.length) with
  | nil => rfl
  | cons d ds =>
    have hpos : byteLength (d :: ds) ≠ 0 := Nat.pos_iff_ne_zero.1 (byteLength_pos (by simp))
    have hbody : Run.digits (text.drop sign.length) ++
        (text.drop sign.length).drop (Run.digits (text.drop sign.length)).length =
          text.drop sign.length := takeWhile_append_drop Char.isDigit _
    rw [hrun] at hbody
    have htext : text = sign ++ d :: ds ++ (text.drop sign.length).drop (d :: ds).length := by
      rw [List.append_assoc, hbody, ← hsplit]
    have hgroups := groupsFrom_eq limit (sign ++ d :: ds)
      ((text.drop sign.length).drop (d :: ds).length)
    rw [← htext, byteLength_append] at hgroups
    rw [if_neg hpos, hgroups]
    rfl

theorem opensCall_eq (text : List Char) : opensCall text = Run.opensCall text := by
  have hrun : byteRun (fun c => c == ' ' || c == '\t') text =
      byteLength (text.takeWhile (fun c => c == ' ' || c == '\t')) := by
    refine byteRun_eq (fun c h => ?_) text
    simp only [Bool.or_eq_true, beq_iff_eq] at h
    obtain rfl | rfl := h <;> decide
  have hopen := getElem?_bytes_eq_ascii_iff (x := '(') (by decide)
    (text.takeWhile (fun c => c == ' ' || c == '\t'))
    (text.dropWhile (fun c => c == ' ' || c == '\t'))
  rw [List.takeWhile_append_dropWhile] at hopen
  rw [opensCall, Run.opensCall, hrun, Bool.eq_iff_iff, beq_iff_eq, beq_iff_eq, hopen]

/-- A word and what follows it are cut off where the word ends. -/
theorem wordAt_eq (accept : Char → Bool) (text : List Char) :
    wordAt text (byteLength (text.takeWhile accept)) =
      some (text.takeWhile accept,
        Run.opensCall (text.drop (text.takeWhile accept).length)) := by
  have hsplit := takeWhile_append_drop accept text
  have htake := takeBytes?_byteLength (text.takeWhile accept)
    (text.drop (text.takeWhile accept).length)
  rw [hsplit] at htake
  rw [wordAt, htake, dropBytes?_of_eq hsplit.symm rfl]
  simp only [Option.bind_eq_bind, Option.bind_some, opensCall_eq]
  rfl

end LogScript.ByteScan
