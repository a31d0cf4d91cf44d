import LogScript.Completion.Catalog
import LogScript.Proofs.Completion.Priority
import LogScript.Proofs.Completion.SnippetSymbols

/-!
The order in which clients show a catalog. Clients compare sort texts as texts, and a sort text is a
position in decimal digits, filled up with zeros to four of them. Texts of one length compare as
their numbers do; of two lengths, the shorter text is compared with the first digits of the longer
one. So position 10000 comes in front of position 1001, and the order of a catalog is kept exactly if
it has at most ten thousand items.
-/

namespace LogScript

theorem lt_append_iff {a front back : List Char} (h : a.length = front.length) :
    a < front ++ back ↔ a < front ∨ a = front ∧ back ≠ [] := by
  induction a generalizing front with
  | nil =>
    obtain rfl : front = [] := List.length_eq_zero_iff.1 h.symm
    cases back <;> simp
  | cons c a ih =>
    cases front with
    | nil => cases h
    | cons d front =>
      have hrest := ih (Nat.succ.inj h)
      simp only [List.cons_append, List.cons_lt_cons_iff, hrest, List.cons.injEq]
      tauto

theorem ofDigitChars_append (front back : List Char) :
    Nat.ofDigitChars 10 (front ++ back) 0 =
      10 ^ back.length * Nat.ofDigitChars 10 front 0 + Nat.ofDigitChars 10 back 0 := by
  rw [Nat.ofDigitChars_append]
  exact Nat.ofDigitChars_eq_ofDigitChars_zero

theorem ofDigitChars_cons (c : Char) (digits : List Char) :
    Nat.ofDigitChars 10 (c :: digits) 0 =
      10 ^ digits.length * (c.toNat - 48) + Nat.ofDigitChars 10 digits 0 := by
  simpa [Nat.ofDigitChars_cons] using ofDigitChars_append [c] digits

theorem toNat_of_isDigit {c : Char} (h : c.isDigit = true) : 48 ≤ c.toNat ∧ c.toNat ≤ 57 := by
  simpa [Char.isDigit, UInt32.le_iff_toNat_le] using h

theorem ofDigitChars_lt {digits : List Char} (h : ∀ c ∈ digits, c.isDigit) :
    Nat.ofDigitChars 10 digits 0 < 10 ^ digits.length := by
  induction digits with
  | nil => simp
  | cons c digits ih =>
    rw [List.forall_mem_cons] at h
    have hdigit : c.toNat - 48 ≤ 9 := by
      have hc := toNat_of_isDigit h.1
      omega
    have hrest := ih h.2
    have hfirst := Nat.mul_le_mul_left (10 ^ digits.length) hdigit
    rw [ofDigitChars_cons, List.length_cons, Nat.pow_succ]
    omega

/-- A step of the first digit is worth more than all digits behind it. -/
theorem ofDigitChars_cons_lt {c d : Char} {a b : List Char} (hlength : a.length = b.length)
    (hcd : c < d) (hc : c.isDigit = true) (ha : ∀ e ∈ a, e.isDigit) :
    Nat.ofDigitChars 10 (c :: a) 0 < Nat.ofDigitChars 10 (d :: b) 0 := by
  have hdigit : c.toNat - 48 + 1 ≤ d.toNat - 48 := by
    have hfrom := (toNat_of_isDigit hc).1
    have hless : c.toNat < d.toNat := hcd
    omega
  have hworth := Nat.mul_le_mul_left (10 ^ b.length) hdigit
  have hrest := ofDigitChars_lt ha
  rw [hlength] at hrest
  rw [Nat.mul_add] at hworth
  rw [ofDigitChars_cons, ofDigitChars_cons, hlength]
  omega

/-- Digit texts of one length are in the order of their numbers. -/
theorem lt_iff_ofDigitChars_lt {a b : List Char} (hlength : a.length = b.length)
    (ha : ∀ c ∈ a, c.isDigit) (hb : ∀ c ∈ b, c.isDigit) :
    a < b ↔ Nat.ofDigitChars 10 a 0 < Nat.ofDigitChars 10 b 0 := by
  induction a generalizing b with
  | nil =>
    obtain rfl : b = [] := List.length_eq_zero_iff.1 hlength.symm
    simp
  | cons c a ih =>
    cases b with
    | nil => cases hlength
    | cons d b =>
      have hsame : a.length = b.length := Nat.succ.inj hlength
      rw [List.forall_mem_cons] at ha hb
      rw [List.cons_lt_cons_iff]
      rcases lt_trichotomy c d with hlt | rfl | hlt
      · apply iff_of_true (.inl hlt)
        exact ofDigitChars_cons_lt hsame hlt ha.1 ha.2
      · have hrest := ih hsame ha.2 hb.2
        rw [ofDigitChars_cons, ofDigitChars_cons, hsame, hrest]
        simp
      · apply iff_of_false
        · rintro (hcd | ⟨rfl, -⟩)
          · exact lt_asymm hcd hlt
          · exact lt_irrefl c hlt
        · have hvalue := ofDigitChars_cons_lt hsame.symm hlt hb.1 hb.2
          omega

theorem eq_of_ofDigitChars_eq {a b : List Char} (hlength : a.length = b.length)
    (ha : ∀ c ∈ a, c.isDigit) (hb : ∀ c ∈ b, c.isDigit)
    (h : Nat.ofDigitChars 10 a 0 = Nat.ofDigitChars 10 b 0) : a = b := by
  rcases lt_trichotomy a b with hlt | heq | hlt
  · have hless := (lt_iff_ofDigitChars_lt hlength ha hb).1 hlt
    omega
  · exact heq
  · have hless := (lt_iff_ofDigitChars_lt hlength.symm hb ha).1 hlt
    omega

/-- The digits in front denote the number without its last digits. -/
theorem ofDigitChars_front (front : List Char) {back : List Char} (h : ∀ c ∈ back, c.isDigit) :
    Nat.ofDigitChars 10 front 0 = Nat.ofDigitChars 10 (front ++ back) 0 / 10 ^ back.length := by
  have hback := ofDigitChars_lt h
  rw [ofDigitChars_append, Nat.mul_add_div (Nat.pow_pos (by decide)), Nat.div_eq_of_lt hback,
    Nat.add_zero]

namespace Item

theorem isDigit_of_mem_sortText {n : Nat} {c : Char} (h : c ∈ sortText n) : c.isDigit := by
  rcases List.mem_append.1 h with hzero | hdigit
  · rw [List.eq_of_mem_replicate hzero]
    decide
  · exact Template.isDigit_of_mem_decimal hdigit

theorem ofDigitChars_sortText (n : Nat) : Nat.ofDigitChars 10 (sortText n) 0 = n := by
  simp [sortText, Template.decimal, Nat.ofDigitChars_append]

theorem length_sortText (n : Nat) :
    (sortText n).length = max 4 (Template.decimal n).length := by
  rw [sortText, List.length_append, List.length_replicate]
  omega

theorem length_sortText_le_iff {n k : Nat} (hk : 4 ≤ k) :
    (sortText n).length ≤ k ↔ n < 10 ^ k := by
  have hdigits : (Template.decimal n).length ≤ k ↔ n < 10 ^ k :=
    Nat.length_toDigits_le_iff (by decide) (by omega)
  rw [length_sortText, ← hdigits]
  omega

theorem length_sortText_mono {i j : Nat} (h : i ≤ j) :
    (sortText i).length ≤ (sortText j).length := by
  have hfour : 4 ≤ (sortText j).length := by
    rw [length_sortText]
    omega
  apply (length_sortText_le_iff hfour).2
  apply Nat.lt_of_le_of_lt h
  exact (length_sortText_le_iff hfour).1 (Nat.le_refl _)

/-- The sort text of a later position is greater exactly if its first digits, as many as the earlier
position is written with, denote no smaller number. -/
theorem sortText_lt_iff {i j : Nat} (h : i < j) :
    sortText i < sortText j ↔
      i ≤ j / 10 ^ ((sortText j).length - (sortText i).length) := by
  have hlength := length_sortText_mono h.le
  obtain ⟨front, back, hsplit, hfront⟩ :
      ∃ front back, sortText j = front ++ back ∧ (sortText i).length = front.length := by
    refine ⟨(sortText j).take (sortText i).length, (sortText j).drop (sortText i).length, ?_, ?_⟩
    · rw [List.take_append_drop]
    · rw [List.length_take]
      omega
  have hdigits : ∀ c ∈ front ++ back, c.isDigit := by
    rw [← hsplit]
    exact fun c hc => isDigit_of_mem_sortText hc
  rw [List.forall_mem_append] at hdigits
  have hcut : back.length = (sortText j).length - (sortText i).length := by
    rw [hsplit, hfront, List.length_append]
    omega
  have hnumber := ofDigitChars_front front hdigits.2
  rw [← hsplit, ofDigitChars_sortText, hcut] at hnumber
  have hless := lt_iff_ofDigitChars_lt hfront (fun c => isDigit_of_mem_sortText) hdigits.1
  rw [ofDigitChars_sortText, hnumber] at hless
  rw [hsplit, lt_append_iff hfront, hless, ← hsplit]
  constructor
  · rintro (hlt | ⟨heq, -⟩)
    · exact hlt.le
    · rw [← hnumber, ← heq, ofDigitChars_sortText]
  · intro hle
    rcases hle.lt_or_eq with hlt | heq
    · exact .inl hlt
    · right
      constructor
      · apply eq_of_ofDigitChars_eq hfront (fun c => isDigit_of_mem_sortText) hdigits.1
        rw [ofDigitChars_sortText, hnumber]
        exact heq
      · rintro rfl
        rw [← hcut, List.length_nil, Nat.pow_zero, Nat.div_one] at heq
        omega

/-- Up to four digits, sort texts are in the order of the positions. -/
theorem sortText_lt_of_lt {i j : Nat} (h : i < j) (hj : j < 10000) : sortText i < sortText j := by
  have hshort : (sortText j).length ≤ 4 := (length_sortText_le_iff (Nat.le_refl 4)).2 hj
  have hlong : 4 ≤ (sortText i).length := by
    rw [length_sortText]
    omega
  apply (sortText_lt_iff h).2
  rw [Nat.sub_eq_zero_of_le (hshort.trans hlong), Nat.pow_zero, Nat.div_one]
  exact h.le

end Item

namespace Catalog

theorem sortText_of_getElem? {c : Catalog} {i : Nat} {a : ServerItem}
    (h : c.serverItems[i]? = some a) : a.sortText = Item.sortText i := by
  rw [serverItems, List.getElem?_mapIdx, Option.map_eq_some_iff] at h
  obtain ⟨item, -, rfl⟩ := h
  rfl

theorem length_serverItems (c : Catalog) : c.serverItems.length = c.items.length :=
  List.length_mapIdx

/-- Position 10000 is written with five digits, and so comes in front of position 9999. -/
theorem length_le_of_pairwise {c : Catalog}
    (h : c.serverItems.Pairwise fun a b => a.sortText ≤ b.sortText) : c.items.length ≤ 10000 := by
  by_contra hlong
  rw [← length_serverItems] at hlong
  have hj : 10000 < c.serverItems.length := by omega
  have hi : 9999 < c.serverItems.length := by omega
  have hle := List.pairwise_iff_getElem.1 h 9999 10000 hi hj (by decide)
  rw [sortText_of_getElem? (List.getElem?_eq_getElem hi),
    sortText_of_getElem? (List.getElem?_eq_getElem hj)] at hle
  exact absurd hle (by decide)

/-- The sort texts of two items of a catalog are in the order of the items exactly if the first digits
of the later position denote no smaller number. Those of all items are, and sorting by them gives the
catalog again, exactly if the catalog has at most ten thousand items. -/
theorem sortTexts_serverItems_iff (c : Catalog) :
    (∀ i j a b, i < j → c.serverItems[i]? = some a → c.serverItems[j]? = some b →
      (a.sortText < b.sortText ↔ i ≤ j / 10 ^ (b.sortText.length - a.sortText.length))) ∧
    (c.serverItems.Pairwise (fun a b => a.sortText < b.sortText) ↔ c.items.length ≤ 10000) ∧
    ((c.serverItems.mergeSort fun a b => decide (a.sortText ≤ b.sortText)) = c.serverItems ↔
      c.items.length ≤ 10000) := by
  have hsorted (hlength : c.items.length ≤ 10000) :
      c.serverItems.Pairwise fun a b => a.sortText < b.sortText := by
    apply List.pairwise_iff_getElem.2
    intro i j hi hj hlt
    rw [sortText_of_getElem? (List.getElem?_eq_getElem hi),
      sortText_of_getElem? (List.getElem?_eq_getElem hj)]
    apply Item.sortText_lt_of_lt hlt
    rw [length_serverItems] at hj
    omega
  refine ⟨?_, ?_, ?_⟩
  · intro i j a b hlt ha hb
    rw [sortText_of_getElem? ha, sortText_of_getElem? hb]
    exact Item.sortText_lt_iff hlt
  · constructor
    · intro h
      exact length_le_of_pairwise (h.imp le_of_lt)
    · exact hsorted
  · constructor
    · intro h
      apply length_le_of_pairwise
      rw [← h]
      exact pairwise_mergeSort_key ServerItem.sortText c.serverItems
    · intro hlength
      apply List.mergeSort_of_pairwise
      exact (hsorted hlength).imp fun hlt => decide_eq_true hlt.le

/-- The first item with five digits goes in front of the last one with four. -/
example : Item.sortText 10000 < Item.sortText 9999 := by
  decide

end Catalog

end LogScript
