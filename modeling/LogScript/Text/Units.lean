/-!
Lengths of text in the units its readers count in: UTF-8 bytes for token positions, UTF-16
units for language-server positions. Character positions are plain list lengths. Sets of code points
are given as ascending, disjoint ranges with both ends included.
-/

namespace LogScript

def byteLength : List Char → Nat
  | [] => 0
  | c :: rest => c.utf8Size + byteLength rest

def utf16Size (c : Char) : Nat :=
  if c.toNat < 0x10000 then 1 else 2

def utf16Length : List Char → Nat
  | [] => 0
  | c :: rest => utf16Size c + utf16Length rest

/-- How many leading characters lie wholly inside the first `bytes` bytes. -/
def charsWithin (bytes : Nat) : List Char → Nat
  | [] => 0
  | c :: rest => if c.utf8Size ≤ bytes then charsWithin (bytes - c.utf8Size) rest + 1 else 0

/-- The characters between two byte positions. -/
def sliceBytes (start stop : Nat) (text : List Char) : List Char :=
  let rest := text.drop (charsWithin start text)
  rest.take (charsWithin (stop - start) rest)

@[simp] theorem byteLength_nil : byteLength [] = 0 := rfl

@[simp] theorem byteLength_cons (c : Char) (text : List Char) :
    byteLength (c :: text) = c.utf8Size + byteLength text := rfl

@[simp] theorem byteLength_append (a b : List Char) :
    byteLength (a ++ b) = byteLength a + byteLength b := by
  induction a with
  | nil => simp
  | cons c rest ih => rw [List.cons_append, byteLength_cons, byteLength_cons, ih, Nat.add_assoc]

theorem byteLength_pos {text : List Char} (h : text ≠ []) : 0 < byteLength text := by
  cases text with
  | nil => exact absurd rfl h
  | cons c rest =>
    have := c.utf8Size_pos
    rw [byteLength_cons]
    omega

theorem charsWithin_byteLength_append (a b : List Char) :
    charsWithin (byteLength a) (a ++ b) = a.length + charsWithin 0 b := by
  induction a with
  | nil => simp
  | cons c rest ih =>
    simp [charsWithin, ih]
    omega

theorem charsWithin_of_le {bytes : Nat} {text : List Char} (h : byteLength text ≤ bytes) :
    charsWithin bytes text = text.length := by
  induction text generalizing bytes with
  | nil => rfl
  | cons c rest ih =>
    rw [byteLength_cons] at h
    rw [charsWithin, if_pos (by omega), ih (by omega), List.length_cons]

theorem charsWithin_zero (text : List Char) : charsWithin 0 text = 0 := by
  cases text with
  | nil => rfl
  | cons c rest => simp [charsWithin, Nat.ne_of_gt c.utf8Size_pos]

theorem charsWithin_append (a b : List Char) : charsWithin (byteLength a) (a ++ b) = a.length := by
  rw [charsWithin_byteLength_append, charsWithin_zero, Nat.add_zero]

theorem sliceBytes_append (front text behind : List Char) :
    sliceBytes (byteLength front) (byteLength front + byteLength text)
      (front ++ (text ++ behind)) = text := by
  rw [sliceBytes, charsWithin_append, List.drop_left, Nat.add_sub_cancel_left, charsWithin_append,
    List.take_left]

theorem utf16Length_append (a b : List Char) :
    utf16Length (a ++ b) = utf16Length a + utf16Length b := by
  induction a with
  | nil => simp [utf16Length]
  | cons c a ih => rw [List.cons_append, utf16Length, utf16Length, ih, Nat.add_assoc]

abbrev CodeRanges := List (Nat × Nat)

/-- Membership; the search stops at the first range that ends at or after the code point. -/
def CodeRanges.contains : CodeRanges → Nat → Bool
  | [], _ => false
  | (first, last) :: rest, n => if last < n then CodeRanges.contains rest n else decide (first ≤ n)

end LogScript
