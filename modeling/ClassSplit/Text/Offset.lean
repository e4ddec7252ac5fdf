import ClassSplit.Text.Span

/-!
Byte offsets into a text. A text is a list of characters and an offset counts the bytes of their
UTF-8 encoding, so that only some offsets fall between two characters.
-/

namespace ClassSplit.Text

/-- The number of bytes that a text takes. -/
def byteLength : List Char → Nat
  | [] => 0
  | c :: cs => c.utf8Size + byteLength cs

/-- Whether an offset falls between two characters, or on an end of the text. -/
def isBoundary : Nat → List Char → Bool
  | 0, _ => true
  | _ + 1, [] => false
  | n + 1, c :: cs => c.utf8Size ≤ n + 1 && isBoundary (n + 1 - c.utf8Size) cs

/-- The text from an offset on. -/
def dropBytes : Nat → List Char → List Char
  | _, [] => []
  | n, c :: cs => if n = 0 then c :: cs else dropBytes (n - c.utf8Size) cs

/-- The text before an offset. -/
def takeBytes : Nat → List Char → List Char
  | _, [] => []
  | n, c :: cs => if n = 0 then [] else c :: takeBytes (n - c.utf8Size) cs

/-- The text of a span. -/
def slice (cs : List Char) (s : Span) : List Char :=
  takeBytes s.length (dropBytes s.start cs)

@[simp] theorem byteLength_nil : byteLength [] = 0 := rfl

@[simp] theorem byteLength_cons (c : Char) (cs : List Char) :
    byteLength (c :: cs) = c.utf8Size + byteLength cs := rfl

@[simp] theorem byteLength_append (xs ys : List Char) :
    byteLength (xs ++ ys) = byteLength xs + byteLength ys := by
  induction xs with
  | nil => simp
  | cons c xs ih => simp [ih, Nat.add_assoc]

@[simp] theorem dropBytes_zero (cs : List Char) : dropBytes 0 cs = cs := by
  cases cs <;> simp [dropBytes]

@[simp] theorem takeBytes_zero (cs : List Char) : takeBytes 0 cs = [] := by
  cases cs <;> simp [takeBytes]

-- Cutting a text at any offset loses nothing.
theorem takeBytes_append_dropBytes (n : Nat) (cs : List Char) :
    takeBytes n cs ++ dropBytes n cs = cs := by
  induction cs generalizing n with
  | nil => simp [takeBytes, dropBytes]
  | cons c cs ih =>
    by_cases h : n = 0
    · simp [takeBytes, dropBytes, h]
    · simp [takeBytes, dropBytes, h, ih]

-- An offset between two characters is the length of the text before it.
theorem byteLength_takeBytes {n : Nat} {cs : List Char} (h : isBoundary n cs = true) :
    byteLength (takeBytes n cs) = n := by
  induction cs generalizing n with
  | nil =>
    cases n with
    | zero => simp
    | succ n => simp [isBoundary] at h
  | cons c cs ih =>
    cases n with
    | zero => simp
    | succ n =>
      simp only [isBoundary, Bool.and_eq_true, decide_eq_true_eq] at h
      simp only [takeBytes, Nat.succ_ne_zero, if_false, byteLength_cons, ih h.2]
      omega

theorem dropBytes_append (xs ys : List Char) : dropBytes (byteLength xs) (xs ++ ys) = ys := by
  induction xs with
  | nil => simp
  | cons c xs ih =>
    have hc := c.utf8Size_pos
    have hne : byteLength (c :: xs) ≠ 0 := by simp; omega
    have hsub : byteLength (c :: xs) - c.utf8Size = byteLength xs := by simp
    rw [List.cons_append, dropBytes, if_neg hne, hsub, ih]

theorem takeBytes_append (xs ys : List Char) : takeBytes (byteLength xs) (xs ++ ys) = xs := by
  induction xs with
  | nil => simp
  | cons c xs ih =>
    have hc := c.utf8Size_pos
    have hne : byteLength (c :: xs) ≠ 0 := by simp; omega
    have hsub : byteLength (c :: xs) - c.utf8Size = byteLength xs := by simp
    rw [List.cons_append, takeBytes, if_neg hne, hsub, ih]

end ClassSplit.Text
