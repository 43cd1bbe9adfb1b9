/-
  RubySyntax.Text.Bytes
  ─────────────────────
  **BYTE OFFSETS INTO A TEXT.**

  Positions in a source count the bytes of its UTF-8 form.  An offset is usable only where a
  character begins or the text ends; `dropBytes?` and `takeBytes?` answer `none` elsewhere, and
  a slice exists exactly when both of its ends are usable and in order.
-/

namespace RubySyntax.Text

/-- The number of bytes that a text takes in UTF-8. -/
def byteLength : List Char → Nat
  | [] => 0
  | c :: rest => c.utf8Size + byteLength rest

/-- The text after its first `n` bytes, when they end at a character. -/
def dropBytes? : List Char → Nat → Option (List Char)
  | text, 0 => some text
  | [], _ + 1 => none
  | c :: rest, n => if c.utf8Size ≤ n then dropBytes? rest (n - c.utf8Size) else none

/-- The first `n` bytes of the text, when they end at a character. -/
def takeBytes? : List Char → Nat → Option (List Char)
  | _, 0 => some []
  | [], _ + 1 => none
  | c :: rest, n =>
    if c.utf8Size ≤ n then (takeBytes? rest (n - c.utf8Size)).map (c :: ·) else none

/-- The text from one byte offset to another, when both fall on characters and are in order. -/
def slice? (text : List Char) (start stop : Nat) : Option (List Char) :=
  if start ≤ stop then (dropBytes? text start).bind (takeBytes? · (stop - start)) else none

/-- The text from one byte offset to another, or nothing when there is no such slice. -/
def slice (text : List Char) (start stop : Nat) : List Char :=
  (slice? text start stop).getD []

theorem byteLength_append (a b : List Char) :
    byteLength (a ++ b) = byteLength a + byteLength b := by
  induction a with
  | nil => simp [byteLength]
  | cons c a ih => simp [byteLength, ih, Nat.add_assoc]

theorem byteLength_pos {cs : List Char} (h : cs ≠ []) : 0 < byteLength cs := by
  obtain ⟨c, rest, rfl⟩ := List.exists_cons_of_ne_nil h
  exact Nat.lt_of_lt_of_le c.utf8Size_pos (Nat.le_add_right _ _)

theorem dropBytes?_append (before after : List Char) :
    dropBytes? (before ++ after) (byteLength before) = some after := by
  induction before with
  | nil =>
      rw [List.nil_append, byteLength, dropBytes?]
  | cons c before ih =>
      have hpos := c.utf8Size_pos
      rw [List.cons_append, byteLength, dropBytes?, if_pos (Nat.le_add_right _ _),
        Nat.add_sub_cancel_left, ih]
      intro hzero
      omega

theorem takeBytes?_append (before after : List Char) :
    takeBytes? (before ++ after) (byteLength before) = some before := by
  induction before with
  | nil => rw [byteLength, takeBytes?]
  | cons c before ih =>
      have hpos := c.utf8Size_pos
      rw [List.cons_append, byteLength, takeBytes?, if_pos (Nat.le_add_right _ _),
        Nat.add_sub_cancel_left, ih, Option.map_some]
      intro hzero
      omega

/-- A stretch of a text is the slice from where it begins to where it ends. -/
theorem slice?_append (before stretch after : List Char) :
    slice? (before ++ stretch ++ after) (byteLength before)
      (byteLength before + byteLength stretch) = some stretch := by
  rw [slice?, if_pos (Nat.le_add_right _ _), List.append_assoc, dropBytes?_append,
    Option.bind_some, Nat.add_sub_cancel_left, takeBytes?_append]

end RubySyntax.Text
