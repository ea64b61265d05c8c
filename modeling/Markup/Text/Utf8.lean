/-!
# The UTF-8 form of text

Offsets and limits count the bytes of the UTF-8 form. Its length is that of its characters, one
after the other.
-/

namespace Markup.Text

/-- The number of bytes of the UTF-8 form of a text. -/
def byteLength (text : List Char) : Nat :=
  text.foldl (fun length c => length + c.utf8Size) 0

@[simp] theorem byteLength_nil : byteLength [] = 0 := rfl

theorem byteLength_append (left right : List Char) :
    byteLength (left ++ right) = byteLength left + byteLength right := by
  have shifted : ∀ (text : List Char) (start : Nat),
      text.foldl (fun length c => length + c.utf8Size) start = start + byteLength text := by
    intro text
    induction text with
    | nil => intro start; rfl
    | cons c rest ih =>
      intro start
      rw [byteLength, List.foldl_cons, List.foldl_cons, ih, ih (0 + c.utf8Size)]
      omega
  rw [byteLength, List.foldl_append, shifted]
  rfl

@[simp] theorem byteLength_cons (c : Char) (text : List Char) :
    byteLength (c :: text) = c.utf8Size + byteLength text := by
  rw [← List.singleton_append, byteLength_append]
  simp [byteLength]

end Markup.Text
