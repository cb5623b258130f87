/-!
Bytes as text in UTF-8.
-/

namespace OrderLedger.Text.Utf8

def bytes (s : String) : List UInt8 := s.toUTF8.data.toList

def text? (bytes : List UInt8) : Option String := String.fromUTF8? ⟨bytes.toArray⟩

/-- The first character that bytes encode, and the number of its bytes behind the first. -/
def head? (bytes : List UInt8) : Option (Char × Nat) :=
  [0, 1, 2, 3].findSome? fun n =>
    match (text? (bytes.take (n + 1))).map String.toList with
    | some [c] => some (c, n)
    | _ => none

/-- The characters that bytes encode after `pending` more bytes of the character before.
Each byte that belongs to no character becomes the characters `stray`. -/
def charsWith (stray : List Char) (pending : Nat) : List UInt8 → List Char
  | [] => []
  | b :: rest =>
      match pending with
      | pending + 1 => charsWith stray pending rest
      | 0 =>
          match head? (b :: rest) with
          | some (c, pending) => c :: charsWith stray pending rest
          | none => stray ++ charsWith stray 0 rest

theorem text?_bytes (s : String) : text? (bytes s) = some s := by
  have hbytes : (⟨(bytes s).toArray⟩ : ByteArray) = s.toUTF8 := by simp [bytes]
  have hvalid : s.toUTF8.IsValidUTF8 := s.isValidUTF8
  rw [text?, hbytes, String.fromUTF8?, dif_pos hvalid]
  rfl

end OrderLedger.Text.Utf8
