import Primer.Text.Lines

/-!
# Lines of encoded texts

The byte of a line feed occurs in the encoding of no other character.  So the
bytes of a text up to the first line feed are the encoding of the characters up
to there, and taking lines off the bytes one by one gives the lines of the text.

## Main results

* `Lines.splitAfter_encode` : the next line of an encoded text.
-/

namespace Primer

theorem fromUTF8?_toUTF8 (text : String) : String.fromUTF8? text.toUTF8 = some text := by
  rw [String.fromUTF8?, String.toUTF8_eq_toByteArray, dif_pos text.isValidUTF8]
  rfl

namespace Lines

/-- The bytes of a text. -/
def encode (text : List Char) : List UInt8 := text.flatMap String.utf8EncodeChar

@[simp] theorem encode_cons (c : Char) (text : List Char) :
    encode (c :: text) = String.utf8EncodeChar c ++ encode text := List.flatMap_cons

theorem toUTF8_data (text : String) : text.toUTF8.data.toList = encode text.toList := by
  have hbytes : text.toUTF8 = text.toList.utf8Encode := by
    rw [String.toUTF8_eq_toByteArray, ← String.toByteArray_ofList, String.ofList_toList]
  rw [hbytes, List.utf8Encode, List.data_toByteArray, encode]

theorem decode_encode (text : List Char) : decode (encode text) = .text (String.ofList text) := by
  have hbytes : (encode text).toByteArray = (String.ofList text).toUTF8 :=
    String.toByteArray_ofList.symm
  rw [decode, hbytes, fromUTF8?_toUTF8]

theorem utf8EncodeChar_ne_nil (c : Char) : String.utf8EncodeChar c ≠ [] := by
  simp only [String.utf8EncodeChar]
  repeat' split
  all_goals exact List.cons_ne_nil _ _

/-- Every byte of a character beyond ASCII has its first bit set. -/
theorem lineFeed_not_mem_utf8EncodeChar {c : Char} (hc : c ≠ '\n') :
    lineFeed ∉ String.utf8EncodeChar c := by
  have hcode : c.val.toNat ≠ 10 := fun heq => hc (Char.ext (UInt32.toNat_inj.mp heq))
  simp only [String.utf8EncodeChar, lineFeed]
  repeat' split
  all_goals
    simp only [List.mem_cons, List.not_mem_nil, or_false, ← UInt8.toNat_inj, UInt8.toNat_ofNat']
    simp only [UInt8.reduceToNat]
    omega

/-! ## Cutting -/

section Cutting

variable {α : Type} [DecidableEq α] {terminator : α}

theorem splitAfter_append_of_not_mem {as : List α} (hnone : terminator ∉ as) (bs : List α) :
    splitAfter terminator (as ++ bs) =
      (as ++ (splitAfter terminator bs).1, (splitAfter terminator bs).2) := by
  induction as with
  | nil => rfl
  | cons a as ih =>
      have hne : a ≠ terminator := fun heq => hnone (heq ▸ List.mem_cons_self)
      have hrest : terminator ∉ as := fun hmem => hnone (List.mem_cons_of_mem a hmem)
      rw [List.cons_append, splitAfter, if_neg hne, ih hrest]
      rfl

/-- Cutting a list takes the piece up to the first terminator off it, again and again. -/
theorem cutAfter_eq_splitAfter {as : List α} (hne : as ≠ []) :
    cutAfter terminator as =
      (splitAfter terminator as).1 :: cutAfter terminator (splitAfter terminator as).2 := by
  induction as with
  | nil => exact absurd rfl hne
  | cons a as ih =>
      rw [cutAfter, splitAfter]
      by_cases ha : a = terminator
      · rw [if_pos ha, if_pos ha]
      · rw [if_neg ha, if_neg ha]
        -- a terminator at the very end leaves no further part
        cases as with
        | nil => rfl
        | cons b bs => rw [ih (List.cons_ne_nil b bs)]

end Cutting

theorem splitAfter_encode (text : List Char) :
    splitAfter lineFeed (encode text) =
      (encode (splitAfter '\n' text).1, encode (splitAfter '\n' text).2) := by
  induction text with
  | nil => rfl
  | cons c text ih =>
      rw [splitAfter, encode_cons]
      -- only the line feed is encoded with the byte of a line feed
      by_cases hc : c = '\n'
      · subst hc
        rw [if_pos rfl]
        rfl
      · rw [if_neg hc, splitAfter_append_of_not_mem (lineFeed_not_mem_utf8EncodeChar hc), ih,
          encode_cons]

theorem decodeTerminated_encode (piece : List Char) :
    decodeTerminated (encode piece) =
      .text (String.ofList (dropTerminator '\r' '\n' piece)) := by
  rw [decodeTerminated, decode_encode]
  simp only [String.toList_ofList]

end Lines

end Primer
