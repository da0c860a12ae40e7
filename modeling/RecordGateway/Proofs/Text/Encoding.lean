import RecordGateway.Json.Syntax
import Mathlib.Data.List.Basic

/-!
# Text as bytes

`Utf8.encode` gives the bytes of characters one after the other; they are the bytes of the string
(`toList_toUTF8`), and the string can be had back from them (`fromUTF8?_encode`). A character of
ASCII is one byte, and the bytes of any other character are no bytes of ASCII
(`utf8EncodeChar_ascii`, `le_toNat_of_mem_utf8EncodeChar`). So the characters of a text of ASCII
can be told from its bytes one by one (`toList_of_asciiChars?`).
-/

namespace RecordGateway.Utf8

open JsonSyntax (ascii)

/-- The bytes of some characters. -/
def encode (cs : List Char) : List UInt8 := cs.flatMap String.utf8EncodeChar

@[simp] theorem encode_nil : encode [] = [] := rfl

@[simp] theorem encode_cons (c : Char) (cs : List Char) :
    encode (c :: cs) = String.utf8EncodeChar c ++ encode cs := rfl

@[simp] theorem encode_append (cs ds : List Char) :
    encode (cs ++ ds) = encode cs ++ encode ds := List.flatMap_append

theorem toList_loop (bs : ByteArray) (i : Nat) (acc : List UInt8) :
    ByteArray.toList.loop bs i acc = acc.reverse ++ bs.data.toList.drop i := by
  fun_induction ByteArray.toList.loop bs i acc with
  | case1 i acc hi ih =>
    have hlen : i < bs.data.toList.length := by simpa using hi
    rw [ih, List.drop_eq_getElem_cons hlen]
    simp [ByteArray.get!, hi]
  | case2 i acc hi =>
    rw [List.drop_eq_nil_of_le (by simpa using hi)]
    simp

theorem toList_toByteArray (bs : List UInt8) : bs.toByteArray.toList = bs := by
  rw [ByteArray.toList, toList_loop]
  simp

theorem toByteArray_encode (s : String) : (encode s.toList).toByteArray = s.toByteArray := by
  show s.toList.utf8Encode = s.toByteArray
  rw [← String.toByteArray_ofList, String.ofList_toList]

theorem toList_toUTF8 (s : String) : s.toUTF8.toList = encode s.toList := by
  rw [String.toUTF8, ← toByteArray_encode, toList_toByteArray]

theorem fromUTF8?_encode (s : String) :
    String.fromUTF8? (encode s.toList).toByteArray = some s := by
  rw [toByteArray_encode, String.fromUTF8?, dif_pos s.isValidUTF8]
  rfl

theorem utf8EncodeChar_ascii {c : Char} (h : c.toNat < 128) :
    String.utf8EncodeChar c = [ascii c] := by
  have hc : c.val.toNat ≤ 127 := Nat.le_of_lt_succ h
  simp only [String.utf8EncodeChar, hc, ↓reduceIte, ascii]
  rfl

theorem le_toNat_of_mem_utf8EncodeChar {c : Char} (h : 128 ≤ c.toNat) {b : UInt8}
    (hb : b ∈ String.utf8EncodeChar c) : 128 ≤ b.toNat := by
  have hc : ¬ c.val.toNat ≤ 127 := by
    have : c.toNat = c.val.toNat := rfl
    omega
  simp only [String.utf8EncodeChar, hc, ↓reduceIte] at hb
  split at hb
  · simp only [List.mem_cons, List.not_mem_nil, or_false] at hb
    rcases hb with rfl | rfl <;> simp only [UInt8.toNat_ofNat'] <;> omega
  · split at hb
    · simp only [List.mem_cons, List.not_mem_nil, or_false] at hb
      rcases hb with rfl | rfl | rfl <;> simp only [UInt8.toNat_ofNat'] <;> omega
    · simp only [List.mem_cons, List.not_mem_nil, or_false] at hb
      rcases hb with rfl | rfl | rfl | rfl <;> simp only [UInt8.toNat_ofNat'] <;> omega

/-! ## Texts of ASCII -/

/-- The characters of a text, byte by byte, if it is of ASCII. -/
def asciiChars? (s : String) : Option (List Char) :=
  if s.toByteArray.data.toList.all (·.toNat < 128) then
    some (s.toByteArray.data.toList.map fun b => Char.ofNat b.toNat)
  else none

theorem encode_eq_data (s : String) : encode s.toList = s.toByteArray.data.toList := by
  rw [← toByteArray_encode]
  simp

/-- The characters of a text are those that its bytes stand for. -/
theorem toList_of_asciiChars? {s : String} {cs : List Char} (h : asciiChars? s = some cs) :
    s.toList = cs := by
  simp only [asciiChars?, ← encode_eq_data, Option.ite_none_right_eq_some, Option.some.injEq,
    List.all_eq_true, decide_eq_true_eq] at h
  obtain ⟨hbytes, rfl⟩ := h
  generalize s.toList = cs at hbytes
  induction cs with
  | nil => rfl
  | cons c cs ih =>
    rw [encode_cons, List.forall_mem_append] at hbytes
    have hc : c.toNat < 128 := by
      by_contra hc
      obtain ⟨b, hb⟩ := List.exists_mem_of_ne_nil _ (String.utf8EncodeChar_ne_nil (c := c))
      have := le_toNat_of_mem_utf8EncodeChar (Nat.le_of_not_lt hc) hb
      have := hbytes.1 b hb
      omega
    have hbyte : Char.ofNat (ascii c).toNat = c := by
      have hval : (ascii c).toNat = c.toNat :=
        Nat.mod_eq_of_lt (Nat.lt_trans hc (by decide : 128 < 256))
      rw [hval, Char.ofNat_toNat]
    rw [encode_cons, utf8EncodeChar_ascii hc, List.map_append, ← ih hbytes.2, List.map_singleton,
      hbyte, List.singleton_append]

end RecordGateway.Utf8
