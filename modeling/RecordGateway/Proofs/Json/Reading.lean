import RecordGateway.Json.Printer
import RecordGateway.Proofs.Json.Grammar

/-!
# What printed JSON reads as

Values are printed in one of the spellings that the grammar allows, so they are read: a string as
the parts of its characters (`written_quote`) and an integer as its digits (`written_renderInt`).
-/

namespace RecordGateway.JsonSyntax

open Utf8 (encode)

/-! ## Strings -/

/-- Whether a character is printed as its code point. -/
def isWrittenAsUnit (c : Char) : Bool :=
  c.toNat < 0x20 && !(['\n', '\r', '\t', '\x08', '\x0c'].contains c)

/-- What a character of a string reads as. -/
def charParts (c : Char) : List StringPart :=
  if isWrittenAsUnit c then [.unit c.toNat] else (String.utf8EncodeChar c).map .byte

/-- What the characters of a string read as. -/
def parts (s : String) : List StringPart := s.toList.flatMap charParts

theorem hexNumber?_unit : ∀ n < 0x20,
    hexNumber? ['0', '0', Json.hexDigit (n / 16), Json.hexDigit (n % 16)] = some n := by
  decide

theorem StringWritten.escapeChar {cs : List Char} {ps : List StringPart} (h : StringWritten cs ps)
    (c : Char) : StringWritten (Json.escapeChar c ++ cs) (charParts c ++ ps) := by
  unfold Json.escapeChar
  split
  · subst_vars; exact .escape (by decide) h
  split
  · subst_vars; exact .escape (by decide) h
  split
  · subst_vars; exact .escape (by decide) h
  split
  · subst_vars; exact .escape (by decide) h
  split
  · subst_vars; exact .escape (by decide) h
  split
  · subst_vars; exact .escape (by decide) h
  split
  · subst_vars; exact .escape (by decide) h
  split
  · rename_i hc
    have hunit : isWrittenAsUnit c = true := by simp_all [isWrittenAsUnit]
    rw [charParts, if_pos hunit]
    exact .unit rfl (hexNumber?_unit _ hc) h
  · rename_i hq he _ _ _ _ _ hc
    have hunit : isWrittenAsUnit c = false := by simp [isWrittenAsUnit, hc]
    simp only [charParts, hunit]
    exact .plain hq he hc h

theorem stringWritten_escaped (cs : List Char) :
    StringWritten (cs.flatMap Json.escapeChar) (cs.flatMap charParts) := by
  induction cs with
  | nil => exact .nil
  | cons c cs ih => exact ih.escapeChar c

theorem written_quote (s : String) : Written (Json.quote s) (.string (parts s)) :=
  .string (stringWritten_escaped s.toList)

/-! ## Integers -/

/-- The digits of a number as it is printed. -/
def digitsOf (n : Nat) : List Nat := (Nat.toDigits 10 n).map charDigit

/-- A number does not start with zero unless it is zero. -/
theorem eq_zero_of_head?_digitsOf (n : Nat) : (digitsOf n).head? = some 0 → n = 0 := by
  rw [digitsOf, Nat.toDigits_eq_if (by decide)]
  split
  · rename_i hn
    have hdigit : ∀ m < 10, charDigit (Nat.digitChar m) = m := by decide
    simp [hdigit n hn]
  · intro h
    have hne : digitsOf (n / 10) ≠ [] := by simp [digitsOf, Nat.toDigits_ne_nil]
    rw [List.map_append, ← digitsOf, List.head?_append_of_ne_nil _ hne] at h
    have := eq_zero_of_head?_digitsOf (n / 10) h
    omega
termination_by n
decreasing_by omega

theorem numberWritten_toDigits (negative : Bool) (n : Nat) :
    NumberWritten negative (Nat.toDigits 10 n) ⟨negative, digitsOf n, none, none⟩ := by
  have hdigits : Digits (Nat.toDigits 10 n) :=
    ⟨Nat.toDigits_ne_nil, fun c hc => Nat.isDigit_of_mem_toDigits (by decide) (by decide) hc⟩
  have hzero : (Nat.toDigits 10 n).head? = some '0' → Nat.toDigits 10 n = ['0'] := fun h => by
    have hn : n = 0 := eq_zero_of_head?_digitsOf n (by rw [digitsOf, List.head?_map, h]; rfl)
    rw [hn]
    rfl
  have h : NumberWritten negative (Nat.toDigits 10 n ++ [] ++ [])
      ⟨negative, digitsOf n, none, none⟩ := .intro hdigits hzero .absent .absent
  simpa using h

/-- An integer as it is printed. -/
def integerText (n : Int) : NumberText := ⟨n < 0, digitsOf n.natAbs, none, none⟩

theorem written_renderInt (n : Int) : Written (Json.renderInt n) (.number (integerText n)) := by
  unfold Json.renderInt integerText
  by_cases hn : n < 0
  · simp only [hn, ↓reduceIte, List.singleton_append, decide_true]
    exact .negative (numberWritten_toDigits true n.natAbs)
  · simp only [hn, ↓reduceIte, List.nil_append, decide_false]
    exact .number (numberWritten_toDigits false n.natAbs)

/-! ## Without space -/

theorem spaces_nil : Spaces [] := List.forall_mem_nil _

theorem Written.element {cs : List Char} {t : JsonSyntax} (h : Written cs t) :
    ElementWritten cs t := by
  simpa using ElementWritten.intro spaces_nil h spaces_nil

theorem nameWritten_quote (name : String) : NameWritten (Json.quote name) (parts name) :=
  .intro spaces_nil (stringWritten_escaped name.toList) spaces_nil

/-- A text that is one value reads as it. -/
theorem Written.parse? {cs : List Char} {t : JsonSyntax} (h : Written cs t) :
    JsonSyntax.parse? (encode cs) = some t :=
  h.element.parse?

end RecordGateway.JsonSyntax
