import RecordGateway.GraphQL.Token
import RecordGateway.Json.Printer

/-!
# Strings between quotes

`Quoted.Spells w s`: the characters `w` between quotes write the string `s`. Quotes, backslashes and
control characters are written with escapes, everything else may stand for itself. Every string has
a spelling, that of JSON (`Quoted.spells_spelling`), and every spelling is read back
(`Token.stringLiteral_spells`).
-/

namespace RecordGateway.GraphQL

namespace Quoted

/-- The escapes of one letter, with the characters that they write. -/
def letters : List (Char × Char) :=
  [('"', '"'), ('\\', '\\'), ('/', '/'), ('b', '\x08'), ('f', '\x0c'), ('n', '\n'), ('r', '\r'),
    ('t', '\t')]

/-- Some characters between quotes write one. -/
inductive Spelled : List Char → Char → Prop
  | plain {c : Char} (hq : c ≠ '"') (hb : c ≠ '\\') (hc : 0x20 ≤ c.toNat) : Spelled [c] c
  | letter {l c : Char} (h : (l, c) ∈ letters) : Spelled ['\\', l] c
  /-- Four digits of the code point. -/
  | code {p q r s c : Char} (h : hexNumber? [p, q, r, s] = some c.toNat) :
    Spelled ['\\', 'u', p, q, r, s] c

/-- The characters `w` between quotes write the string `s`. -/
inductive Spells : List Char → List Char → Prop
  | nil : Spells [] []
  | cons {v w s : List Char} {c : Char} (hc : Spelled v c) (hs : Spells w s) :
    Spells (v ++ w) (c :: s)

/-! ## Spelling -/

theorem hexNumber?_control : ∀ n < 0x20,
    hexNumber? ['0', '0', Json.hexDigit (n / 16), Json.hexDigit (n % 16)] = some n := by
  decide

/-- A character is spelled as in JSON. -/
theorem spelled_escapeChar (c : Char) : Spelled (Json.escapeChar c) c := by
  unfold Json.escapeChar
  split
  · subst_vars; exact .letter (by decide)
  split
  · subst_vars; exact .letter (by decide)
  split
  · subst_vars; exact .letter (by decide)
  split
  · subst_vars; exact .letter (by decide)
  split
  · subst_vars; exact .letter (by decide)
  split
  · subst_vars; exact .letter (by decide)
  split
  · subst_vars; exact .letter (by decide)
  split
  · exact .code (hexNumber?_control c.toNat ‹_›)
  · exact .plain ‹_› ‹_› (Nat.le_of_not_lt ‹_›)

theorem spells_escapeChar : ∀ s : List Char, Spells (s.flatMap Json.escapeChar) s
  | [] => .nil
  | c :: s => .cons (spelled_escapeChar c) (spells_escapeChar s)

/-- A string as it is written in JSON, without the quotes. -/
def spelling (s : String) : String := String.ofList (s.toList.flatMap Json.escapeChar)

theorem spells_spelling (s : String) : Spells (spelling s).toList s.toList := by
  rw [spelling, String.toList_ofList]
  exact spells_escapeChar _

/-! ## Reading -/

theorem Spelled.length_pos {v : List Char} {c : Char} (h : Spelled v c) : 0 < v.length := by
  cases h <;> simp

/-- A spelling starts neither with the closing quote nor with the end of a line. -/
theorem Spelled.head {v : List Char} {c : Char} (h : Spelled v c) :
    ∃ d ds, v = d :: ds ∧ d ≠ '"' ∧ isLineEnd d = false := by
  cases h with
  | plain hq hb hc =>
    refine ⟨_, _, rfl, hq, ?_⟩
    simp only [isLineEnd, Bool.or_eq_false_iff, beq_eq_false_iff_ne]
    exact ⟨fun h => absurd hc (by subst h; decide), fun h => absurd hc (by subst h; decide)⟩
  | letter h => exact ⟨_, _, rfl, by decide, by decide⟩
  | code h => exact ⟨_, _, rfl, by decide, by decide⟩

theorem escape?_letter {l c : Char} (h : (l, c) ∈ letters) (cs : List Char) :
    escape? (l :: cs) = some (c, cs) := by
  simp only [letters, List.mem_cons, Prod.mk.injEq, List.not_mem_nil, or_false] at h
  rcases h with ⟨rfl, rfl⟩ | ⟨rfl, rfl⟩ | ⟨rfl, rfl⟩ | ⟨rfl, rfl⟩ | ⟨rfl, rfl⟩ | ⟨rfl, rfl⟩ |
    ⟨rfl, rfl⟩ | ⟨rfl, rfl⟩ <;> rfl

theorem escape?_code {p q r s c : Char} (h : hexNumber? [p, q, r, s] = some c.toNat)
    (cs : List Char) : escape? ('u' :: p :: q :: r :: s :: cs) = some (c, cs) := by
  -- a brace is no digit
  have hp : p ≠ '\x7b' := by
    rintro rfl
    simp [hexNumber?, List.mapM_cons, show hexDigit? '\x7b' = none by decide] at h
  show unicodeEscape? (p :: q :: r :: s :: cs) = some (c, cs)
  unfold unicodeEscape?
  split
  · rename_i heq
    exact absurd (List.cons.inj heq).1 hp
  · rename_i heq
    simp only [List.cons.injEq] at heq
    obtain ⟨rfl, rfl, rfl, rfl, rfl⟩ := heq
    simp [h, CodePoint.isHighSurrogate_toNat, CodePoint.char?_toNat]
  · rename_i hne
    exact absurd rfl (hne p q r s cs)

theorem body_spelled {v : List Char} {c : Char} (h : Spelled v c) (fuel : Nat)
    (acc cs : List Char) : body (fuel + 1) acc (v ++ cs) = body fuel (c :: acc) cs := by
  obtain ⟨d, ds, hd, -, hline⟩ := h.head
  cases h with
  | plain hq hb =>
    obtain ⟨rfl, -⟩ := List.cons.inj hd
    simp [body, hq, hb, hline]
  | letter h => simp [body, escape?_letter h]
  | code h => simp [body, escape?_code h]

/-- The body of a string is read up to the closing quote. -/
theorem body_spells {w s : List Char} (h : Spells w s) (rest : List Char) : ∀ (fuel : Nat)
    (acc : List Char), w.length < fuel →
      body fuel acc (w ++ '"' :: rest) = .ok (acc.reverse ++ s, rest) := by
  induction h with
  | nil =>
    intro fuel acc hf
    obtain ⟨fuel, rfl⟩ := Nat.exists_eq_succ_of_ne_zero (Nat.ne_zero_of_lt hf)
    simp [body]
  | @cons v w s c hc _ ih =>
    intro fuel acc hf
    have hpos := hc.length_pos
    rw [List.length_append] at hf
    obtain ⟨fuel, rfl⟩ := Nat.exists_eq_succ_of_ne_zero (Nat.ne_zero_of_lt hf)
    rw [List.append_assoc, body_spelled hc, ih fuel (c :: acc) (by omega)]
    simp

end Quoted

/-- A string is read up to its closing quote, as long as no further quote makes an empty string the
beginning of a block. -/
theorem Token.stringLiteral_spells {w s : List Char} (h : Quoted.Spells w s) {rest : List Char}
    (hrest : ∀ c ∈ rest.head?, c ≠ '"') :
    Token.stringLiteral (w ++ '"' :: rest) = .ok (.string (String.ofList s), rest) := by
  cases h with
  | nil =>
    cases rest with
    | nil => rfl
    | cons c rest =>
      have hc : c ≠ '"' := hrest c rfl
      show Token.stringLiteral ('"' :: c :: rest) = .ok (.string "", c :: rest)
      unfold Token.stringLiteral
      split <;> simp_all
  | @cons v w s c hc hs =>
    obtain ⟨d, ds, hd, hq, hline⟩ := hc.head
    have hbody := Quoted.body_spells (.cons hc hs) rest ((ds ++ (w ++ '"' :: rest)).length + 1) []
      (by simp only [hd, List.length_append, List.length_cons]; omega)
    have hscan : Quoted.scan (v ++ w ++ '"' :: rest) = .ok (c :: s, rest) := by
      simpa [hd, Quoted.scan, hline] using hbody
    have hliteral : Token.stringLiteral (v ++ w ++ '"' :: rest) =
        Quoted.scan (v ++ w ++ '"' :: rest) >>= fun p =>
          .ok (.string (String.ofList p.1), p.2) := by
      rw [hd, List.append_assoc, List.cons_append]
      unfold Token.stringLiteral
      split <;> simp_all
    rw [hliteral, hscan]
    rfl

end RecordGateway.GraphQL
