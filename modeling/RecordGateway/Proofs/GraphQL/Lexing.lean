import RecordGateway.Proofs.GraphQL.Strings

/-!
# Tokens of texts in pieces

A text made of names, strings and marks is cut into the tokens that the pieces stand for, as long as
a mark stands behind every name and string (`lexemes_pieces`). Marks are separators and punctuators
of one character.
-/

namespace RecordGateway.GraphQL

/-- A name as GraphQL has them: letters, digits and underscores, no digit in front. -/
def isPlainName (n : String) : Bool :=
  match n.toList with
  | [] => false
  | c :: cs => isNameStart c && cs.all isNamePart

/-- Characters that are no part of a name, and mean nothing or a token by themselves. -/
def isMark (c : Char) : Bool := isSeparator c || (Token.punctuator? c).isSome

/-! ## Marks -/

theorem separator_spec {c : Char} (h : isSeparator c = true) :
    Token.punctuator? c = none ∧ isNameStart c = false ∧ isNamePart c = false := by
  simp only [isSeparator, isLineEnd, Bool.or_eq_true, beq_iff_eq] at h
  rcases h with (((rfl | rfl) | rfl | rfl) | rfl) | rfl <;> decide

theorem punctuator_spec {c : Char} {p : Punctuator} (h : Token.punctuator? c = some p) :
    isNameStart c = false ∧ isNamePart c = false ∧ c ≠ '#' ∧ c ≠ '"' ∧ c.isDigit = false ∧
      c ≠ '-' := by
  unfold Token.punctuator? at h
  split at h <;> cases h <;> decide

theorem isNamePart_of_isMark {c : Char} (h : isMark c = true) : isNamePart c = false := by
  simp only [isMark, Bool.or_eq_true] at h
  rcases h with h | h
  · exact (separator_spec h).2.2
  · obtain ⟨p, hp⟩ := Option.isSome_iff_exists.1 h
    exact (punctuator_spec hp).2.1

theorem ne_quote_of_isMark {c : Char} (h : isMark c = true) : c ≠ '"' := by
  rintro rfl
  exact absurd h (by decide)

/-! ## Scanning -/

/-- The characters `cs` are those of the tokens `ts`. -/
def Lexes (cs : List Char) (ts : List Token) : Prop :=
  ∀ (fuel : Nat) (acc : List Token), cs.length ≤ fuel →
    Token.scan fuel acc cs = .ok (acc.reverse ++ ts)

theorem lexes_nil : Lexes [] [] := by
  intro fuel acc _
  unfold Token.scan
  simp

/-- One more character is scanned in a further step. -/
theorem lexes_cons {c : Char} {cs : List Char} {ts : List Token}
    (h : ∀ (fuel : Nat) (acc : List Token), cs.length ≤ fuel →
      Token.scan (fuel + 1) acc (c :: cs) = .ok (acc.reverse ++ ts)) : Lexes (c :: cs) ts := by
  intro fuel acc hf
  cases fuel with
  | zero => simp at hf
  | succ fuel => exact h fuel acc (by simpa using hf)

theorem lexes_mark {c : Char} {cs : List Char} {ts : List Token} (hc : isMark c = true)
    (h : Lexes cs ts) :
    Lexes (c :: cs) (((Token.punctuator? c).map .punctuator).toList ++ ts) := by
  refine lexes_cons fun fuel acc hf => ?_
  unfold Token.scan
  cases hs : isSeparator c with
  | true => simp [(separator_spec hs).1, h fuel acc hf]
  | false =>
    simp only [isMark, hs, Bool.false_or] at hc
    obtain ⟨p, hp⟩ := Option.isSome_iff_exists.1 hc
    obtain ⟨hn, -, hh, hq, hd, hm⟩ := punctuator_spec hp
    simp [hh, Token.next, hn, hq, hd, hm, hp, h fuel _ hf]

theorem lexes_name {n : String} {cs : List Char} {ts : List Token} (hn : isPlainName n = true)
    (hcs : ∀ c ∈ cs.head?, isNamePart c = false) (h : Lexes cs ts) :
    Lexes (n.toList ++ cs) (.name n :: ts) := by
  unfold isPlainName at hn
  cases hl : n.toList with
  | nil => simp [hl] at hn
  | cons c ds =>
    rw [hl] at hn
    simp only [Bool.and_eq_true, List.all_eq_true] at hn
    obtain ⟨hc, hds⟩ := hn
    have htake : (ds ++ cs).takeWhile isNamePart = ds := by
      rw [List.takeWhile_append_of_pos hds]
      cases cs <;> simp_all
    have hdrop : (ds ++ cs).dropWhile isNamePart = cs := by
      rw [List.dropWhile_append_of_pos hds]
      cases cs <;> simp_all
    have hs : isSeparator c = false := by
      cases hs : isSeparator c with
      | true => simp [(separator_spec hs).2.1] at hc
      | false => rfl
    have hh : c ≠ '#' := by
      rintro rfl
      cases hc
    have hofList : String.ofList (c :: ds) = n := by rw [← hl, String.ofList_toList]
    refine lexes_cons fun fuel acc hf => ?_
    have hf : cs.length ≤ fuel := Nat.le_trans (by simp) hf
    unfold Token.scan
    simp [hs, hh, Token.next, hc, htake, hdrop, hofList, h fuel _ hf]

theorem lexes_string {w s cs : List Char} {ts : List Token} (hw : Quoted.Spells w s)
    (hcs : ∀ c ∈ cs.head?, c ≠ '"') (h : Lexes cs ts) :
    Lexes ('"' :: (w ++ '"' :: cs)) (.string (String.ofList s) :: ts) := by
  refine lexes_cons fun fuel acc hf => ?_
  have hf : cs.length ≤ fuel := by
    simp only [List.length_append, List.length_cons] at hf
    omega
  have hs : isSeparator '"' = false := by decide
  have hn : isNameStart '"' = false := by decide
  unfold Token.scan
  simp [hs, Token.next, hn, Token.stringLiteral_spells hw hcs, h fuel _ hf]

/-! ## Pieces -/

/-- A piece of a text. -/
inductive Piece where
  | name (n : String)
  | mark (c : Char)
  /-- A string between quotes, and what it stands for. -/
  | string (spelling value : List Char)

namespace Piece

def chars : Piece → List Char
  | name n => n.toList
  | mark c => [c]
  | string w _ => '"' :: (w ++ ['"'])

def token? : Piece → Option Token
  | name n => some (.name n)
  | mark c => (Token.punctuator? c).map .punctuator
  | string _ s => some (.string (String.ofList s))

/-- Names, strings and marks are such, and after a name or a string there is a mark. -/
def Fine : List Piece → Prop
  | [] => True
  | name n :: mark c :: ps => isPlainName n = true ∧ isMark c = true ∧ Fine ps
  | name _ :: _ => False
  | string w s :: mark c :: ps => Quoted.Spells w s ∧ isMark c = true ∧ Fine ps
  | string .. :: _ => False
  | mark c :: ps => isMark c = true ∧ Fine ps

theorem lexes_of_fine : ∀ {ps : List Piece}, Fine ps →
    Lexes (ps.flatMap chars) (ps.filterMap token?)
  | [], _ => lexes_nil
  | name n :: mark c :: ps, h => by
    have hc := lexes_mark h.2.1 (lexes_of_fine h.2.2)
    have hn := lexes_name h.1 (by simpa using isNamePart_of_isMark h.2.1) hc
    cases hp : Token.punctuator? c <;> simpa [chars, token?, hp] using hn
  | string w s :: mark c :: ps, h => by
    have hc := lexes_mark h.2.1 (lexes_of_fine h.2.2)
    have hs := lexes_string h.1 (by simpa using ne_quote_of_isMark h.2.1) hc
    cases hp : Token.punctuator? c <;> simpa [chars, token?, hp] using hs
  | mark c :: ps, h => by
    have hc := lexes_mark h.1 (lexes_of_fine h.2)
    cases hp : Token.punctuator? c <;> simpa [chars, token?, hp] using hc

end Piece

/-- Tokens with their places from `k` on. -/
def placed (k : Nat) : List Token → List Lexeme
  | [] => []
  | t :: ts => ⟨t, k⟩ :: placed (k + 1) ts

theorem placed_eq_map (ts : List Token) : ∀ k : Nat,
    placed k ts = (ts.zipIdx k).map fun (t, i) => ⟨t, i⟩ := by
  induction ts with
  | nil => exact fun _ => rfl
  | cons t ts ih => exact fun k => by simp [placed, List.zipIdx_cons, ih]

theorem placed_append (ts us : List Token) : ∀ k : Nat,
    placed k (ts ++ us) = placed k ts ++ placed (k + ts.length) us := by
  induction ts with
  | nil => exact fun _ => rfl
  | cons t ts ih =>
    intro k
    rw [List.cons_append, placed, ih, List.length_cons, placed, List.cons_append,
      show k + 1 + ts.length = k + (ts.length + 1) by omega]

theorem lexemes_pieces {text : String} {ps : List Piece} (ht : text.toList = ps.flatMap Piece.chars)
    (h : Piece.Fine ps) : Token.lexemes text = .ok (placed 0 (ps.filterMap Piece.token?)) := by
  have hs := Piece.lexes_of_fine h _ [] (Nat.le_refl _)
  unfold Token.lexemes
  simp only [ht, hs, placed_eq_map]
  rfl

end RecordGateway.GraphQL
