import RecordGateway.GraphQL.Parser
import RecordGateway.Proofs.Text.Encoding

/-!
# What parsers read

Lemmas about the steps of parsers and about repetition. At the end, a way to parse a text that is
quicker to evaluate (`parseBytes_eq`).
-/

namespace RecordGateway.GraphQL

namespace Parser

variable {α β : Type}

/-! ## Steps -/

theorem bind_apply (p : Parser α) (k : α → Parser β) (ls : List Lexeme) :
    (p >>= k) ls = (match p ls with
      | .error e => .error e
      | .ok (a, ls') => k a ls') := by
  show StateT.bind p k ls = _
  unfold StateT.bind
  cases p ls <;> rfl

theorem pure_apply (a : α) (ls : List Lexeme) : (pure a : Parser α) ls = .ok (a, ls) := rfl

/-- A parser in two parts reads what its parts read. -/
theorem bind_ok {p : Parser α} {k : α → Parser β} {ls : List Lexeme} {r : β × List Lexeme}
    (h : (p >>= k) ls = .ok r) : ∃ a ls', p ls = .ok (a, ls') ∧ k a ls' = .ok r := by
  rw [bind_apply] at h
  split at h
  · cases h
  · exact ⟨_, _, ‹_›, h⟩

theorem bind_of_ok {p : Parser α} {k : α → Parser β} {ls ls' : List Lexeme} {a : α}
    (h : p ls = .ok (a, ls')) : (p >>= k) ls = k a ls' := by
  rw [bind_apply, h]

theorem map_of_ok {p : Parser α} {f : α → β} {ls ls' : List Lexeme} {a : α}
    (h : p ls = .ok (a, ls')) : (f <$> p) ls = .ok (f a, ls') := by
  rw [map_eq_pure_bind, bind_of_ok h]
  rfl

/-! ## Repetition -/

section
variable {starts : Token → Bool} {item : Parser α}

theorem manyUpTo_nil (bound : Nat) : manyUpTo starts item bound [] = .ok ([], []) := by
  cases bound <;> rfl

/-- Items end at a token that can start none. -/
theorem manyUpTo_stop {t : Token} (ht : starts t = false) (bound i : Nat) (ls : List Lexeme) :
    manyUpTo starts item bound (⟨t, i⟩ :: ls) = .ok ([], ⟨t, i⟩ :: ls) := by
  cases bound with
  | zero => rfl
  | succ bound =>
    unfold manyUpTo
    rw [bind_of_ok (show peek (⟨t, i⟩ :: ls) = .ok (some t, ⟨t, i⟩ :: ls) from rfl)]
    simp only [ht]
    rfl

theorem manyUpTo_step {t : Token} (ht : starts t = true) {bound i : Nat} {ls ls' rest : List Lexeme}
    {a : α} {as : List α} (hi : item (⟨t, i⟩ :: ls) = .ok (a, ls'))
    (hm : manyUpTo starts item bound ls' = .ok (as, rest)) :
    manyUpTo starts item (bound + 1) (⟨t, i⟩ :: ls) = .ok (a :: as, rest) := by
  unfold manyUpTo
  rw [bind_of_ok (show peek (⟨t, i⟩ :: ls) = .ok (some t, ⟨t, i⟩ :: ls) from rfl)]
  simp only [ht, ↓reduceIte]
  rw [bind_of_ok hi, bind_of_ok hm]
  rfl

/-- As many items as there are lexemes are more than enough. -/
theorem many_of_step {t : Token} (ht : starts t = true) {i : Nat} {ls ls' rest : List Lexeme}
    {a : α} {as : List α} (hi : item (⟨t, i⟩ :: ls) = .ok (a, ls'))
    (hm : manyUpTo starts item ls.length ls' = .ok (as, rest)) :
    many starts item (⟨t, i⟩ :: ls) = .ok (a :: as, rest) :=
  manyUpTo_step ht hi hm

end

theorem many1_ne_nil {starts : Token → Bool} {item : Parser α} {what : String} {ls : List Lexeme}
    {as : List α} {rest : List Lexeme} (h : many1 starts item what ls = .ok (as, rest)) :
    as ≠ [] := by
  obtain ⟨as', ls', -, h⟩ := bind_ok h
  cases as' with
  | nil => cases h
  | cons a as' =>
    cases h
    exact List.cons_ne_nil _ _

theorem many1_of_ok {starts : Token → Bool} {item : Parser α} {what : String}
    {ls rest : List Lexeme} {a : α} {as : List α} (h : many starts item ls = .ok (a :: as, rest)) :
    many1 starts item what ls = .ok (a :: as, rest) := by
  unfold many1
  rw [bind_of_ok h]
  rfl

/-! ## Object types -/

theorem block_ok {item : Parser α} {what : String} {k l : Nat} {ls rest : List Lexeme} {a : α}
    {as : List α}
    (h : manyUpTo startsDescribed item ls.length ls =
      .ok (a :: as, ⟨.punctuator .braceR, l⟩ :: rest)) :
    block item what (⟨.punctuator .braceL, k⟩ :: ls) = .ok (a :: as, rest) := by
  have hmany1 : many1 startsDescribed item what ls =
      .ok (a :: as, ⟨.punctuator .braceR, l⟩ :: rest) :=
    many1_of_ok h
  show ((many1 startsDescribed item what >>= fun as => do
    expect .braceR "a closing brace"
    pure as) : Parser (List α)) ls = _
  rw [bind_of_ok hmany1]
  rfl

/-- An object type with its fields, without anything else. -/
theorem definition_type {n : Name} {i j k : Nat} {ls rest : List Lexeme}
    {fs : List FieldDefinition}
    (h : block fieldDefinition "a field definition" (⟨.punctuator .braceL, k⟩ :: ls) =
      .ok (fs, rest)) :
    definition (⟨.name "type", i⟩ :: ⟨.name n, j⟩ :: ⟨.punctuator .braceL, k⟩ :: ls) =
      .ok (.system i false (.type n j (.object [] fs)), rest) := by
  have hdirectives : directives true nestingLimit (⟨.punctuator .braceL, k⟩ :: ls) =
      .ok ([], ⟨.punctuator .braceL, k⟩ :: ls) := rfl
  have htype : typeDefinition "type" (⟨.name n, j⟩ :: ⟨.punctuator .braceL, k⟩ :: ls) =
      .ok ((.type n j (.object [] fs), !fs.isEmpty), rest) := by
    simp [typeDefinition, bind_apply, name, implementedInterfaces, acceptWord, pure_apply,
      hdirectives, map_of_ok h]
  have hsystem : systemDefinition "type" (⟨.name n, j⟩ :: ⟨.punctuator .braceL, k⟩ :: ls) =
      .ok (.type n j (.object [] fs), rest) := by
    simp [systemDefinition, typeKeywords, map_of_ok htype]
  simp [definition, bind_apply, here, peek, name, OperationKind.ofKeyword?, map_of_ok hsystem]

/-! ## Selection sets -/

theorem selectionSet_ok {depth k i : Nat} {ls rest : List Lexeme} {x : Selection}
    {xs : List Selection} (h : many startsSelection (selection depth (selectionSet depth)) ls =
      .ok (x :: xs, ⟨.punctuator .braceR, i⟩ :: rest)) :
    selectionSet (depth + 1) (⟨.punctuator .braceL, k⟩ :: ls) = .ok (x :: xs, rest) := by
  show ((many1 startsSelection (selection depth (selectionSet depth)) "a selection" >>= fun ss => do
    expect .braceR "a closing brace"
    pure ss) : Parser (List Selection)) ls = _
  rw [bind_of_ok (many1_of_ok h)]
  rfl

end Parser

/-- A document has a definition. -/
theorem parseDefinitions_ne_nil {text : String} {xs : List Definition}
    (h : parseDefinitions text = .ok xs) : xs ≠ [] := by
  unfold parseDefinitions at h
  cases hl : Token.lexemes text with
  | error e => simp [hl, bind, Except.bind] at h
  | ok ls =>
    cases hd : Parser.definitions ls with
    | error e => simp [hl, hd, bind, Except.bind] at h
    | ok r =>
      simp only [hl, hd, bind, Except.bind, pure, Except.pure, Except.ok.injEq] at h
      exact h ▸ Parser.many1_ne_nil hd

/-! ## Evaluation -/

/-- The definitions of a document, whose characters are taken from its bytes if it is of ASCII. That
is quicker to evaluate. -/
def parseBytes (text : String) : Except SyntaxError (List Definition) :=
  match Utf8.asciiChars? text with
  | none => parseDefinitions text
  | some cs => do
    let ts ← Token.scan cs.length [] cs
    let (ds, _) ← Parser.definitions (ts.zipIdx.map fun (t, i) => ⟨t, i⟩)
    pure ds

theorem parseBytes_eq (text : String) : parseBytes text = parseDefinitions text := by
  unfold parseBytes
  split
  · rfl
  · rename_i cs hcs
    rw [← Utf8.toList_of_asciiChars? hcs, parseDefinitions, Token.lexemes]
    cases Token.scan text.toList.length [] text.toList <;> rfl

end RecordGateway.GraphQL
