import RecordGateway.Proofs.Registry

/-!
# Queries for one record

`recordQuery` is the text of a query for some fields of the record with an id, which is given as it
is written. It reads as the one operation that is meant, for an id that is spelled as a string
(`RecordQuery.parseDefinitions_literal`) and for one that is a variable
(`RecordQuery.parseDefinitions_variable`).
-/

namespace RecordGateway

open GraphQL

/-! ## Texts -/

/-- A query for some fields of the record with an id, given as it is written. -/
def recordQuery (r : RootDescriptor) (id : String) (fs : List Name) : String :=
  "\x7b " ++ r.field ++ "(" ++ r.argument ++ ": " ++ id ++ ") \x7b " ++ " ".intercalate fs ++
    " \x7d \x7d"

example : recordQuery getData "\"7\"" ["id", "name"] =
    "\x7b getData(id: \"7\") \x7b id name \x7d \x7d" := rfl

namespace RecordQuery

/-- The names of fields, each with a blank behind it. -/
def fieldPieces (fs : List Name) : List Piece := fs.flatMap fun f => [.name f, .mark ' ']

/-- A query for some fields of a record, cut into pieces, with those of the id. -/
def pieces (r : RootDescriptor) (id : List Piece) (fs : List Name) : List Piece :=
  [.mark '\x7b', .mark ' ', .name r.field, .mark '(', .name r.argument, .mark ':', .mark ' '] ++
    (id ++ ([.mark ')', .mark ' ', .mark '\x7b', .mark ' '] ++
      (fieldPieces fs ++ [.mark '\x7d', .mark ' ', .mark '\x7d'])))

theorem toList_intercalate_append {fs : List Name} (hne : fs ≠ []) :
    (" ".intercalate fs).toList ++ [' '] = (fieldPieces fs).flatMap Piece.chars := by
  rw [String.toList_intercalate]
  induction fs with
  | nil => exact absurd rfl hne
  | cons f fs ih =>
    cases fs with
    | nil => simp [fieldPieces, Piece.chars]
    | cons g fs =>
      have ih := ih (List.cons_ne_nil g fs)
      simp only [fieldPieces, List.map_cons, List.flatMap_cons] at ih ⊢
      rw [List.intercalate_cons_cons, List.append_assoc, List.append_assoc, ih]
      simp [Piece.chars]

theorem toList_recordQuery (r : RootDescriptor) {id : String} {ps : List Piece}
    (hid : id.toList = ps.flatMap Piece.chars) {fs : List Name} (hne : fs ≠ []) :
    (recordQuery r id fs).toList = (pieces r ps fs).flatMap Piece.chars := by
  have hfields := toList_intercalate_append hne
  simp only [recordQuery, String.toList_append, hid, pieces, List.flatMap_append,
    List.flatMap_cons, List.flatMap_nil, Piece.chars, ← hfields]
  simp only [String.reduceToList, List.append_assoc, List.cons_append, List.nil_append]

/-! ## Reading -/

/-- The selections of some fields without anything else, the first one at the place `k`. -/
def leaves (k : Nat) : List Name → List Selection
  | [] => []
  | f :: fs => .field ⟨k, none, k, f, [], []⟩ [] :: leaves (k + 1) fs

/-- The tokens of a query for some fields of a record, with those of the id. -/
def tokens (r : RootDescriptor) (id : List Token) (fs : List Name) : List Token :=
  [.punctuator .braceL, .name r.field, .punctuator .parenL, .name r.argument,
    .punctuator .colon] ++ (id ++ ([.punctuator .parenR, .punctuator .braceL] ++
      (fs.map .name ++ [.punctuator .braceR, .punctuator .braceR])))

section
open Parser

variable {depth : Nat} {set : Parser (List Selection)}

theorem manyUpTo_leaves : ∀ (fs : List Name) (k i bound : Nat) (rest : List Lexeme),
    fs.length ≤ bound →
      manyUpTo startsSelection (selection depth set) bound
        (placed k (fs.map .name) ++ ⟨.punctuator .braceR, i⟩ :: rest) =
        .ok (leaves k fs, ⟨.punctuator .braceR, i⟩ :: rest)
  | [], _, _, _, _, _ => manyUpTo_stop rfl _ _ _
  | [f], k, i, bound + 1, rest, _ => manyUpTo_step rfl rfl (manyUpTo_stop rfl _ _ _)
  | f :: g :: fs, k, i, bound + 1, rest, h =>
    manyUpTo_step rfl rfl (manyUpTo_leaves (g :: fs) (k + 1) i bound rest (by simpa using h))

theorem selectionSet_leaves {fs : List Name} (hne : fs ≠ []) (j k i : Nat) (rest : List Lexeme) :
    selectionSet (depth + 1) (⟨.punctuator .braceL, j⟩ ::
      (placed k (fs.map .name) ++ ⟨.punctuator .braceR, i⟩ :: rest)) = .ok (leaves k fs, rest) := by
  have hlen : fs.length ≤
      (placed k (fs.map .name) ++ ⟨.punctuator .braceR, i⟩ :: rest).length := by
    simp only [placed_eq_map, List.length_append, List.length_map, List.length_zipIdx]
    omega
  have hmany : many startsSelection (selection depth (selectionSet depth))
      (placed k (fs.map .name) ++ ⟨.punctuator .braceR, i⟩ :: rest) =
        .ok (leaves k fs, ⟨.punctuator .braceR, i⟩ :: rest) :=
    manyUpTo_leaves fs k i _ rest hlen
  obtain ⟨f, fs, rfl⟩ := List.exists_cons_of_ne_nil hne
  exact selectionSet_ok hmany

theorem selection_root {n a : Name} {v : Value} {i₀ i₁ i₂ i₃ j₁ j₂ : Nat}
    {vs ls rest : List Lexeme} {body : List Selection}
    (hv : value false depth (vs ++ ⟨.punctuator .parenR, j₁⟩ :: ⟨.punctuator .braceL, j₂⟩ :: ls) =
      .ok (v, ⟨.punctuator .parenR, j₁⟩ :: ⟨.punctuator .braceL, j₂⟩ :: ls))
    (hbody : set (⟨.punctuator .braceL, j₂⟩ :: ls) = .ok (body, rest)) :
    selection depth set (⟨.name n, i₀⟩ :: ⟨.punctuator .parenL, i₁⟩ :: ⟨.name a, i₂⟩ ::
      ⟨.punctuator .colon, i₃⟩ ::
        (vs ++ ⟨.punctuator .parenR, j₁⟩ :: ⟨.punctuator .braceL, j₂⟩ :: ls)) =
      .ok (.field ⟨i₀, none, i₀, n, [⟨i₂, a, v⟩], []⟩ body, rest) := by
  have hargument : argument false depth (⟨.name a, i₂⟩ :: ⟨.punctuator .colon, i₃⟩ ::
      (vs ++ ⟨.punctuator .parenR, j₁⟩ :: ⟨.punctuator .braceL, j₂⟩ :: ls)) =
        .ok (some ⟨i₂, a, v⟩, ⟨.punctuator .parenR, j₁⟩ :: ⟨.punctuator .braceL, j₂⟩ :: ls) := by
    show ((value false depth >>= fun v => pure (some ⟨i₂, a, v⟩)) : Parser (Option Argument)) _ = _
    rw [bind_of_ok hv]
    rfl
  have hmany : many1 isName (argument false depth) "an argument" (⟨.name a, i₂⟩ ::
      ⟨.punctuator .colon, i₃⟩ ::
        (vs ++ ⟨.punctuator .parenR, j₁⟩ :: ⟨.punctuator .braceL, j₂⟩ :: ls)) =
        .ok ([some ⟨i₂, a, v⟩], ⟨.punctuator .parenR, j₁⟩ :: ⟨.punctuator .braceL, j₂⟩ :: ls) :=
    many1_of_ok (many_of_step rfl hargument (manyUpTo_stop rfl _ _ _))
  have harguments : arguments false depth (⟨.punctuator .parenL, i₁⟩ :: ⟨.name a, i₂⟩ ::
      ⟨.punctuator .colon, i₃⟩ ::
        (vs ++ ⟨.punctuator .parenR, j₁⟩ :: ⟨.punctuator .braceL, j₂⟩ :: ls)) =
        .ok ([⟨i₂, a, v⟩], ⟨.punctuator .braceL, j₂⟩ :: ls) := by
    show ((many1 isName (argument false depth) "an argument" >>= fun as => do
      expect .parenR ")"
      pure (as.filterMap id)) : Parser (List Argument)) _ = _
    rw [List.tail_cons, bind_of_ok hmany]
    rfl
  show ((arguments false depth >>= fun as => directives false depth >>= fun ds =>
    when .braceL [] set >>= fun body => pure (.field ⟨i₀, none, i₀, n, as, ds⟩ body)) :
      Parser Selection) _ = _
  rw [bind_of_ok harguments]
  show ((set >>= fun body => pure (.field ⟨i₀, none, i₀, n, [⟨i₂, a, v⟩], []⟩ body)) :
    Parser Selection) _ = _
  rw [bind_of_ok hbody]
  rfl

/-- The selections of a query, whose id is a value at the place `k + 5`. -/
def selections (r : RootDescriptor) (k j : Nat) (v : Value) (fs : List Name) : List Selection :=
  [.field ⟨k + 1, none, k + 1, r.field, [⟨k + 3, r.argument, v⟩], []⟩ (leaves j fs)]

/-- A query is read from its first brace on. -/
theorem selectionSet_tokens (r : RootDescriptor) {id : List Token} {v : Value} {fs : List Name}
    (hne : fs ≠ []) (k : Nat)
    (hv : ∀ ls : List Lexeme, value false (depth + 1) (placed (k + 5) id ++
      ⟨.punctuator .parenR, k + 5 + id.length⟩ :: ls) =
        .ok (v, ⟨.punctuator .parenR, k + 5 + id.length⟩ :: ls)) :
    selectionSet (depth + 2) (placed k (tokens r id fs)) =
      .ok (selections r k (k + 5 + id.length + 2) v fs, []) := by
  have hplaced : placed k (tokens r id fs) =
      ⟨.punctuator .braceL, k⟩ :: ⟨.name r.field, k + 1⟩ :: ⟨.punctuator .parenL, k + 2⟩ ::
        ⟨.name r.argument, k + 3⟩ :: ⟨.punctuator .colon, k + 4⟩ :: (placed (k + 5) id ++
          ⟨.punctuator .parenR, k + 5 + id.length⟩ ::
            ⟨.punctuator .braceL, k + 5 + id.length + 1⟩ ::
              (placed (k + 5 + id.length + 2) (fs.map .name) ++
                [⟨.punctuator .braceR, k + 5 + id.length + 2 + fs.length⟩,
                  ⟨.punctuator .braceR, k + 5 + id.length + 2 + fs.length + 1⟩])) := by
    simp only [tokens, placed_append, placed, List.length_map, List.cons_append, List.nil_append]
  rw [hplaced]
  exact selectionSet_ok (many_of_step rfl
    (selection_root (hv _) (selectionSet_leaves hne _ _ _ _)) (manyUpTo_stop rfl _ _ _))

end

/-- The operation of a query. Its id is a value at the place `k + 5`, the first of its fields stands
at the place `j`. -/
def operation (r : RootDescriptor) (k j : Nat) (vars : List VariableDefinition) (v : Value)
    (fs : List Name) : Operation :=
  ⟨0, .query, none, vars, [], selections r k j v fs⟩

/-- A text of one operation, with the lexemes `ls`. -/
theorem parseDefinitions_of_lexemes {text : String} {ls : List Lexeme} {o : Operation}
    (hls : Token.lexemes text = .ok ls) (hne : ls ≠ [])
    (h : Parser.definition ls = .ok (.operation o, [])) :
    parseDefinitions text = .ok [.operation o] := by
  obtain ⟨⟨t, i⟩, ls, rfl⟩ := List.exists_cons_of_ne_nil hne
  have hread : Parser.definitions (⟨t, i⟩ :: ls) = .ok ([.operation o], []) :=
    Parser.many1_of_ok (Parser.many_of_step rfl h (Parser.manyUpTo_nil _))
  unfold parseDefinitions
  rw [hls]
  show (Parser.definitions (⟨t, i⟩ :: ls) >>= _) = _
  rw [hread]
  rfl

theorem fine_fieldPieces : ∀ {fs : List Name} {ps : List Piece},
    (∀ f ∈ fs, isPlainName f = true) → Piece.Fine ps → Piece.Fine (fieldPieces fs ++ ps)
  | [], _, _, hps => hps
  | f :: fs, ps, hf, hps => by
    obtain ⟨hn, hfs⟩ := List.forall_mem_cons.1 hf
    exact ⟨hn, by decide, fine_fieldPieces hfs hps⟩

/-- What stands behind the id of a query. -/
theorem fine_end {fs : List Name} (hfs : ∀ f ∈ fs, isPlainName f = true) :
    Piece.Fine ([.mark ')', .mark ' ', .mark '\x7b', .mark ' '] ++
      (fieldPieces fs ++ [.mark '\x7d', .mark ' ', .mark '\x7d'])) := by
  have hend : Piece.Fine [.mark '\x7d', .mark ' ', .mark '\x7d'] := by
    simp only [Piece.Fine]
    decide
  exact ⟨by decide, by decide, by decide, by decide, fine_fieldPieces hfs hend⟩

theorem tokens_pieces (r : RootDescriptor) (ps : List Piece) (fs : List Name) :
    (pieces r ps fs).filterMap Piece.token? = tokens r (ps.filterMap Piece.token?) fs := by
  have hfields : (fieldPieces fs).filterMap Piece.token? = fs.map .name := by
    rw [fieldPieces, List.filterMap_flatMap, List.map_eq_flatMap]
    rfl
  rw [pieces, List.filterMap_append, List.filterMap_append, List.filterMap_append,
    List.filterMap_append, hfields]
  rfl

section
open Parser

variable {e : EntityDescriptor} {r : RootDescriptor} (hp : PlainNames e r) {fs : List Name}
  (hfs : ∀ f ∈ fs, isPlainName f = true) (hne : fs ≠ [])
include hp hfs hne

/-- The id is written as a string. -/
theorem parseDefinitions_literal {w s : String} (hw : Quoted.Spells w.toList s.toList) :
    parseDefinitions (recordQuery r ("\"" ++ w ++ "\"") fs) =
      .ok [.operation (operation r 0 8 [] (.literal 5 (.string s)) fs)] := by
  let id : List Piece := [.string w.toList s.toList]
  have hid : ("\"" ++ w ++ "\"").toList = id.flatMap Piece.chars := by
    simp [id, Piece.chars]
  have hfine : Piece.Fine (pieces r id fs) :=
    ⟨by decide, by decide, hp.field, by decide, hp.argument, by decide, by decide, hw,
      fine_end hfs⟩
  have hlex := lexemes_pieces (toList_recordQuery r hid hne) hfine
  have hid : id.filterMap Piece.token? = [.string s] := by simp [id, Piece.token?]
  rw [tokens_pieces, hid] at hlex
  have hset : selectionSet nestingLimit (placed 0 (tokens r [.string s] fs)) =
      .ok (selections r 0 8 (.literal 5 (.string s)) fs, []) :=
    selectionSet_tokens r hne 0 fun _ => rfl
  refine parseDefinitions_of_lexemes hlex (List.cons_ne_nil _ _) ?_
  show ((selectionSet nestingLimit >>= fun ss =>
    pure (.operation ⟨0, .query, none, [], [], ss⟩)) : Parser Definition) _ = _
  rw [bind_of_ok hset]
  rfl

/-- The id is a variable for strings. -/
theorem parseDefinitions_variable :
    parseDefinitions ("query($v: String) " ++ recordQuery r "$v" fs) =
      .ok [.operation (operation r 7 16 [⟨2, "v", .named "String" false, none, []⟩]
        (.variable 12 "v") fs)] := by
  let front : List Piece := [.name "query", .mark '(', .mark '$', .name "v", .mark ':', .mark ' ',
    .name "String", .mark ')', .mark ' ']
  let id : List Piece := [.mark '$', .name "v"]
  have htext : ("query($v: String) " ++ recordQuery r "$v" fs).toList =
      (front ++ pieces r id fs).flatMap Piece.chars := by
    have hid : "$v".toList = id.flatMap Piece.chars := rfl
    rw [String.toList_append, toList_recordQuery r hid hne, List.flatMap_append]
    rfl
  have hfine : Piece.Fine (front ++ pieces r id fs) :=
    ⟨by decide, by decide, by decide, by decide, by decide, by decide, by decide, by decide,
      by decide, by decide, by decide, hp.field, by decide, hp.argument, by decide, by decide,
      by decide, by decide, fine_end hfs⟩
  have hlex := lexemes_pieces htext hfine
  rw [List.filterMap_append, tokens_pieces, placed_append] at hlex
  have hset : selectionSet nestingLimit (placed 7 (tokens r [.punctuator .dollar, .name "v"] fs)) =
      .ok (selections r 7 16 (.variable 12 "v") fs, []) :=
    selectionSet_tokens r hne 7 fun _ => rfl
  have hoperation : Parser.operation 0 .query (⟨.punctuator .parenL, 1⟩ ::
      ⟨.punctuator .dollar, 2⟩ :: ⟨.name "v", 3⟩ :: ⟨.punctuator .colon, 4⟩ ::
        ⟨.name "String", 5⟩ :: ⟨.punctuator .parenR, 6⟩ ::
          placed 7 (tokens r [.punctuator .dollar, .name "v"] fs)) =
        .ok (operation r 7 16 [⟨2, "v", .named "String" false, none, []⟩] (.variable 12 "v") fs,
          []) := by
    show ((selectionSet nestingLimit >>= fun ss => pure
      ⟨0, .query, none, [⟨2, "v", .named "String" false, none, []⟩], [], ss⟩) :
        Parser Operation) _ = _
    rw [bind_of_ok hset]
    rfl
  refine parseDefinitions_of_lexemes hlex (List.cons_ne_nil _ _) ?_
  show ((Parser.operation 0 .query >>= fun o => pure (.operation o)) : Parser Definition) _ = _
  exact bind_of_ok hoperation

end

end RecordQuery

end RecordGateway
