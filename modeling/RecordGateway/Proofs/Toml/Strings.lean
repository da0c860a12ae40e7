import RecordGateway.Toml.Scalar
import Mathlib.Data.List.Basic

/-!
# Strings of documents

A string stands between double or single quotes, on one line or on several between three of them.
`Quoted cs s`: the characters `cs`, quotes and all, write the string `s`. Every such spelling is
read back, whatever comes after it (`string?_quoted`).
-/

namespace RecordGateway.Toml

-- What holds of all characters in a list is decided along the list, not over all there are.
attribute [local instance (high)] List.decidableBAll

/-! ## Spelling -/

/-- The escapes of one letter, with the characters that they write. -/
def escapeLetters : List (Char × Char) :=
  [('b', '\x08'), ('t', '\t'), ('n', '\n'), ('f', '\x0c'), ('r', '\r'), ('"', '"'), ('\\', '\\')]

/-- Some characters after a backslash write one. -/
inductive Escape : List Char → Char → Prop
  | letter {l c : Char} (h : (l, c) ∈ escapeLetters) : Escape [l] c
  /-- Four digits of the code point. -/
  | short {ds : List Char} {c : Char} (hlength : ds.length = 4)
    (hcode : hexNumber? ds = some c.toNat) : Escape ('u' :: ds) c
  /-- Eight digits of the code point. -/
  | long {ds : List Char} {c : Char} (hlength : ds.length = 8)
    (hcode : hexNumber? ds = some c.toNat) : Escape ('U' :: ds) c

/-- Some characters between double quotes on one line write a string. -/
inductive Basic : List Char → List Char → Prop
  | nil : Basic [] []
  | plain {c : Char} {cs s : List Char} (hc : isPlain c) (hq : c ≠ '"') (hb : c ≠ '\\')
    (h : Basic cs s) : Basic (c :: cs) (c :: s)
  | escape {e cs s : List Char} {c : Char} (he : Escape e c) (h : Basic cs s) :
    Basic ('\\' :: e ++ cs) (c :: s)

/-- The end of a line. -/
def Newline (nl : List Char) : Prop := nl = ['\n'] ∨ nl = ['\r', '\n']

/-- Blanks and characters of line ends. -/
def isSpace (c : Char) : Bool := isBlank c || c == '\n' || c == '\r'

/-- Blanks and line ends. -/
inductive Spaces : List Char → Prop
  | nil : Spaces []
  | blank {c : Char} {cs : List Char} (hc : isBlank c) (h : Spaces cs) : Spaces (c :: cs)
  | newline {nl cs : List Char} (hnl : Newline nl) (h : Spaces cs) : Spaces (nl ++ cs)

/-- Some characters between three quotes write a string, which may go over several lines. One or two
quotes in a row may stand for themselves. -/
inductive Block (q : Char) : List Char → List Char → Prop
  | nil : Block q [] []
  | plain {c : Char} {cs s : List Char} (hc : isPlain c) (hq : c ≠ q) (hb : q = '"' → c ≠ '\\')
    (h : Block q cs s) : Block q (c :: cs) (c :: s)
  | newline {nl cs s : List Char} (hnl : Newline nl) (h : Block q cs s) :
    Block q (nl ++ cs) ('\n' :: s)
  | quotes {n : Nat} {cs s : List Char} (hpos : 0 < n) (hn : n < 3) (hnext : cs.head? ≠ some q)
    (h : Block q cs s) : Block q (List.replicate n q ++ cs) (List.replicate n q ++ s)
  /-- Escapes are for double quotes only. -/
  | escape {e cs s : List Char} {c : Char} (hq : q = '"') (he : Escape e c) (h : Block q cs s) :
    Block q ('\\' :: e ++ cs) (c :: s)
  /-- A backslash at the end of a line leaves out the line end and all space after it. -/
  | joined {bs nl ws cs s : List Char} (hq : q = '"') (hbs : ∀ b ∈ bs, isBlank b) (hnl : Newline nl)
    (hws : Spaces ws) (hnext : ∀ c ∈ cs.head?, isSpace c = false)
    (h : Block q cs s) : Block q ('\\' :: bs ++ nl ++ ws ++ cs) s

/-- Some characters, quotes and all, write a string. -/
inductive Quoted : List Char → List Char → Prop
  | basic {cs s : List Char} (h : Basic cs s) : Quoted ('"' :: cs ++ ['"']) s
  | literal {s : List Char} (h : ∀ c ∈ s, isPlain c ∧ c ≠ '\'') : Quoted ('\'' :: s ++ ['\'']) s
  /-- On several lines; a line end right after the first quotes does not count. -/
  | block {q : Char} {nl cs s : List Char} (hq : q = '"' ∨ q = '\'')
    (hnl : Newline nl ∨ nl = [] ∧ ∀ c ∈ cs.head?, c ≠ '\n' ∧ c ≠ '\r') (h : Block q cs s) :
    Quoted (List.replicate 3 q ++ nl ++ cs ++ List.replicate 3 q) s

/-! ## Escapes -/

theorem escape?_letter {l c : Char} (h : (l, c) ∈ escapeLetters) (rest : List Char) :
    escape? (l :: rest) = some (c, rest) := by
  simp only [escapeLetters, List.mem_cons, Prod.mk.injEq, List.not_mem_nil, or_false] at h
  rcases h with ⟨rfl, rfl⟩ | ⟨rfl, rfl⟩ | ⟨rfl, rfl⟩ | ⟨rfl, rfl⟩ | ⟨rfl, rfl⟩ | ⟨rfl, rfl⟩ |
    ⟨rfl, rfl⟩ <;> rfl

theorem codePoint?_digits {ds : List Char} {c : Char} {n : Nat} (hlength : ds.length = n)
    (hcode : hexNumber? ds = some c.toNat) (rest : List Char) :
    codePoint? n (ds ++ rest) = some (c, rest) := by
  subst hlength
  simp [codePoint?, hcode, CodePoint.char?_toNat]

theorem escape?_escape {e : List Char} {c : Char} (h : Escape e c) (rest : List Char) :
    escape? (e ++ rest) = some (c, rest) := by
  cases h with
  | letter h => exact escape?_letter h rest
  | short hlength hcode => exact codePoint?_digits hlength hcode rest
  | long hlength hcode => exact codePoint?_digits hlength hcode rest

theorem Escape.length_pos {e : List Char} {c : Char} (h : Escape e c) : 0 < e.length := by
  cases h <;> simp

/-! ## Strings on one line -/

theorem basic?_basic {cs s : List Char} (h : Basic cs s) (rest : List Char) : ∀ (fuel : Nat)
    (acc : List Char), cs.length < fuel →
      basic? fuel acc (cs ++ '"' :: rest) = some (String.ofList (acc.reverse ++ s), rest) := by
  induction h with
  | nil =>
    intro fuel acc hf
    obtain ⟨fuel, rfl⟩ := Nat.exists_eq_succ_of_ne_zero (Nat.ne_zero_of_lt hf)
    simp [basic?]
  | @plain c cs s hc hq hb _ ih =>
    intro fuel acc hf
    obtain ⟨fuel, rfl⟩ := Nat.exists_eq_succ_of_ne_zero (Nat.ne_zero_of_lt hf)
    simp only [List.length_cons] at hf
    simp only [List.cons_append, basic?, hq, ↓reduceIte, hb, hc]
    rw [ih fuel (c :: acc) (by omega)]
    simp
  | @escape e cs s c he _ ih =>
    intro fuel acc hf
    have hpos := he.length_pos
    obtain ⟨fuel, rfl⟩ := Nat.exists_eq_succ_of_ne_zero (Nat.ne_zero_of_lt hf)
    simp only [List.cons_append, List.length_cons, List.length_append] at hf
    simp only [List.cons_append, List.append_assoc, basic?, show ('\\' = '"') = False by decide,
      ↓reduceIte, escape?_escape he]
    rw [ih fuel (c :: acc) (by omega)]
    simp

theorem literal?_plain {s : List Char} (h : ∀ c ∈ s, isPlain c ∧ c ≠ '\'') (rest : List Char) :
    ∀ acc : List Char,
      literal? acc (s ++ '\'' :: rest) = some (String.ofList (acc.reverse ++ s), rest) := by
  induction s with
  | nil => simp [literal?]
  | cons c s ih =>
    intro acc
    obtain ⟨hc, hs⟩ := List.forall_mem_cons.1 h
    simp [literal?, hc.1, hc.2, ih hs]

/-! ## Space -/

theorem Newline.newline? {nl : List Char} (h : Newline nl) (rest : List Char) :
    Toml.newline? (nl ++ rest) = some rest := by
  rcases h with rfl | rfl <;> rfl

theorem Newline.ne_nil {nl : List Char} (h : Newline nl) : nl ≠ [] := by
  rcases h with rfl | rfl <;> simp

theorem newline?_of_plain {c : Char} (hc : isPlain c) (cs : List Char) :
    newline? (c :: cs) = none := by
  have hn : c ≠ '\n' := by rintro rfl; simp [isPlain] at hc
  have hr : c ≠ '\r' := by rintro rfl; simp [isPlain] at hc
  unfold newline?
  split <;> simp_all

theorem dropWhile_append_of_all {α : Type} {p : α → Bool} {as bs : List α} (has : ∀ a ∈ as, p a)
    (hbs : ∀ b ∈ bs.head?, p b = false) : (as ++ bs).dropWhile p = bs := by
  rw [List.dropWhile_append_of_pos has]
  cases bs with
  | nil => rfl
  | cons b bs => simp [hbs b rfl]

theorem Spaces.all {ws : List Char} (h : Spaces ws) : ∀ c ∈ ws, isSpace c := by
  induction h with
  | nil => simp
  | blank hc _ ih =>
    refine List.forall_mem_cons.2 ⟨?_, ih⟩
    simp [isSpace, hc]
  | newline hnl _ ih =>
    refine List.forall_mem_append.2 ⟨?_, ih⟩
    rcases hnl with rfl | rfl <;> decide

theorem hasBareReturn_blank {c : Char} (hc : isBlank c) (cs : List Char) :
    hasBareReturn (c :: cs) = hasBareReturn cs := by
  have hr : c ≠ '\r' := by rintro rfl; simp [isBlank] at hc
  conv_lhs => unfold hasBareReturn
  split <;> simp_all

theorem hasBareReturn_newline {nl : List Char} (hnl : Newline nl) (cs : List Char) :
    hasBareReturn (nl ++ cs) = hasBareReturn cs := by
  rcases hnl with rfl | rfl <;> simp [hasBareReturn]

theorem Spaces.hasBareReturn {ws : List Char} (h : Spaces ws) : hasBareReturn ws = false := by
  induction h with
  | nil => rfl
  | blank hc _ ih => rw [hasBareReturn_blank hc, ih]
  | newline hnl _ ih => rw [hasBareReturn_newline hnl, ih]

theorem Spaces.of_blanks {bs ws : List Char} (hbs : ∀ b ∈ bs, isBlank b) (h : Spaces ws) :
    Spaces (bs ++ ws) := by
  induction bs with
  | nil => exact h
  | cons b bs ih =>
    obtain ⟨hb, hbs⟩ := List.forall_mem_cons.1 hbs
    exact .blank hb (ih hbs)

/-! ## Strings on several lines -/

section

variable {q : Char} {cs s rest : List Char}

theorem Block.eq_nil (h : Block q cs s) (hcs : cs = []) : s = [] := by
  cases h with
  | nil => rfl
  | newline hnl _ => exact absurd (List.append_eq_nil_iff.1 hcs).1 hnl.ne_nil
  | quotes hpos =>
    have hzero := (List.replicate_eq_nil_iff _).1 (List.append_eq_nil_iff.1 hcs).1
    omega
  | _ => simp at hcs

theorem closing_replicate {n : Nat} (hn : n ≤ 5) (hnext : rest.head? ≠ some q) :
    closing q (List.replicate n q ++ rest) = if n < 3 then (n, none) else (n - 3, some rest) := by
  have htake : (List.replicate n q ++ rest).takeWhile (· == q) = List.replicate n q := by
    rw [List.takeWhile_append_of_pos (by simp)]
    cases rest with
    | nil => simp
    | cons c rest =>
      have hc : c ≠ q := by simpa using hnext
      simp [hc]
  have hmin : min n 5 = n := by omega
  by_cases hlt : n < 3 <;> simp [closing, htake, hmin, hlt]

/-- Of one or two quotes that stand for themselves it is told from what comes next whether the
string ends: then they are counted together with the closing ones. -/
theorem closing_quotes {n : Nat} (hn : n < 3) (hnext : cs.head? ≠ some q)
    (hrest : rest.head? ≠ some q) :
    closing q (List.replicate n q ++ (cs ++ (List.replicate 3 q ++ rest))) =
      (n, if cs = [] then some rest else none) := by
  cases cs with
  | nil =>
    rw [List.nil_append, ← List.append_assoc, List.replicate_append_replicate,
      closing_replicate (by omega) hrest]
    simp
  | cons c cs =>
    rw [closing_replicate (by omega) (by simpa using hnext)]
    simp [hn]

/-! ### What the readers take -/

/-- A reader of strings on several lines takes what they are made of, one after the other. -/
structure ReadsBlocks (q : Char) (read : Nat → List Char → List Char → Read String) : Prop where
  ends {n m : Nat} {cs rest : List Char} (fuel : Nat) (acc : List Char) (hpos : 0 < n)
    (hclose : closing q (List.replicate n q ++ cs) = (m, some rest)) :
    read (fuel + 1) acc (List.replicate n q ++ cs) =
      some (String.ofList (List.replicate m q ++ acc).reverse, rest)
  quotes {n : Nat} {cs : List Char} (fuel : Nat) (acc : List Char) (hpos : 0 < n)
    (hclose : closing q (List.replicate n q ++ cs) = (n, none)) :
    read (fuel + 1) acc (List.replicate n q ++ cs) = read fuel (List.replicate n q ++ acc) cs
  plain {c : Char} {cs : List Char} (fuel : Nat) (acc : List Char) (hc : isPlain c) (hq : c ≠ q)
    (hb : q = '"' → c ≠ '\\') : read (fuel + 1) acc (c :: cs) = read fuel (c :: acc) cs
  newline {nl cs : List Char} (fuel : Nat) (acc : List Char) (hnl : Newline nl) :
    read (fuel + 1) acc (nl ++ cs) = read fuel ('\n' :: acc) cs
  escape {e cs : List Char} {c : Char} (fuel : Nat) (acc : List Char) (hq : q = '"')
    (he : Escape e c) : read (fuel + 1) acc ('\\' :: (e ++ cs)) = read fuel (c :: acc) cs
  joined {bs nl ws cs : List Char} (fuel : Nat) (acc : List Char) (hq : q = '"')
    (hbs : ∀ b ∈ bs, isBlank b) (hnl : Newline nl) (hws : Spaces ws)
    (hnext : ∀ c ∈ cs.head?, isSpace c = false) :
    read (fuel + 1) acc ('\\' :: (bs ++ (nl ++ (ws ++ cs)))) = read fuel acc cs

/-- A string on several lines is read up to the three closing quotes. -/
theorem ReadsBlocks.block {read : Nat → List Char → List Char → Read String}
    (hread : ReadsBlocks q read) (h : Block q cs s) (hrest : rest.head? ≠ some q) :
    ∀ (fuel : Nat) (acc : List Char), cs.length < fuel →
      read fuel acc (cs ++ (List.replicate 3 q ++ rest)) =
        some (String.ofList (acc.reverse ++ s), rest) := by
  induction h with
  | nil =>
    intro fuel acc hf
    obtain ⟨fuel, rfl⟩ := Nat.exists_eq_succ_of_ne_zero (Nat.ne_zero_of_lt hf)
    have hclose := closing_replicate (n := 3) (by omega) hrest
    rw [List.nil_append, hread.ends fuel acc (by omega) hclose]
    simp
  | @plain c cs s hc hq hb _ ih =>
    intro fuel acc hf
    obtain ⟨fuel, rfl⟩ := Nat.exists_eq_succ_of_ne_zero (Nat.ne_zero_of_lt hf)
    rw [List.length_cons] at hf
    rw [List.cons_append, hread.plain fuel acc hc hq hb, ih fuel (c :: acc) (by omega)]
    simp
  | @newline nl cs s hnl _ ih =>
    intro fuel acc hf
    have hlength := List.length_pos_of_ne_nil hnl.ne_nil
    obtain ⟨fuel, rfl⟩ := Nat.exists_eq_succ_of_ne_zero (Nat.ne_zero_of_lt hf)
    rw [List.length_append] at hf
    rw [List.append_assoc, hread.newline fuel acc hnl, ih fuel _ (by omega)]
    simp
  | @quotes n cs s hpos hn hnext h ih =>
    intro fuel acc hf
    obtain ⟨fuel, rfl⟩ := Nat.exists_eq_succ_of_ne_zero (Nat.ne_zero_of_lt hf)
    rw [List.length_append, List.length_replicate] at hf
    have hclose := closing_quotes hn hnext hrest
    rw [List.append_assoc]
    by_cases hcs : cs = []
    · rw [if_pos hcs] at hclose
      rw [hread.ends fuel acc hpos hclose, h.eq_nil hcs]
      simp
    · rw [if_neg hcs] at hclose
      rw [hread.quotes fuel acc hpos hclose, ih fuel _ (by omega)]
      simp
  | @escape e cs s c hq he _ ih =>
    intro fuel acc hf
    have hpos := he.length_pos
    obtain ⟨fuel, rfl⟩ := Nat.exists_eq_succ_of_ne_zero (Nat.ne_zero_of_lt hf)
    simp only [List.cons_append, List.length_cons, List.length_append] at hf
    rw [List.cons_append, List.cons_append, List.append_assoc, hread.escape fuel acc hq he,
      ih fuel _ (by omega)]
    simp
  | @joined bs nl ws cs s hq hbs hnl hws hnext _ ih =>
    intro fuel acc hf
    obtain ⟨fuel, rfl⟩ := Nat.exists_eq_succ_of_ne_zero (Nat.ne_zero_of_lt hf)
    simp only [List.cons_append, List.length_cons, List.length_append] at hf
    have hnext' : ∀ c ∈ (cs ++ (List.replicate 3 q ++ rest)).head?, isSpace c = false := by
      cases cs with
      | nil => simp [hq, List.replicate_succ, isSpace, isBlank]
      | cons c cs => exact hnext
    simp only [List.cons_append, List.append_assoc]
    rw [hread.joined fuel acc hq hbs hnl hws hnext', ih fuel _ (by omega)]

theorem readsBlocks_multiLiteral : ReadsBlocks '\'' multiLiteral? where
  ends fuel acc hpos hclose := by
    obtain ⟨n, rfl⟩ := Nat.exists_eq_succ_of_ne_zero (Nat.ne_zero_of_lt hpos)
    rw [List.replicate_succ, List.cons_append] at hclose ⊢
    simp only [multiLiteral?, ↓reduceIte, hclose]
  quotes fuel acc hpos hclose := by
    obtain ⟨n, rfl⟩ := Nat.exists_eq_succ_of_ne_zero (Nat.ne_zero_of_lt hpos)
    rw [List.replicate_succ, List.cons_append] at hclose ⊢
    simp only [multiLiteral?, ↓reduceIte, hclose, Nat.succ_sub_one]
    rw [List.drop_left' (by simp), ← List.replicate_succ]
  plain fuel acc hc hq _ := by
    simp only [multiLiteral?, hq, ↓reduceIte, newline?_of_plain hc, hc]
  newline fuel acc hnl := by
    have hread := hnl.newline?
    rcases hnl with rfl | rfl <;> simp_all [multiLiteral?]
  escape _ _ hq := by cases hq
  joined _ _ hq := by cases hq

/-! ### Escapes on several lines -/

theorem escape?_space {c : Char} (hc : isSpace c) : escape? (c :: cs) = none := by
  simp only [isSpace, isBlank, Bool.or_eq_true, beq_iff_eq] at hc
  rcases hc with ((rfl | rfl) | rfl) | rfl <;> rfl

/-- What a backslash leaves out: blanks, the end of the line and all space after it. -/
theorem continuation?_spaces {bs nl ws : List Char} (hbs : ∀ b ∈ bs, isBlank b)
    (hnl : Newline nl) (hws : Spaces ws) (hnext : ∀ c ∈ cs.head?, isSpace c = false) :
    continuation? (bs ++ (nl ++ (ws ++ cs))) = some cs := by
  have hline : ∀ c ∈ (nl ++ (ws ++ cs)).head?, isBlank c = false := by
    rcases hnl with rfl | rfl <;> simp [isBlank]
  rw [continuation?, dropWhile_append_of_all hbs hline, hnl.newline?, Option.map_some]
  exact congrArg some (dropWhile_append_of_all hws.all hnext)

theorem multiBasic?_joined {bs nl ws : List Char} (hbs : ∀ b ∈ bs, isBlank b) (hnl : Newline nl)
    (hws : Spaces ws) (hnext : ∀ c ∈ cs.head?, isSpace c = false) (fuel : Nat) (acc : List Char) :
    multiBasic? (fuel + 1) acc ('\\' :: (bs ++ (nl ++ (ws ++ cs)))) =
      multiBasic? fuel acc cs := by
  have hspaces : Spaces (bs ++ (nl ++ ws)) := .of_blanks hbs (.newline hnl hws)
  have hescape : escape? (bs ++ (nl ++ (ws ++ cs))) = none := by
    have hne : bs ++ (nl ++ ws) ≠ [] := by simp [hnl.ne_nil]
    obtain ⟨c, cs', hc⟩ := List.exists_cons_of_ne_nil hne
    have hspace := hspaces.all c (hc ▸ List.mem_cons_self)
    rw [show bs ++ (nl ++ (ws ++ cs)) = c :: (cs' ++ cs) by simp [← List.cons_append, ← hc]]
    exact escape?_space hspace
  have htake : (bs ++ (nl ++ (ws ++ cs))).take
      ((bs ++ (nl ++ (ws ++ cs))).length - cs.length) = bs ++ (nl ++ ws) := by
    have happend : bs ++ (nl ++ (ws ++ cs)) = bs ++ (nl ++ ws) ++ cs := by simp
    rw [happend, List.length_append, Nat.add_sub_cancel, List.take_left]
  simp only [multiBasic?, show ('\\' = '"') = False by decide, ↓reduceIte, hescape,
    continuation?_spaces hbs hnl hws hnext, htake, hspaces.hasBareReturn, Bool.false_eq_true]

theorem readsBlocks_multiBasic : ReadsBlocks '"' multiBasic? where
  ends fuel acc hpos hclose := by
    obtain ⟨n, rfl⟩ := Nat.exists_eq_succ_of_ne_zero (Nat.ne_zero_of_lt hpos)
    rw [List.replicate_succ, List.cons_append] at hclose ⊢
    simp only [multiBasic?, ↓reduceIte, hclose]
  quotes fuel acc hpos hclose := by
    obtain ⟨n, rfl⟩ := Nat.exists_eq_succ_of_ne_zero (Nat.ne_zero_of_lt hpos)
    rw [List.replicate_succ, List.cons_append] at hclose ⊢
    simp only [multiBasic?, ↓reduceIte, hclose, Nat.succ_sub_one]
    rw [List.drop_left' (by simp), ← List.replicate_succ]
  plain fuel acc hc hq hb := by
    simp only [multiBasic?, hq, hb rfl, ↓reduceIte, newline?_of_plain hc, hc]
  newline fuel acc hnl := by
    have hread := hnl.newline?
    rcases hnl with rfl | rfl <;> simp_all [multiBasic?]
  escape fuel acc _ he := by
    simp [multiBasic?, escape?_escape he]
  joined fuel acc _ hbs hnl hws hnext := multiBasic?_joined hbs hnl hws hnext fuel acc

end

/-! ## Strings of any kind -/

theorem Basic.head_ne {cs s : List Char} (h : Basic cs s) : cs.head? ≠ some '"' := by
  cases h with
  | nil => simp
  | plain _ hq => simpa using hq
  | escape => simp

theorem string?_basic {cs : List Char} (h : ∀ ds, cs ≠ '"' :: '"' :: ds) :
    string? ('"' :: cs) = basic? cs.length [] cs := by
  unfold string?
  split <;> simp_all

theorem string?_literal {cs : List Char} (h : ∀ ds, cs ≠ '\'' :: '\'' :: ds) :
    string? ('\'' :: cs) = literal? [] cs := by
  unfold string?
  split <;> simp_all

/-- Quotes that are followed by one more quote at most do not open a string on several lines. -/
theorem not_opens {q : Char} {cs rest : List Char} (hcs : cs.head? ≠ some q)
    (hrest : rest.head? ≠ some q) (ds : List Char) : cs ++ q :: rest ≠ q :: q :: ds := by
  cases cs with
  | nil =>
    intro h
    exact hrest (by rw [(List.cons.inj h).2]; rfl)
  | cons c cs =>
    intro h
    exact hcs (by rw [(List.cons.inj h).1]; rfl)

theorem afterNewline_append {nl cs : List Char}
    (h : Newline nl ∨ nl = [] ∧ ∀ c ∈ cs.head?, c ≠ '\n' ∧ c ≠ '\r') :
    afterNewline (nl ++ cs) = cs := by
  rcases h with hnl | ⟨rfl, hcs⟩
  · rw [afterNewline, hnl.newline?]
    rfl
  · cases cs with
    | nil => rfl
    | cons c cs =>
      obtain ⟨hn, hr⟩ := hcs c rfl
      have hnone : newline? (c :: cs) = none := by
        unfold newline?
        split <;> simp_all
      rw [List.nil_append, afterNewline, hnone]
      rfl

/-- A string is read up to its last quote, as long as no further quote comes after it. -/
theorem string?_quoted {cs s rest : List Char} (h : Quoted cs s) (hdouble : rest.head? ≠ some '"')
    (hsingle : rest.head? ≠ some '\'') :
    string? (cs ++ rest) = some (String.ofList s, rest) := by
  cases h with
  | @basic cs _ h =>
    simp only [List.cons_append, List.append_assoc, List.nil_append]
    rw [string?_basic (not_opens h.head_ne hdouble), basic?_basic h rest _ [] (by simp)]
    simp
  | literal h =>
    have hhead : s.head? ≠ some '\'' := fun hq => (h '\'' (List.mem_of_head? hq)).2 rfl
    simp only [List.cons_append, List.append_assoc, List.nil_append]
    rw [string?_literal (not_opens hhead hsingle), literal?_plain h rest []]
    simp
  | @block q nl cs _ hq hnl h =>
    have hafter : afterNewline (nl ++ (cs ++ (List.replicate 3 q ++ rest))) =
        cs ++ (List.replicate 3 q ++ rest) := by
      refine afterNewline_append (hnl.imp_right fun ⟨hnil, hcs⟩ => ⟨hnil, ?_⟩)
      cases cs with
      | nil => rcases hq with rfl | rfl <;> simp [List.replicate_succ]
      | cons c cs => exact hcs
    simp only [List.append_assoc]
    rcases hq with rfl | rfl
    · show multiBasic? (nl ++ (cs ++ (_ ++ rest))).length []
        (afterNewline (nl ++ (cs ++ (_ ++ rest)))) = _
      rw [hafter, readsBlocks_multiBasic.block h hdouble _ [] (by simp; omega)]
      simp
    · show multiLiteral? (nl ++ (cs ++ (_ ++ rest))).length []
        (afterNewline (nl ++ (cs ++ (_ ++ rest)))) = _
      rw [hafter, readsBlocks_multiLiteral.block h hsingle _ [] (by simp; omega)]
      simp

/-! ## A spelling of each string -/

/-- A character as it is written between double quotes. -/
def escapeChar (c : Char) : List Char :=
  if c = '"' ∨ c = '\\' then ['\\', c]
  else if isPlain c then [c]
  else ['\\', 'u', '0', '0', Nat.digitChar (c.toNat / 16), Nat.digitChar (c.toNat % 16)]

theorem hexNumber?_ascii : ∀ n < 128,
    hexNumber? ['0', '0', Nat.digitChar (n / 16), Nat.digitChar (n % 16)] = some n := by
  decide

theorem toNat_lt_of_not_plain {c : Char} (hc : isPlain c = false) : c.toNat < 128 := by
  simp only [isPlain, Bool.or_eq_false_iff, Bool.and_eq_false_iff, decide_eq_false_iff_not,
    bne_eq_false_iff_eq] at hc
  omega

theorem basic_escapeChar {cs s : List Char} (c : Char) (h : Basic cs s) :
    Basic (escapeChar c ++ cs) (c :: s) := by
  unfold escapeChar
  split
  · rename_i hc
    have hletter : (c, c) ∈ escapeLetters := by rcases hc with rfl | rfl <;> decide
    exact .escape (.letter hletter) h
  · rename_i hc
    split
    · rename_i hplain
      exact .plain hplain (fun hq => hc (.inl hq)) (fun hb => hc (.inr hb)) h
    · rename_i hplain
      have hlt := toNat_lt_of_not_plain (Bool.eq_false_iff.2 hplain)
      exact .escape (.short rfl (hexNumber?_ascii c.toNat hlt)) h

theorem basic_flatMap_escapeChar : ∀ s : List Char, Basic (s.flatMap escapeChar) s
  | [] => .nil
  | c :: s => basic_escapeChar c (basic_flatMap_escapeChar s)

end RecordGateway.Toml
