import RecordGateway.Toml.Parser
import RecordGateway.Proofs.Json.Reading
import RecordGateway.Proofs.Toml.Strings

/-!
# Values of documents

A value is read off the front of a text up to where it ends. `Reads room cs v`: the characters `cs`
are read as the value `v`, whatever comes behind its end. Strings, integers and truth values in any
spelling are read so (`Scalar.reads`).
-/

namespace RecordGateway.Toml

-- What holds of all characters in a list is decided along the list, not over all there are.
attribute [local instance (high)] List.decidableBAll

/-! ## Where a value ends -/

/-- The characters that may come behind a value, blanks apart. -/
def isStop (c : Char) : Bool := c ∈ ['#', '\n', '\r', ',', '}', ']']

/-- A value may end here: there are only blanks, or blanks and a character that stops it. -/
def Ends (rest : List Char) : Prop := ∀ c ∈ (skipBlanks rest).head?, isStop c

/-- Some characters are read as a value, whatever comes behind its end. -/
structure Reads (room : Nat) (cs : List Char) (v : Toml) : Prop where
  head : ∃ c cs', cs = c :: cs' ∧ isBlank c = false
  value : ∀ rest, Ends rest → value? room (cs ++ rest) = some (v, rest)

theorem Ends.head {rest : List Char} (h : Ends rest) : ∀ c ∈ rest.head?, isBlank c ∨ isStop c := by
  cases rest with
  | nil => simp
  | cons c rest =>
    intro d hd
    obtain rfl := Option.some.inj hd
    cases hc : isBlank c with
    | true => exact .inl rfl
    | false => exact .inr (h c (by simp [skipBlanks, hc]))

/-- The first character behind a value has a property that blanks and stops have. -/
theorem Ends.head_of {rest : List Char} (h : Ends rest) {p : Char → Prop}
    (hp : ∀ c ∈ [' ', '\t', '#', '\n', '\r', ',', '}', ']'], p c) : ∀ c ∈ rest.head?, p c := by
  intro c hc
  refine hp c ?_
  rcases h.head c hc with hb | hs
  · simp only [isBlank, Bool.or_eq_true, beq_iff_eq] at hb
    rcases hb with rfl | rfl <;> decide
  · simp only [isStop, decide_eq_true_eq] at hs
    exact List.mem_cons_of_mem _ (List.mem_cons_of_mem _ hs)

/-! ## Numbers -/

/-- Some characters write digits, with single underscores between them. -/
inductive Digits (ok : Char → Bool) : List Char → List Char → Prop
  | last {c : Char} (hc : ok c) : Digits ok [c] [c]
  | digit {c : Char} {cs ds : List Char} (hc : ok c) (h : Digits ok cs ds) :
    Digits ok (c :: cs) (c :: ds)
  | underscore {c : Char} {cs ds : List Char} (hc : ok c) (h : Digits ok cs ds) :
    Digits ok (c :: '_' :: cs) (c :: ds)

/-- Some characters write decimal digits, of which the first is zero only if it stands alone. -/
inductive Decimal : List Char → List Char → Prop
  | zero : Decimal ['0'] ['0']
  | digits {cs ds : List Char} (h : Digits Char.isDigit cs ds) (hzero : cs.head? ≠ some '0') :
    Decimal cs ds

/-- Some characters write an integer. -/
inductive Integer : List Char → Int → Prop
  | decimal {cs ds : List Char} (h : Decimal cs ds) : Integer cs (numberOf 10 ds)
  | plus {cs ds : List Char} (h : Decimal cs ds) : Integer ('+' :: cs) (numberOf 10 ds)
  | minus {cs ds : List Char} (h : Decimal cs ds) : Integer ('-' :: cs) (-(numberOf 10 ds : Int))
  | hexadecimal {cs ds : List Char} (h : Digits isHexDigit cs ds) :
    Integer ('0' :: 'x' :: cs) (numberOf 16 ds)
  | octal {cs ds : List Char} (h : Digits isOctal cs ds) :
    Integer ('0' :: 'o' :: cs) (numberOf 8 ds)
  | binary {cs ds : List Char} (h : Digits isBinary cs ds) :
    Integer ('0' :: 'b' :: cs) (numberOf 2 ds)

section

variable {ok : Char → Bool} {cs ds rest : List Char} {c : Char}

theorem moreDigits_digits (h : Digits ok cs ds) (hunder : ok '_' = false)
    (hrest : ∀ c ∈ rest.head?, ok c = false ∧ c ≠ '_') : ∀ (acc : List Char) (due : Bool),
      moreDigits ok acc due (cs ++ rest) = some (acc.reverse ++ ds, rest) := by
  induction h with
  | @last c hc =>
    intro acc due
    cases rest with
    | nil => simp [moreDigits, hc]
    | cons d rest =>
      obtain ⟨hd, hne⟩ := hrest d rfl
      simp [moreDigits, hc, hd, hne]
  | digit hc _ ih =>
    intro acc due
    simp [moreDigits, hc, ih]
  | underscore hc _ ih =>
    intro acc due
    simp [moreDigits, hc, hunder, ih]

theorem digits?_digits (h : Digits ok cs ds) (hunder : ok '_' = false)
    (hrest : ∀ c ∈ rest.head?, ok c = false ∧ c ≠ '_') :
    digits? ok (cs ++ rest) = some (ds, rest) :=
  moreDigits_digits h hunder hrest [] true

theorem Digits.all (h : Digits ok cs ds) : ∀ c ∈ cs, ok c ∨ c = '_' := by
  induction h with
  | last hc => simp [hc]
  | digit hc _ ih => exact List.forall_mem_cons.2 ⟨.inl hc, ih⟩
  | underscore hc _ ih =>
    exact List.forall_mem_cons.2 ⟨.inl hc, List.forall_mem_cons.2 ⟨.inr rfl, ih⟩⟩

theorem Digits.head (h : Digits ok cs ds) : ∃ c cs', cs = c :: cs' ∧ ok c := by
  cases h with
  | last hc => exact ⟨_, _, rfl, hc⟩
  | digit hc => exact ⟨_, _, rfl, hc⟩
  | underscore hc => exact ⟨_, _, rfl, hc⟩

theorem Decimal.head (h : Decimal cs ds) : ∃ c cs', cs = c :: cs' ∧ c.isDigit := by
  cases h with
  | zero => exact ⟨_, _, rfl, by decide⟩
  | digits h => exact h.head

theorem Decimal.all (h : Decimal cs ds) : ∀ c ∈ cs, c.isDigit ∨ c = '_' := by
  cases h with
  | zero => decide
  | digits h => exact h.all

theorem sign_of_digit (hc : c.isDigit) : sign (c :: cs) = ([], c :: cs) := by
  unfold sign
  split
  · simp_all
  · simp_all
  · rfl

theorem decimal?_decimal {s text : List Char} (h : Decimal cs ds)
    (hsign : sign text = (s, cs ++ rest))
    (hrest : ∀ c ∈ rest.head?, c.isDigit = false ∧ c ≠ '_') :
    decimal? text = some ((s, ds), rest) := by
  simp only [decimal?, hsign]
  cases h with
  | zero => rfl
  | digits h hzero =>
    obtain ⟨c, cs', rfl, -⟩ := h.head
    have hne : c ≠ '0' := by simpa using hzero
    have hread := digits?_digits h (by decide) hrest
    rw [List.cons_append] at hread ⊢
    split
    · simp_all
    · simp [hread]

/-! ### What is no other number -/

theorem exponent?_eq_none (h : ∀ c ∈ rest.head?, c ≠ 'e' ∧ c ≠ 'E') : exponent? rest = none := by
  cases rest with
  | nil => rfl
  | cons c rest =>
    obtain ⟨he, hE⟩ := h c rfl
    simp [exponent?, he, hE]

theorem float?_eq_none {text s : List Char} (h : decimal? text = some ((s, ds), rest))
    (hrest : ∀ c ∈ rest.head?, c ≠ '.' ∧ c ≠ 'e' ∧ c ≠ 'E') : float? text = none := by
  have hexponent : exponent? rest = none := exponent?_eq_none fun c hc => (hrest c hc).2
  unfold float?
  cases rest with
  | nil => simp [h, hexponent]
  | cons c rest =>
    have hdot : c ≠ '.' := (hrest c rfl).1
    simp only [h]
    split <;> simp_all

theorem field?_eq_some {count low high n : Nat} {cs rest : List Char}
    (h : field? count low high cs = some (n, rest)) :
    ∃ ds, ds.length = count ∧ (∀ c ∈ ds, c.isDigit) ∧ cs = ds ++ rest := by
  simp only [field?, Option.ite_none_right_eq_some, Bool.and_eq_true, decide_eq_true_eq,
    List.all_eq_true, Option.some.injEq, Prod.mk.injEq] at h
  obtain ⟨⟨⟨⟨hlength, hdigits⟩, -⟩, -⟩, -, rfl⟩ := h
  exact ⟨cs.take count, hlength, hdigits, (List.take_append_drop count cs).symm⟩

theorem char?_eq_some {c : Char} {cs rest : List Char} (h : char? c cs = some rest) :
    cs = c :: rest := by
  cases cs with
  | nil => simp [char?] at h
  | cons d cs =>
    simp only [char?, Option.ite_none_right_eq_some, Option.some.injEq] at h
    rw [h.1, h.2]

/-- A date starts with digits and a hyphen, and a time with digits and a colon. -/
theorem digits_of_datetime? {cs : List Char} (h : datetime? cs ≠ none) :
    ∃ ds c rest, ds ≠ [] ∧ (∀ d ∈ ds, d.isDigit) ∧ (c = '-' ∨ c = ':') ∧
      cs = ds ++ c :: rest := by
  have hdate : date? cs ≠ none ∨ time? cs ≠ none := by
    by_contra hno
    obtain ⟨hdate, htime⟩ := not_or.1 hno
    exact h (by simp [datetime?, not_not.1 hdate, not_not.1 htime])
  rcases hdate with hdate | htime
  · obtain ⟨rest, hrest⟩ := Option.ne_none_iff_exists'.1 hdate
    obtain ⟨⟨n, rest₁⟩, hfield, hrest⟩ := Option.bind_eq_some_iff.1 hrest
    obtain ⟨rest₂, hchar, -⟩ := Option.bind_eq_some_iff.1 hrest
    obtain ⟨ds, hlength, hdigits, rfl⟩ := field?_eq_some hfield
    obtain rfl := char?_eq_some hchar
    exact ⟨ds, '-', rest₂, List.ne_nil_of_length_pos (by omega), hdigits, .inl rfl, rfl⟩
  · obtain ⟨rest, hrest⟩ := Option.ne_none_iff_exists'.1 htime
    obtain ⟨⟨n, rest₁⟩, hfield, hrest⟩ := Option.bind_eq_some_iff.1 hrest
    obtain ⟨rest₂, hchar, -⟩ := Option.bind_eq_some_iff.1 hrest
    obtain ⟨ds, hlength, hdigits, rfl⟩ := field?_eq_some hfield
    obtain rfl := char?_eq_some hchar
    exact ⟨ds, ':', rest₂, List.ne_nil_of_length_pos (by omega), hdigits, .inr rfl, rfl⟩

theorem datetime?_of_head (h : ∀ c ∈ cs.head?, c.isDigit = false) : datetime? cs = none := by
  by_contra hsome
  obtain ⟨ds, c, rest, hne, hdigits, -, rfl⟩ := digits_of_datetime? hsome
  obtain ⟨d, ds, rfl⟩ := List.exists_cons_of_ne_nil hne
  exact Bool.false_ne_true ((h d rfl).symm.trans (hdigits d List.mem_cons_self))

theorem datetime?_of_dropWhile (h : ∀ c ∈ (cs.dropWhile Char.isDigit).head?, c ≠ '-' ∧ c ≠ ':') :
    datetime? cs = none := by
  by_contra hsome
  obtain ⟨ds, c, rest, -, hdigits, hc, rfl⟩ := digits_of_datetime? hsome
  have hdigit : c.isDigit = false := by rcases hc with rfl | rfl <;> decide
  have hdrop : (ds ++ c :: rest).dropWhile Char.isDigit = c :: rest :=
    dropWhile_append_of_all hdigits (by simp [hdigit])
  obtain ⟨hdash, hcolon⟩ := h c (by rw [hdrop]; rfl)
  exact hc.elim hdash hcolon

/-- Digits with underscores between them come to an end at an underscore or behind them. -/
theorem head_dropWhile_digits (hcs : ∀ c ∈ cs, c.isDigit ∨ c = '_')
    (hrest : ∀ c ∈ rest.head?, c.isDigit = false) :
    ∀ c ∈ ((cs ++ rest).dropWhile Char.isDigit).head?, c = '_' ∨ c ∈ rest.head? := by
  induction cs with
  | nil =>
    have hdrop : ([] ++ rest).dropWhile Char.isDigit = rest :=
      dropWhile_append_of_all (by simp) hrest
    rw [hdrop]
    exact fun c hc => .inr hc
  | cons d cs ih =>
    obtain ⟨hd, hcs⟩ := List.forall_mem_cons.1 hcs
    rcases hd with hd | rfl
    · simpa [hd] using ih hcs
    · have hunder : Char.isDigit '_' = false := by decide
      simp [hunder]

/-! ### Reading integers -/

theorem value?_number {room : Nat} {text : List Char} {v : Toml × List Char}
    (hhead : ∃ c cs, text = c :: cs ∧ (c.isDigit ∨ c = '+' ∨ c = '-'))
    (hdatetime : datetime? text = none) (hfloat : float? text = none)
    (hinteger : integer? text = some v) : value? room text = some v := by
  obtain ⟨c, cs, rfl, hc⟩ := hhead
  have hother : c ≠ '"' ∧ c ≠ '\'' ∧ c ≠ '[' ∧ c ≠ '\x7b' ∧ c ≠ 't' ∧ c ≠ 'f' := by
    refine ⟨?_, ?_, ?_, ?_, ?_, ?_⟩ <;> rintro rfl <;> revert hc <;> decide
  obtain ⟨hq, ha, hb, hbrace, ht, hf⟩ := hother
  unfold value?
  simp [hq, ha, hb, hbrace, ht, hf, hdatetime, hfloat, hinteger]

/-- A decimal integer: what stands before its digits is told from them by its sign. -/
theorem integer?_decimal {s text : List Char} {n : Int}
    (hread : decimal? text = some ((s, ds), rest))
    (hradix : ∀ c cs', text = '0' :: c :: cs' → c ≠ 'x' ∧ c ≠ 'o' ∧ c ≠ 'b')
    (hn : n = if s = ['-'] then -(numberOf 10 ds : Int) else numberOf 10 ds)
    (hrange : integerInRange n) : integer? text = some (.integer n, rest) := by
  unfold integer?
  split
  · exact absurd rfl (hradix _ _ rfl).1
  · exact absurd rfl (hradix _ _ rfl).2.1
  · exact absurd rfl (hradix _ _ rfl).2.2
  · simp only [hread, beq_iff_eq, ← hn, hrange, ↓reduceIte]

theorem value?_decimal {s : List Char} {n : Int} {room : Nat} (h : Decimal cs ds)
    (hs : s = [] ∨ s = ['+'] ∨ s = ['-'])
    (hn : n = if s = ['-'] then -(numberOf 10 ds : Int) else numberOf 10 ds)
    (hrange : integerInRange n) (hrest : Ends rest) :
    value? room (s ++ (cs ++ rest)) = some (.integer n, rest) := by
  have hall := h.all
  obtain ⟨c, cs', rfl, hc⟩ := h.head
  have hread : decimal? (s ++ (c :: cs' ++ rest)) = some ((s, ds), rest) := by
    refine decimal?_decimal h ?_ (hrest.head_of (by decide))
    rcases hs with rfl | rfl | rfl
    · exact sign_of_digit hc
    · rfl
    · rfl
  have hfloat : float? (s ++ (c :: cs' ++ rest)) = none :=
    float?_eq_none hread (hrest.head_of (by decide))
  refine value?_number ?_ ?_ hfloat (integer?_decimal hread ?_ hn hrange)
  · rcases hs with rfl | rfl | rfl
    · exact ⟨c, _, rfl, .inl hc⟩
    · exact ⟨_, _, rfl, .inr (.inl rfl)⟩
    · exact ⟨_, _, rfl, .inr (.inr rfl)⟩
  · rcases hs with rfl | rfl | rfl
    · refine datetime?_of_dropWhile fun d hd => ?_
      rcases head_dropWhile_digits hall (hrest.head_of (by decide)) d hd with rfl | hd
      · decide
      · exact hrest.head_of (p := fun c => c ≠ '-' ∧ c ≠ ':') (by decide) d hd
    · exact datetime?_of_head (by simp)
    · exact datetime?_of_head (by simp)
  · intro d ds' htext
    rcases hs with rfl | rfl | rfl
    · obtain ⟨rfl, -⟩ := List.cons.inj htext
      cases h with
      | zero =>
        rw [List.nil_append, List.singleton_append, List.cons.injEq] at htext
        have hd : d ∈ rest.head? := by rw [htext.2]; rfl
        exact hrest.head_of (p := fun c => c ≠ 'x' ∧ c ≠ 'o' ∧ c ≠ 'b') (by decide) d hd
      | digits _ hzero => exact absurd rfl hzero
    · cases htext
    · cases htext

theorem value?_prefixed {x : Char} {room : Nat} {text : List Char} {v : Toml × List Char}
    (hx : x ∈ ['x', 'o', 'b']) (hinteger : integer? ('0' :: x :: text) = some v) :
    value? room ('0' :: x :: text) = some v := by
  have hletter : ∀ c ∈ ['x', 'o', 'b'], c.isDigit = false ∧ c ≠ '-' ∧ c ≠ ':' ∧ c ≠ '.' ∧
      c ≠ 'e' ∧ c ≠ 'E' := by decide
  obtain ⟨hdigit, hdash, hcolon, hdot⟩ := hletter x hx
  have hread : decimal? ('0' :: x :: text) = some (([], ['0']), x :: text) := rfl
  refine value?_number ⟨'0', _, rfl, .inl (by decide)⟩ (datetime?_of_dropWhile ?_)
    (float?_eq_none hread ?_) hinteger
  · have hzero : Char.isDigit '0' = true := by decide
    simp [hzero, hdigit, hdash, hcolon]
  · simpa using hdot

/-- An integer in any spelling is read. -/
theorem Integer.reads {n : Int} (h : Integer cs n) (hrange : integerInRange n) (room : Nat) :
    Reads room cs (.integer n) where
  head := by
    cases h with
    | decimal h =>
      obtain ⟨c, cs', rfl, hc⟩ := h.head
      refine ⟨c, cs', rfl, ?_⟩
      cases hb : isBlank c with
      | false => rfl
      | true =>
        simp only [isBlank, Bool.or_eq_true, beq_iff_eq] at hb
        rcases hb with rfl | rfl <;> revert hc <;> decide
    | _ => exact ⟨_, _, rfl, by decide⟩
  value rest hrest := by
    cases h with
    | decimal h => exact value?_decimal (s := []) h (.inl rfl) (by simp) hrange hrest
    | plus h => exact value?_decimal (s := ['+']) h (.inr (.inl rfl)) (by simp) hrange hrest
    | minus h => exact value?_decimal (s := ['-']) h (.inr (.inr rfl)) (by simp) hrange hrest
    | hexadecimal h =>
      have hread := digits?_digits h (by decide) (hrest.head_of (by decide))
      exact value?_prefixed (by decide) (by simp [integer?, hread, hrange])
    | octal h =>
      have hread := digits?_digits h (by decide) (hrest.head_of (by decide))
      exact value?_prefixed (by decide) (by simp [integer?, hread, hrange])
    | binary h =>
      have hread := digits?_digits h (by decide) (hrest.head_of (by decide))
      exact value?_prefixed (by decide) (by simp [integer?, hread, hrange])

end

/-! ## Scalars -/

/-- Some characters write a string, an integer of 64 bits or a truth value. -/
inductive Scalar : List Char → Toml → Prop
  | string {cs s : List Char} (h : Quoted cs s) : Scalar cs (.string (String.ofList s))
  | integer {cs : List Char} {n : Int} (h : Integer cs n) (hrange : integerInRange n) :
    Scalar cs (.integer n)
  | isTrue : Scalar ['t', 'r', 'u', 'e'] (.boolean true)
  | isFalse : Scalar ['f', 'a', 'l', 's', 'e'] (.boolean false)

theorem Quoted.head {cs s : List Char} (h : Quoted cs s) :
    ∃ q cs', cs = q :: cs' ∧ (q = '"' ∨ q = '\'') := by
  cases h with
  | basic => exact ⟨_, _, rfl, .inl rfl⟩
  | literal => exact ⟨_, _, rfl, .inr rfl⟩
  | block hq => exact ⟨_, _, rfl, hq⟩

theorem word?_append {w : String} {cs : List Char} (hw : w.toList = cs) (v : Toml)
    (rest : List Char) : word? w v (cs ++ rest) = some (v, rest) := by
  subst hw
  simp [word?, ← String.length_toList]

/-- A scalar in any spelling is read. -/
theorem Scalar.reads {cs : List Char} {v : Toml} (h : Scalar cs v) (room : Nat) :
    Reads room cs v := by
  cases h with
  | string h =>
    have hhead := h.head
    obtain ⟨q, cs', rfl, hq⟩ := hhead
    refine ⟨⟨q, cs', rfl, by rcases hq with rfl | rfl <;> decide⟩, fun rest hrest => ?_⟩
    have hread : string? (q :: cs' ++ rest) = some (_, rest) := string?_quoted h
      (fun hd => hrest.head_of (p := (· ≠ '"')) (by decide) _ hd rfl)
      (fun hd => hrest.head_of (p := (· ≠ '\'')) (by decide) _ hd rfl)
    rw [List.cons_append] at hread ⊢
    unfold value?
    simp only [hq, ↓reduceIte, hread, Option.map_some]
  | integer h hrange => exact h.reads hrange room
  | isTrue =>
    refine ⟨⟨_, _, rfl, by decide⟩, fun rest _ => ?_⟩
    have hread := word?_append (w := "true") rfl (.boolean true) rest
    unfold value?
    simpa using hread
  | isFalse =>
    refine ⟨⟨_, _, rfl, by decide⟩, fun rest _ => ?_⟩
    have hread := word?_append (w := "false") rfl (.boolean false) rest
    unfold value?
    simpa using hread

/-! ## A spelling of each scalar -/

theorem digits_of_all {ok : Char → Bool} : ∀ {cs : List Char}, cs ≠ [] → (∀ c ∈ cs, ok c) →
    Digits ok cs cs
  | [], hne, _ => absurd rfl hne
  | [_], _, h => .last (h _ List.mem_cons_self)
  | _ :: d :: cs, _, h =>
    .digit (h _ List.mem_cons_self)
      (digits_of_all (List.cons_ne_nil d cs) fun c hc => h c (List.mem_cons_of_mem _ hc))

/-- A number is written without leading zeros. -/
theorem decimal_toDigits (n : Nat) : Decimal (Nat.toDigits 10 n) (Nat.toDigits 10 n) := by
  by_cases hzero : (Nat.toDigits 10 n).head? = some '0'
  · have hn : n = 0 := by
      refine JsonSyntax.eq_zero_of_head?_digitsOf n ?_
      rw [JsonSyntax.digitsOf, List.head?_map, hzero]
      rfl
    rw [hn]
    exact .zero
  · exact .digits (digits_of_all Nat.toDigits_ne_nil fun c hc =>
      Nat.isDigit_of_mem_toDigits (by decide) (by decide) hc) hzero

theorem filterMap_hexDigit? {ds : List Char} (h : ∀ c ∈ ds, c.isDigit) :
    ds.filterMap hexDigit? = ds.map fun c => c.toNat - '0'.toNat := by
  induction ds with
  | nil => rfl
  | cons c ds ih =>
    obtain ⟨hc, hds⟩ := List.forall_mem_cons.1 h
    have hdigit : hexDigit? c = some (c.toNat - '0'.toNat) := by rw [hexDigit?, if_pos hc]
    rw [List.filterMap_cons, hdigit, List.map_cons, ih hds]

theorem numberOf_toDigits (n : Nat) : numberOf 10 (Nat.toDigits 10 n) = n := by
  rw [numberOf, filterMap_hexDigit? fun c hc =>
    Nat.isDigit_of_mem_toDigits (by decide) (by decide) hc, numberIn, List.foldl_map]
  exact Nat.ofDigitChars_toDigits (by decide) (by decide)

/-- A string, a number or a truth value as it is written. -/
def spelling : Toml → List Char
  | .string s => '"' :: s.toList.flatMap escapeChar ++ ['"']
  | .integer n => Nat.toDigits 10 n.toNat
  | .boolean b => if b then ['t', 'r', 'u', 'e'] else ['f', 'a', 'l', 's', 'e']
  | _ => []

theorem scalar_spelling_string (s : String) : Scalar (spelling (.string s)) (.string s) := by
  have h := Scalar.string (.basic (basic_flatMap_escapeChar s.toList))
  rwa [String.ofList_toList] at h

theorem scalar_spelling_integer {n : Nat} (h : n ≤ Int64.maxValue.toInt) :
    Scalar (spelling (.integer n)) (.integer n) := by
  have hinteger := Integer.decimal (decimal_toDigits n)
  rw [numberOf_toDigits] at hinteger
  refine .integer hinteger ?_
  simp only [integerInRange, Bool.and_eq_true, decide_eq_true_eq]
  exact ⟨Int.le_trans (by decide) (Int.natCast_nonneg n), h⟩

theorem scalar_spelling_boolean (b : Bool) : Scalar (spelling (.boolean b)) (.boolean b) := by
  cases b with
  | false => exact .isFalse
  | true => exact .isTrue

end RecordGateway.Toml
