import RecordGateway.Json.Decode
import RecordGateway.Proofs.Text.Encoding
import Mathlib.Data.List.DropRight

/-!
# The grammar of JSON

`Written cs t`: the characters `cs` write the value with the syntax tree `t`, by the grammar of
JSON with all its spellings. There may be spaces around values, names and separators
(`ElementWritten`), and strings may have escapes that they do not need. A text is read as the tree
that it writes (`ElementWritten.parse?`).
-/

namespace RecordGateway.JsonSyntax

open Utf8 (encode)

-- What holds of all characters in a list is decided along the list, not over all there are.
attribute [local instance (high)] List.decidableBAll

/-! ## Spelling -/

def Spaces (cs : List Char) : Prop := ∀ c ∈ cs, c ∈ [' ', '\t', '\n', '\r']

instance : DecidablePred Spaces :=
  List.decidableBAll (fun c => c ∈ [' ', '\t', '\n', '\r'])

/-- The escapes of one letter, with the characters that they write. -/
def escapeLetters : List (Char × Char) :=
  [('"', '"'), ('\\', '\\'), ('/', '/'), ('b', '\x08'), ('f', '\x0c'), ('n', '\n'), ('r', '\r'),
    ('t', '\t')]

/-- Some characters between quotes write a string. -/
inductive StringWritten : List Char → List StringPart → Prop
  | nil : StringWritten [] []
  | plain {c : Char} {cs : List Char} {ps : List StringPart} (hq : c ≠ '"') (he : c ≠ '\\')
    (hc : ¬ c.toNat < 0x20) (h : StringWritten cs ps) :
    StringWritten (c :: cs) ((String.utf8EncodeChar c).map .byte ++ ps)
  | escape {l c : Char} {cs : List Char} {ps : List StringPart} (hl : (l, c) ∈ escapeLetters)
    (h : StringWritten cs ps) : StringWritten ('\\' :: l :: cs) (.byte (ascii c) :: ps)
  | unit {ds cs : List Char} {ps : List StringPart} {n : Nat} (hlength : ds.length = 4)
    (hcode : hexNumber? ds = some n) (h : StringWritten cs ps) :
    StringWritten ('\\' :: 'u' :: ds ++ cs) (.unit n :: ps)

/-- The value of a decimal digit. -/
def charDigit (c : Char) : Nat := c.toNat - '0'.toNat

/-- Some characters are digits, at least one. -/
structure Digits (cs : List Char) : Prop where
  ne_nil : cs ≠ []
  all : ∀ c ∈ cs, c.isDigit = true

inductive FractionWritten : List Char → Option (List Nat) → Prop
  | absent : FractionWritten [] none
  | digits {cs : List Char} (h : Digits cs) : FractionWritten ('.' :: cs) (some (cs.map charDigit))

/-- Some characters write a sign; `true` is for a minus. -/
inductive SignWritten : List Char → Bool → Prop
  | absent : SignWritten [] false
  | plus : SignWritten ['+'] false
  | minus : SignWritten ['-'] true

inductive ExponentWritten : List Char → Option (Bool × List Nat) → Prop
  | absent : ExponentWritten [] none
  | digits {e : Char} {ss cs : List Char} {s : Bool} (he : e = 'e' ∨ e = 'E')
    (hs : SignWritten ss s) (h : Digits cs) :
    ExponentWritten (e :: ss ++ cs) (some (s, cs.map charDigit))

/-- Some characters write a number, up to its sign. Zero is the only integer part that starts with
zero. -/
inductive NumberWritten (negative : Bool) : List Char → NumberText → Prop
  | intro {cs fs es : List Char} {f : Option (List Nat)} {e : Option (Bool × List Nat)}
    (h : Digits cs) (hzero : cs.head? = some '0' → cs = ['0']) (hf : FractionWritten fs f)
    (he : ExponentWritten es e) :
    NumberWritten negative (cs ++ fs ++ es) ⟨negative, cs.map charDigit, f, e⟩

/-- Some characters write the name of a member, up to the colon. -/
inductive NameWritten : List Char → List StringPart → Prop
  | intro {ws cs ws' : List Char} {ps : List StringPart} (hw : Spaces ws) (h : StringWritten cs ps)
    (hw' : Spaces ws') : NameWritten (ws ++ '"' :: cs ++ '"' :: ws') ps

mutual

/-- Some characters write a value. -/
inductive Written : List Char → JsonSyntax → Prop
  | nullWord : Written ['n', 'u', 'l', 'l'] .null
  | trueWord : Written ['t', 'r', 'u', 'e'] (.bool true)
  | falseWord : Written ['f', 'a', 'l', 's', 'e'] (.bool false)
  | number {cs : List Char} {n : NumberText} (h : NumberWritten false cs n) :
    Written cs (.number n)
  | negative {cs : List Char} {n : NumberText} (h : NumberWritten true cs n) :
    Written ('-' :: cs) (.number n)
  | string {cs : List Char} {ps : List StringPart} (h : StringWritten cs ps) :
    Written ('"' :: cs ++ ['"']) (.string ps)
  | emptyArray {ws : List Char} (hw : Spaces ws) : Written ('[' :: ws ++ [']']) (.array [])
  | array {cs : List Char} {ts : List JsonSyntax} (h : ItemsWritten cs ts) :
    Written ('[' :: cs ++ [']']) (.array ts)
  | emptyObject {ws : List Char} (hw : Spaces ws) :
    Written ('\x7b' :: ws ++ ['\x7d']) (.object [])
  | object {cs : List Char} {ms : List (List StringPart × JsonSyntax)} (h : MembersWritten cs ms) :
    Written ('\x7b' :: cs ++ ['\x7d']) (.object ms)

/-- Some characters write a value with spaces around it. -/
inductive ElementWritten : List Char → JsonSyntax → Prop
  | intro {ws cs ws' : List Char} {t : JsonSyntax} (hw : Spaces ws) (h : Written cs t)
    (hw' : Spaces ws') : ElementWritten (ws ++ cs ++ ws') t

/-- Some characters write the items of an array. -/
inductive ItemsWritten : List Char → List JsonSyntax → Prop
  | last {cs : List Char} {t : JsonSyntax} (h : ElementWritten cs t) : ItemsWritten cs [t]
  | more {cs ds : List Char} {t : JsonSyntax} {ts : List JsonSyntax} (h : ElementWritten cs t)
    (hs : ItemsWritten ds ts) : ItemsWritten (cs ++ ',' :: ds) (t :: ts)

/-- Some characters write the members of an object. -/
inductive MembersWritten : List Char → List (List StringPart × JsonSyntax) → Prop
  | last {ns cs : List Char} {name : List StringPart} {t : JsonSyntax} (hn : NameWritten ns name)
    (h : ElementWritten cs t) : MembersWritten (ns ++ ':' :: cs) [(name, t)]
  | more {ns cs ds : List Char} {name : List StringPart} {t : JsonSyntax}
    {ms : List (List StringPart × JsonSyntax)} (hn : NameWritten ns name)
    (h : ElementWritten cs t) (hs : MembersWritten ds ms) :
    MembersWritten (ns ++ ':' :: cs ++ ',' :: ds) ((name, t) :: ms)

end

/-! ## Characters of ASCII -/

theorem toNat_ascii {c : Char} (h : c.toNat < 128) : (ascii c).toNat = c.toNat := by
  show c.val.toNat % 256 = c.val.toNat
  have : c.val.toNat < 128 := h
  omega

theorem encode_cons_ascii {c : Char} (h : c.toNat < 128) (cs : List Char) :
    encode (c :: cs) = ascii c :: encode cs := by
  rw [Utf8.encode_cons, Utf8.utf8EncodeChar_ascii h, List.singleton_append]

theorem encode_concat {c : Char} (h : c.toNat < 128) (cs : List Char) :
    encode (cs ++ [c]) = encode cs ++ [ascii c] := by
  rw [Utf8.encode_append, encode_cons_ascii h]
  rfl

theorem encode_ascii {cs : List Char} (h : ∀ c ∈ cs, c.toNat < 128) : encode cs = cs.map ascii := by
  induction cs with
  | nil => rfl
  | cons c cs ih =>
    obtain ⟨hc, hcs⟩ := List.forall_mem_cons.1 h
    rw [encode_cons_ascii hc, ih hcs, List.map_cons]

/-! ## Spaces -/

theorem skipSpace_cons {b : UInt8} (h : isSpace b = false) (bs : List UInt8) :
    skipSpace (b :: bs) = b :: bs := by
  simp [skipSpace, h]

theorem skipSpace_skipSpace (bs : List UInt8) : skipSpace (skipSpace bs) = skipSpace bs :=
  List.dropWhile_idempotent ..

theorem Spaces.encode_eq {ws : List Char} (h : Spaces ws) :
    encode ws = ws.map ascii ∧ ∀ b ∈ ws.map ascii, isSpace b = true := by
  have hspace : ∀ c ∈ [' ', '\t', '\n', '\r'], c.toNat < 128 ∧ isSpace (ascii c) = true := by decide
  exact ⟨encode_ascii fun c hc => (hspace c (h c hc)).1,
    List.forall_mem_map.2 fun c hc => (hspace c (h c hc)).2⟩

theorem Spaces.skipSpace {ws : List Char} (h : Spaces ws) (bs : List UInt8) :
    JsonSyntax.skipSpace (encode ws ++ bs) = JsonSyntax.skipSpace bs := by
  rw [h.encode_eq.1, JsonSyntax.skipSpace, List.dropWhile_append_of_pos h.encode_eq.2]
  rfl

/-! ## Strings -/

/-- Whether a byte stands for itself in a string. -/
def isPlainByte (b : UInt8) : Bool := b != ascii '"' && !(b < 0x20) && b != ascii '\\'

theorem string?_plain {bs : List UInt8} (h : ∀ b ∈ bs, isPlainByte b = true)
    (acc : List StringPart) (rest : List UInt8) :
    string? acc (bs ++ rest) = string? ((bs.map .byte).reverse ++ acc) rest := by
  induction bs generalizing acc with
  | nil => rfl
  | cons b bs ih =>
    obtain ⟨hb, hbs⟩ := List.forall_mem_cons.1 h
    simp only [isPlainByte, Bool.and_eq_true, bne_iff_ne, Bool.not_eq_true',
      decide_eq_false_iff_not] at hb
    obtain ⟨⟨hq, hc⟩, he⟩ := hb
    have hstep : string? acc (b :: (bs ++ rest)) = string? (.byte b :: acc) (bs ++ rest) := by
      rw [string?.eq_def]
      simp [hq, hc, he]
    simpa using hstep.trans (ih hbs (.byte b :: acc))

theorem isPlainByte_of_mem {c : Char} (hq : c ≠ '"') (he : c ≠ '\\') (hc : ¬ c.toNat < 0x20)
    {b : UInt8} (hb : b ∈ String.utf8EncodeChar c) : isPlainByte b = true := by
  simp only [isPlainByte, Bool.and_eq_true, bne_iff_ne, ne_eq, Bool.not_eq_true',
    decide_eq_false_iff_not, ← UInt8.toNat_inj, UInt8.lt_iff_toNat_lt]
  by_cases h : c.toNat < 128
  · rw [Utf8.utf8EncodeChar_ascii h, List.mem_singleton] at hb
    have hne : ∀ d : Char, d.toNat < 128 → c ≠ d → (ascii c).toNat ≠ (ascii d).toNat := by
      intro d hd hcd heq
      rw [toNat_ascii h, toNat_ascii hd] at heq
      exact hcd (Char.toNat_inj.1 heq)
    subst hb
    exact ⟨⟨hne '"' (by decide) hq, by rwa [toNat_ascii h]⟩, hne '\\' (by decide) he⟩
  · have hle := Utf8.le_toNat_of_mem_utf8EncodeChar (Nat.le_of_not_lt h) hb
    have hquote : (ascii '"').toNat = 34 := rfl
    have hslash : (ascii '\\').toNat = 92 := rfl
    have hspace : (0x20 : UInt8).toNat = 32 := rfl
    omega

theorem string?_simpleEscape {e b : UInt8} (hu : (e == ascii 'u') = false)
    (hb : simpleEscape? e = some b) (acc : List StringPart) (rest : List UInt8) :
    string? acc (ascii '\\' :: e :: rest) = string? (.byte b :: acc) rest := by
  have hq : (ascii '\\' == ascii '"') = false := rfl
  have hc : ¬ ascii '\\' < 0x20 := by decide
  rw [string?.eq_def]
  simp only [hq, hc, hu, hb, BEq.rfl, Bool.false_eq_true, ↓reduceIte]

theorem string?_unit {p q r s : UInt8} {n : Nat} (h : hex4? p q r s = some n)
    (acc : List StringPart) (rest : List UInt8) :
    string? acc (ascii '\\' :: ascii 'u' :: p :: q :: r :: s :: rest) =
      string? (.unit n :: acc) rest := by
  have hq : (ascii '\\' == ascii '"') = false := rfl
  have hc : ¬ ascii '\\' < 0x20 := by decide
  rw [string?.eq_def]
  simp only [hq, hc, h, BEq.rfl, Bool.false_eq_true, ↓reduceIte]

theorem escapeLetters_spec : ∀ p ∈ escapeLetters, p.1.toNat < 128 ∧
    (ascii p.1 == ascii 'u') = false ∧ simpleEscape? (ascii p.1) = some (ascii p.2) := by
  decide

theorem escapeLetters_lt : ∀ p ∈ escapeLetters, p.2.toNat < 128 := by decide

theorem hexDigit?_eq_some_lt {c : Char} {d : Nat} (h : hexDigit? c = some d) : c.toNat < 128 := by
  have hle : ∀ e : Char, c ≤ e → e.toNat < 128 → c.toNat < 128 := fun e hce he =>
    Nat.lt_of_le_of_lt (UInt32.le_iff_toNat_le.1 hce) he
  unfold hexDigit? at h
  split at h
  · next hc =>
    rw [Char.isDigit, Bool.and_eq_true, decide_eq_true_eq, decide_eq_true_eq] at hc
    exact hle '9' hc.2 (by decide)
  · split at h
    · next hc => exact hle 'f' hc.2 (by decide)
    · split at h
      · next hc => exact hle 'F' hc.2 (by decide)
      · cases h

theorem hexByte?_ascii {c : Char} (h : c.toNat < 128) : hexByte? (ascii c) = hexDigit? c := by
  rw [hexByte?, toNat_ascii h, Char.ofNat_toNat]

/-- Four digits of a code point are read. -/
theorem exists_hex4? {ds : List Char} {n : Nat} (hlength : ds.length = 4)
    (hcode : hexNumber? ds = some n) :
    ∃ p q r s, encode ds = [p, q, r, s] ∧ hex4? p q r s = some n := by
  match ds, hlength with
  | [p, q, r, s], _ =>
    have hcode : ([p, q, r, s].mapM hexDigit?).map (numberIn 16) = some n := hcode
    obtain ⟨vs, hvs, hn⟩ := Option.map_eq_some_iff.1 hcode
    simp only [List.mapM_cons, List.mapM_nil, Option.bind_eq_bind, Option.bind_eq_some_iff] at hvs
    obtain ⟨vp, hp, _, ⟨vq, hq, _, ⟨vr, hr, _, ⟨vs, hs, _, _, _⟩, _⟩, _⟩, _⟩ := hvs
    have hlt := @hexDigit?_eq_some_lt
    refine ⟨ascii p, ascii q, ascii r, ascii s, ?_, ?_⟩
    · rw [encode_cons_ascii (hlt hp), encode_cons_ascii (hlt hq), encode_cons_ascii (hlt hr),
        encode_cons_ascii (hlt hs)]
      rfl
    · rw [hex4?, ← hcode]
      simp only [List.mapM_cons, hexByte?_ascii (hlt hp), hexByte?_ascii (hlt hq),
        hexByte?_ascii (hlt hr), hexByte?_ascii (hlt hs)]
      rfl

theorem StringWritten.string? {cs : List Char} {ps : List StringPart} (h : StringWritten cs ps)
    (acc : List StringPart) (rest : List UInt8) :
    JsonSyntax.string? acc (encode cs ++ ascii '"' :: rest) = some (acc.reverse ++ ps, rest) := by
  induction h generalizing acc with
  | nil =>
    rw [string?.eq_def]
    simp
  | @plain c cs ps hq he hc _ ih =>
    rw [Utf8.encode_cons, List.append_assoc,
      string?_plain (fun b hb => isPlainByte_of_mem hq he hc hb), ih]
    simp
  | @escape l c cs ps hl _ ih =>
    obtain ⟨hascii, hu, hletter⟩ := escapeLetters_spec _ hl
    rw [encode_cons_ascii (by decide), encode_cons_ascii hascii]
    simp only [List.cons_append]
    rw [string?_simpleEscape hu hletter, ih]
    simp
  | @unit ds cs ps n hlength hcode _ ih =>
    obtain ⟨p, q, r, s, hds, hhex⟩ := exists_hex4? hlength hcode
    rw [List.cons_append, List.cons_append, encode_cons_ascii (by decide),
      encode_cons_ascii (by decide), Utf8.encode_append, hds]
    simp only [List.cons_append, List.nil_append]
    rw [string?_unit hhex, ih]
    simp

/-! ## Numbers -/

/-- The first of some bytes, if there is one, is none of a kind. -/
def HeadNot (kind : UInt8 → Bool) (bs : List UInt8) : Prop := ∀ b ∈ bs.head?, kind b = false

/-- Whether a byte may go on a number. -/
def goesOnNumber (b : UInt8) : Bool :=
  isDigit b || b == ascii '.' || b == ascii 'e' || b == ascii 'E'

/-- What follows a value and does not belong to it, even if it is a number. -/
def Ends (rest : List UInt8) : Prop := HeadNot goesOnNumber rest

section
variable {kind : UInt8 → Bool} {b : UInt8} {cs rest : List UInt8}

theorem headNot_nil : HeadNot kind [] := by simp [HeadNot]

theorem headNot_cons (h : kind b = false) (bs : List UInt8) : HeadNot kind (b :: bs) := by
  simpa [HeadNot] using h

theorem HeadNot.mono {kind' : UInt8 → Bool} (h : HeadNot kind rest)
    (hkind : ∀ b, kind b = false → kind' b = false) : HeadNot kind' rest :=
  fun b hb => hkind b (h b hb)

theorem HeadNot.dropWhile (h : HeadNot kind rest) :
    rest.takeWhile kind = [] ∧ rest.dropWhile kind = rest := by
  cases rest with
  | nil => exact ⟨rfl, rfl⟩
  | cons b bs => simp [h b rfl]

end

theorem beq_of_isDigit {b x : UInt8} (hb : isDigit b = true) (hx : isDigit x = false) :
    (b == x) = false := by
  rw [beq_eq_false_iff_ne]
  rintro rfl
  exact Bool.noConfusion (hb.symm.trans hx)

theorem isDigit_ascii {c : Char} (h : c.isDigit = true) :
    c.toNat < 128 ∧ isDigit (ascii c) = true ∧ digitValue (ascii c) = charDigit c := by
  simp only [Char.isDigit, Bool.and_eq_true, decide_eq_true_eq, UInt32.le_iff_toNat_le] at h
  have hlow : 48 ≤ c.toNat := h.1
  have hhigh : c.toNat ≤ 57 := h.2
  have hlt : c.toNat < 128 := by omega
  have h0 : (ascii '0').toNat = 48 := rfl
  have h9 : (ascii '9').toNat = 57 := rfl
  refine ⟨hlt, ?_, ?_⟩
  · simp only [isDigit, Bool.and_eq_true, decide_eq_true_eq, UInt8.le_iff_toNat_le,
      toNat_ascii hlt, h0, h9]
    exact ⟨hlow, hhigh⟩
  · rw [digitValue, toNat_ascii hlt]
    rfl

section
variable {cs : List Char} {rest : List UInt8}

theorem Digits.encode_eq (h : Digits cs) : encode cs = cs.map ascii :=
  encode_ascii fun c hc => (isDigit_ascii (h.all c hc)).1

theorem Digits.head (h : Digits cs) : ∃ b bs, encode cs = b :: bs ∧ isDigit b = true := by
  obtain ⟨c, cs, rfl⟩ := List.exists_cons_of_ne_nil h.ne_nil
  exact ⟨_, _, h.encode_eq, (isDigit_ascii (h.all c List.mem_cons_self)).2.1⟩

theorem Digits.digits? (h : Digits cs) (hr : HeadNot isDigit rest) :
    JsonSyntax.digits? (encode cs ++ rest) = some (cs.map charDigit, rest) := by
  have hall : ∀ b ∈ cs.map ascii, isDigit b = true := by
    simpa using fun c hc => (isDigit_ascii (h.all c hc)).2.1
  have htake : (cs.map ascii ++ rest).takeWhile isDigit = cs.map ascii := by
    rw [List.takeWhile_append_of_pos hall, hr.dropWhile.1, List.append_nil]
  have hdrop : (cs.map ascii ++ rest).dropWhile isDigit = rest := by
    rw [List.dropWhile_append_of_pos hall, hr.dropWhile.2]
  have hvalues : (cs.map ascii).map digitValue = cs.map charDigit := by
    simpa using fun c hc => (isDigit_ascii (h.all c hc)).2.2
  rw [h.encode_eq, JsonSyntax.digits?, htake, hdrop]
  obtain ⟨c, cs, rfl⟩ := List.exists_cons_of_ne_nil h.ne_nil
  rw [← hvalues]
  rfl

/-- The bytes that go on a number after its integer part. -/
def isDigitOrPoint (b : UInt8) : Bool := isDigit b || b == ascii '.'

theorem FractionWritten.fraction? {f : Option (List Nat)} (h : FractionWritten cs f)
    (hr : HeadNot isDigitOrPoint rest) :
    JsonSyntax.fraction? (encode cs ++ rest) = some (f, rest) := by
  cases h with
  | absent =>
    cases rest with
    | nil => rfl
    | cons b bs =>
      have hb := hr b rfl
      simp only [isDigitOrPoint, Bool.or_eq_false_iff] at hb
      simp [JsonSyntax.fraction?, hb.2]
  | digits h =>
    have hdigit : HeadNot isDigit rest :=
      hr.mono fun b hb => (Bool.or_eq_false_iff.1 hb).1
    rw [encode_cons_ascii (by decide)]
    simp [JsonSyntax.fraction?, h.digits? hdigit]

theorem SignWritten.sign {ss : List Char} {s : Bool} (h : SignWritten ss s) (hd : Digits cs)
    (rest : List UInt8) :
    JsonSyntax.sign (encode ss ++ (encode cs ++ rest)) = (s, encode cs ++ rest) := by
  obtain ⟨b, bs, hcs, hb⟩ := hd.head
  cases h with
  | absent =>
    simp [JsonSyntax.sign, hcs, beq_of_isDigit hb (show isDigit (ascii '-') = false from rfl),
      beq_of_isDigit hb (show isDigit (ascii '+') = false from rfl)]
  | plus => rfl
  | minus => rfl

theorem ExponentWritten.exponent? {e : Option (Bool × List Nat)} (h : ExponentWritten cs e)
    (hr : Ends rest) : JsonSyntax.exponent? (encode cs ++ rest) = some (e, rest) := by
  cases h with
  | absent =>
    cases rest with
    | nil => rfl
    | cons b bs =>
      have hb := hr b rfl
      simp only [goesOnNumber, Bool.or_eq_false_iff] at hb
      simp [JsonSyntax.exponent?, hb.1.2, hb.2]
  | @digits e ss cs s he hs h =>
    have hdigit : HeadNot isDigit rest := hr.mono fun b hb => by
      simp only [goesOnNumber, Bool.or_eq_false_iff] at hb
      exact hb.1.1.1
    have hletter : e.toNat < 128 ∧ (ascii e == ascii 'e' || ascii e == ascii 'E') = true := by
      rcases he with rfl | rfl <;> decide
    rw [List.cons_append, encode_cons_ascii hletter.1, Utf8.encode_append, List.cons_append,
      List.append_assoc]
    simp only [JsonSyntax.exponent?, hletter.2, ↓reduceIte, hs.sign h, h.digits? hdigit,
      Option.map_some]

theorem FractionWritten.headNot {fs : List Char} {f : Option (List Nat)} (h : FractionWritten fs f)
    (hr : HeadNot isDigit rest) : HeadNot isDigit (encode fs ++ rest) := by
  cases h with
  | absent => exact hr
  | digits h =>
    rw [encode_cons_ascii (by decide)]
    exact headNot_cons rfl _

theorem ExponentWritten.headNot {es : List Char} {e : Option (Bool × List Nat)}
    (h : ExponentWritten es e) (hr : Ends rest) : HeadNot isDigitOrPoint (encode es ++ rest) := by
  cases h with
  | absent =>
    refine hr.mono fun b hb => ?_
    simp only [goesOnNumber, Bool.or_eq_false_iff] at hb
    exact Bool.or_eq_false_iff.2 hb.1.1
  | digits he =>
    rw [List.cons_append, encode_cons_ascii (by rcases he with rfl | rfl <;> decide)]
    exact headNot_cons (by rcases he with rfl | rfl <;> rfl) _

theorem eq_zero_of_charDigit {c : Char} (h : c.isDigit = true) (hzero : charDigit c = 0) :
    c = '0' := by
  simp only [Char.isDigit, Bool.and_eq_true, decide_eq_true_eq, UInt32.le_iff_toNat_le] at h
  have hlow : 48 ≤ c.toNat := h.1
  have hvalue : c.toNat - 48 = 0 := hzero
  exact Char.toNat_inj.1 (show c.toNat = 48 by omega)

/-- The digits of an integer part are not more than one if the first is zero. -/
theorem Digits.not_padded (h : Digits cs) (hzero : cs.head? = some '0' → cs = ['0']) :
    ((cs.map charDigit).head? == some 0 && decide ((cs.map charDigit).length > 1)) = false := by
  obtain ⟨c, cs, rfl⟩ := List.exists_cons_of_ne_nil h.ne_nil
  by_cases hc : charDigit c = 0
  · obtain rfl := eq_zero_of_charDigit (h.all c List.mem_cons_self) hc
    rw [hzero rfl]
    rfl
  · simp [hc]

theorem NumberWritten.number? {negative : Bool} {n : NumberText} (h : NumberWritten negative cs n)
    (hr : Ends rest) : JsonSyntax.number? negative (encode cs ++ rest) = some (n, rest) := by
  cases h with
  | @intro cs fs es f e h hzero hf he =>
    have hexponent := he.headNot hr
    have hfraction := hf.headNot (hexponent.mono fun b hb => (Bool.or_eq_false_iff.1 hb).1)
    rw [Utf8.encode_append, Utf8.encode_append, List.append_assoc, List.append_assoc]
    unfold JsonSyntax.number?
    rw [h.digits? hfraction]
    simp only [Option.bind_eq_bind, Option.bind_some, h.not_padded hzero, hf.fraction? hexponent,
      he.exponent? hr, Bool.false_eq_true, ↓reduceIte]

theorem NumberWritten.head {negative : Bool} {n : NumberText} (h : NumberWritten negative cs n) :
    ∃ b bs, encode cs = b :: bs ∧ isDigit b = true := by
  cases h with
  | @intro cs fs es f e h hzero hf he =>
    obtain ⟨b, bs, hcs, hb⟩ := h.head
    exact ⟨b, bs ++ encode fs ++ encode es, by simp [hcs], hb⟩

end

/-! ## Values -/

/-- Characters that start with neither a space nor the end of an array. -/
def Starts (cs : List Char) : Prop :=
  ∃ b bs, encode cs = b :: bs ∧ isSpace b = false ∧ (b == ascii ']') = false

theorem isSpace_of_isDigit {b : UInt8} (hb : isDigit b = true) : isSpace b = false := by
  have hne : ∀ x, isDigit x = false → (b == x) = false := fun _ => beq_of_isDigit hb
  simp only [isSpace, hne (ascii ' ') rfl, hne (ascii '\t') rfl, hne (ascii '\n') rfl,
    hne (ascii '\r') rfl, Bool.or_self]

theorem Written.starts {cs : List Char} {t : JsonSyntax} (h : Written cs t) : Starts cs := by
  have hfirst : ∀ (c : Char) (cs : List Char), c.toNat < 128 → isSpace (ascii c) = false →
      (ascii c == ascii ']') = false → Starts (c :: cs) :=
    fun c cs hc hs he => ⟨_, _, encode_cons_ascii hc cs, hs, he⟩
  cases h with
  | number h =>
    obtain ⟨b, bs, hcs, hb⟩ := h.head
    exact ⟨b, bs, hcs, isSpace_of_isDigit hb, beq_of_isDigit hb rfl⟩
  | _ => exact hfirst _ _ (by decide) rfl rfl

theorem value?_skipSpace (fuel : Nat) (bs : List UInt8) :
    value? fuel (skipSpace bs) = value? fuel bs := by
  cases fuel with
  | zero => rfl
  | succ fuel => rw [value?, value?, skipSpace_skipSpace]

theorem items?_skipSpace (fuel : Nat) (bs : List UInt8) :
    items? fuel (skipSpace bs) = items? fuel bs := by
  cases fuel with
  | zero => rfl
  | succ fuel => rw [items?, items?, value?_skipSpace]

theorem members?_skipSpace (fuel : Nat) (bs : List UInt8) :
    members? fuel (skipSpace bs) = members? fuel bs := by
  cases fuel with
  | zero => rfl
  | succ fuel => rw [members?, members?, skipSpace_skipSpace]

theorem ends_nil : Ends [] := headNot_nil

theorem ends_cons {b : UInt8} (h : goesOnNumber b = false) (bs : List UInt8) : Ends (b :: bs) :=
  headNot_cons h bs

theorem Spaces.ends {ws : List Char} (h : Spaces ws) {rest : List UInt8} (hr : Ends rest) :
    Ends (encode ws ++ rest) := by
  cases ws with
  | nil => exact hr
  | cons c ws =>
    have hspace : ∀ c ∈ [' ', '\t', '\n', '\r'], goesOnNumber (ascii c) = false := by decide
    rw [h.encode_eq.1]
    exact ends_cons (hspace c (h c List.mem_cons_self)) _

theorem ElementWritten.starts {cs : List Char} {t : JsonSyntax} (h : ElementWritten cs t)
    (rest : List UInt8) :
    ∃ b bs, skipSpace (encode cs ++ rest) = b :: bs ∧ (b == ascii ']') = false := by
  cases h with
  | @intro ws cs ws' t hw h hw' =>
    obtain ⟨b, bs, hcs, hs, he⟩ := h.starts
    refine ⟨b, bs ++ (encode ws' ++ rest), ?_, he⟩
    rw [Utf8.encode_append, Utf8.encode_append, List.append_assoc, List.append_assoc, hw.skipSpace,
      hcs, List.cons_append, skipSpace_cons hs]

theorem ItemsWritten.starts {cs : List Char} {ts : List JsonSyntax} (h : ItemsWritten cs ts)
    (rest : List UInt8) :
    ∃ b bs, skipSpace (encode cs ++ rest) = b :: bs ∧ (b == ascii ']') = false := by
  cases h with
  | last h => exact h.starts rest
  | more h =>
    rw [Utf8.encode_append, List.append_assoc]
    exact h.starts _

theorem NameWritten.starts {cs : List Char} {ps : List StringPart} (h : NameWritten cs ps)
    (rest : List UInt8) : ∃ bs, skipSpace (encode cs ++ rest) = ascii '"' :: bs := by
  cases h with
  | @intro ws cs ws' ps hw h hw' =>
    rw [List.append_assoc, Utf8.encode_append, List.append_assoc, hw.skipSpace, List.cons_append,
      encode_cons_ascii (by decide), List.cons_append, skipSpace_cons rfl]
    exact ⟨_, rfl⟩

theorem MembersWritten.starts {cs : List Char} {ms : List (List StringPart × JsonSyntax)}
    (h : MembersWritten cs ms) (rest : List UInt8) :
    ∃ bs, skipSpace (encode cs ++ rest) = ascii '"' :: bs := by
  cases h with
  | last hn =>
    rw [Utf8.encode_append, List.append_assoc]
    exact hn.starts _
  | more hn =>
    rw [List.append_assoc, Utf8.encode_append, List.append_assoc]
    exact hn.starts _

section
variable {fuel : Nat} {bs bs' rest rest' : List UInt8} {b : UInt8} {t : JsonSyntax}

theorem value?_array (h : skipSpace bs = b :: bs') (fuel : Nat) :
    value? (fuel + 1) (ascii '[' :: bs) =
      if b == ascii ']' then some (.array [], bs')
      else (items? fuel bs).map fun (vs, rest) => (.array vs, rest) := by
  have hq : (ascii '[' == ascii '"') = false := rfl
  rw [← items?_skipSpace, value?, skipSpace_cons rfl]
  simp only [hq, BEq.rfl, h, Bool.false_eq_true, ↓reduceIte]

theorem value?_object (h : skipSpace bs = b :: bs') (fuel : Nat) :
    value? (fuel + 1) (ascii '\x7b' :: bs) =
      if b == ascii '\x7d' then some (.object [], bs')
      else (members? fuel bs).map fun (ms, rest) => (.object ms, rest) := by
  have hq : (ascii '\x7b' == ascii '"') = false := rfl
  have hb : (ascii '\x7b' == ascii '[') = false := rfl
  rw [← members?_skipSpace, value?, skipSpace_cons rfl]
  simp only [hq, hb, BEq.rfl, h, Bool.false_eq_true, ↓reduceIte]

/-- Reads an item; what follows says whether there are more. -/
theorem items?_item (hv : value? fuel bs = some (t, rest')) (hb : skipSpace rest' = b :: rest) :
    items? (fuel + 1) bs =
      if b == ascii ',' then (items? fuel rest).map fun (ts, rest) => (t :: ts, rest)
      else if b == ascii ']' then some ([t], rest)
      else none := by
  rw [items?, hv]
  simp only [hb]

/-- Reads a member; what follows says whether there are more. -/
theorem members?_member {ns : List Char} {name : List StringPart} (hn : NameWritten ns name)
    (hv : value? fuel bs = some (t, rest')) (hb : skipSpace rest' = b :: rest) :
    members? (fuel + 1) (encode ns ++ ascii ':' :: bs) =
      if b == ascii ',' then
        (members? fuel rest).map fun (ms, rest) => ((name, t) :: ms, rest)
      else if b == ascii '\x7d' then some ([(name, t)], rest)
      else none := by
  cases hn with
  | @intro ws cs ws' ps hw h hw' =>
    rw [members?, List.append_assoc, Utf8.encode_append, List.append_assoc, hw.skipSpace,
      List.cons_append, encode_cons_ascii (by decide), Utf8.encode_append,
      encode_cons_ascii (by decide), List.cons_append, List.append_assoc, List.cons_append,
      skipSpace_cons rfl]
    simp only [BEq.rfl, ↓reduceIte, h.string?, List.reverse_nil, List.nil_append]
    rw [hw'.skipSpace, skipSpace_cons rfl]
    simp only [BEq.rfl, ↓reduceIte, hv, hb]

end

theorem value?_of_isDigit {b : UInt8} (hb : isDigit b = true) (fuel : Nat) (bs : List UInt8) :
    value? (fuel + 1) (b :: bs) =
      (number? false (b :: bs)).map fun (n, rest) => (.number n, rest) := by
  have hne : ∀ x, isDigit x = false → (b == x) = false := fun _ => beq_of_isDigit hb
  rw [value?, skipSpace_cons (isSpace_of_isDigit hb)]
  simp only [hb, hne (ascii '"') rfl, hne (ascii '[') rfl, hne (ascii '\x7b') rfl,
    hne (ascii '-') rfl, Bool.false_eq_true, ↓reduceIte]

/-- A value is told by its first character, and one step is taken for it. -/
theorem value?_of_first {c : Char} {cs : List Char} {t : JsonSyntax} (hc : c.toNat < 128)
    (h : ∀ (fuel : Nat) (rest : List UInt8), 2 * (encode cs).length + 1 ≤ fuel → Ends rest →
      value? (fuel + 1) (ascii c :: (encode cs ++ rest)) = some (t, rest)) (fuel : Nat)
    (rest : List UInt8) (hf : 2 * (encode (c :: cs)).length ≤ fuel) (hr : Ends rest) :
    value? fuel (encode (c :: cs) ++ rest) = some (t, rest) := by
  rw [encode_cons_ascii hc] at hf ⊢
  simp only [List.length_cons] at hf
  obtain ⟨fuel, rfl⟩ : ∃ n, fuel = n + 1 := ⟨fuel - 1, by omega⟩
  exact h fuel rest (by omega) hr

theorem value?_of_enclosed {c d : Char} {cs : List Char} {t : JsonSyntax} (hc : c.toNat < 128)
    (hd : d.toNat < 128)
    (h : ∀ (fuel : Nat) (rest : List UInt8), 2 * (encode cs).length + 1 ≤ fuel →
      value? (fuel + 1) (ascii c :: (encode cs ++ ascii d :: rest)) = some (t, rest)) (fuel : Nat)
    (rest : List UInt8) (hf : 2 * (encode (c :: cs ++ [d])).length ≤ fuel) (hr : Ends rest) :
    value? fuel (encode (c :: cs ++ [d]) ++ rest) = some (t, rest) := by
  refine value?_of_first hc (fun fuel rest hf _ => ?_) fuel rest hf hr
  change 2 * (encode (cs ++ [d])).length + 1 ≤ fuel at hf
  show value? _ (ascii c :: (encode (cs ++ [d]) ++ rest)) = _
  rw [encode_concat hd] at hf ⊢
  simp only [List.length_append, List.length_singleton] at hf
  rw [List.append_assoc, List.singleton_append]
  exact h fuel rest (by omega)

mutual

/-- A value is read whatever follows that does not go on a number. -/
theorem Written.value? : ∀ {cs : List Char} {t : JsonSyntax}, Written cs t →
    ∀ fuel rest, 2 * (encode cs).length ≤ fuel → Ends rest →
      JsonSyntax.value? fuel (encode cs ++ rest) = some (t, rest)
  | _, _, .nullWord => value?_of_first (by decide) fun fuel rest _ _ => by
    rw [JsonSyntax.value?, skipSpace_cons rfl]
    rfl
  | _, _, .trueWord => value?_of_first (by decide) fun fuel rest _ _ => by
    rw [JsonSyntax.value?, skipSpace_cons rfl]
    rfl
  | _, _, .falseWord => value?_of_first (by decide) fun fuel rest _ _ => by
    rw [JsonSyntax.value?, skipSpace_cons rfl]
    rfl
  | cs, _, .number h => fun fuel rest hf hr => by
    obtain ⟨b, bs, hcs, hb⟩ := h.head
    have hnumber := h.number? hr
    rw [hcs] at hf hnumber ⊢
    simp only [List.length_cons] at hf
    obtain ⟨fuel, rfl⟩ : ∃ n, fuel = n + 1 := ⟨fuel - 1, by omega⟩
    rw [List.cons_append] at hnumber ⊢
    rw [value?_of_isDigit hb, hnumber]
    rfl
  | _, _, .negative h => value?_of_first (by decide) fun fuel rest _ hr => by
    rw [JsonSyntax.value?, skipSpace_cons rfl]
    show (number? true _).map _ = _
    rw [h.number? hr]
    rfl
  | _, _, .string h => value?_of_enclosed (by decide) (by decide) fun fuel rest _ => by
    rw [JsonSyntax.value?, skipSpace_cons rfl]
    show (JsonSyntax.string? [] _).map _ = _
    rw [h.string?]
    rfl
  | _, _, .emptyArray hw => value?_of_enclosed (by decide) (by decide) fun fuel rest _ => by
    rw [value?_array ((hw.skipSpace _).trans (skipSpace_cons rfl _))]
    rfl
  | _, _, .array h => value?_of_enclosed (by decide) (by decide) fun fuel rest hf => by
    obtain ⟨b, bs, hstart, hb⟩ := h.starts (ascii ']' :: rest)
    rw [value?_array hstart, hb, h.items? fuel rest hf]
    rfl
  | _, _, .emptyObject hw => value?_of_enclosed (by decide) (by decide) fun fuel rest _ => by
    rw [value?_object ((hw.skipSpace _).trans (skipSpace_cons rfl _))]
    rfl
  | _, _, .object h => value?_of_enclosed (by decide) (by decide) fun fuel rest hf => by
    obtain ⟨bs, hstart⟩ := h.starts (ascii '\x7d' :: rest)
    rw [value?_object hstart, h.members? fuel rest hf]
    rfl

theorem ElementWritten.value? : ∀ {cs : List Char} {t : JsonSyntax}, ElementWritten cs t →
    ∀ fuel rest, 2 * (encode cs).length ≤ fuel → Ends rest →
      ∃ rest', JsonSyntax.value? fuel (encode cs ++ rest) = some (t, rest') ∧
        skipSpace rest' = skipSpace rest
  | _, _, @ElementWritten.intro ws cs ws' t hw h hw', fuel, rest, hf, hr => by
    rw [Utf8.encode_append, Utf8.encode_append] at hf ⊢
    simp only [List.length_append] at hf
    refine ⟨encode ws' ++ rest, ?_, hw'.skipSpace rest⟩
    rw [List.append_assoc, List.append_assoc, ← value?_skipSpace, hw.skipSpace, value?_skipSpace]
    exact h.value? fuel _ (by omega) (hw'.ends hr)

theorem ItemsWritten.items? : ∀ {cs : List Char} {ts : List JsonSyntax}, ItemsWritten cs ts →
    ∀ fuel rest, 2 * (encode cs).length + 1 ≤ fuel →
      JsonSyntax.items? fuel (encode cs ++ ascii ']' :: rest) = some (ts, rest)
  | _, _, .last h, fuel, rest, hf => by
    obtain ⟨fuel, rfl⟩ := Nat.exists_eq_add_of_le' (Nat.le_trans (Nat.le_add_left 1 _) hf)
    obtain ⟨rest', hv, hskip⟩ := h.value? fuel (ascii ']' :: rest) (by omega) (ends_cons rfl _)
    rw [items?_item hv (hskip.trans (skipSpace_cons rfl _))]
    rfl
  | _, _, @ItemsWritten.more cs ds t ts h hs, fuel, rest, hf => by
    rw [Utf8.encode_append, encode_cons_ascii (by decide)] at hf ⊢
    simp only [List.length_append, List.length_cons] at hf
    obtain ⟨fuel, rfl⟩ := Nat.exists_eq_add_of_le' (show 1 ≤ fuel by omega)
    rw [List.append_assoc, List.cons_append]
    obtain ⟨rest', hv, hskip⟩ :=
      h.value? fuel (ascii ',' :: (encode ds ++ ascii ']' :: rest)) (by omega) (ends_cons rfl _)
    rw [items?_item hv (hskip.trans (skipSpace_cons rfl _)), if_pos (beq_self_eq_true _),
      hs.items? fuel rest (by omega)]
    rfl

theorem MembersWritten.members? : ∀ {cs : List Char} {ms : List (List StringPart × JsonSyntax)},
    MembersWritten cs ms → ∀ fuel rest, 2 * (encode cs).length + 1 ≤ fuel →
      JsonSyntax.members? fuel (encode cs ++ ascii '\x7d' :: rest) = some (ms, rest)
  | _, _, @MembersWritten.last ns cs name t hn h, fuel, rest, hf => by
    rw [Utf8.encode_append, encode_cons_ascii (by decide)] at hf ⊢
    simp only [List.length_append, List.length_cons] at hf
    obtain ⟨fuel, rfl⟩ := Nat.exists_eq_add_of_le' (show 1 ≤ fuel by omega)
    rw [List.append_assoc, List.cons_append]
    obtain ⟨rest', hv, hskip⟩ := h.value? fuel (ascii '\x7d' :: rest) (by omega) (ends_cons rfl _)
    rw [members?_member hn hv (hskip.trans (skipSpace_cons rfl _))]
    rfl
  | _, _, @MembersWritten.more ns cs ds name t ms hn h hs, fuel, rest, hf => by
    rw [Utf8.encode_append, Utf8.encode_append, encode_cons_ascii (by decide),
      encode_cons_ascii (by decide)] at hf ⊢
    simp only [List.length_append, List.length_cons] at hf
    obtain ⟨fuel, rfl⟩ := Nat.exists_eq_add_of_le' (show 1 ≤ fuel by omega)
    simp only [List.append_assoc, List.cons_append]
    obtain ⟨rest', hv, hskip⟩ :=
      h.value? fuel (ascii ',' :: (encode ds ++ ascii '\x7d' :: rest)) (by omega) (ends_cons rfl _)
    rw [members?_member hn hv (hskip.trans (skipSpace_cons rfl _)), if_pos (beq_self_eq_true _),
      hs.members? fuel rest (by omega)]
    rfl

end

/-! ## Texts -/

/-- A text of one value with spaces around it is read as that value. -/
theorem ElementWritten.parse? {cs : List Char} {t : JsonSyntax} (h : ElementWritten cs t) :
    JsonSyntax.parse? (encode cs) = some t := by
  obtain ⟨rest, hvalue, hskip⟩ := h.value? (2 * (encode cs).length + 1) [] (by omega) ends_nil
  rw [List.append_nil] at hvalue
  have hend : (skipSpace rest).isEmpty = true := by rw [hskip]; rfl
  rw [JsonSyntax.parse?, hvalue]
  simp only [hend, ↓reduceIte]

end RecordGateway.JsonSyntax
