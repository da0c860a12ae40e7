import RecordGateway.Proofs.Toml.Lines
import RecordGateway.Proofs.Toml.Values
import Mathlib.Data.List.DropRight

/-!
# Texts of documents

`KeyText`, `LineText` and `Written` say which characters write a key, a line and a document; the
values in a line may be any that are read. A document is read line by line as it is written: its
lines are taken into the draft one after the other (`parse?_written`). `PairsText` says which
characters write the pairs of an inline table, which is read as a table with these pairs
(`reads_inlineTable`).
-/

namespace RecordGateway.Toml

/-! ## Spelling -/

def Blanks (cs : List Char) : Prop := ∀ c ∈ cs, isBlank c

instance (cs : List Char) : Decidable (Blanks cs) :=
  List.decidableBAll (fun c => isBlank c) cs

/-- Some characters write one part of a key. -/
inductive Part : List Char → String → Prop
  | bare {cs : List Char} (hne : cs ≠ []) (h : ∀ c ∈ cs, isBareKeyChar c) :
    Part cs (String.ofList cs)
  | basic {cs s : List Char} (h : Basic cs s) : Part ('"' :: cs ++ ['"']) (String.ofList s)
  | literal {s : List Char} (h : ∀ c ∈ s, isPlain c ∧ c ≠ '\'') :
    Part ('\'' :: s ++ ['\'']) (String.ofList s)

/-- Some characters write the parts of a key, with dots between them and blanks around each. -/
inductive Dotted : List Char → List String → Prop
  | last {b cs b' : List Char} {p : String} (hb : Blanks b) (h : Part cs p) (hb' : Blanks b') :
    Dotted (b ++ cs ++ b') [p]
  | dot {b cs b' ds : List Char} {p : String} {ps : List String} (hb : Blanks b) (h : Part cs p)
    (hb' : Blanks b') (hs : Dotted ds ps) : Dotted (b ++ cs ++ b' ++ '.' :: ds) (p :: ps)

/-- Some characters write a key. -/
structure KeyText (cs : List Char) (k : KeyPath) : Prop where
  dotted : Dotted cs k.path
  short : k.path.length ≤ nestingLimit

/-- Some characters write a pair: a key, and a value that is read. -/
inductive PairText (room : Nat) : List Char → KeyPath × Toml → Prop
  | intro {cs b vs : List Char} {k : KeyPath} {v : Toml} (hk : KeyText cs k) (hb : Blanks b)
    (hv : Reads room vs v) : PairText room (cs ++ '=' :: b ++ vs) (k, v)

/-- Some characters write a line, up to its end. -/
inductive LineText : List Char → Line → Prop
  | header {b cs : List Char} {k : KeyPath} (hb : Blanks b) (hk : KeyText cs k) :
    LineText (b ++ '[' :: cs ++ [']']) (.header k)
  | arrayHeader {b cs : List Char} {k : KeyPath} (hb : Blanks b) (hk : KeyText cs k) :
    LineText (b ++ '[' :: '[' :: cs ++ [']', ']']) (.arrayHeader k)
  | pair {cs : List Char} {k : KeyPath} {v : Toml} (h : PairText nestingLimit cs (k, v)) :
    LineText cs (.pair k v)

/-- What may stand at the end of a line, and on a line of its own. -/
inductive Trail : List Char → Prop
  | blanks {b : List Char} (hb : Blanks b) : Trail b
  | comment {b cs : List Char} (hb : Blanks b) (hcs : ∀ c ∈ cs, isPlain c) :
    Trail (b ++ '#' :: cs)

/-- A text is written line by line, each with a comment or none. There may be lines without
anything else, and the last need not end. -/
inductive Written {α : Type} (text : List Char → α → Prop) : List Char → List α → Prop
  | empty {t : List Char} (ht : Trail t) : Written text t []
  | blank {t nl cs : List Char} {as : List α} (ht : Trail t) (hnl : Newline nl)
    (h : Written text cs as) : Written text (t ++ nl ++ cs) as
  | last {l t : List Char} {a : α} (ha : text l a) (ht : Trail t) : Written text (l ++ t) [a]
  | line {l t nl cs : List Char} {a : α} {as : List α} (ha : text l a) (ht : Trail t)
    (hnl : Newline nl) (h : Written text cs as) : Written text (l ++ t ++ nl ++ cs) (a :: as)

/-- Some characters write the pairs of an inline table. -/
inductive PairsText {α : Type} (text : List Char → α → Prop) : List Char → List α → Prop
  | last {cs b : List Char} {a : α} (ha : text cs a) (hb : Blanks b) : PairsText text (cs ++ b) [a]
  | more {cs b ds : List Char} {a : α} {as : List α} (ha : text cs a) (hb : Blanks b)
    (h : PairsText text ds as) : PairsText text (cs ++ b ++ ',' :: ds) (a :: as)

section

variable {α β : Type} {text : List Char → α → Prop} {text' : List Char → β → Prop} {f : α → β}
  {cs : List Char} {as : List α}

theorem Written.map (h : Written text cs as) (hf : ∀ a ∈ as, ∀ cs, text cs a → text' cs (f a)) :
    Written text' cs (as.map f) := by
  induction h with
  | empty ht => exact .empty ht
  | blank ht hnl _ ih => exact .blank ht hnl (ih hf)
  | last ha ht => exact .last (hf _ List.mem_cons_self _ ha) ht
  | line ha ht hnl _ ih =>
    obtain ⟨hhead, htail⟩ := List.forall_mem_cons.1 hf
    exact .line (hhead _ ha) ht hnl (ih htail)

theorem PairsText.map (h : PairsText text cs as)
    (hf : ∀ a ∈ as, ∀ cs, text cs a → text' cs (f a)) : PairsText text' cs (as.map f) := by
  induction h with
  | last ha hb => exact .last (hf _ List.mem_cons_self _ ha) hb
  | more ha hb _ ih =>
    obtain ⟨hhead, htail⟩ := List.forall_mem_cons.1 hf
    exact .more (hhead _ ha) hb (ih htail)

end

/-! ## Keys -/

section

variable {b cs rest : List Char}

theorem skipBlanks_append (hb : Blanks b) (cs : List Char) :
    skipBlanks (b ++ cs) = skipBlanks cs :=
  List.dropWhile_append_of_pos hb

theorem skipBlanks_cons {c : Char} (hc : isBlank c = false) (cs : List Char) :
    skipBlanks (c :: cs) = c :: cs := by
  simp [skipBlanks, hc]

theorem skipBlanks_skipBlanks (cs : List Char) : skipBlanks (skipBlanks cs) = skipBlanks cs :=
  List.dropWhile_idempotent ..

/-- The characters that a part of a key starts with. -/
def startsKey (c : Char) : Bool := isBareKeyChar c || c == '"' || c == '\''

theorem startsKey_spec {c : Char} (h : startsKey c) :
    isBlank c = false ∧ c ≠ '[' ∧ c ≠ '#' ∧ c ≠ '\n' ∧ c ≠ '\r' ∧ c ≠ '}' := by
  cases hb : isBlank c with
  | true =>
    simp only [isBlank, Bool.or_eq_true, beq_iff_eq] at hb
    rcases hb with rfl | rfl <;> revert h <;> decide
  | false => refine ⟨rfl, ?_, ?_, ?_, ?_, ?_⟩ <;> rintro rfl <;> revert h <;> decide

theorem Part.head {p : String} (h : Part cs p) : ∃ c cs', cs = c :: cs' ∧ startsKey c := by
  cases h with
  | bare hne h =>
    obtain ⟨c, cs', rfl⟩ := List.exists_cons_of_ne_nil hne
    exact ⟨c, cs', rfl, by simp [startsKey, h c List.mem_cons_self]⟩
  | basic => exact ⟨_, _, rfl, by decide⟩
  | literal => exact ⟨_, _, rfl, by decide⟩

theorem simpleKey?_part {p : String} (h : Part cs p)
    (hrest : ∀ c ∈ rest.head?, isBareKeyChar c = false) :
    simpleKey? (cs ++ rest) = some (p, rest) := by
  cases h with
  | bare hne h =>
    obtain ⟨c, cs', rfl⟩ := List.exists_cons_of_ne_nil hne
    have hc := h c List.mem_cons_self
    have hdrop := dropWhile_append_of_all h hrest
    have htake : (c :: cs' ++ rest).takeWhile isBareKeyChar = c :: cs' := by
      have hsplit := List.takeWhile_append_dropWhile (p := isBareKeyChar) (l := c :: cs' ++ rest)
      rw [hdrop] at hsplit
      exact List.append_cancel_right hsplit
    have hdouble : c ≠ '"' := by rintro rfl; revert hc; decide
    have hsingle : c ≠ '\'' := by rintro rfl; revert hc; decide
    unfold simpleKey?
    split
    · exact absurd (List.cons.inj ‹_›).1 hdouble
    · exact absurd (List.cons.inj ‹_›).1 hsingle
    · simp only [htake, hdrop, List.isEmpty_cons, Bool.false_eq_true, ↓reduceIte]
  | basic h =>
    simp only [List.cons_append, List.append_assoc, List.nil_append, simpleKey?]
    rw [basic?_basic h rest _ [] (by simp)]
    simp
  | literal h =>
    simp only [List.cons_append, List.append_assoc, List.nil_append, simpleKey?]
    rw [literal?_plain h rest []]
    simp

/-- Nothing that belongs to a key comes next. -/
def EndsKey (rest : List Char) : Prop :=
  ∀ c ∈ rest.head?, isBlank c = false ∧ c ≠ '.' ∧ isBareKeyChar c = false

theorem isBareKeyChar_of_blank {c : Char} (hc : isBlank c) : isBareKeyChar c = false := by
  simp only [isBlank, Bool.or_eq_true, beq_iff_eq] at hc
  rcases hc with rfl | rfl <;> decide

/-- A part of a key is read with the blanks around it. -/
theorem simpleKey?_blanks {p : String} {b' : List Char} (hb : Blanks b) (h : Part cs p)
    (hb' : Blanks b') (hrest : ∀ c ∈ rest.head?, isBareKeyChar c = false) :
    simpleKey? (skipBlanks (b ++ (cs ++ (b' ++ rest)))) = some (p, b' ++ rest) := by
  have hnext : ∀ c ∈ (b' ++ rest).head?, isBareKeyChar c = false := by
    cases b' with
    | nil => exact hrest
    | cons c b' =>
      intro d hd
      obtain rfl := Option.some.inj hd
      exact isBareKeyChar_of_blank (hb' _ List.mem_cons_self)
  have hpart := simpleKey?_part h hnext
  obtain ⟨c, cs', rfl, hc⟩ := h.head
  rw [skipBlanks_append hb, List.cons_append, skipBlanks_cons (startsKey_spec hc).1]
  exact hpart

theorem keyParts?_dotted {ps : List String} (h : Dotted cs ps) (hrest : EndsKey rest) :
    ∀ fuel, ps.length ≤ fuel → keyParts? fuel (cs ++ rest) = some (ps, rest) := by
  induction h with
  | @last b cs b' p hb h hb' =>
    intro fuel hf
    obtain ⟨fuel, rfl⟩ := Nat.exists_eq_succ_of_ne_zero (Nat.ne_zero_of_lt hf)
    have hpart := simpleKey?_blanks hb h hb' fun c hc => (hrest c hc).2.2
    simp only [List.append_assoc, keyParts?, hpart, skipBlanks_append hb']
    cases rest with
    | nil => rfl
    | cons c rest =>
      obtain ⟨hblank, hdot, -⟩ := hrest c rfl
      rw [skipBlanks_cons hblank]
      split
      · exact absurd (List.cons.inj ‹_›).1 hdot
      · rfl
  | @dot b cs b' ds p ps hb h hb' _ ih =>
    intro fuel hf
    obtain ⟨fuel, rfl⟩ := Nat.exists_eq_succ_of_ne_zero (Nat.ne_zero_of_lt hf)
    have hnext : ∀ c ∈ ('.' :: (ds ++ rest)).head?, isBareKeyChar c = false := by
      intro c hc
      obtain rfl := Option.some.inj hc
      decide
    have hpart := simpleKey?_blanks hb h hb' hnext
    have hblank : isBlank '.' = false := by decide
    simp only [List.append_assoc, List.cons_append, keyParts?, hpart, skipBlanks_append hb',
      skipBlanks_cons hblank, ih fuel (Nat.le_of_succ_le_succ hf), Option.map_some]

/-- A key is read up to where it ends. -/
theorem keyPath?_text {k : KeyPath} (h : KeyText cs k) (hrest : EndsKey rest) :
    keyPath? (cs ++ rest) = some (k, rest) := by
  have hparts := keyParts?_dotted h.dotted hrest (nestingLimit + 1) (Nat.le_succ_of_le h.short)
  have hlast : k.path.getLast? = some k.key := List.getLast?_concat
  have htables : k.path.dropLast = k.tables := List.dropLast_concat
  simp only [keyPath?, hparts, hlast, h.short, ↓reduceIte, htables]

theorem keyPath?_skipBlanks (cs : List Char) : keyPath? (skipBlanks cs) = keyPath? cs := by
  simp only [keyPath?, keyParts?, skipBlanks_skipBlanks]

/-- After its first blanks a key starts with one of the characters for that. -/
theorem KeyText.head {k : KeyPath} (h : KeyText cs k) (rest : List Char) :
    ∃ c cs', skipBlanks (cs ++ rest) = c :: cs' ∧ startsKey c := by
  have hpart : ∀ {b cs' ds : List Char} {p : String}, Blanks b → Part cs' p →
      ∃ c cs, skipBlanks (b ++ cs' ++ ds) = c :: cs ∧ startsKey c := by
    intro b cs' ds p hb hp
    obtain ⟨c, cs, rfl, hc⟩ := hp.head
    rw [List.append_assoc, skipBlanks_append hb, List.cons_append,
      skipBlanks_cons (startsKey_spec hc).1]
    exact ⟨c, _, rfl, hc⟩
  have hdotted := h.dotted
  revert hdotted
  generalize k.path = ps
  intro hdotted
  cases hdotted with
  | last hb hp =>
    rw [List.append_assoc]
    exact hpart hb hp
  | dot hb hp =>
    rw [List.append_assoc, List.append_assoc]
    exact hpart hb hp

end

/-! ## Ends of lines -/

section

variable {t nl cs rest after : List Char}

theorem lineEnd?_skipBlanks (cs : List Char) : lineEnd? (skipBlanks cs) = lineEnd? cs := by
  simp only [lineEnd?, skipBlanks_skipBlanks]

/-- The text after a line: there is none, or it comes after the end of the line. -/
inductive After : List Char → List Char → Prop
  | none : After [] []
  | newline {nl : List Char} (hnl : Newline nl) (cs : List Char) : After (nl ++ cs) cs

theorem After.lineEnd? (h : After rest after) : Toml.lineEnd? rest = some after := by
  cases h with
  | none => rfl
  | newline hnl cs => rcases hnl with rfl | rfl <;> rfl

theorem After.head (h : After rest after) : ∀ c ∈ rest.head?, c = '\n' ∨ c = '\r' := by
  cases h with
  | none => simp
  | newline hnl cs => rcases hnl with rfl | rfl <;> simp

theorem skipBlanks_after (h : After rest after) : skipBlanks rest = rest := by
  cases h with
  | none => rfl
  | newline hnl cs => rcases hnl with rfl | rfl <;> rfl

theorem lineEnd?_trail (ht : Trail t) (h : After rest after) :
    lineEnd? (t ++ rest) = some after := by
  cases ht with
  | blanks hb => rw [← lineEnd?_skipBlanks, skipBlanks_append hb, lineEnd?_skipBlanks, h.lineEnd?]
  | @comment b cs hb hcs =>
    have hplain : (cs ++ rest).dropWhile isPlain = rest := by
      refine dropWhile_append_of_all hcs fun c hc => ?_
      rcases h.head c hc with rfl | rfl <;> decide
    have hend := h.lineEnd?
    rw [Toml.lineEnd?, skipBlanks_after h] at hend
    rw [List.append_assoc, Toml.lineEnd?, skipBlanks_append hb, List.cons_append,
      skipBlanks_cons (by decide)]
    simp only [hplain]
    cases h with
    | none => rfl
    | newline hnl cs => rcases hnl with rfl | rfl <;> rfl

theorem Trail.ends (ht : Trail t) (h : After rest after) : Ends (t ++ rest) := by
  cases ht with
  | blanks hb =>
    intro c hc
    rw [skipBlanks_append hb, skipBlanks_after h] at hc
    rcases h.head c hc with rfl | rfl <;> decide
  | comment hb hcs =>
    intro c hc
    rw [List.append_assoc, skipBlanks_append hb, List.cons_append,
      skipBlanks_cons (by decide)] at hc
    obtain rfl := Option.some.inj hc
    decide

end

/-! ## Lines -/

section

variable {l rest after : List Char} {x : Line} {d : Draft}

theorem lineEnd?_eq_none {c : Char} (hblank : isBlank c = false) (hhash : c ≠ '#') (hn : c ≠ '\n')
    (hr : c ≠ '\r') (cs : List Char) : lineEnd? (c :: cs) = none := by
  have hline : newline? (c :: cs) = none := by
    unfold newline?
    split <;> simp_all
  simp only [lineEnd?, skipBlanks_cons hblank]
  split
  · exact absurd (List.cons.inj ‹_›).1 hhash
  · simp [hline]

theorem header?_text {cs : List Char} {k : KeyPath} (h : KeyText cs k) (close : List Char)
    (rest : List Char) :
    header? (']' :: close) (cs ++ ((']' :: close) ++ rest)) = some (k, rest) := by
  have hends : EndsKey ((']' :: close) ++ rest) := by
    intro c hc
    obtain rfl := Option.some.inj hc
    decide
  have hkey := keyPath?_text h hends
  simp only [header?, hkey]
  simp

theorem KeyText.head_ne {cs : List Char} {k : KeyPath} (h : KeyText cs k) (rest : List Char) :
    ∀ c ∈ (cs ++ rest).head?, c ≠ '[' := by
  obtain ⟨c, cs', hskip, hc⟩ := h.head rest
  rintro d hd rfl
  obtain ⟨ds, hds⟩ := List.head?_eq_some_iff.1 hd
  rw [hds, skipBlanks_cons (by decide)] at hskip
  obtain ⟨rfl, -⟩ := List.cons.inj hskip
  exact absurd hc (by decide)

theorem line?_header {text cs : List Char} {k : KeyPath} (h : skipBlanks text = '[' :: cs)
    (hcs : ∀ c ∈ cs.head?, c ≠ '[') (hheader : header? [']'] cs = some (k, rest))
    (hend : lineEnd? rest = some after) :
    line? d text = (d.take (.header k)).map fun d => (d, after) := by
  unfold line?
  rw [h]
  split
  · rename_i heq
    rw [(List.cons.inj heq).2] at hcs
    exact absurd rfl (hcs '[' rfl)
  · rename_i heq
    obtain rfl := (List.cons.inj heq).2
    simp only [hheader, hend, Option.bind_eq_bind, Option.bind_some]
    cases hopen : TomlItem.openTable k.tables k.key d.entries <;>
      simp [Draft.take, Line.edit, Line.opened, KeyPath.path, hopen]
  · rename_i hno
    exact absurd rfl (hno cs)

theorem line?_arrayHeader {text cs : List Char} {k : KeyPath}
    (h : skipBlanks text = '[' :: '[' :: cs) (hheader : header? [']', ']'] cs = some (k, rest))
    (hend : lineEnd? rest = some after) :
    line? d text = (d.take (.arrayHeader k)).map fun d => (d, after) := by
  unfold line?
  rw [h]
  simp only [hheader, hend, Option.bind_eq_bind, Option.bind_some]
  cases hopen : TomlItem.openArrayTable k.tables k.key d.entries <;>
    simp [Draft.take, Line.edit, Line.opened, KeyPath.path, hopen]

theorem line?_pair {text vs : List Char} {k : KeyPath} {v : Toml}
    (h : ∀ c ∈ (skipBlanks text).head?, c ≠ '[') (hno : lineEnd? text = none)
    (hkey : keyPath? text = some (k, '=' :: vs))
    (hvalue : value? nestingLimit (skipBlanks vs) = some (v, rest))
    (hend : lineEnd? rest = some after) :
    line? d text = (d.take (.pair k v)).map fun d => (d, after) := by
  rw [← lineEnd?_skipBlanks] at hno
  rw [← keyPath?_skipBlanks] at hkey
  unfold line?
  split
  · rename_i hcs
    exact absurd rfl (h '[' (by rw [hcs]; rfl))
  · rename_i hcs
    exact absurd rfl (h '[' (by rw [hcs]; rfl))
  · simp only [hno, hkey, hvalue, hend, Option.bind_eq_bind, Option.bind_some]
    cases hassign : TomlItem.assignUnder d.opened k.tables k.key v d.entries <;>
      simp [Draft.take, Line.edit, Line.opened, hassign]

/-- A line without anything but a comment changes nothing. -/
theorem line?_blank {text : List Char} (h : ∀ c ∈ (skipBlanks text).head?, c ≠ '[')
    (hend : lineEnd? text = some after) : line? d text = some (d, after) := by
  rw [← lineEnd?_skipBlanks] at hend
  unfold line?
  split
  · rename_i hcs
    exact absurd rfl (h '[' (by rw [hcs]; rfl))
  · rename_i hcs
    exact absurd rfl (h '[' (by rw [hcs]; rfl))
  · simp only [hend]

theorem line?_trail {t : List Char} (ht : Trail t) (h : After rest after) :
    line? d (t ++ rest) = some (d, after) := by
  refine line?_blank (fun c hc => ?_) (lineEnd?_trail ht h)
  have hstop := ht.ends h c hc
  rintro rfl
  exact absurd hstop (by decide)

/-- A pair is read up to its end: its key, and then its value. -/
theorem PairText.read {room : Nat} {cs : List Char} {k : KeyPath} {v : Toml}
    (h : PairText room cs (k, v)) (hends : Ends rest) :
    (∀ c ∈ (skipBlanks (cs ++ rest)).head?, c ≠ '[') ∧ lineEnd? (cs ++ rest) = none ∧
      ∃ vs, keyPath? (cs ++ rest) = some (k, '=' :: vs) ∧
        value? room (skipBlanks vs) = some (v, rest) := by
  cases h with
  | @intro cs b vs _ _ hk hb hv =>
    have htext : cs ++ '=' :: b ++ vs ++ rest = cs ++ '=' :: (b ++ (vs ++ rest)) := by simp
    obtain ⟨c, cs', hskip, hc⟩ := hk.head ('=' :: (b ++ (vs ++ rest)))
    obtain ⟨hblank, hbracket, hhash, hn, hr, -⟩ := startsKey_spec hc
    rw [htext]
    refine ⟨by rw [hskip]; simpa using hbracket, ?_, b ++ (vs ++ rest), ?_, ?_⟩
    · rw [← lineEnd?_skipBlanks, hskip]
      exact lineEnd?_eq_none hblank hhash hn hr cs'
    · refine keyPath?_text hk fun c hc => ?_
      obtain rfl := Option.some.inj hc
      decide
    · obtain ⟨c, vs', rfl, hc⟩ := hv.head
      rw [skipBlanks_append hb, List.cons_append, skipBlanks_cons hc]
      exact hv.value rest hends

/-- A line is taken as it is written. -/
theorem line?_text (h : LineText l x) (hends : Ends rest) (hend : lineEnd? rest = some after) :
    line? d (l ++ rest) = (d.take x).map fun d => (d, after) := by
  cases h with
  | @header b cs k hb hk =>
    have hskip : skipBlanks (b ++ '[' :: cs ++ [']'] ++ rest) = '[' :: (cs ++ ([']'] ++ rest)) := by
      rw [List.append_assoc, List.append_assoc, skipBlanks_append hb, List.cons_append,
        skipBlanks_cons (by decide)]
    exact line?_header hskip (hk.head_ne _) (header?_text hk [] rest) hend
  | @arrayHeader b cs k hb hk =>
    have hskip : skipBlanks (b ++ '[' :: '[' :: cs ++ [']', ']'] ++ rest) =
        '[' :: '[' :: (cs ++ ([']', ']'] ++ rest)) := by
      rw [List.append_assoc, List.append_assoc, skipBlanks_append hb, List.cons_append,
        skipBlanks_cons (by decide), List.cons_append]
    exact line?_arrayHeader hskip (header?_text hk [']'] rest) hend
  | @pair _ k v h =>
    obtain ⟨hbracket, hno, vs, hkey, hvalue⟩ := h.read hends
    exact line?_pair hbracket hno hkey hvalue hend

end

/-! ## Documents -/

section

variable {cs : List Char} {xs : List Line}

theorem lines?_cons {text : List Char} (hne : text ≠ []) (fuel : Nat) (d : Draft) :
    lines? (fuel + 1) d text = (line? d text).bind fun (d, rest) => lines? fuel d rest := by
  obtain ⟨c, cs, rfl⟩ := List.exists_cons_of_ne_nil hne
  rw [lines?.eq_3 _ _ _ (by simp)]
  cases line? d (c :: cs) <;> rfl

theorem LineText.ne_nil {l : List Char} {x : Line} (h : LineText l x) : l ≠ [] := by
  cases h with
  | header => simp
  | arrayHeader => simp
  | pair h => cases h with | intro => simp

/-- A document is taken line by line as it is written. -/
theorem lines?_written (h : Written LineText cs xs) : ∀ (fuel : Nat) (d : Draft),
    cs.length ≤ fuel → lines? fuel d cs = xs.foldlM Draft.take d := by
  induction h with
  | @empty t ht =>
    intro fuel d hf
    cases t with
    | nil => simp [lines?]
    | cons c t =>
      obtain ⟨fuel, rfl⟩ := Nat.exists_eq_succ_of_ne_zero (Nat.ne_zero_of_lt hf)
      have hread := line?_trail ht .none (d := d)
      rw [List.append_nil] at hread
      rw [lines?_cons (by simp), hread]
      simp [lines?]
  | @blank t nl cs xs ht hnl _ ih =>
    intro fuel d hf
    have hpos := List.length_pos_of_ne_nil hnl.ne_nil
    simp only [List.length_append] at hf
    obtain ⟨fuel, rfl⟩ := Nat.exists_eq_succ_of_ne_zero (n := fuel) (by omega)
    rw [List.append_assoc, lines?_cons (by simp [hnl.ne_nil]), line?_trail ht (.newline hnl cs)]
    exact ih fuel d (by omega)
  | @last l t x hx ht =>
    intro fuel d hf
    have hpos := List.length_pos_of_ne_nil hx.ne_nil
    rw [List.length_append] at hf
    obtain ⟨fuel, rfl⟩ := Nat.exists_eq_succ_of_ne_zero (n := fuel) (by omega)
    have hread := line?_text (d := d) hx (ht.ends .none) (lineEnd?_trail ht .none)
    rw [List.append_nil] at hread
    rw [lines?_cons (by simp [hx.ne_nil]), hread, List.foldlM_cons]
    cases d.take x with
    | none => rfl
    | some d => simp [lines?]
  | @line l t nl cs x xs hx ht hnl _ ih =>
    intro fuel d hf
    have hpos := List.length_pos_of_ne_nil hx.ne_nil
    simp only [List.length_append] at hf
    obtain ⟨fuel, rfl⟩ := Nat.exists_eq_succ_of_ne_zero (n := fuel) (by omega)
    have hafter : After (nl ++ cs) cs := .newline hnl cs
    rw [List.append_assoc, List.append_assoc, lines?_cons (by simp [hx.ne_nil]),
      line?_text hx (ht.ends hafter) (lineEnd?_trail ht hafter), List.foldlM_cons]
    cases d.take x with
    | none => rfl
    | some d => exact ih fuel d (by omega)

theorem LineText.head {l : List Char} {x : Line} (h : LineText l x) (rest : List Char) :
    ∃ c cs, skipBlanks (l ++ rest) = c :: cs ∧ (c = '[' ∨ startsKey c) := by
  cases h with
  | header hb hk =>
    rw [List.append_assoc, List.append_assoc, skipBlanks_append hb, List.cons_append,
      skipBlanks_cons (by decide)]
    exact ⟨_, _, rfl, .inl rfl⟩
  | arrayHeader hb hk =>
    rw [List.append_assoc, List.append_assoc, skipBlanks_append hb, List.cons_append,
      skipBlanks_cons (by decide)]
    exact ⟨_, _, rfl, .inl rfl⟩
  | pair h =>
    cases h with
    | intro hk =>
      rw [List.append_assoc, List.append_assoc]
      obtain ⟨c, cs, hskip, hc⟩ := hk.head _
      exact ⟨c, cs, hskip, .inr hc⟩

/-- A document starts with none but the characters of its lines, blanks apart. -/
theorem Written.head (h : Written LineText cs xs) :
    ∀ c ∈ (skipBlanks cs).head?, isStop c ∨ c = '[' ∨ startsKey c := by
  intro c hc
  cases h with
  | empty ht =>
    have hends := ht.ends .none
    rw [List.append_nil] at hends
    exact .inl (hends c hc)
  | blank ht hnl =>
    rw [List.append_assoc] at hc
    exact .inl (ht.ends (.newline hnl _) c hc)
  | last hx =>
    obtain ⟨d, cs, hskip, hd⟩ := hx.head _
    rw [hskip] at hc
    exact .inr (Option.some.inj hc ▸ hd)
  | line hx =>
    obtain ⟨d, cs, hskip, hd⟩ := hx.head _
    rw [List.append_assoc, List.append_assoc, hskip] at hc
    exact .inr (Option.some.inj hc ▸ hd)

/-- A text of some characters, perhaps with a byte order mark before them. -/
def IsText (text : String) (cs : List Char) : Prop :=
  text.toList = cs ∨ text.toList = '\uFEFF' :: cs

/-- What a document means: its lines are taken one after the other. -/
theorem parse?_written {text : String} (ht : IsText text cs) (h : Written LineText cs xs) :
    parse? text = (xs.foldlM Draft.take ⟨[], []⟩).map (TomlItem.entriesToToml ·.entries) := by
  have hread := lines?_written h cs.length ⟨[], []⟩ le_rfl
  rcases ht with ht | ht
  · rw [parse?, ht]
    split
    · have hmark := h.head '\uFEFF' (by rw [skipBlanks_cons (by decide)]; rfl)
      exact absurd hmark (by decide)
    · simp only [hread]
  · rw [parse?, ht]
    simp only [hread]

end

/-! ## Inline tables -/

/-- The entries of an inline table with some pairs. -/
def assignAll (ps : List (KeyPath × Toml)) (es : TomlItem.Entries) : Option TomlItem.Entries :=
  ps.foldlM (fun es p => TomlItem.assign p.1.tables p.1.key p.2 es) es

section

variable {cs rest : List Char} {ps : List (KeyPath × Toml)} {room : Nat}

/-- The pairs of an inline table are taken one after the other as they are written. -/
theorem pairs?_text (h : PairsText (PairText room) cs ps) : ∀ (fuel : Nat) (es : TomlItem.Entries),
    ps.length ≤ fuel →
      pairs? (value? room) fuel es (cs ++ '}' :: rest) = (assignAll ps es).map (·, rest) := by
  induction h with
  | @last cs b p hp hb =>
    intro fuel es hf
    obtain ⟨fuel, rfl⟩ := Nat.exists_eq_succ_of_ne_zero (Nat.ne_zero_of_lt hf)
    have hskip : skipBlanks (b ++ '}' :: rest) = '}' :: rest := by
      rw [skipBlanks_append hb, skipBlanks_cons (by decide)]
    have hends : Ends (b ++ '}' :: rest) := by
      intro c hc
      rw [hskip] at hc
      obtain rfl := Option.some.inj hc
      decide
    obtain ⟨-, -, vs, hkey, hvalue⟩ := PairText.read (k := p.1) (v := p.2) hp hends
    rw [List.append_assoc, pairs?]
    simp only [hkey, hvalue, hskip, assignAll, List.foldlM_cons, List.foldlM_nil]
    cases TomlItem.assign p.1.tables p.1.key p.2 es <;> rfl
  | @more cs b ds p ps hp hb _ ih =>
    intro fuel es hf
    obtain ⟨fuel, rfl⟩ := Nat.exists_eq_succ_of_ne_zero (Nat.ne_zero_of_lt hf)
    have hskip : skipBlanks (b ++ ',' :: (ds ++ '}' :: rest)) = ',' :: (ds ++ '}' :: rest) := by
      rw [skipBlanks_append hb, skipBlanks_cons (by decide)]
    have hends : Ends (b ++ ',' :: (ds ++ '}' :: rest)) := by
      intro c hc
      rw [hskip] at hc
      obtain rfl := Option.some.inj hc
      decide
    obtain ⟨-, -, vs, hkey, hvalue⟩ := PairText.read (k := p.1) (v := p.2) hp hends
    have htext : cs ++ b ++ ',' :: ds ++ '}' :: rest = cs ++ (b ++ ',' :: (ds ++ '}' :: rest)) := by
      simp
    rw [htext, pairs?]
    simp only [hkey, hvalue, hskip, assignAll, List.foldlM_cons]
    cases TomlItem.assign p.1.tables p.1.key p.2 es with
    | none => rfl
    | some es => exact ih fuel es (Nat.le_of_succ_le_succ hf)

theorem pairs?_skipBlanks (value : List Char → Read Toml) (fuel : Nat) (es : TomlItem.Entries)
    (cs : List Char) : pairs? value fuel es (skipBlanks cs) = pairs? value fuel es cs := by
  cases fuel with
  | zero => rfl
  | succ fuel => rw [pairs?, pairs?, keyPath?_skipBlanks]

theorem count_skipBlanks {c : Char} (hc : isBlank c = false) (cs : List Char) :
    (skipBlanks cs).count c = cs.count c := by
  have hzero : (cs.takeWhile isBlank).count c = 0 := by
    refine List.count_eq_zero.2 fun hmem => ?_
    exact Bool.false_ne_true (hc.symm.trans (List.mem_takeWhile_imp hmem))
  conv_rhs => rw [← List.takeWhile_append_dropWhile (p := isBlank) (l := cs)]
  rw [List.count_append, hzero, Nat.zero_add, skipBlanks]

theorem PairText.count_pos {p : KeyPath × Toml} (h : PairText room cs p) : 0 < cs.count '=' := by
  cases h with
  | intro =>
    simp only [List.count_append, List.count_cons_self]
    omega

/-- There are no more pairs than signs between keys and values. -/
theorem PairsText.length_le (h : PairsText (PairText room) cs ps) : ps.length ≤ cs.count '=' := by
  induction h with
  | last hp =>
    have hpos := hp.count_pos
    simp only [List.length_singleton, List.count_append]
    omega
  | more hp _ _ ih =>
    have hpos := hp.count_pos
    simp only [List.length_cons, List.count_append, List.count_cons]
    omega

theorem PairsText.head (h : PairsText (PairText room) cs ps) (rest : List Char) :
    ∃ c cs', skipBlanks (cs ++ rest) = c :: cs' ∧ startsKey c := by
  have hpair : ∀ {cs : List Char} {p : KeyPath × Toml}, PairText room cs p → ∀ rest,
      ∃ c cs', skipBlanks (cs ++ rest) = c :: cs' ∧ startsKey c := by
    intro cs p hp rest
    cases hp with
    | intro hk =>
      rw [List.append_assoc, List.append_assoc]
      exact hk.head _
  cases h with
  | last hp =>
    rw [List.append_assoc]
    exact hpair hp _
  | more hp =>
    rw [List.append_assoc, List.append_assoc]
    exact hpair hp _

theorem value?_brace (cs : List Char) :
    value? (room + 1) ('\x7b' :: cs) = inlineTable? (value? room) cs := by
  rw [value?]
  simp

/-- An inline table is read as the table with its pairs. -/
theorem reads_inlineTable (h : PairsText (PairText room) cs ps) {es : TomlItem.Entries}
    (hes : assignAll ps [] = some es) :
    Reads (room + 1) ('\x7b' :: cs ++ ['}']) (.table (TomlItem.entriesToToml es)) := by
  refine ⟨⟨_, _, rfl, by decide⟩, fun rest _ => ?_⟩
  obtain ⟨c, cs', hskip, hc⟩ := h.head ('}' :: rest)
  have hlength : ps.length ≤ (skipBlanks (cs ++ '}' :: rest)).length := by
    refine h.length_le.trans (le_trans ?_ (List.count_le_length (a := '=')))
    rw [count_skipBlanks (by decide), List.count_append]
    exact Nat.le_add_right _ _
  have hpairs : pairs? (value? room) _ [] (cs ++ '}' :: rest) = _ := pairs?_text h _ [] hlength
  rw [← pairs?_skipBlanks, hes, Option.map_some] at hpairs
  have htable : inlineTable? (value? room) (cs ++ '}' :: rest) =
      some (.table (TomlItem.entriesToToml es), rest) := by
    unfold inlineTable?
    rw [hskip] at hpairs ⊢
    split
    · exact absurd (List.cons.inj ‹_›).1 (startsKey_spec hc).2.2.2.2.2
    · rw [hpairs, Option.map_some]
  rw [← value?_brace] at htable
  simpa using htable

theorem reads_emptyTable {b : List Char} (hb : Blanks b) :
    Reads (room + 1) ('\x7b' :: b ++ ['}']) (.table []) := by
  refine ⟨⟨_, _, rfl, by decide⟩, fun rest _ => ?_⟩
  have hskip : skipBlanks (b ++ '}' :: rest) = '}' :: rest := by
    rw [skipBlanks_append hb, skipBlanks_cons (by decide)]
  have htable : inlineTable? (value? room) (b ++ '}' :: rest) = some (.table [], rest) := by
    simp only [inlineTable?, hskip]
  rw [← value?_brace] at htable
  simpa using htable

end

end RecordGateway.Toml
