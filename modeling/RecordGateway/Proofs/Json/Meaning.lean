import RecordGateway.Proofs.Json.Grammar

/-!
# What JSON texts mean

`Means room t j`: the syntax tree `t` has the value `j`. Its strings are Unicode (`Spells`), its
numbers are in range, its arrays and objects nest at most `room` levels, and of the members with one
name the last counts. Such a tree is read as its value (`Means.ofSyntax?`), and no other tree of a
text is read (`means_of_element`), so a text is read as what it means
(`parseBytes_encode_eq_ok_iff`).
-/

namespace RecordGateway.Json

open Utf8 (encode)
open JsonSyntax

/-! ## Strings -/

/-- The parts of a string spell characters, each as it is, by its code point or by a pair of
surrogates. -/
inductive Spells : List StringPart → List Char → Prop
  | nil : Spells [] []
  | char {ps : List StringPart} {cs : List Char} (c : Char) (h : Spells ps cs) :
    Spells ((String.utf8EncodeChar c).map .byte ++ ps) (c :: cs)
  | unit {ps : List StringPart} {cs : List Char} (c : Char) (h : Spells ps cs) :
    Spells (.unit c.toNat :: ps) (c :: cs)
  | pair {ps : List StringPart} {cs : List Char} {c : Char} {high low : Nat}
    (hhigh : CodePoint.isHighSurrogate high = true) (hlow : CodePoint.isLowSurrogate low = true)
    (hc : CodePoint.ofPair high low = c.toNat) (h : Spells ps cs) :
    Spells (.unit high :: .unit low :: ps) (c :: cs)

theorem codePointBytes?_toNat (c : Char) :
    codePointBytes? c.toNat = some (String.utf8EncodeChar c) := by
  rw [codePointBytes?, CodePoint.char?_toNat]
  rfl

theorem partBytes?_bytes (bs : List UInt8) (acc : List UInt8) (ps : List StringPart) :
    partBytes? acc (bs.map .byte ++ ps) = partBytes? (bs.reverse ++ acc) ps := by
  induction bs generalizing acc with
  | nil => rfl
  | cons b bs ih =>
    have hstep : partBytes? acc (.byte b :: (bs.map .byte ++ ps)) =
        partBytes? (b :: acc) (bs.map .byte ++ ps) := rfl
    rw [List.map_cons, List.cons_append, hstep, ih]
    simp

theorem partBytes?_unit (c : Char) (acc : List UInt8) (ps : List StringPart) :
    partBytes? acc (.unit c.toNat :: ps) =
      partBytes? ((String.utf8EncodeChar c).reverse ++ acc) ps := by
  rw [partBytes?.eq_def]
  simp only [CodePoint.isHighSurrogate_toNat, codePointBytes?_toNat, Bool.false_eq_true, ↓reduceIte]

theorem partBytes?_pair {c : Char} {high low : Nat}
    (hhigh : CodePoint.isHighSurrogate high = true) (hlow : CodePoint.isLowSurrogate low = true)
    (hc : CodePoint.ofPair high low = c.toNat) (acc : List UInt8) (ps : List StringPart) :
    partBytes? acc (.unit high :: .unit low :: ps) =
      partBytes? ((String.utf8EncodeChar c).reverse ++ acc) ps := by
  rw [partBytes?.eq_def]
  simp only [hhigh, hlow, hc, codePointBytes?_toNat, ↓reduceIte]

theorem Spells.partBytes? {ps : List StringPart} {cs : List Char} (h : Spells ps cs)
    (acc : List UInt8) : Json.partBytes? acc ps = some (acc.reverse ++ encode cs) := by
  induction h generalizing acc with
  | nil =>
    show some acc.reverse = _
    simp
  | char c _ ih =>
    rw [partBytes?_bytes, ih]
    simp
  | unit c _ ih =>
    rw [partBytes?_unit, ih]
    simp
  | pair hhigh hlow hc _ ih =>
    rw [partBytes?_pair hhigh hlow hc, ih]
    simp

/-- The parts of a string are read as what they spell. -/
theorem Spells.text? {ps : List StringPart} {s : String} (h : Spells ps s.toList) :
    Json.text? ps = some s := by
  rw [Json.text?, h.partBytes?]
  exact Utf8.fromUTF8?_encode s

/-! ## Values -/

mutual

/-- A syntax tree has a value, within so many levels of arrays and objects. -/
inductive Means : (room : Nat) → JsonSyntax → Json → Prop
  | null {room : Nat} : Means room .null .null
  | bool {room : Nat} (b : Bool) : Means room (.bool b) (.bool b)
  | number {room : Nat} {t : NumberText} {n : Number} (h : Number.ofText? t = some n) :
    Means room (.number t) (.number n)
  | string {room : Nat} {ps : List StringPart} {s : String} (h : Spells ps s.toList) :
    Means room (.string ps) (.string s)
  | array {room : Nat} {ts : List JsonSyntax} {vs : List Json} (h : ItemsMean room ts vs) :
    Means (room + 1) (.array ts) (.array vs)
  | object {room : Nat} {ts : List (List StringPart × JsonSyntax)} {ms : List (String × Json)}
    (h : MembersMean room ts ms) : Means (room + 1) (.object ts) (.object (Object.ofList ms))

inductive ItemsMean : (room : Nat) → List JsonSyntax → List Json → Prop
  | nil {room : Nat} : ItemsMean room [] []
  | cons {room : Nat} {t : JsonSyntax} {v : Json} {ts : List JsonSyntax} {vs : List Json}
    (h : Means room t v) (hs : ItemsMean room ts vs) : ItemsMean room (t :: ts) (v :: vs)

/-- Some members have names and values, in the order in which they are written. -/
inductive MembersMean :
    (room : Nat) → List (List StringPart × JsonSyntax) → List (String × Json) → Prop
  | nil {room : Nat} : MembersMean room [] []
  | cons {room : Nat} {ps : List StringPart} {n : String} {t : JsonSyntax} {v : Json}
    {ts : List (List StringPart × JsonSyntax)} {ms : List (String × Json)}
    (hn : Spells ps n.toList) (h : Means room t v) (hs : MembersMean room ts ms) :
    MembersMean room ((ps, t) :: ts) ((n, v) :: ms)

end

mutual

theorem Means.ofSyntax? : ∀ {room : Nat} {t : JsonSyntax} {j : Json}, Means room t j →
    Json.ofSyntax? room t = some j
  | _, _, _, .null => rfl
  | _, _, _, .bool _ => rfl
  | _, _, _, .number h => by rw [Json.ofSyntax?, h]; rfl
  | _, _, _, .string h => by rw [Json.ofSyntax?, h.text?]; rfl
  | _, _, _, .array h => by
    rw [Json.ofSyntax?, if_neg (Nat.succ_ne_zero _), Nat.add_sub_cancel, h.itemsOf?]
    rfl
  | _, _, _, .object h => by
    rw [Json.ofSyntax?, if_neg (Nat.succ_ne_zero _), Nat.add_sub_cancel, h.membersOf?]
    rfl

theorem ItemsMean.itemsOf? : ∀ {room : Nat} {ts : List JsonSyntax} {vs : List Json},
    ItemsMean room ts vs → Json.itemsOf? room ts = some vs
  | _, _, _, .nil => rfl
  | _, _, _, .cons h hs => by simp [Json.itemsOf?, h.ofSyntax?, hs.itemsOf?]

theorem MembersMean.membersOf? : ∀ {room : Nat} {ts : List (List StringPart × JsonSyntax)}
    {ms : List (String × Json)}, MembersMean room ts ms → ∀ o : Object,
      Json.membersOf? room o ts = some (ms.foldl (fun o (n, v) => o.insert n v) o)
  | _, _, _, .nil, _ => rfl
  | _, _, _, .cons hn h hs, o => by
    simp [Json.membersOf?, hn.text?, h.ofSyntax?, hs.membersOf?]

end

/-! ## Nothing else is read -/

theorem eq_toNat_of_codePointBytes? {n : Nat} {bs : List UInt8} (h : codePointBytes? n = some bs) :
    ∃ c : Char, c.toNat = n := by
  rw [codePointBytes?, Option.map_eq_some_iff] at h
  obtain ⟨c, hc, -⟩ := h
  by_cases hn : n.isValidChar
  · exact ⟨Char.ofNatAux n hn, rfl⟩
  · rw [CodePoint.char?, dif_neg hn] at hc
    cases hc

/-- Only a unit can complete a pair. -/
theorem partBytes?_unit_byte {high : Nat} (h : CodePoint.isHighSurrogate high = true)
    (acc : List UInt8) (b : UInt8) (ps : List StringPart) :
    partBytes? acc (.unit high :: .byte b :: ps) = none := by
  rw [partBytes?.eq_def]
  simp only [h, ↓reduceIte]

theorem partBytes?_unit_char {high : Nat} (h : CodePoint.isHighSurrogate high = true)
    (acc : List UInt8) (c : Char) (ps : List StringPart) :
    partBytes? acc (.unit high :: ((String.utf8EncodeChar c).map .byte ++ ps)) = none := by
  cases hbytes : String.utf8EncodeChar c with
  | nil =>
    have hsize := String.length_utf8EncodeChar c
    rw [hbytes] at hsize
    exact absurd hsize.symm (Nat.ne_of_gt c.utf8Size_pos)
  | cons b bs => exact partBytes?_unit_byte h acc b _

theorem exists_char_of_pair {high : Nat} (h : CodePoint.isHighSurrogate high = true)
    {acc : List UInt8} {low : Nat} {ps : List StringPart} {bs : List UInt8}
    (hread : partBytes? acc (.unit high :: .unit low :: ps) = some bs) :
    ∃ c : Char, CodePoint.isLowSurrogate low = true ∧ CodePoint.ofPair high low = c.toNat := by
  rw [partBytes?.eq_def] at hread
  simp only [h, ↓reduceIte] at hread
  split at hread
  · rename_i hlow
    split at hread
    · rename_i hbytes
      obtain ⟨c, hc⟩ := eq_toNat_of_codePointBytes? hbytes
      exact ⟨c, hlow, hc.symm⟩
    · cases hread
  · cases hread

theorem exists_char_of_unit {n : Nat} (h : ¬ CodePoint.isHighSurrogate n = true)
    {acc : List UInt8} {ps : List StringPart} {bs : List UInt8}
    (hread : partBytes? acc (.unit n :: ps) = some bs) : ∃ c : Char, c.toNat = n := by
  rw [partBytes?.eq_def] at hread
  simp only [h, Bool.false_eq_true, ↓reduceIte] at hread
  split at hread
  · rename_i hbytes
    exact eq_toNat_of_codePointBytes? hbytes
  · cases hread

/-- The string of a text that is read spells some characters. -/
theorem exists_spells : ∀ {cs : List Char} {ps : List StringPart}, StringWritten cs ps →
    ∀ {acc bs : List UInt8}, partBytes? acc ps = some bs → ∃ ds, Spells ps ds
  | _, _, .nil, _, _, _ => ⟨[], .nil⟩
  | _, _, .plain (c := c) _ _ _ h, _, _, hread => by
    rw [partBytes?_bytes] at hread
    obtain ⟨ds, hds⟩ := exists_spells h hread
    exact ⟨c :: ds, .char c hds⟩
  | _, _, .escape (c := c) hl h, _, _, hread => by
    obtain ⟨ds, hds⟩ := exists_spells h hread
    have hc := Spells.char c hds
    rw [Utf8.utf8EncodeChar_ascii (escapeLetters_lt _ hl)] at hc
    exact ⟨c :: ds, hc⟩
  | _, _, .unit (n := n) _ _ h, acc, _, hread => by
    by_cases hhigh : CodePoint.isHighSurrogate n = true
    -- the unit after a high surrogate belongs to it, so the string goes on after both
    · match h with
      | .nil =>
        rw [partBytes?.eq_def] at hread
        simp [hhigh] at hread
      | .plain _ _ _ _ =>
        rw [partBytes?_unit_char hhigh] at hread
        cases hread
      | .escape _ _ =>
        rw [partBytes?_unit_byte hhigh] at hread
        cases hread
      | .unit _ _ h =>
        obtain ⟨c, hlow, hc⟩ := exists_char_of_pair hhigh hread
        rw [partBytes?_pair hhigh hlow hc] at hread
        obtain ⟨ds, hds⟩ := exists_spells h hread
        exact ⟨c :: ds, .pair hhigh hlow hc hds⟩
    · obtain ⟨c, rfl⟩ := exists_char_of_unit hhigh hread
      rw [partBytes?_unit] at hread
      obtain ⟨ds, hds⟩ := exists_spells h hread
      exact ⟨c :: ds, .unit c hds⟩

theorem spells_of_text? {cs : List Char} {ps : List StringPart} {s : String}
    (h : StringWritten cs ps) (hread : text? ps = some s) : Spells ps s.toList := by
  have hbytes := hread
  rw [text?, Option.bind_eq_some_iff] at hbytes
  obtain ⟨bs, hbs, -⟩ := hbytes
  obtain ⟨ds, hds⟩ := exists_spells h hbs
  have hs : String.ofList ds = s := by
    have hds' : Spells ps (String.ofList ds).toList := by rwa [String.toList_ofList]
    exact Option.some.inj (hds'.text?.symm.trans hread)
  rwa [← hs, String.toList_ofList]

mutual

/-- What a value is read as is what it means. -/
theorem means_of_written : ∀ {cs : List Char} {t : JsonSyntax}, Written cs t →
    ∀ {room : Nat} {j : Json}, ofSyntax? room t = some j → Means room t j
  | _, _, .nullWord, _, _, h => by cases h; exact .null
  | _, _, .trueWord, _, _, h => by cases h; exact .bool true
  | _, _, .falseWord, _, _, h => by cases h; exact .bool false
  | _, _, .number _, _, _, h | _, _, .negative _, _, _, h => by
    rw [ofSyntax?, Option.map_eq_some_iff] at h
    obtain ⟨n, hn, rfl⟩ := h
    exact .number hn
  | _, _, .string hs, _, _, h => by
    rw [ofSyntax?, Option.map_eq_some_iff] at h
    obtain ⟨s, hread, rfl⟩ := h
    exact .string (spells_of_text? hs hread)
  | _, _, .emptyArray _, 0, _, h | _, _, .array _, 0, _, h | _, _, .emptyObject _, 0, _, h
  | _, _, .object _, 0, _, h => by cases h
  | _, _, .emptyArray _, room + 1, _, h => by cases h; exact .array .nil
  | _, _, .array hs, room + 1, _, h => by
    rw [ofSyntax?, if_neg (Nat.succ_ne_zero room), Option.map_eq_some_iff] at h
    obtain ⟨vs, hread, rfl⟩ := h
    exact .array (itemsMean_of_written hs hread)
  | _, _, .emptyObject _, room + 1, _, h => by cases h; exact .object .nil
  | _, _, .object hs, room + 1, _, h => by
    rw [ofSyntax?, if_neg (Nat.succ_ne_zero room), Option.map_eq_some_iff] at h
    obtain ⟨o, hread, rfl⟩ := h
    obtain ⟨ms, hms, rfl⟩ := membersMean_of_written hs hread
    exact .object hms

theorem means_of_element : ∀ {cs : List Char} {t : JsonSyntax}, ElementWritten cs t →
    ∀ {room : Nat} {j : Json}, ofSyntax? room t = some j → Means room t j
  | _, _, .intro _ h _, _, _, hread => means_of_written h hread

theorem itemsMean_of_written : ∀ {cs : List Char} {ts : List JsonSyntax}, ItemsWritten cs ts →
    ∀ {room : Nat} {vs : List Json}, itemsOf? room ts = some vs → ItemsMean room ts vs
  | _, _, .last h, room, _, hread => by
    simp only [itemsOf?] at hread
    split at hread
    · cases hread
    · cases hread
      exact .cons (means_of_element h ‹_›) .nil
  | _, _, .more h hs, room, _, hread => by
    rw [itemsOf?] at hread
    split at hread
    · cases hread
    · rw [Option.map_eq_some_iff] at hread
      obtain ⟨vs, hvs, rfl⟩ := hread
      exact .cons (means_of_element h ‹_›) (itemsMean_of_written hs hvs)

theorem membersMean_of_written : ∀ {cs : List Char} {ts : List (List StringPart × JsonSyntax)},
    MembersWritten cs ts → ∀ {room : Nat} {o o' : Object}, membersOf? room o ts = some o' →
      ∃ ms, MembersMean room ts ms ∧ ms.foldl (fun o (n, v) => o.insert n v) o = o'
  | _, _, .last (.intro _ hn _) h, room, o, o', hread => by
    simp only [membersOf?] at hread
    split at hread
    · cases hread
      exact ⟨_, .cons (spells_of_text? hn ‹_›) (means_of_element h ‹_›) .nil, rfl⟩
    · cases hread
  | _, _, .more (.intro _ hn _) h hs, room, o, o', hread => by
    rw [membersOf?] at hread
    split at hread
    · obtain ⟨ms, hms, hfold⟩ := membersMean_of_written hs hread
      exact ⟨_, .cons (spells_of_text? hn ‹_›) (means_of_element h ‹_›) hms, hfold⟩
    · cases hread

end

/-! ## Texts -/

/-- A text is read as the value that it means, and not read if it means none. -/
theorem parseBytes_encode_eq_ok_iff {cs : List Char} {t : JsonSyntax} (ht : ElementWritten cs t)
    {j : Json} : parseBytes (encode cs) = .ok j ↔ Means nestingLimit t j := by
  rw [parseBytes, ht.parse?, Option.bind_some]
  constructor
  · intro h
    split at h
    · cases h
      exact means_of_element ht ‹_›
    · cases h
  · intro h
    rw [h.ofSyntax?]

end RecordGateway.Json
