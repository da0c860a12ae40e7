import RecordGateway.Wire.Message

/-!
# Fields in any spelling

A number may be written with more bytes than it needs, so a field has more than one spelling.
`Varint.Written bs n`: the bytes `bs` write the number `n`. `Field.Written room bs f`: they write
the field `f`, in which groups nest no deeper than `room` allows. Fields are read off whatever their
spelling, one after the other (`AllWritten.ofBytes?`), and so a message is a fold over what its
fields do (`foldFields?_pieces`).
-/

namespace RecordGateway.Wire

/-! ## Numbers -/

namespace Varint

/-- Some bytes write a number, seven bits each; the last ones may be zeros. -/
inductive Groups : List UInt8 → Nat → Prop
  | last {b : UInt8} (hb : b.toNat < 128) : Groups [b] b.toNat
  | more {b : UInt8} {bs : List UInt8} {n : Nat} (hb : 128 ≤ b.toNat) (h : Groups bs n) :
    Groups (b :: bs) (b.toNat - 128 + 128 * n)

/-- Some bytes write a number of 64 bits. -/
structure Written (bs : List UInt8) (n : Nat) : Prop where
  groups : Groups bs n
  short : bs.length ≤ maxLength
  fits : n < UInt64.size

theorem Groups.ne_nil {bs : List UInt8} {n : Nat} (h : Groups bs n) : bs ≠ [] := by
  cases h <;> exact List.cons_ne_nil _ _

theorem Groups.read? {bs : List UInt8} {n : Nat} (h : Groups bs n) (rest : List UInt8) :
    ∀ room, bs.length ≤ room → Varint.read? room (bs ++ rest) = some (n, rest) := by
  induction h with
  | @last b hb =>
    intro room hroom
    obtain ⟨room, rfl⟩ := Nat.exists_eq_add_of_le' hroom
    simp [Varint.read?, hb]
  | @more b bs n hb _ ih =>
    intro room hroom
    obtain ⟨room, rfl⟩ := Nat.exists_eq_add_of_le' (Nat.le_trans (Nat.le_add_left 1 _) hroom)
    have hread := ih room (by simpa using hroom)
    simp [Varint.read?, Nat.not_lt.2 hb, hread]

theorem Written.decode? {bs : List UInt8} {n : Nat} (h : Written bs n) (rest : List UInt8) :
    Varint.decode? (bs ++ rest) = some (n, rest) := by
  simp [Varint.decode?, h.groups.read? rest maxLength h.short, h.fits]

/-! ### The shortest spelling -/

theorem groups_encode (n : Nat) : Groups (encode n) n := by
  fun_induction encode n with
  | case1 n hn =>
    have hb : (UInt8.ofNat n).toNat = n := UInt8.toNat_ofNat_of_lt' (show _ < 256 by omega)
    have h := Groups.last (b := UInt8.ofNat n) (by omega)
    rwa [hb] at h
  | case2 n hn ih =>
    have hb : (UInt8.ofNat (n % 128 + 128)).toNat = n % 128 + 128 :=
      UInt8.toNat_ofNat_of_lt' (show _ < 256 by omega)
    have h := Groups.more (b := UInt8.ofNat (n % 128 + 128)) (by omega) ih
    rwa [hb, Nat.add_sub_cancel, Nat.mod_add_div] at h

theorem length_encode_le {room n : Nat} (h : n < Nat.pow 128 (room + 1)) :
    (encode n).length ≤ room + 1 := by
  induction room generalizing n with
  | zero =>
    have h : n < 128 := h
    rw [encode, if_pos h]
    exact Nat.le_refl 1
  | succ room ih =>
    have hn : n / 128 < Nat.pow 128 (room + 1) :=
      Nat.div_lt_of_lt_mul (by rw [Nat.mul_comm]; exact h)
    rw [encode]
    split
    · exact Nat.le_add_left 1 _
    · exact Nat.succ_le_succ (ih hn)

theorem written_encode {n : Nat} (h : n < UInt64.size) : Written (encode n) n :=
  ⟨groups_encode n, length_encode_le (Nat.lt_trans h (by decide)), h⟩

end Varint

namespace Field

/-! ## Spelling -/

/-- A field number leaves three bits of a key for the shape. -/
def IsNumber (n : Nat) : Prop := 0 < n ∧ 8 * n + 7 < UInt32.size

instance (n : Nat) : Decidable (IsNumber n) := inferInstanceAs (Decidable (_ ∧ _))

/-- Some bytes write the number and the shape of a field. -/
structure KeyWritten (ks : List UInt8) (number shape : Nat) : Prop where
  isNumber : IsNumber number
  isShape : shape < 8
  varint : Varint.Written ks (8 * number + shape)

mutual

/-- Some bytes write a field, where so many levels are left. -/
inductive Written : (room : Nat) → List UInt8 → Field → Prop
  | varint {room n v : Nat} {ks vs : List UInt8} (hk : KeyWritten ks n 0)
    (hv : Varint.Written vs v) : Written (room + 1) (ks ++ vs) (.varint n v)
  | fixed64 {room n : Nat} {ks bs : List UInt8} (hk : KeyWritten ks n 1) (hlen : bs.length = 8) :
    Written (room + 1) (ks ++ bs) (.fixed64 n bs)
  | bytes {room n : Nat} {ks ls bs : List UInt8} (hk : KeyWritten ks n 2)
    (hl : Varint.Written ls bs.length) : Written (room + 1) (ks ++ (ls ++ bs)) (.bytes n bs)
  | group {room n : Nat} {ks bs es : List UInt8} {fs : List Field} (hk : KeyWritten ks n 3)
    (h : AllWritten room bs fs) (he : KeyWritten es n 4) :
    Written (room + 1) (ks ++ (bs ++ es)) (.group n fs)
  | fixed32 {room n : Nat} {ks bs : List UInt8} (hk : KeyWritten ks n 5) (hlen : bs.length = 4) :
    Written (room + 1) (ks ++ bs) (.fixed32 n bs)

/-- Some bytes write fields one after the other. -/
inductive AllWritten : (room : Nat) → List UInt8 → List Field → Prop
  | nil {room : Nat} : AllWritten room [] []
  | cons {room : Nat} {bs cs : List UInt8} {f : Field} {fs : List Field} (h : Written room bs f)
    (hs : AllWritten room cs fs) : AllWritten room (bs ++ cs) (f :: fs)

end

/-! ## Reading fields -/

section
variable {ks : List UInt8} {n shape : Nat}

theorem KeyWritten.length_pos (h : KeyWritten ks n shape) : 0 < ks.length :=
  List.length_pos_iff.2 h.varint.groups.ne_nil

theorem KeyWritten.key? (h : KeyWritten ks n shape) (rest : List UInt8) :
    Field.key? (ks ++ rest) = some ((n, shape), rest) := by
  have hs := h.isShape
  obtain ⟨hpos, hlt⟩ := h.isNumber
  have hk : 8 * n + shape < UInt32.size := by omega
  rw [Field.key?, h.varint.decode?]
  simp only [hk, decide_true, Bool.true_and, decide_eq_true_eq]
  rw [if_pos (by omega)]
  congr 3 <;> omega

end

theorem Written.length_pos {room : Nat} {bs : List UInt8} {f : Field} (h : Written room bs f) :
    0 < bs.length := by
  have hkey : ∀ {ks after : List UInt8} {n shape : Nat}, KeyWritten ks n shape →
      0 < (ks ++ after).length := fun hk => by
    have := hk.length_pos
    rw [List.length_append]
    omega
  cases h <;> exact hkey ‹_›

theorem take?_of_length {n : Nat} {content : List UInt8} (h : content.length = n)
    (rest : List UInt8) : take? n (content ++ rest) = some (content, rest) := by
  simp [take?, ← h]

/-- In front of some bytes stand a key, not one that ends a group, and the content of the field `f`,
which reads with enough fuel. -/
structure InFront (room : Nat) (f : Field) (bs rest : List UInt8) (n shape : Nat)
    (after : List UInt8) : Prop where
  key : key? bs = some ((n, shape), after)
  shape_ne : shape ≠ 4
  room_ne : room ≠ 0
  content : ∀ fuel, after.length ≤ fuel →
    contentOf? (groupOf? fuel (room - 1)) n shape after = some (f, rest)
  shorter : after.length < bs.length

theorem KeyWritten.inFront {room n shape : Nat} {f : Field} {ks content rest : List UInt8}
    (h : KeyWritten ks n shape) (hne : shape ≠ 4)
    (hc : ∀ fuel, (content ++ rest).length ≤ fuel →
      contentOf? (groupOf? fuel room) n shape (content ++ rest) = some (f, rest)) :
    ∃ n' shape' after, InFront (room + 1) f (ks ++ content ++ rest) rest n' shape' after := by
  have hpos := h.length_pos
  rw [List.append_assoc]
  exact ⟨n, shape, _, h.key? _, hne, Nat.succ_ne_zero room, hc, by
    simp only [List.length_append]
    omega⟩

mutual

/-- A field is read off whatever follows. -/
theorem Written.inFront : ∀ {room : Nat} {bs : List UInt8} {f : Field}, Written room bs f →
    ∀ rest, ∃ n shape after, InFront room f (bs ++ rest) rest n shape after
  | _, _, _, .varint hk hv, rest =>
    hk.inFront (by decide) fun _ _ => by simp [contentOf?, hv.decode? rest]
  | _, _, _, .fixed64 hk hlen, rest =>
    hk.inFront (by decide) fun _ _ => by simp [contentOf?, take?_of_length hlen rest]
  | _, _, _, .bytes hk hl, rest =>
    hk.inFront (by decide) fun _ _ => by simp [contentOf?, sized?, hl.decode?, take?_of_length]
  | _, _, _, .group hk h he, rest =>
    hk.inFront (by decide) fun fuel hlen => by
      rw [List.append_assoc] at hlen ⊢
      simp [contentOf?, h.groupOf? he fuel rest hlen]
  | _, _, _, .fixed32 hk hlen, rest =>
    hk.inFront (by decide) fun _ _ => by simp [contentOf?, take?_of_length hlen rest]

/-- The fields of a group are read up to its end. -/
theorem AllWritten.groupOf? : ∀ {room : Nat} {bs : List UInt8} {fs : List Field},
    AllWritten room bs fs → ∀ {number : Nat} {es : List UInt8}, KeyWritten es number 4 →
      ∀ fuel rest, (bs ++ (es ++ rest)).length ≤ fuel →
        Field.groupOf? fuel room number (bs ++ (es ++ rest)) = some (fs, rest)
  | _, _, _, _, _, es, he, 0, rest, hlen => by
    have hpos := he.length_pos
    simp only [List.length_append] at hlen
    omega
  | _, _, _, .nil, _, es, he, fuel + 1, rest, _ => by
    simp [Field.groupOf?, he.key?]
  | _, _, _, @AllWritten.cons _ _ cs _ _ h hs, _, es, he, fuel + 1, rest, hlen => by
    rw [List.append_assoc] at hlen ⊢
    obtain ⟨n, shape, after, hf⟩ := h.inFront (cs ++ (es ++ rest))
    have hafter := hf.shorter
    have hpos := h.length_pos
    rw [List.length_append] at hafter hlen
    simp [Field.groupOf?, hf.key, hf.shape_ne, hf.room_ne, hf.content fuel (by omega),
      hs.groupOf? he fuel rest (by omega)]

end

section
variable {room : Nat} {bs : List UInt8} {f : Field} {fs : List Field}

theorem Written.decode? (h : Written room bs f) (rest : List UInt8) :
    Field.decode? room (bs ++ rest) = some (f, rest) := by
  obtain ⟨n, shape, after, hf⟩ := h.inFront rest
  simp [Field.decode?, hf.key, hf.room_ne, hf.content _ (Nat.le_refl _)]

theorem AllWritten.decodeAll? : ∀ {room : Nat} {bs : List UInt8} {fs : List Field},
    AllWritten room bs fs → ∀ fuel, bs.length ≤ fuel → Field.decodeAll? room fuel bs = some fs
  | _, _, _, .nil, fuel, _ => by simp [Field.decodeAll?]
  | _, _, _, .cons h hs, fuel, hlen => by
    have hpos := h.length_pos
    rw [List.length_append] at hlen
    obtain ⟨fuel, rfl⟩ := Nat.exists_eq_add_of_le' (show 1 ≤ fuel by omega)
    rw [Field.decodeAll?, h.decode?]
    · simp [hs.decodeAll? fuel (by omega)]
    · exact List.append_ne_nil_of_left_ne_nil (List.length_pos_iff.1 hpos) _

/-- The bytes of some fields are those of these fields only. -/
theorem AllWritten.ofBytes? (h : AllWritten room bs fs) : Field.ofBytes? room bs = some fs :=
  h.decodeAll? _ (Nat.le_refl _)

end

end Field

/-! ## Messages of pieces -/

/-- Some bytes are the pieces of items, one after the other. -/
inductive Pieces {ι : Type} (piece : List UInt8 → ι → Prop) : List UInt8 → List ι → Prop
  | nil : Pieces piece [] []
  | cons {bs cs : List UInt8} {i : ι} {is : List ι} (h : piece bs i) (hs : Pieces piece cs is) :
    Pieces piece (bs ++ cs) (i :: is)

section
variable {α ι : Type} {piece : List UInt8 → ι → Prop} {step : α → Field → Option α}
  {effect : α → ι → α} {room : Nat} {bs : List UInt8} {is : List ι}

theorem Pieces.exists_allWritten (h : Pieces piece bs is)
    (hpiece : ∀ {cs i}, piece cs i →
      ∃ f, Field.Written room cs f ∧ ∀ a, step a f = some (effect a i)) :
    ∃ fs, Field.AllWritten room bs fs ∧ ∀ a, fs.foldlM step a = some (is.foldl effect a) := by
  induction h with
  | nil => exact ⟨[], .nil, fun a => rfl⟩
  | cons hi _ ih =>
    obtain ⟨f, hf, hstep⟩ := hpiece hi
    obtain ⟨fs, hfs, hsteps⟩ := ih
    exact ⟨f :: fs, .cons hf hfs, fun a => by simp [hstep, hsteps]⟩

/-- If each piece is a field that always reads with the same effect, then a message of pieces reads
with their effects one after the other. -/
theorem foldFields?_pieces (h : Pieces piece bs is)
    (hpiece : ∀ {cs i}, piece cs i →
      ∃ f, Field.Written room cs f ∧ ∀ a, step a f = some (effect a i)) (start : α) :
    foldFields? step start room bs = some (is.foldl effect start) := by
  obtain ⟨fs, hfs, hsteps⟩ := h.exists_allWritten hpiece
  rw [foldFields?, hfs.ofBytes?, Option.bind_some, hsteps]

end

end RecordGateway.Wire
