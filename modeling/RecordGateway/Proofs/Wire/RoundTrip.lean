import RecordGateway.Proofs.Text.Encoding
import RecordGateway.Proofs.Wire.Fields

/-!
# Messages arrive as they were sent

What `Field.encode` gives for a field that can be sent (`Sendable`: its numbers and sizes are in
range, and its groups have room) is one of the spellings of the field (`written_encode`), so it is
read back (`ofBytes?_encodeAll`). So are the messages made of fields: what a fetch or a record is
sent as reads back as that fetch or record, and different fetches differ in their bytes
(`decode?_encode_sent`). The one limit is that a length is a number of 64 bits.
-/

namespace RecordGateway

namespace Wire

namespace Field

/-! ## Fields that can be sent -/

mutual

/-- A field that can be sent where so many levels are left. -/
def Sendable : Field → (room : Nat) → Prop
  | _, 0 => False
  | varint n v, _ + 1 => IsNumber n ∧ v < UInt64.size
  | fixed64 n bs, _ + 1 => IsNumber n ∧ bs.length = 8
  | bytes n bs, _ + 1 => IsNumber n ∧ bs.length < UInt64.size
  | group n fs, room + 1 => IsNumber n ∧ SendableAll fs room
  | fixed32 n bs, _ + 1 => IsNumber n ∧ bs.length = 4

def SendableAll : List Field → (room : Nat) → Prop
  | [], _ => True
  | f :: fs, room => Sendable f room ∧ SendableAll fs room

end

theorem not_sendable_zero (f : Field) : ¬ f.Sendable 0 := by
  cases f <;> exact id

/-! ## What they are written as -/

theorem keyWritten_key {n shape : Nat} (hn : IsNumber n) (hs : shape < 8) :
    KeyWritten (key n shape) n shape := by
  have hlt := hn.2
  have h32 : UInt32.size < UInt64.size := by decide
  exact ⟨hn, hs, Varint.written_encode (by omega)⟩

mutual

theorem written_encode : ∀ (f : Field) (room : Nat), f.Sendable room → Written room (encode f) f
  | f, 0, h => absurd h (not_sendable_zero f)
  | varint n v, room + 1, h => by
    simp only [Sendable] at h
    exact .varint (keyWritten_key h.1 (by decide)) (Varint.written_encode h.2)
  | fixed64 n bs, room + 1, h => by
    simp only [Sendable] at h
    exact .fixed64 (keyWritten_key h.1 (by decide)) h.2
  | bytes n bs, room + 1, h => by
    simp only [Sendable] at h
    exact .bytes (keyWritten_key h.1 (by decide)) (Varint.written_encode h.2)
  | group n fs, room + 1, h => by
    simp only [Sendable] at h
    unfold encode
    rw [List.append_assoc]
    exact .group (keyWritten_key h.1 (by decide)) (allWritten_encodeAll fs room h.2)
      (keyWritten_key h.1 (by decide))
  | fixed32 n bs, room + 1, h => by
    simp only [Sendable] at h
    exact .fixed32 (keyWritten_key h.1 (by decide)) h.2

theorem allWritten_encodeAll : ∀ (fs : List Field) (room : Nat), SendableAll fs room →
    AllWritten room (encodeAll fs) fs
  | [], _, _ => .nil
  | f :: fs, room, h => by
    simp only [SendableAll] at h
    exact .cons (written_encode f room h.1) (allWritten_encodeAll fs room h.2)

end

/-- The bytes of fields that can be sent are those of the fields only. -/
theorem ofBytes?_encodeAll {room : Nat} {fs : List Field} (h : SendableAll fs room) :
    ofBytes? room (encodeAll fs) = some fs :=
  (allWritten_encodeAll fs room h).ofBytes?

/-! ## Fields with bytes -/

theorem length_le_encodeAll {n : Nat} {bs : List UInt8} : ∀ {fs : List Field}, .bytes n bs ∈ fs →
    bs.length ≤ (encodeAll fs).length
  | f :: fs, h => by
    simp only [encodeAll, List.length_append]
    rcases List.mem_cons.1 h with rfl | h
    · simp only [encode, sized, List.length_append]
      omega
    · have := length_le_encodeAll h
      omega

theorem sendableAll_iff {room : Nat} {fs : List Field} :
    SendableAll fs room ↔ ∀ f ∈ fs, f.Sendable room := by
  induction fs with
  | nil => simp [SendableAll]
  | cons f fs ih => simp [SendableAll, ih]

/-- Fields that are all bytes can be sent if their length can be counted. -/
theorem sendableAll_of_bytes {fs : List Field} (room : Nat)
    (h : ∀ f ∈ fs, ∃ n bs, f = .bytes n bs ∧ IsNumber n)
    (hlen : (encodeAll fs).length < UInt64.size) : SendableAll fs (room + 1) := by
  refine sendableAll_iff.2 fun f hf => ?_
  obtain ⟨n, bs, rfl, hn⟩ := h f hf
  exact ⟨hn, Nat.lt_of_le_of_lt (length_le_encodeAll hf) hlen⟩

end Field

/-! ## Messages -/

theorem text?_text (s : String) : text? (text s) = some s := by
  have hbytes : (⟨(text s).toArray⟩ : ByteArray) = (Utf8.encode s.toList).toByteArray := by
    rw [text, Utf8.toList_toUTF8]
    exact ByteArray.ext (by simp)
  rw [text?, hbytes]
  exact Utf8.fromUTF8?_encode s

@[simp]
theorem Field.text?_bytes (n : Nat) (s : String) : (Field.bytes n (text s)).text? = some s :=
  text?_text s

theorem foldFields?_encodeAll {α : Type} {step : α → Field → Option α} {start : α} {room : Nat}
    {fs : List Field} (h : Field.SendableAll fs room) :
    foldFields? step start room (Field.encodeAll fs) = fs.foldlM step start := by
  rw [foldFields?, Field.ofBytes?_encodeAll h]
  rfl

/-- A string field holds the bytes of the string, in one field or in none. -/
theorem eq_of_mem_stringField {n : Nat} {s : String} {f : Field} (h : f ∈ stringField n s) :
    f = .bytes n (text s) := by
  unfold stringField at h
  split at h
  · cases h
  · exact List.mem_singleton.1 h

/-- A string field takes a reader to where the string is known; the empty string is known before. -/
theorem foldlM_stringField {α : Type} {step : α → Field → Option α} {a b : α} {n : Nat} {s : String}
    (hempty : s = "" → b = a) (hstep : step a (.bytes n (text s)) = some b) :
    (stringField n s).foldlM step a = some b := by
  unfold stringField
  split
  · simp [hempty ‹_›]
  · simp [hstep]

end Wire

open Wire

namespace FetchMessage

theorem foldlM_maskStep? (paths acc : List String) :
    (paths.map fun p => Field.bytes 1 (text p)).foldlM maskStep? acc = some (acc ++ paths) := by
  induction paths generalizing acc with
  | nil => simp
  | cons p paths ih => simp [maskStep?, Field.number, ih]

/-- The mask of a fetch reads back. -/
theorem foldFields?_encodeMask {paths : List String}
    (h : (encodeMask paths).length < UInt64.size) :
    foldFields? maskStep? [] (nestingLimit - 1) (encodeMask paths) = some paths := by
  have hsend : Field.SendableAll (paths.map fun p => .bytes 1 (text p)) (nestingLimit - 1) := by
    refine Field.sendableAll_of_bytes _ (fun f hf => ?_) h
    obtain ⟨p, -, rfl⟩ := List.mem_map.1 hf
    exact ⟨1, text p, rfl, by decide⟩
  rw [encodeMask, foldFields?_encodeAll hsend, foldlM_maskStep?, List.nil_append]

/-- A fetch reads back, with its mask. -/
theorem decode?_encode_ofFetch {f : Fetch} (h : (ofFetch f).encode.length < UInt64.size) :
    decode? (ofFetch f).encode = some (ofFetch f) := by
  have hfields : (ofFetch f).fields = stringField 1 f.id ++ [.bytes 2 (encodeMask f.paths)] := rfl
  rw [encode, hfields] at h
  have hsend : Field.SendableAll (stringField 1 f.id ++ [.bytes 2 (encodeMask f.paths)])
      nestingLimit := by
    refine Field.sendableAll_of_bytes _ (fun x hx => ?_) h
    rcases List.mem_append.1 hx with hx | hx
    · exact ⟨1, _, eq_of_mem_stringField hx, by decide⟩
    · exact ⟨2, _, List.mem_singleton.1 hx, by decide⟩
  have hmask := foldFields?_encodeMask (Nat.lt_of_le_of_lt
    (Field.length_le_encodeAll (List.mem_append_right _ (List.mem_singleton_self _))) h)
  have hid : (stringField 1 f.id).foldlM step? {} = some { id := f.id } :=
    foldlM_stringField (fun hid => by rw [hid]) (by simp [step?, Field.number])
  rw [decode?, encode, hfields, foldFields?_encodeAll hsend, List.foldlM_append, hid]
  simp [step?, Field.number, hmask, ofFetch]

end FetchMessage

/-- A record reads back. -/
theorem Record.decode?_encode {r : Record} (h : r.encode.length < UInt64.size) :
    decode? r.encode = some r := by
  have hsend : Field.SendableAll r.fields nestingLimit := by
    refine Field.sendableAll_of_bytes _ (fun x hx => ?_) h
    simp only [fields, List.mem_append] at hx
    obtain (hx | hx) | hx := hx
    · exact ⟨1, _, eq_of_mem_stringField hx, by decide⟩
    · exact ⟨2, _, eq_of_mem_stringField hx, by decide⟩
    · exact ⟨3, _, eq_of_mem_stringField hx, by decide⟩
  have hid : (stringField 1 r.id).foldlM step? ⟨"", "", ""⟩ = some ⟨r.id, "", ""⟩ :=
    foldlM_stringField (fun hs => by rw [hs]) (by simp [step?, Field.number])
  have hname : (stringField 2 r.name).foldlM step? ⟨r.id, "", ""⟩ = some ⟨r.id, r.name, ""⟩ :=
    foldlM_stringField (fun hs => by rw [hs]) (by simp [step?, Field.number])
  have hdescription : (stringField 3 r.description).foldlM step? ⟨r.id, r.name, ""⟩ = some r :=
    foldlM_stringField (fun hs => by rw [← hs]) (by simp [step?, Field.number])
  rw [decode?, encode, foldFields?_encodeAll hsend, fields, List.foldlM_append, List.foldlM_append,
    hid]
  simp [hname, hdescription]

/-! ## What is sent -/

/-- What is sent arrives: the id of a fetch, which is empty if there is none, with a mask of just
the paths, also if there are none; and the strings of a record. Different fetches differ in their
bytes. -/
theorem decode?_encode_sent :
    (∀ (id : Option String) (paths : List String),
      (FetchMessage.ofFetch (.ofSelection id paths)).encode.length < UInt64.size →
        FetchMessage.decode? (FetchMessage.ofFetch (.ofSelection id paths)).encode =
          some ⟨id.getD "", some paths⟩) ∧
    (∀ r : Record, r.encode.length < UInt64.size → Record.decode? r.encode = some r) ∧
    ∀ f g : Fetch, (FetchMessage.ofFetch f).encode.length < UInt64.size →
      (FetchMessage.ofFetch f).encode = (FetchMessage.ofFetch g).encode → f = g := by
  refine ⟨fun id paths h => FetchMessage.decode?_encode_ofFetch h,
    fun r h => Record.decode?_encode h, fun f g hf hfg => ?_⟩
  have hg := hf
  rw [hfg] at hg
  have hread : some (FetchMessage.ofFetch f) = some (FetchMessage.ofFetch g) := by
    rw [← FetchMessage.decode?_encode_ofFetch hf, ← FetchMessage.decode?_encode_ofFetch hg, hfg]
  cases f
  cases g
  simp_all [FetchMessage.ofFetch]

/-- A record with an empty string between two others, one of them with letters of several bytes. -/
def unnamed : Record := ⟨"ключ", "", "b"⟩

theorem decode?_encode_unnamed :
    FetchMessage.decode? (FetchMessage.ofFetch (.ofSelection none ["", "name", "name"])).encode =
        some ⟨"", some ["", "name", "name"]⟩ ∧
      Record.decode? unnamed.encode = some unnamed ∧
      (FetchMessage.ofFetch ⟨"a", []⟩).encode ≠ (FetchMessage.ofFetch ⟨"", ["a"]⟩).encode := by
  obtain ⟨hfetch, hrecord, hne⟩ := decode?_encode_sent
  exact ⟨hfetch none _ (by decide +kernel), hrecord _ (by decide +kernel),
    fun h => absurd (hne _ _ (by decide +kernel) h) (by decide)⟩

end RecordGateway
