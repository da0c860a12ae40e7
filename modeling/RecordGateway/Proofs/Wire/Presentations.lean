import RecordGateway.Proofs.Downstream.Transparent

/-!
# Messages in any presentation

The fields of a message may come in any order, any number of times, in any spelling and with other
fields between them. An `Item` is what one field of a message means: a declared one with its text,
or another. Bytes that are the pieces of items are always read, and what is read depends only on the
last text for each string and on the paths of all masks in order (`reads_any_presentation`).
-/

namespace RecordGateway

open Wire

/-- Of some texts the last, or the empty text if there is none. -/
def lastText (texts : List String) : String := texts.getLast?.getD ""

theorem getD_getLast?_cons (s t : String) (texts : List String) :
    ((s :: texts).getLast?).getD t = texts.getLast?.getD s := by
  rw [List.getLast?_cons]
  rfl

/-! ## Fetches -/

namespace FetchMessage

/-- What a field of a mask means. -/
inductive MaskItem where
  | path (s : String)
  | other (f : Field)

/-- What a field of a fetch means. -/
inductive Item where
  | id (s : String)
  | mask (items : List MaskItem)
  | other (f : Field)

/-- Some bytes write a field of a mask. -/
def MaskItem.Written (bs : List UInt8) : MaskItem → Prop
  | path s => Field.Written (nestingLimit - 1) bs (.bytes 1 (text s))
  | other f => Field.Written (nestingLimit - 1) bs f ∧ f.number ≠ 1

/-- Some bytes write a field of a fetch. -/
def Item.Written (bs : List UInt8) : Item → Prop
  | id s => Field.Written nestingLimit bs (.bytes 1 (text s))
  | mask items => ∃ content, Pieces MaskItem.Written content items ∧
      Field.Written nestingLimit bs (.bytes 2 content)
  | other f => Field.Written nestingLimit bs f ∧ f.number ≠ 1 ∧ f.number ≠ 2

def MaskItem.path? : MaskItem → Option String
  | path s => some s
  | other _ => none

def Item.id? : Item → Option String
  | id s => some s
  | _ => none

def Item.isMask : Item → Bool
  | mask _ => true
  | _ => false

def Item.paths : Item → List String
  | mask items => items.filterMap MaskItem.path?
  | _ => []

def Item.isDeclared : Item → Bool
  | other _ => false
  | _ => true

/-- What the fields of a fetch mean together: the last id, and if there is a mask all paths. -/
def ofItems (items : List Item) : FetchMessage where
  id := lastText (items.filterMap Item.id?)
  mask := if items.any Item.isMask then some (items.flatMap Item.paths) else none

theorem MaskItem.Written.exists_field {bs : List UInt8} {i : MaskItem} (h : i.Written bs) :
    ∃ f, Field.Written (nestingLimit - 1) bs f ∧
      ∀ paths, maskStep? paths f = some (paths ++ i.path?.toList) := by
  cases i with
  | path s => exact ⟨_, h, fun paths => by simp [maskStep?, Field.number, path?]⟩
  | other f => exact ⟨f, h.1, fun paths => by simp [maskStep?, h.2, path?]⟩

/-- The fields of a mask add their paths. -/
theorem foldFields?_maskItems {bs : List UInt8} {items : List MaskItem}
    (h : Pieces MaskItem.Written bs items) (paths : List String) :
    foldFields? maskStep? paths (nestingLimit - 1) bs =
      some (paths ++ items.filterMap MaskItem.path?) := by
  rw [foldFields?_pieces h MaskItem.Written.exists_field, List.foldl_append_eq_append,
    List.filterMap_eq_flatMap_toList]
  rfl

/-- What a field of a fetch does to what is known. -/
def Item.effect (m : FetchMessage) : Item → FetchMessage
  | id s => { m with id := s }
  | mask items => { m with mask := some (m.mask.getD [] ++ items.filterMap MaskItem.path?) }
  | other _ => m

theorem Item.Written.exists_field {bs : List UInt8} {i : Item} (h : i.Written bs) :
    ∃ f, Field.Written nestingLimit bs f ∧ ∀ m, step? m f = some (i.effect m) := by
  cases i with
  | id s => exact ⟨_, h, fun m => by simp [step?, Field.number, effect]⟩
  | mask items =>
    obtain ⟨content, hitems, hf⟩ := h
    exact ⟨_, hf, fun m => by simp [step?, Field.number, foldFields?_maskItems hitems, effect]⟩
  | other f =>
    obtain ⟨hf, h1, h2⟩ := h
    exact ⟨f, hf, fun m => by simp [step?, h1, h2, effect]⟩

theorem flatMap_paths_eq_nil {items : List Item} (h : items.any Item.isMask = false) :
    items.flatMap Item.paths = [] := by
  rw [List.flatMap_eq_nil_iff]
  intro i hi
  have hmask := List.any_eq_false.1 h i hi
  cases i with
  | mask => exact absurd rfl hmask
  | _ => rfl

theorem foldl_effect (items : List Item) (m : FetchMessage) :
    items.foldl Item.effect m =
      ⟨(items.filterMap Item.id?).getLast?.getD m.id,
        if items.any Item.isMask then some (m.mask.getD [] ++ items.flatMap Item.paths)
        else m.mask⟩ := by
  induction items generalizing m with
  | nil => rfl
  | cons i items ih =>
    rw [List.foldl_cons, ih]
    cases i with
    | id s => simp [Item.effect, Item.id?, Item.isMask, Item.paths, getD_getLast?_cons]
    | mask ps =>
      cases hmask : items.any Item.isMask with
      | true => simp [Item.effect, Item.id?, Item.isMask, Item.paths, hmask]
      | false =>
        simp [Item.effect, Item.id?, Item.isMask, Item.paths, hmask, flatMap_paths_eq_nil hmask]
    | other f => simp [Item.effect, Item.id?, Item.isMask, Item.paths]

theorem foldl_effect_empty (items : List Item) : items.foldl Item.effect {} = ofItems items :=
  foldl_effect items _

theorem ofItems_filter (items : List Item) :
    ofItems (items.filter Item.isDeclared) = ofItems items := by
  have hother : (fun m i => if i.isDeclared then Item.effect m i else m) = Item.effect := by
    funext m i
    cases i <;> rfl
  rw [← foldl_effect_empty, List.foldl_filter, hother, foldl_effect_empty]

theorem decode?_pieces {bs : List UInt8} {items : List Item} (h : Pieces Item.Written bs items) :
    decode? bs = some (ofItems items) := by
  rw [decode?, foldFields?_pieces h Item.Written.exists_field, foldl_effect_empty]

end FetchMessage

/-! ## Records -/

namespace Record

/-- What a field of a record means. -/
inductive Item where
  | id (s : String)
  | name (s : String)
  | description (s : String)
  | other (f : Field)

/-- Some bytes write a field of a record. -/
def Item.Written (bs : List UInt8) : Item → Prop
  | id s => Field.Written nestingLimit bs (.bytes 1 (text s))
  | name s => Field.Written nestingLimit bs (.bytes 2 (text s))
  | description s => Field.Written nestingLimit bs (.bytes 3 (text s))
  | other f => Field.Written nestingLimit bs f ∧ f.number ≠ 1 ∧ f.number ≠ 2 ∧ f.number ≠ 3

def Item.id? : Item → Option String
  | id s => some s
  | _ => none

def Item.name? : Item → Option String
  | name s => some s
  | _ => none

def Item.description? : Item → Option String
  | description s => some s
  | _ => none

def Item.isDeclared : Item → Bool
  | other _ => false
  | _ => true

/-- What the fields of a record mean together: the last text for each string. -/
def ofItems (items : List Item) : Record where
  id := lastText (items.filterMap Item.id?)
  name := lastText (items.filterMap Item.name?)
  description := lastText (items.filterMap Item.description?)

/-- What a field of a record does to what is known. -/
def Item.effect (r : Record) : Item → Record
  | id s => { r with id := s }
  | name s => { r with name := s }
  | description s => { r with description := s }
  | other _ => r

theorem Item.Written.exists_field {bs : List UInt8} {i : Item} (h : i.Written bs) :
    ∃ f, Field.Written nestingLimit bs f ∧ ∀ r, step? r f = some (i.effect r) := by
  cases i with
  | id s => exact ⟨_, h, fun r => by simp [step?, Field.number, effect]⟩
  | name s => exact ⟨_, h, fun r => by simp [step?, Field.number, effect]⟩
  | description s => exact ⟨_, h, fun r => by simp [step?, Field.number, effect]⟩
  | other f =>
    obtain ⟨hf, h1, h2, h3⟩ := h
    exact ⟨f, hf, fun r => by simp [step?, h1, h2, h3, effect]⟩

theorem foldl_effect (items : List Item) (r : Record) :
    items.foldl Item.effect r =
      ⟨(items.filterMap Item.id?).getLast?.getD r.id,
        (items.filterMap Item.name?).getLast?.getD r.name,
        (items.filterMap Item.description?).getLast?.getD r.description⟩ := by
  induction items generalizing r with
  | nil => rfl
  | cons i items ih =>
    rw [List.foldl_cons, ih]
    cases i <;>
      simp [Item.effect, Item.id?, Item.name?, Item.description?, getD_getLast?_cons]

theorem foldl_effect_empty (items : List Item) :
    items.foldl Item.effect ⟨"", "", ""⟩ = ofItems items :=
  foldl_effect items _

theorem ofItems_filter (items : List Item) :
    ofItems (items.filter Item.isDeclared) = ofItems items := by
  have hother : (fun m i => if i.isDeclared then Item.effect m i else m) = Item.effect := by
    funext m i
    cases i <;> rfl
  rw [← foldl_effect_empty, List.foldl_filter, hother, foldl_effect_empty]

theorem decode?_pieces {bs : List UInt8} {items : List Item} (h : Pieces Item.Written bs items) :
    decode? bs = some (ofItems items) := by
  rw [decode?, foldFields?_pieces h Item.Written.exists_field, foldl_effect_empty]

end Record

/-! ## What is read -/

/-- Every presentation of a fetch or a record is read: as the last text for each string, which is
empty if there is none, and as a mask of all paths in order if there is a mask. Other fields change
nothing. So a client gets the record that a service presents, however it does that, if it is there
in time and no larger than a connection carries. -/
theorem reads_any_presentation :
    (∀ bs items, Pieces FetchMessage.Item.Written bs items →
      FetchMessage.decode? bs = some (FetchMessage.ofItems items)) ∧
    (∀ bs items, Pieces Record.Item.Written bs items →
      Record.decode? bs = some (Record.ofItems items)) ∧
    (∀ bs bs' items items', Pieces FetchMessage.Item.Written bs items →
      Pieces FetchMessage.Item.Written bs' items' →
      items.filter FetchMessage.Item.isDeclared = items'.filter FetchMessage.Item.isDeclared →
      FetchMessage.decode? bs = FetchMessage.decode? bs') ∧
    (∀ bs bs' items items', Pieces Record.Item.Written bs items →
      Pieces Record.Item.Written bs' items' →
      items.filter Record.Item.isDeclared = items'.filter Record.Item.isDeclared →
      Record.decode? bs = Record.decode? bs') ∧
    ∀ (remote : RemoteService) (timeoutMs : UInt64) (f : Fetch) bs delay items,
      remote (FetchMessage.ofFetch f).encode = some (.message bs, delay) →
      delay ≤ timeoutMs.toNat * 1000000 → bs.length ≤ messageLimit →
      Pieces Record.Item.Written bs items →
      RecordClient.fetch ⟨.serving remote, timeoutMs⟩ f = .ok (Record.ofItems items) := by
  refine ⟨fun _ _ => FetchMessage.decode?_pieces, fun _ _ => Record.decode?_pieces,
    fun bs bs' items items' h h' hsame => ?_, fun bs bs' items items' h h' hsame => ?_,
    fun remote timeoutMs f bs delay items hreply hdelay _ h => ?_⟩
  · rw [FetchMessage.decode?_pieces h, FetchMessage.decode?_pieces h',
      ← FetchMessage.ofItems_filter items, hsame, FetchMessage.ofItems_filter]
  · rw [Record.decode?_pieces h, Record.decode?_pieces h', ← Record.ofItems_filter items, hsame,
      Record.ofItems_filter]
  · have hcall : RecordClient.call ⟨.serving remote, timeoutMs⟩ f =
        ⟨.ok (Record.ofItems items), some delay⟩ := by
      simp only [RecordClient.call, hreply, RecordClient.answerOf, Record.decode?_pieces h]
    rw [RecordClient.fetch, hcall]
    exact TimedCall.within_eq_result rfl hdelay

/-- A field that no reader of messages knows: groups that nest. -/
def nestedGroups : Field := .group 7 [.group 1 [.varint 3 5], .fixed64 2 [1, 2, 3, 4, 5, 6, 7, 8]]

/-- A record with two ids, the first in a longer spelling than it needs. -/
def renamed : List UInt8 :=
  [0x8a, 0x00] ++ ([0x81, 0x80, 0x00] ++ text "a") ++ (nestedGroups.encode ++
    (Field.encode (.bytes 2 (text "n")) ++ (Field.encode (.bytes 1 (text "b")) ++ [])))

def renamedItems : List Record.Item := [.id "a", .other nestedGroups, .name "n", .id "b"]

/-- A fetch with two masks, one before the id and one after it. -/
def remasked : List UInt8 :=
  Field.encode (.bytes 2 (FetchMessage.encodeMask ["x"])) ++ (Field.encode (.bytes 1 (text "1")) ++
    (Field.encode (.bytes 2 (nestedGroups.encode ++ FetchMessage.encodeMask ["y", "x"])) ++ []))

def remaskedItems : List FetchMessage.Item :=
  [.mask [.path "x"], .id "1", .mask [.other nestedGroups, .path "y", .path "x"]]

theorem written_bytes {room n : Nat} {bs : List UInt8} (hn : Field.IsNumber n)
    (hl : bs.length < UInt64.size) :
    Field.Written (room + 1) (Field.encode (.bytes n bs)) (.bytes n bs) :=
  Field.written_encode _ _ ⟨hn, hl⟩

theorem written_nestedGroups {room : Nat} :
    Field.Written (room + 3) nestedGroups.encode nestedGroups := by
  refine Field.written_encode _ _ ?_
  simp only [nestedGroups, Field.Sendable, Field.SendableAll]
  decide

theorem pieces_renamed : Pieces Record.Item.Written renamed renamedItems := by
  have hkey : Field.KeyWritten [0x8a, 0x00] 1 2 :=
    ⟨by decide, by decide, .more (b := 0x8a) (by decide) (.last (b := 0x00) (by decide)),
      by decide, by decide⟩
  have hlength : Varint.Written [0x81, 0x80, 0x00] (text "a").length := by
    have : (text "a").length = 1 := by decide +kernel
    rw [this]
    exact ⟨.more (b := 0x81) (by decide)
      (.more (b := 0x80) (by decide) (.last (b := 0x00) (by decide))), by decide, by decide⟩
  exact .cons (.bytes hkey hlength) (.cons ⟨written_nestedGroups, by decide⟩
    (.cons (written_bytes (by decide) (by decide +kernel))
      (.cons (written_bytes (by decide) (by decide +kernel)) .nil)))

theorem pieces_encodeMask : ∀ paths : List String, (∀ p ∈ paths, (text p).length < UInt64.size) →
    Pieces FetchMessage.MaskItem.Written (FetchMessage.encodeMask paths)
      (paths.map FetchMessage.MaskItem.path)
  | [], _ => .nil
  | p :: paths, h => by
    obtain ⟨hp, hpaths⟩ := List.forall_mem_cons.1 h
    exact .cons (written_bytes (by decide) hp) (pieces_encodeMask paths hpaths)

theorem pieces_remasked : Pieces FetchMessage.Item.Written remasked remaskedItems := by
  have hfirst := pieces_encodeMask ["x"] (by decide +kernel)
  have hsecond := pieces_encodeMask ["y", "x"] (by decide +kernel)
  exact .cons ⟨_, hfirst, written_bytes (by decide) (by decide +kernel)⟩
    (.cons (written_bytes (by decide) (by decide +kernel))
      (.cons ⟨_, .cons ⟨written_nestedGroups, by decide⟩ hsecond,
        written_bytes (by decide) (by decide +kernel)⟩ .nil))

theorem reads_any_presentation_repeated :
    FetchMessage.decode? remasked = some ⟨"1", some ["x", "y", "x"]⟩ ∧
      Record.decode? renamed = some ⟨"b", "n", ""⟩ ∧
      FetchMessage.decode? (nestedGroups.encode ++ remasked) = FetchMessage.decode? remasked ∧
      Record.decode? (nestedGroups.encode ++ renamed) = Record.decode? renamed ∧
      RecordClient.fetch ⟨.serving fun _ => some (.message renamed, 0), 1⟩ ⟨"b", ["name"]⟩ =
        .ok ⟨"b", "n", ""⟩ := by
  obtain ⟨hfetch, hrecord, hfetchOther, hrecordOther, hclient⟩ := reads_any_presentation
  have hinFetch : FetchMessage.Item.Written nestedGroups.encode (.other nestedGroups) :=
    ⟨written_nestedGroups, by decide⟩
  have hinRecord : Record.Item.Written nestedGroups.encode (.other nestedGroups) :=
    ⟨written_nestedGroups, by decide⟩
  exact ⟨hfetch _ _ pieces_remasked, hrecord _ _ pieces_renamed,
    hfetchOther _ _ _ _ (.cons hinFetch pieces_remasked) pieces_remasked rfl,
    hrecordOther _ _ _ _ (.cons hinRecord pieces_renamed) pieces_renamed rfl,
    hclient _ _ _ _ _ _ rfl (Nat.zero_le _) (by decide +kernel) pieces_renamed⟩

end RecordGateway
