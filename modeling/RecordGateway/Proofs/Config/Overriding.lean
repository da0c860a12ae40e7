import RecordGateway.Proofs.Config.Documents

/-!
# Overriding settings

A document overrides just the settings that it gives. Any of the settings of a configuration can be
written to a document (`Config.render`), which is read back as these in place of the default ones,
and if all are written, as the configuration itself.
-/

namespace RecordGateway.Config

open Toml

-- What holds of all characters in a list is decided along the list, not over all there are.
attribute [local instance (high)] List.decidableBAll

/-! ## Writing settings -/

def Section.all : List Section :=
  [.listener, .graphql, .downstream, .timeouts, .limits, .observability]

def Key.all : List Key :=
  [.bindAddress, .path, .queryParam, .bodyField, .endpoint, .lazyConnect, .connectTimeoutMs,
    .requestTimeoutMs, .requestSecs, .maxBodySize, .logLevel, .logFormat, .metricsEnabled,
    .metricsAddress]

/-- The settings of a section among those that are named. -/
def Section.keys (s : Section) (named : Key → Bool) : List Key :=
  Key.all.filter fun k => k.home = s && named k

/-- A setting as it is written. -/
def Key.spelling (c : Config) (k : Key) : List Char :=
  k.name.toList ++ [' ', '=', ' '] ++ Toml.spelling (k.toml c)

/-- The header of a section, and its settings that are named. -/
def Section.items (named : Key → Bool) (s : Section) : List Item :=
  .header s :: (s.keys named).map .setting

/-- The text of `Section.items`. -/
def Section.spelling (c : Config) (named : Key → Bool) (s : Section) : List Char :=
  '[' :: s.name.toList ++ [']', '\n'] ++
    (s.keys named).flatMap fun k => Key.spelling c k ++ ['\n']

/-- A document with the settings that are named, section by section. -/
def render (c : Config) (named : Key → Bool) : String :=
  String.ofList (Section.all.flatMap (Section.spelling c named))

/-- The counts of a configuration are integers that a document can have. -/
def Writable (c : Config) : Prop :=
  ∀ (k : Key) (n : Int), k.toml c = .integer n → n ≤ Int64.maxValue.toInt

section

variable {c : Config} {named : Key → Bool}

theorem Key.mem_all (k : Key) : k ∈ Key.all := by
  cases k <;> decide

theorem Section.mem_all (s : Section) : s ∈ Section.all := by
  cases s <;> decide

theorem Section.mem_keys {s : Section} {k : Key} :
    k ∈ s.keys named ↔ k.home = s ∧ named k = true := by
  simp [Section.keys, Key.mem_all]

/-! ### The text -/

theorem keyText_bare {a w b : List Char} (ha : Blanks a) (hne : w ≠ [])
    (hw : ∀ c ∈ w, isBareKeyChar c) (hb : Blanks b) :
    KeyText (a ++ w ++ b) ⟨[], String.ofList w⟩ :=
  ⟨.last ha (.bare hne hw) hb, (by decide : 1 ≤ nestingLimit)⟩

theorem Section.keyText (s : Section) : KeyText s.name.toList ⟨[], s.name⟩ := by
  have h : s.name.toList ≠ [] ∧ ∀ c ∈ s.name.toList, isBareKeyChar c := by cases s <;> decide
  have hkey := keyText_bare (a := []) (b := []) (by decide) h.1 h.2 (by decide)
  rwa [List.append_nil, String.ofList_toList] at hkey

theorem Key.keyText (k : Key) : KeyText (k.name.toList ++ [' ']) ⟨[], k.name⟩ := by
  have h : k.name.toList ≠ [] ∧ ∀ c ∈ k.name.toList, isBareKeyChar c := by cases k <;> decide
  have hkey := keyText_bare (a := []) (b := [' ']) (by decide) h.1 h.2 (by decide)
  rwa [String.ofList_toList] at hkey

theorem Writable.scalar (h : c.Writable) (k : Key) :
    Scalar (Toml.spelling (k.toml c)) (k.toml c) := by
  have hk := h k
  cases k with
  | lazyConnect => exact scalar_spelling_boolean _
  | metricsEnabled => exact scalar_spelling_boolean _
  | connectTimeoutMs => exact scalar_spelling_integer (hk _ rfl)
  | requestTimeoutMs => exact scalar_spelling_integer (hk _ rfl)
  | requestSecs => exact scalar_spelling_integer (hk _ rfl)
  | maxBodySize => exact scalar_spelling_integer (hk _ rfl)
  | _ => exact scalar_spelling_string _

theorem Key.text (h : c.Writable) (k : Key) : Item.Text c (Key.spelling c k) (.setting k) := by
  have htext := SettingText.intro (b := [' ']) k.keyText (by decide) (h.scalar k)
  exact .setting (by simpa [Key.spelling] using htext)

theorem trail_nil : Trail [] := .blanks (by decide : Blanks [])

theorem written_line {l cs : List Char} {i : Item} {items : List Item} (hi : Item.Text c l i)
    (h : Written (Item.Text c) cs items) :
    Written (Item.Text c) (l ++ '\n' :: cs) (i :: items) := by
  have hline := Written.line hi trail_nil (.inl rfl) h
  simpa using hline

theorem written_settings (h : c.Writable) {cs : List Char} {items : List Item}
    (hrest : Written (Item.Text c) cs items) : ∀ ks : List Key,
      Written (Item.Text c) ((ks.flatMap fun k => Key.spelling c k ++ ['\n']) ++ cs)
        (ks.map .setting ++ items)
  | [] => hrest
  | k :: ks => by
    have hline := written_line (Key.text h k) (written_settings h hrest ks)
    simpa using hline

theorem written_sections (h : c.Writable) : ∀ ss : List Section,
    Written (Item.Text c) (ss.flatMap (Section.spelling c named)) (ss.flatMap (Section.items named))
  | [] => .empty trail_nil
  | s :: ss => by
    have hheader : Item.Text c ('[' :: s.name.toList ++ [']']) (.header s) :=
      .header (b := []) (by decide) s.keyText
    have hline := written_line hheader (written_settings h (written_sections h ss) (s.keys named))
    simpa [Section.spelling, Section.items] using hline

/-! ### Order -/

theorem placed_settings {s : Section} {items : List Item} (hrest : Placed [s.name] items) :
    ∀ ks : List Key, (∀ k ∈ ks, k.home = s) → Placed [s.name] (ks.map .setting ++ items)
  | [], _ => hrest
  | k :: ks, hks => by
    obtain ⟨rfl, hks⟩ := List.forall_mem_cons.1 hks
    exact ⟨rfl, placed_settings hrest ks hks⟩

theorem placed_sections : ∀ (ss : List Section) (before : List String),
    Placed before (ss.flatMap (Section.items named))
  | [], _ => trivial
  | s :: ss, before => by
    rw [List.flatMap_cons, Section.items, List.cons_append]
    refine ⟨trivial, placed_settings (placed_sections ss _) _ fun k hk => ?_⟩
    exact (Section.mem_keys.1 hk).1

theorem settings_items (s : Section) :
    (s.items named).filterMap Item.setting? = s.keys named := by
  rw [Section.items, List.filterMap_cons_none rfl, List.filterMap_map]
  exact List.filterMap_some

theorem frame_items (c : Config) (s : Section) :
    (s.items named).filterMap (·.frame? c) = [.header ⟨[], s.name⟩] := by
  have hsettings : ((s.keys named).map Item.setting).filterMap (·.frame? c) = [] := by
    rw [List.filterMap_map]
    exact List.filterMap_eq_nil_iff.2 fun _ _ => rfl
  rw [Section.items, List.filterMap_cons, hsettings]
  rfl

/-- Every setting has its place in one section. -/
theorem nodup_keys (named : Key → Bool) : (Section.all.flatMap (·.keys named)).Nodup := by
  have hfilter : Section.all.flatMap (·.keys named) =
      (Section.all.flatMap (·.keys fun _ => true)).filter named := by
    simp only [List.filter_flatMap, Section.keys, List.filter_filter, Bool.and_true,
      Bool.and_comm (named _)]
  rw [hfilter]
  exact List.Nodup.filter _ (by decide)

theorem arranged_sections (c : Config) (named : Key → Bool) :
    Arranged c (Section.all.flatMap (Section.items named)) where
  placed := placed_sections _ _
  once := by
    simp only [List.filterMap_flatMap, settings_items]
    exact nodup_keys named
  frame := by
    simp only [List.filterMap_flatMap, frame_items]
    decide

theorem names_sections (k : Key) :
    names (Section.all.flatMap (Section.items named)) k = named k := by
  have hinline : (Section.all.flatMap (Section.items named)).filterMap Item.inline? = [] := by
    refine List.filterMap_eq_nil_iff.2 fun i hi => ?_
    obtain ⟨s, -, hi⟩ := List.mem_flatMap.1 hi
    rcases List.mem_cons.1 hi with rfl | hi
    · rfl
    · obtain ⟨k, -, rfl⟩ := List.mem_map.1 hi
      rfl
  rw [Bool.eq_iff_iff, names_eq_true, hinline]
  simp only [List.filterMap_flatMap, settings_items, List.mem_flatMap, Section.mem_keys]
  constructor
  · rintro (⟨s, -, -, hk⟩ | ⟨p, hp, -⟩)
    · exact hk
    · exact absurd hp List.not_mem_nil
  · exact fun hk => .inl ⟨k.home, Section.mem_all _, rfl, hk⟩

/-- The settings that are written take the place of the default ones. -/
theorem decode_render (h : c.Writable) (named : Key → Bool) :
    (Toml.parse? (c.render named)).bind ofEntries? = some (c.override named) := by
  have hwritten : Written (Item.Text c) _ (Section.all.flatMap (Section.items named)) :=
    written_sections h Section.all
  have hdecode := decode_written (.inl (String.toList_ofList ..)) hwritten
    (arranged_sections c named)
  rwa [funext names_sections] at hdecode

end

/-- A document is decoded to the settings that it gives, by any values, and the default ones for all
others: its sections may have headers or be inline tables, and other keys and tables may come
between them. In particular a configuration that is written in full is read back, and each of its
settings can be written or left out. -/
theorem overrides_what_it_names (c : Config) :
    (∀ (items : List Item) (text : String) (cs : List Char), IsText text cs →
      Written (Item.Text c) cs items → Arranged c items →
        (Toml.parse? text).bind ofEntries? = some (c.override (names items)) ∧
        ofText text = accept (c.override (names items)) ∧
        ((∀ k, names items k = true) → (Toml.parse? text).bind ofEntries? = some c)) ∧
    (c.Writable →
      (∀ named : Key → Bool,
        (Toml.parse? (c.render named)).bind ofEntries? = some (c.override named)) ∧
      (Toml.parse? (c.render fun _ => true)).bind ofEntries? = some c) := by
  refine ⟨fun items text cs ht hw ha => ?_, fun h => ⟨decode_render h, decode_render h _⟩⟩
  have hdecode := decode_written ht hw ha
  refine ⟨hdecode, by rw [ofText, hdecode], fun hall => ?_⟩
  rw [hdecode, funext hall, override_all]

/-! ### A document in another order -/

/-- A document that gives three settings: its sections are neither all there nor in order, and other
keys and a table come between them. -/
def sparseText : String :=
  "graphql = \x7b path = '/q', note = \"x\" \x7d # first\n\n[observability]\nnote = \"y\"\n" ++
    "log_format = \"json\"\n[extra]\n[downstream]\nrequest_timeout_ms = 0xFF"

def sparseItems : List Item :=
  [.inline .graphql [.setting .path, .other ⟨[], "note"⟩ (.string "x")], .header .observability,
    .other (.pair ⟨[], "note"⟩ (.string "y")), .setting .logFormat,
    .other (.header ⟨[], "extra"⟩), .header .downstream, .setting .requestTimeoutMs]

/-- The configuration with the three settings. -/
def sparse : Config :=
  { graphql := { path := "/q" }
    downstream := { requestTimeoutMs := 255 }
    observability := { logFormat := .json } }

theorem written_sparse : Written (Item.Text sparse) sparseText.toList sparseItems := by
  have hnote (room : Nat) {a : List Char} (ha : Blanks a) (s : String) : PairText room
      ((a ++ "note".toList ++ [' ']) ++ '=' :: [' '] ++ Toml.spelling (.string s))
      (⟨[], "note"⟩, .string s) :=
    .intro (keyText_bare ha (by decide) (by decide) (by decide)) (by decide)
      ((scalar_spelling_string s).reads room)
  have hpath : Scalar "'/q'".toList (.string "/q") :=
    .string (.literal (s := ['/', 'q']) (by decide))
  have hmembers : PairsText (Member.Text sparse) _ _ :=
    .more (b := []) (.setting (.intro (k := .path) (b := [' '])
      (keyText_bare (a := [' ']) (w := "path".toList) (b := [' ']) (by decide) (by decide)
        (by decide) (by decide)) (by decide) hpath))
    (by decide) (.last (b := [' ']) (.other (hnote _ (a := [' ']) (by decide) "x")) (by decide))
  have htimeout : Scalar "0xFF".toList (.integer 255) :=
    .integer (.hexadecimal (digits_of_all (by decide : ['F', 'F'] ≠ []) (by decide))) (by decide)
  have hlast : Written (Item.Text sparse) _ _ :=
    .last (.setting (.intro (k := .requestTimeoutMs) (b := [' ']) (Key.keyText _) (by decide)
      htimeout)) trail_nil
  have hsecond : Written (Item.Text sparse) _ _ :=
    written_line (.header (b := []) (s := .observability) (by decide) (Section.keyText _))
      (written_line (.other (.pair (hnote _ (a := []) (by decide) "y")))
        (written_line (.setting (.intro (k := .logFormat) (b := [' ']) (Key.keyText _) (by decide)
          (scalar_spelling_string "json")))
          (written_line (.other (.header (b := []) (by decide)
            (keyText_bare (a := []) (w := "extra".toList) (b := []) (by decide) (by decide)
              (by decide) (by decide))))
            (written_line (.header (b := []) (s := .downstream) (by decide) (Section.keyText _))
              hlast))))
  have hfirst : Written (Item.Text sparse) _ sparseItems :=
    .line (.inline (s := .graphql) (b := [' '])
        (keyText_bare (a := []) (w := "graphql".toList) (b := [' ']) (by decide) (by decide)
          (by decide) (by decide)) (by decide) hmembers)
      (.comment (b := [' ']) (by decide) (by decide : ∀ c ∈ " first".toList, isPlain c)) (.inl rfl)
      (.blank trail_nil (.inl rfl) hsecond)
  convert hfirst using 1
  decide +kernel

theorem arranged_sparse : Arranged sparse sparseItems where
  placed := by
    have hnote (t : Section) : ¬ IsSetting t.name "note" := by
      rintro ⟨k, -, hk⟩
      revert hk
      cases k <;> decide
    have hextra (m : String) : ¬ IsSetting "extra" m := by
      rintro ⟨k, hk, -⟩
      revert hk
      cases k <;> decide
    have hmembers : ArrangedIn .graphql [.setting .path, .other ⟨[], "note"⟩ (.string "x")] :=
      { home := by decide
        once := by decide
        apart := by
          rintro p hp m hm
          obtain rfl := List.mem_singleton.1 hp
          obtain rfl := Option.some.inj hm
          exact hnote .graphql
        others := rfl }
    exact ⟨⟨rfl, hmembers⟩, trivial, hnote .observability, rfl, hextra, trivial, rfl, trivial⟩
  once := by decide
  frame := by decide

theorem overrides_what_it_names_sparse :
    (IsText sparseText sparseText.toList ∧
      Written (Item.Text sparse) sparseText.toList sparseItems ∧ Arranged sparse sparseItems ∧
      (Toml.parse? sparseText).bind ofEntries? = some sparse ∧
      ofText sparseText = .ok sparse) ∧
    ((∀ k, names (Section.all.flatMap (Section.items fun _ => true)) k = true) ∧
      (Toml.parse? (({} : Config).render fun _ => true)).bind ofEntries? = some {}) ∧
    Writable sparse ∧
      (Toml.parse? (sparse.render (· == .endpoint))).bind ofEntries? = some {} ∧
      (Toml.parse? (sparse.render fun _ => true)).bind ofEntries? = some sparse := by
  have hwritable (c : Config) (h : c = sparse ∨ c = {}) : c.Writable := by
    intro k n hk
    rcases h with rfl | rfl <;> cases k <;> cases hk <;> decide
  have hall (k : Key) : names (Section.all.flatMap (Section.items fun _ => true)) k = true :=
    names_sections k
  obtain ⟨hread, hload, -⟩ :=
    (overrides_what_it_names sparse).1 _ _ _ (.inl rfl) written_sparse arranged_sparse
  obtain ⟨-, -, hfull⟩ := (overrides_what_it_names {}).1 _ (render {} fun _ => true) _
    (.inl (String.toList_ofList ..)) (written_sections (hwritable {} (.inr rfl)) Section.all)
    (arranged_sections {} fun _ => true)
  obtain ⟨hsome, hevery⟩ := (overrides_what_it_names sparse).2 (hwritable sparse (.inl rfl))
  have hnamed : sparse.override (names sparseItems) = sparse := rfl
  rw [hnamed] at hread hload
  refine ⟨⟨.inl rfl, written_sparse, arranged_sparse, hread, hload⟩, ⟨hall, hfull hall⟩,
    hwritable sparse (.inl rfl), hsome _, hevery⟩

end RecordGateway.Config
