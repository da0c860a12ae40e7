import RecordGateway.Proofs.Config.Keys
import RecordGateway.Proofs.Toml.Documents
import Mathlib.Data.List.Nodup

/-!
# Documents with settings

A document gives settings under the headers of their sections, or sections as inline tables, with
other lines before, between and after them (`Item`). If these are placed as they have to be
(`Arranged`), the document is decoded to its settings and the default ones for all that it does not
name.
-/

namespace RecordGateway.Config

open Toml

/-! ## Documents -/

/-- What an inline table of a section holds: settings, and anything else. -/
inductive Member where
  | setting (k : Key)
  | other (k : KeyPath) (v : Toml)

/-- The lines of a document. -/
inductive Item where
  /-- The header of a section. -/
  | header (s : Section)
  /-- A setting, under the header of its section. -/
  | setting (k : Key)
  /-- A section as an inline table. -/
  | inline (s : Section) (members : List Member)
  | other (l : Line)

def Member.setting? : Member → Option Key
  | setting k => some k
  | other _ _ => none

def Member.other? : Member → Option (KeyPath × Toml)
  | setting _ => none
  | other k v => some (k, v)

/-- A member with the value that it has in a configuration. -/
def Member.pair (c : Config) : Member → KeyPath × Toml
  | setting k => (⟨[], k.name⟩, k.toml c)
  | other k v => (k, v)

/-- The inline table with some members. -/
def inlineToml (c : Config) (ms : List Member) : Toml :=
  .table (TomlItem.entriesToToml ((assignAll (ms.map (·.pair c)) []).getD []))

/-- A line with the values that its settings have in a configuration. -/
def Item.line (c : Config) : Item → Line
  | header s => .header ⟨[], s.name⟩
  | setting k => .pair ⟨[], k.name⟩ (k.toml c)
  | inline s ms => .pair ⟨[], s.name⟩ (inlineToml c ms)
  | other l => l

/-- The path of the table that is open after a line. -/
def Item.opened (before : List String) : Item → List String
  | header s => [s.name]
  | setting _ | inline _ _ => before
  | other l => l.opened before

/-- Whether a line gives a setting. -/
def Item.gives (k : Key) : Item → Bool
  | header _ | other _ => false
  | setting l => l == k
  | inline _ ms => (ms.filterMap Member.setting?).contains k

/-- Whether a document gives a setting. -/
def names (items : List Item) (k : Key) : Bool := items.any (·.gives k)

/-! ### Order -/

/-- A name in a section is that of a setting. -/
def IsSetting (s m : String) : Prop := ∃ k : Key, k.home.name = s ∧ k.name = m

/-- The members of a section: its settings, each once at most, and other pairs that go through none
of the settings and make a table by themselves. -/
structure ArrangedIn (s : Section) (ms : List Member) : Prop where
  home : ∀ k ∈ ms.filterMap Member.setting?, k.home = s
  once : (ms.filterMap Member.setting?).Nodup
  apart : ∀ p ∈ ms.filterMap Member.other?, ∀ m ∈ p.1.path.head?, ¬ IsSetting s.name m
  others : (assignAll (ms.filterMap Member.other?) []).isSome

/-- A line may stand under the header of a table. -/
def Item.Fits (before : List String) : Item → Prop
  | header _ => True
  | setting k => before = [k.home.name]
  | inline s ms => before = [] ∧ ArrangedIn s ms
  | other l => Avoids IsSetting (l.path before)

/-- Each line may stand where it stands. -/
def Placed : List String → List Item → Prop
  | _, [] => True
  | before, i :: is => i.Fits before ∧ Placed (i.opened before) is

def Item.setting? : Item → Option Key
  | setting k => some k
  | _ => none

/-- The lines other than settings. -/
def Item.frame? (c : Config) : Item → Option Line
  | setting _ => none
  | i => some (i.line c)

/-- A document with settings: each line may stand where it stands, each setting is given at most
once under the header of its section, and what is left without these is a document. -/
structure Arranged (c : Config) (items : List Item) : Prop where
  placed : Placed [] items
  once : (items.filterMap Item.setting?).Nodup
  frame : ((items.filterMap (·.frame? c)).foldlM Draft.take ⟨[], []⟩).isSome

/-! ### Texts -/

/-- Some characters write a setting, with any spelling of its value. -/
inductive SettingText (c : Config) : List Char → Key → Prop
  | intro {cs b vs : List Char} {k : Key} (hk : KeyText cs ⟨[], k.name⟩) (hb : Blanks b)
    (hv : Scalar vs (k.toml c)) : SettingText c (cs ++ '=' :: b ++ vs) k

/-- Some characters write a member of an inline table. -/
inductive Member.Text (c : Config) : List Char → Member → Prop
  | setting {cs : List Char} {k : Key} (h : SettingText c cs k) : Text c cs (.setting k)
  | other {cs : List Char} {k : KeyPath} {v : Toml} (h : PairText (nestingLimit - 1) cs (k, v)) :
    Text c cs (.other k v)

/-- Some characters write a line. -/
inductive Item.Text (c : Config) : List Char → Item → Prop
  | header {b cs : List Char} {s : Section} (hb : Blanks b) (hs : KeyText cs ⟨[], s.name⟩) :
    Text c (b ++ '[' :: cs ++ [']']) (.header s)
  | setting {cs : List Char} {k : Key} (h : SettingText c cs k) : Text c cs (.setting k)
  | inline {cs b ds : List Char} {s : Section} {ms : List Member} (hs : KeyText cs ⟨[], s.name⟩)
    (hb : Blanks b) (hms : PairsText (Member.Text c) ds ms) :
    Text c (cs ++ '=' :: b ++ ('\x7b' :: ds ++ ['}'])) (.inline s ms)
  | empty {cs b ds : List Char} {s : Section} (hs : KeyText cs ⟨[], s.name⟩) (hb : Blanks b)
    (hds : Blanks ds) : Text c (cs ++ '=' :: b ++ ('\x7b' :: ds ++ ['}'])) (.inline s [])
  | other {cs : List Char} {l : Line} (h : LineText cs l) : Text c cs (.other l)

/-! ## Settings of a table -/

section

variable {c : Config} {s : Section}

/-- The values of some settings, by the names of their sections and their own. -/
def values (c : Config) (ks : List Key) (n m : String) : Option Toml :=
  (ks.find? fun k => k.home.name == n && k.name == m).map (·.toml c)

theorem values_cons (c : Config) (k : Key) (ks : List Key) :
    values c (k :: ks) = fun n m =>
      if n = k.home.name ∧ m = k.name then some (k.toml c) else values c ks n m := by
  funext n m
  by_cases h : n = k.home.name ∧ m = k.name
  · simp [values, h]
  · have hno : (k.home.name == n && k.name == m) = false := by
      simp only [Bool.and_eq_false_iff, beq_eq_false_iff_ne]
      by_contra hyes
      simp only [not_or, not_not] at hyes
      exact h ⟨hyes.1.symm, hyes.2.symm⟩
    simp [values, hno, h]

theorem values_key (c : Config) (ks : List Key) (k : Key) :
    values c ks k.home.name k.name = if k ∈ ks then some (k.toml c) else none := by
  induction ks with
  | nil => rfl
  | cons l ks ih =>
    rw [values_cons]
    by_cases hk : k = l
    · simp [hk]
    · have hname : k.name ≠ l.name := fun h => hk (Key.eq_of_name_eq h)
      simp [hname, hk, ih]

/-- Where a section has no values, none of its settings is among the given ones. -/
theorem not_mem_of_values {ks : List Key} (h : ∀ n, values c ks s.name n = none) {k : Key}
    (hk : k.home = s) : k ∉ ks := by
  subst hk
  intro hmem
  have hvalue := h k.name
  rw [values_key, if_pos hmem] at hvalue
  cases hvalue

theorem not_mem_cons {k l : Key} {ks ls : List Key} (hl : l ∈ ls) (hk : k ∉ ls) (hks : l ∉ ks) :
    l ∉ k :: ks := by
  rw [List.mem_cons, not_or]
  exact ⟨fun h => hk (h ▸ hl), hks⟩

theorem foldlM_cons_eq_some {α β : Type} {f : β → α → Option β} {a : α} {as : List α} {b b' : β} :
    (a :: as).foldlM f b = some b' ↔ ∃ b₁, f b a = some b₁ ∧ as.foldlM f b₁ = some b' := by
  rw [List.foldlM_cons]
  exact Option.bind_eq_some_iff

/-- A table with some settings of a section in it. -/
theorem hasSettings_of_filled {sub sub₀ : TomlItem.Entries} {ks : List Key}
    (h : TomlItem.Filled (IsSetting s.name) (values c ks s.name) sub sub₀) {named : Key → Bool}
    (hnamed : ∀ k, k.home = s → (named k = true ↔ k ∈ ks)) :
    HasSettings (TomlItem.entriesToToml sub) c named s := by
  rintro k rfl
  rw [TomlItem.lookup_entriesToToml, h.given k.name ⟨k, rfl, rfl⟩, values_key]
  by_cases hk : k ∈ ks
  · simp [hk, (hnamed k rfl).2 hk, TomlItem.toToml]
  · have hfalse : named k = false := by
      rw [Bool.eq_false_iff]
      exact fun htrue => hk ((hnamed k rfl).1 htrue)
    simp [hk, hfalse]

/-- The members of a section are taken one after the other. -/
theorem assignAll_filled {ms : List Member} (hhome : ∀ k ∈ ms.filterMap Member.setting?, k.home = s)
    (honce : (ms.filterMap Member.setting?).Nodup)
    (hapart : ∀ p ∈ ms.filterMap Member.other?, ∀ m ∈ p.1.path.head?, ¬ IsSetting s.name m)
    {es es₀ es₀' : TomlItem.Entries} {ks : List Key}
    (hks : ∀ k ∈ ms.filterMap Member.setting?, k ∉ ks)
    (h : TomlItem.Filled (IsSetting s.name) (values c ks s.name) es es₀)
    (hothers : assignAll (ms.filterMap Member.other?) es₀ = some es₀') :
    ∃ es', assignAll (ms.map (·.pair c)) es = some es' ∧
      TomlItem.Filled (IsSetting s.name)
        (values c ((ms.filterMap Member.setting?).reverse ++ ks) s.name) es' es₀' := by
  induction ms generalizing es es₀ ks with
  | nil =>
    obtain rfl := Option.some.inj hothers
    exact ⟨es, rfl, h⟩
  | cons m ms ih =>
    cases m with
    | setting k =>
      simp only [List.filterMap_cons, Member.setting?, Member.other?, List.forall_mem_cons,
        List.nodup_cons] at hhome honce hapart hks hothers ⊢
      obtain ⟨rfl, hhome⟩ := hhome
      have hnew : values c ks k.home.name k.name = none := by rw [values_key, if_neg hks.1]
      obtain ⟨es₁, hassign, hfilled⟩ := h.assign_given ⟨k, rfl, rfl⟩ hnew (k.toml c)
      have hvalues : values c (k :: ks) k.home.name = fun n =>
          if n = k.name then some (k.toml c) else values c ks k.home.name n := by
        simp [values_cons]
      rw [← hvalues] at hfilled
      obtain ⟨es', hes', hfilled'⟩ := ih hhome honce.2 hapart
        (fun l hl => not_mem_cons hl honce.1 (hks.2 l hl)) hfilled hothers
      refine ⟨es', ?_, by simpa using hfilled'⟩
      exact foldlM_cons_eq_some.2 ⟨es₁, hassign, hes'⟩
    | other k v =>
      simp only [List.filterMap_cons, Member.setting?, Member.other?, List.forall_mem_cons]
        at hhome honce hapart hks hothers ⊢
      obtain ⟨es₁, hes₁, hothers⟩ := foldlM_cons_eq_some.1 hothers
      obtain ⟨m, ms', hp⟩ := List.exists_cons_of_ne_nil (show k.path ≠ [] by simp [KeyPath.path])
      obtain ⟨es₂, hes₂, hfilled⟩ := h.assign hp (hapart.1 m (by rw [hp]; rfl)) hes₁
      obtain ⟨es', hes', hfilled'⟩ := ih hhome honce hapart.2 hks hfilled hothers
      refine ⟨es', ?_, hfilled'⟩
      exact foldlM_cons_eq_some.2 ⟨es₂, hes₂, hes'⟩

/-- The inline table of a section has its settings. -/
theorem ArrangedIn.exists_inlineToml {ms : List Member} (h : ArrangedIn s ms) (c : Config)
    {named : Key → Bool}
    (hnamed : ∀ k, k.home = s → (named k = true ↔ k ∈ ms.filterMap Member.setting?)) :
    ∃ es, assignAll (ms.map (·.pair c)) [] = some es ∧
      HasSettings (TomlItem.entriesToToml es) c named s := by
  obtain ⟨es₀, hes₀⟩ := Option.isSome_iff_exists.1 h.others
  have hnew : ∀ k ∈ ms.filterMap Member.setting?, k ∉ ([] : List Key) :=
    fun _ _ => List.not_mem_nil
  obtain ⟨es, hes, hfilled⟩ := assignAll_filled (c := c) h.home h.once h.apart hnew
    (.nil fun _ => rfl) hes₀
  refine ⟨es, hes, hasSettings_of_filled hfilled fun k hk => ?_⟩
  rw [hnamed k hk]
  simp

end

/-! ## Settings of a document -/

section

variable {c : Config} {s : Section} {items : List Item} {d d₀ d₀' : Draft} {ks : List Key}
  {ws : List (String × Toml)}

/-- The section that a line gives as an inline table, with its members. -/
def Item.inline? : Item → Option (Section × List Member)
  | inline s ms => some (s, ms)
  | _ => none

/-- The sections that a document gives as inline tables, by their names. -/
def wholes (c : Config) (items : List Item) : List (String × Toml) :=
  (items.filterMap Item.inline?).map fun p => (p.1.name, inlineToml c p.2)

theorem exists_isSetting (s : Section) : ∃ m, IsSetting s.name m := by
  cases s with
  | listener => exact ⟨_, .bindAddress, rfl, rfl⟩
  | graphql => exact ⟨_, .path, rfl, rfl⟩
  | downstream => exact ⟨_, .endpoint, rfl, rfl⟩
  | timeouts => exact ⟨_, .requestSecs, rfl, rfl⟩
  | limits => exact ⟨_, .maxBodySize, rfl, rfl⟩
  | observability => exact ⟨_, .logLevel, rfl, rfl⟩

/-- The lines of a document are taken one after the other, with its settings as without them. -/
theorem foldlM_take_grown (hplaced : Placed d₀.opened items)
    (honce : (items.filterMap Item.setting?).Nodup)
    (hks : ∀ k ∈ items.filterMap Item.setting?, k ∉ ks) (hws : (ws.map Prod.fst).Nodup)
    (h : d.Grown IsSetting (values c ks) (fun n => ws.lookup n) d₀)
    (hframe : (items.filterMap (·.frame? c)).foldlM Draft.take d₀ = some d₀') :
    ∃ d' ws', (items.map (·.line c)).foldlM Draft.take d = some d' ∧
      ws' = (wholes c items).reverse ++ ws ∧ (ws'.map Prod.fst).Nodup ∧
      d'.Grown IsSetting (values c ((items.filterMap Item.setting?).reverse ++ ks))
        (fun n => ws'.lookup n) d₀' := by
  induction items generalizing d d₀ ks ws with
  | nil =>
    obtain rfl := Option.some.inj hframe
    exact ⟨d, ws, rfl, rfl, hws, h⟩
  | cons i items ih =>
    obtain ⟨hfits, hplaced⟩ := hplaced
    cases i with
    | header s =>
      obtain ⟨d₁, hd₁, hframe⟩ := foldlM_cons_eq_some.1 hframe
      obtain ⟨d₂, hd₂, hgrown⟩ := h.take_header (exists_isSetting s) hd₁
      rw [Item.opened, ← show d₁.opened = [s.name] from Draft.opened_take hd₁] at hplaced
      obtain ⟨d', ws', hd', hrest⟩ := ih hplaced honce hks hws hgrown hframe
      exact ⟨d', ws', foldlM_cons_eq_some.2 ⟨d₂, hd₂, hd'⟩, hrest⟩
    | setting k =>
      simp only [List.filterMap_cons, Item.setting?, Item.frame?, List.forall_mem_cons,
        List.nodup_cons] at honce hks hframe ⊢
      have hnew : values c ks k.home.name k.name = none := by rw [values_key, if_neg hks.1]
      obtain ⟨d₂, hd₂, hgrown⟩ := h.take_setting hfits ⟨k, rfl, rfl⟩ hnew (k.toml c)
      rw [← values_cons] at hgrown
      obtain ⟨d', ws', hd', hws', hnodup, hgrown'⟩ := ih hplaced honce.2
        (fun l hl => not_mem_cons hl honce.1 (hks.2 l hl)) hws hgrown hframe
      exact ⟨d', ws', foldlM_cons_eq_some.2 ⟨d₂, hd₂, hd'⟩, hws', hnodup, by simpa using hgrown'⟩
    | inline s ms =>
      obtain ⟨d₁, hd₁, hframe⟩ := foldlM_cons_eq_some.1 hframe
      obtain ⟨hnew, d₂, hd₂, hgrown⟩ := h.take_whole hfits.1 (exists_isSetting s) hd₁
      rw [Item.opened, ← show d₁.opened = d₀.opened from Draft.opened_take hd₁] at hplaced
      have hws₁ : (((s.name, inlineToml c ms) :: ws).map Prod.fst).Nodup := by
        refine List.nodup_cons.2 ⟨fun hmem => ?_, hws⟩
        obtain ⟨p, hp, hname⟩ := List.mem_map.1 hmem
        exact absurd (List.lookup_eq_none_iff.1 hnew p hp) (by simp [hname])
      have hlookup : (fun n => if n = s.name then some (inlineToml c ms) else ws.lookup n) =
          fun n => ((s.name, inlineToml c ms) :: ws).lookup n := by
        funext n
        rw [TomlItem.lookup_cons_eq]
      rw [hlookup] at hgrown
      obtain ⟨d', ws', hd', hws', hrest⟩ := ih hplaced honce hks hws₁ hgrown hframe
      refine ⟨d', ws', foldlM_cons_eq_some.2 ⟨d₂, hd₂, hd'⟩, ?_, hrest⟩
      simp [hws', wholes, Item.inline?]
    | other l =>
      obtain ⟨d₁, hd₁, hframe⟩ := foldlM_cons_eq_some.1 hframe
      obtain ⟨d₂, hd₂, hgrown⟩ := h.take hfits hd₁
      rw [Item.opened, ← show d₁.opened = l.opened d₀.opened from Draft.opened_take hd₁]
        at hplaced
      obtain ⟨d', ws', hd', hrest⟩ := ih hplaced honce hks hws hgrown hframe
      exact ⟨d', ws', foldlM_cons_eq_some.2 ⟨d₂, hd₂, hd'⟩, hrest⟩

theorem names_eq_true {k : Key} : names items k = true ↔ k ∈ items.filterMap Item.setting? ∨
    ∃ p ∈ items.filterMap Item.inline?, k ∈ p.2.filterMap Member.setting? := by
  simp only [names, List.any_eq_true, List.mem_filterMap]
  constructor
  · rintro ⟨i, hi, hgives⟩
    cases i with
    | header s => cases hgives
    | setting l => exact .inl ⟨.setting l, hi, by rw [beq_iff_eq.1 hgives]; rfl⟩
    | inline s ms =>
      exact .inr ⟨(s, ms), ⟨.inline s ms, hi, rfl⟩,
        List.mem_filterMap.1 (List.contains_iff_mem.1 hgives)⟩
    | other l => cases hgives
  · rintro (⟨i, hi, hk⟩ | ⟨p, ⟨i, hi, hp⟩, hk⟩)
    · cases i <;> cases hk
      exact ⟨_, hi, beq_self_eq_true k⟩
    · cases i <;> cases hp
      exact ⟨_, hi, List.contains_iff_mem.2 (List.mem_filterMap.2 hk)⟩

/-- Without an inline table for its section, a setting is given by a line of its own. -/
theorem names_eq_true_of_lines (harranged : ∀ p ∈ items.filterMap Item.inline?, ArrangedIn p.1 p.2)
    (hno : ∀ p ∈ items.filterMap Item.inline?, p.1 ≠ s) {k : Key} (hk : k.home = s) :
    names items k = true ↔ k ∈ items.filterMap Item.setting? := by
  rw [names_eq_true]
  refine ⟨?_, .inl⟩
  rintro (hmem | ⟨p, hp, hmem⟩)
  · exact hmem
  · have hhome : k.home = p.1 := (harranged p hp).home k hmem
    exact absurd (hhome.symm.trans hk) (hno p hp)

/-- The settings of a section that is given as an inline table are members of it. -/
theorem names_eq_true_of_inline (harranged : ∀ p ∈ items.filterMap Item.inline?, ArrangedIn p.1 p.2)
    (hws : ((wholes c items).map Prod.fst).Nodup) {ms : List Member}
    (hp : (s, ms) ∈ items.filterMap Item.inline?)
    (hno : ∀ k, k.home = s → k ∉ items.filterMap Item.setting?) {k : Key} (hk : k.home = s) :
    names items k = true ↔ k ∈ ms.filterMap Member.setting? := by
  rw [names_eq_true]
  refine ⟨?_, fun hmem => .inr ⟨_, hp, hmem⟩⟩
  rintro (hmem | ⟨q, hq, hmem⟩)
  · exact absurd hmem (hno k hk)
  · have hhome : k.home = q.1 := (harranged q hq).home k hmem
    have hname : q.1.name = s.name := congrArg Section.name (hhome.symm.trans hk)
    rw [wholes, List.map_map] at hws
    obtain rfl : q = (s, ms) := List.inj_on_of_nodup_map hws hq hp hname
    exact hmem

theorem inline_ne_of_lookup (h : (wholes c items).reverse.lookup s.name = none) :
    ∀ p ∈ items.filterMap Item.inline?, p.1 ≠ s := by
  rintro p hp rfl
  have hmem : (p.1.name, inlineToml c p.2) ∈ (wholes c items).reverse :=
    List.mem_reverse.2 (List.mem_map_of_mem hp)
  exact absurd (List.lookup_eq_none_iff.1 h _ hmem) (by simp)

theorem exists_inline_of_lookup {v : Toml}
    (h : (wholes c items).reverse.lookup s.name = some v) :
    ∃ ms, (s, ms) ∈ items.filterMap Item.inline? ∧ v = inlineToml c ms := by
  obtain ⟨ps, qs, hsplit, -⟩ := List.lookup_eq_some_iff.1 h
  have hmem : (s.name, v) ∈ wholes c items := by
    rw [← List.mem_reverse, hsplit]
    exact List.mem_append_right _ List.mem_cons_self
  obtain ⟨⟨t, ms⟩, hp, hpair⟩ := List.mem_map.1 hmem
  obtain ⟨hname, rfl⟩ := Prod.mk.inj hpair
  obtain rfl : t = s := Section.eq_of_name_eq hname
  exact ⟨ms, hp, rfl⟩

/-- What a document gives is decoded to a configuration with these settings. -/
theorem gives_of_grown (harranged : ∀ p ∈ items.filterMap Item.inline?, ArrangedIn p.1 p.2)
    (hws : ((wholes c items).map Prod.fst).Nodup)
    (h : d.Grown IsSetting (values c (items.filterMap Item.setting?).reverse)
      (fun n => (wholes c items).reverse.lookup n) d₀) :
    Gives (TomlItem.entriesToToml d.entries) c (names items) := by
  intro s
  have hs := h.settings s.name (exists_isSetting s)
  rw [TomlItem.lookup_entriesToToml]
  revert hs
  generalize hlookup : (wholes c items).reverse.lookup s.name = w, d.entries.lookup s.name = i,
    d₀.entries.lookup s.name = i₀
  intro hs
  cases hs with
  | absent hgiven =>
    refine .inl ⟨rfl, fun k hk => ?_⟩
    rw [Bool.eq_false_iff, Ne, names_eq_true_of_lines harranged (inline_ne_of_lookup hlookup) hk,
      ← List.mem_reverse]
    exact not_mem_of_values hgiven hk
  | value v hgiven =>
    obtain ⟨ms, hp, rfl⟩ := exists_inline_of_lookup hlookup
    have hno : ∀ k, k.home = s → k ∉ items.filterMap Item.setting? := by
      intro k hk hmem
      exact not_mem_of_values hgiven hk (List.mem_reverse.2 hmem)
    obtain ⟨es, hes, hsettings⟩ := (harranged _ hp).exists_inlineToml c fun k hk =>
      names_eq_true_of_inline harranged hws hp hno hk
    exact .inr ⟨_, by simp [TomlItem.toToml, inlineToml, hes], hsettings⟩
  | table im dt hfilled =>
    refine .inr ⟨_, rfl, hasSettings_of_filled hfilled fun k hk => ?_⟩
    rw [names_eq_true_of_lines harranged (inline_ne_of_lookup hlookup) hk, List.mem_reverse]

theorem Placed.arrangedIn {before : List String} (h : Placed before items) :
    ∀ p ∈ items.filterMap Item.inline?, ArrangedIn p.1 p.2 := by
  induction items generalizing before with
  | nil => simp
  | cons i items ih =>
    obtain ⟨hfits, hplaced⟩ := h
    cases i with
    | inline s ms => exact List.forall_mem_cons.2 ⟨hfits.2, ih hplaced⟩
    | _ => exact ih hplaced

/-- The lines of a document make entries that give its settings. -/
theorem Arranged.gives (h : Arranged c items) :
    ∃ d, (items.map (·.line c)).foldlM Draft.take ⟨[], []⟩ = some d ∧
      Gives (TomlItem.entriesToToml d.entries) c (names items) := by
  obtain ⟨d₀, hd₀⟩ := Option.isSome_iff_exists.1 h.frame
  have hempty : Draft.Grown IsSetting (values c []) (fun n => List.lookup n []) ⟨[], []⟩ ⟨[], []⟩ :=
    ⟨rfl, fun _ _ => .absent fun _ => rfl, fun _ _ => rfl, fun _ hn => by cases hn⟩
  have hnodup : (([] : List (String × Toml)).map Prod.fst).Nodup := List.nodup_nil
  obtain ⟨d, ws, hd, rfl, hws, hgrown⟩ := foldlM_take_grown h.placed h.once
    (fun _ _ => List.not_mem_nil) hnodup hempty hd₀
  simp only [List.append_nil] at hws hgrown
  rw [List.map_reverse, List.nodup_reverse] at hws
  exact ⟨d, hd, gives_of_grown h.placed.arrangedIn hws hgrown⟩

end

/-! ## Texts -/

section

variable {c : Config} {cs : List Char} {items : List Item}

theorem SettingText.pairText {k : Key} (h : SettingText c cs k) (room : Nat) :
    PairText room cs (⟨[], k.name⟩, k.toml c) := by
  cases h with
  | intro hk hb hv => exact .intro hk hb (hv.reads room)

theorem Member.Text.pairText {m : Member} (h : Member.Text c cs m) :
    PairText (nestingLimit - 1) cs (m.pair c) := by
  cases h with
  | setting h => exact h.pairText _
  | other h => exact h

theorem Item.Text.lineText {i : Item} (h : Item.Text c cs i)
    (harranged : ∀ p ∈ i.inline?, ArrangedIn p.1 p.2) : LineText cs (i.line c) := by
  have hinline : ∀ {s ms vs ds b}, KeyText ds ⟨[], s.name⟩ → Blanks b →
      (∀ es, assignAll (ms.map (Member.pair c)) [] = some es →
        Reads nestingLimit vs (.table (TomlItem.entriesToToml es))) → ArrangedIn s ms →
      LineText (ds ++ '=' :: b ++ vs) (Item.line c (.inline s ms)) := by
    intro s ms vs ds b hs hb hreads hms
    have hnamed : ∀ k : Key, k.home = s → ((ms.filterMap Member.setting?).contains k = true ↔
        k ∈ ms.filterMap Member.setting?) := fun _ _ => List.contains_iff_mem
    obtain ⟨es, hes, -⟩ := hms.exists_inlineToml c hnamed
    have hvalue : inlineToml c ms = .table (TomlItem.entriesToToml es) := by
      rw [inlineToml, hes]
      rfl
    exact .pair (.intro hs hb (hvalue ▸ hreads es hes))
  cases h with
  | header hb hs => exact .header hb hs
  | setting h => exact .pair (h.pairText _)
  | @inline _ _ ds s ms hs hb hms =>
    have hpairs : PairsText (PairText (nestingLimit - 1)) ds (ms.map (Member.pair c)) :=
      hms.map fun _ _ _ hm => hm.pairText
    exact hinline hs hb (fun es hes => reads_inlineTable hpairs hes) (harranged _ rfl)
  | empty hs hb hds =>
    refine hinline hs hb (fun es hes => ?_) (harranged _ rfl)
    obtain rfl := Option.some.inj hes
    exact reads_emptyTable hds
  | other h => exact h

/-- A document with settings is decoded to a configuration that has these, and the default ones for
all that it does not name. -/
theorem decode_written {text : String} (ht : IsText text cs)
    (hw : Written (Item.Text c) cs items) (h : Arranged c items) :
    (Toml.parse? text).bind ofEntries? = some (c.override (names items)) := by
  have hlines : Written LineText cs (items.map (·.line c)) := by
    refine hw.map fun i hi cs hcs => hcs.lineText fun p hp => ?_
    exact h.placed.arrangedIn p (List.mem_filterMap.2 ⟨i, hi, hp⟩)
  obtain ⟨d, hd, hgives⟩ := h.gives
  rw [parse?_written ht hlines, hd]
  exact ofEntries?_of_gives hgives

end

end RecordGateway.Config
