import RecordGateway.Proofs.Toml.Tables

/-!
# Lines of documents

The lines of a document are taken one after the other into a draft of its tables. Some keys of some
tables may be settings: a line that keeps away from them does the same whether they are there or not
(`Draft.Grown.take`), and so does the header of their table (`Draft.Grown.take_header`). Each
setting can be added once (`Draft.Grown.take_setting`), and a table can be given as a whole instead
(`Draft.Grown.take_whole`).
-/

namespace RecordGateway.Toml

/-! ## Lines -/

/-- A line of a document that is not blank. -/
inductive Line where
  /-- Opens a table. -/
  | header (k : KeyPath)
  /-- Opens a further table of an array. -/
  | arrayHeader (k : KeyPath)
  /-- Sets a key of the table opened last. -/
  | pair (k : KeyPath) (v : Toml)
  deriving Repr

def KeyPath.path (k : KeyPath) : List String := k.tables ++ [k.key]

/-- The path of the table that is open after a line. -/
def Line.opened (before : List String) : Line → List String
  | header k | arrayHeader k => k.path
  | pair _ _ => before

/-- The path of the key that a line is about. -/
def Line.path (before : List String) : Line → List String
  | header k | arrayHeader k => k.path
  | pair k _ => before ++ k.path

/-- What a line does to the entries. -/
def Line.edit (before : List String) (l : Line) (es : TomlItem.Entries) : Option TomlItem.Entries :=
  match l with
  | header k => TomlItem.openTable k.tables k.key es
  | arrayHeader k => TomlItem.openArrayTable k.tables k.key es
  | pair k v => TomlItem.assignUnder before k.tables k.key v es

/-- A draft with one more line. -/
def Draft.take (d : Draft) (l : Line) : Option Draft :=
  (l.edit d.opened d.entries).map fun es => ⟨es, l.opened d.opened⟩

section

open TomlItem

variable {before : List String} {l : Line} {k m : String} {ks : List String}

theorem Line.editsAt (hp : l.path before = k :: ks) : EditsAt k fun _ => l.edit before := by
  cases l with
  | header key => exact editsAt_openTable hp
  | arrayHeader key => exact editsAt_openArrayTable hp
  | pair key v => exact editsAt_assignUnder hp

theorem Line.editsIn (hp : l.path before = k :: m :: ks) :
    EditsIn k m fun _ => l.edit before := by
  cases l with
  | header key => exact editsIn_openTable hp
  | arrayHeader key => exact editsIn_openArrayTable hp
  | pair key v => exact editsIn_assignUnder hp

/-! ### Lines beside settings -/

variable {P : String → String → Prop} {given : String → String → Option Toml}
  {whole : String → Option Toml} {d d₀ d₀' : Draft} {n : String}

/-- One draft has more in it than another: of the settings `P` of some tables, which the other does
not have, it has those that are given. Both have the tables that are given as a whole. -/
structure Draft.Grown (P : String → String → Prop) (given : String → String → Option Toml)
    (whole : String → Option Toml) (d d₀ : Draft) : Prop where
  opened : d.opened = d₀.opened
  settings : ∀ n, (∃ m, P n m) →
    TomlItem.Grown (P n) (given n) (whole n) (d.entries.lookup n) (d₀.entries.lookup n)
  others : ∀ n, (∀ m, ¬ P n m) → d.entries.lookup n = d₀.entries.lookup n
  /-- Settings can be added to the table that is open. -/
  table : ∀ n, d₀.opened = [n] → (∃ m, P n m) →
    ∃ im dt sub, d₀.entries.lookup n = some (.table im dt sub)

/-- A path that leads neither to a table with settings nor through a setting. -/
def Avoids (P : String → String → Prop) : List String → Prop
  | [] => False
  | [k] => ∀ m, ¬ P k m
  | k :: m :: _ => ¬ P k m

theorem Draft.take_eq_some {d d' : Draft} {l : Line} :
    d.take l = some d' ↔
      ∃ es, l.edit d.opened d.entries = some es ∧ ⟨es, l.opened d.opened⟩ = d' :=
  Option.map_eq_some_iff

theorem Draft.opened_take {d d' : Draft} {l : Line} (h : d.take l = some d') :
    d'.opened = l.opened d.opened := by
  obtain ⟨es, -, rfl⟩ := Draft.take_eq_some.1 h
  rfl

/-- Two changes at one key that make the same of it keep a draft grown, once a further setting can
still be added to the table that is open. -/
theorem Draft.Grown.edit {f : Entries → Option Entries} {es' es₀' : Entries} {opened : List String}
    (h : d.Grown P given whole d₀) (hf : EditsAt k fun _ => f) (hes : f d.entries = some es')
    (hes₀ : f d₀.entries = some es₀')
    (hsettings : (∃ m, P k m) →
      TomlItem.Grown (P k) (given k) (whole k) (es'.lookup k) (es₀'.lookup k))
    (hothers : (∀ m, ¬ P k m) → es'.lookup k = es₀'.lookup k)
    (htable : ∀ n, opened = [n] → (∃ m, P n m) →
      ∃ im dt sub, es₀'.lookup n = some (.table im dt sub)) :
    Draft.Grown P given whole ⟨es', opened⟩ ⟨es₀', opened⟩ where
  opened := rfl
  settings n hn := by
    by_cases hk : n = k
    · exact hk ▸ hsettings (hk ▸ hn)
    · simp only [hf.lookup_of_ne (d := false) hes hk, hf.lookup_of_ne (d := false) hes₀ hk]
      exact h.settings n hn
  others n hn := by
    by_cases hk : n = k
    · exact hk ▸ hothers (hk ▸ hn)
    · simp only [hf.lookup_of_ne (d := false) hes hk, hf.lookup_of_ne (d := false) hes₀ hk]
      exact h.others n hn
  table := htable

/-- The table that is open after a line is the one that it is about, or one that was open before
and is above the key that it is about. -/
theorem Line.opened_eq (l : Line) (before : List String) :
    l.opened before = l.path before ∨
      l.opened before = before ∧ before.length < (l.path before).length := by
  cases l with
  | header key => exact .inl rfl
  | arrayHeader key => exact .inl rfl
  | pair key v => exact .inr ⟨rfl, by simp [Line.path, KeyPath.path]⟩

/-- A line that keeps away from the settings does the same with and without them. -/
theorem Draft.Grown.take (h : d.Grown P given whole d₀) (hl : Avoids P (l.path d₀.opened))
    (ht : d₀.take l = some d₀') : ∃ d', d.take l = some d' ∧ d'.Grown P given whole d₀' := by
  obtain ⟨es₀', hes₀, rfl⟩ := Draft.take_eq_some.1 ht
  suffices hes : ∃ es', l.edit d₀.opened d.entries = some es' ∧
      Draft.Grown P given whole ⟨es', l.opened d₀.opened⟩ ⟨es₀', l.opened d₀.opened⟩ by
    obtain ⟨es', hes', hgrown⟩ := hes
    rw [← h.opened] at hes' hgrown ⊢
    exact ⟨_, Draft.take_eq_some.2 ⟨es', hes', rfl⟩, hgrown⟩
  have hopened := l.opened_eq d₀.opened
  rcases hp : l.path d₀.opened with _ | ⟨k, _ | ⟨m, ks⟩⟩ <;> rw [hp] at hl hopened
  · exact hl.elim
  · -- The line is about one key of the root, which is no table with settings.
    have hat : EditsAt k fun _ => l.edit d₀.opened := Line.editsAt hp
    obtain ⟨es', hes', hk⟩ := hat.congr (d := false) (h.others k hl) hes₀
    refine ⟨es', hes', h.edit hat hes' hes₀ (fun ⟨m, hm⟩ => absurd hm (hl m)) (fun _ => hk) ?_⟩
    rintro n hn ⟨m, hm⟩
    rcases hopened with ho | ⟨ho, hlt⟩
    · obtain ⟨rfl, -⟩ := List.cons.inj (hn.symm.trans ho)
      exact absurd hm (hl m)
    · rw [← ho, hn] at hlt
      simp at hlt
  · have hin : EditsIn k m fun _ => l.edit d₀.opened := Line.editsIn hp
    have hes : ∃ es', l.edit d₀.opened d.entries = some es' ∧
        ((∃ m, P k m) → TomlItem.Grown (P k) (given k) (whole k) (es'.lookup k) (es₀'.lookup k)) ∧
        ((∀ m, ¬ P k m) → es'.lookup k = es₀'.lookup k) := by
      by_cases hk : ∃ m, P k m
      · obtain ⟨es', hes', hgrown⟩ := hin.grown (d := false) hl (h.settings k hk) hes₀
        exact ⟨es', hes', fun _ => hgrown, fun hno => absurd hk (not_exists.2 hno)⟩
      · obtain ⟨es', hes', heq⟩ :=
          hin.editsAt.congr (d := false) (h.others k (not_exists.1 hk)) hes₀
        exact ⟨es', hes', fun hsome => absurd hsome hk, fun _ => heq⟩
    obtain ⟨es', hes', hsettings, hothers⟩ := hes
    refine ⟨es', hes', h.edit hin.editsAt hes' hes₀ hsettings hothers ?_⟩
    intro n hn hm
    rcases hopened with ho | ⟨ho, -⟩
    · rw [hn] at ho
      simp at ho
    · exact hin.lookup_table (d := false) hes₀ (h.table n (ho ▸ hn) hm)

/-- The header of a table with settings opens it, whether it has some of them or not. -/
theorem Draft.Grown.take_header (h : d.Grown P given whole d₀) (hn : ∃ m, P n m)
    (ht : d₀.take (.header ⟨[], n⟩) = some d₀') :
    ∃ d', d.take (.header ⟨[], n⟩) = some d' ∧ d'.Grown P given whole d₀' := by
  obtain ⟨es₀', hes₀, rfl⟩ := Draft.take_eq_some.1 ht
  have hedit (es : Entries) : (Line.header ⟨[], n⟩).edit d.opened es =
      TomlItem.edit n TomlItem.opened es :=
    congrFun (openTable_eq [] n) es
  obtain ⟨i₀, hi₀, heq⟩ := edit_eq_some.1 ((congrFun (openTable_eq [] n) _).symm.trans hes₀)
  obtain ⟨i, hi, hgrown⟩ := opened_grown (h.settings n hn) hi₀
  have hes : (Line.header ⟨[], n⟩).edit d.opened d.entries = some (set n i d.entries) := by
    rw [hedit, edit_eq_some]
    exact ⟨i, hi, rfl⟩
  have hlookup₀ : es₀'.lookup n = some i₀ := by rw [← heq, lookup_set, if_pos rfl]
  refine ⟨_, Draft.take_eq_some.2 ⟨_, hes, rfl⟩,
    h.edit (Line.editsAt (l := .header ⟨[], n⟩) rfl) hes hes₀ (fun _ => ?_)
      (fun hno => absurd hn (not_exists.2 hno)) ?_⟩
  · rw [lookup_set, if_pos rfl, hlookup₀]
    exact hgrown
  · intro n' hn' _
    obtain ⟨rfl, -⟩ := List.cons.inj hn'
    obtain ⟨im, dt, sub, rfl⟩ := opened_table hi₀
    exact ⟨im, dt, sub, hlookup₀⟩

/-- A setting that is not there yet can be added to the table that is open. -/
theorem Draft.Grown.take_setting (h : d.Grown P given whole d₀)
    (ho : d₀.opened = [n]) (hm : P n m) (hnew : given n m = none) (v : Toml) :
    ∃ d', d.take (.pair ⟨[], m⟩ v) = some d' ∧
      d'.Grown P (fun n' m' => if n' = n ∧ m' = m then some v else given n' m') whole d₀ := by
  obtain ⟨im, dt, sub₀, hsub₀⟩ := h.table n ho ⟨m, hm⟩
  have hn := h.settings n ⟨m, hm⟩
  rw [hsub₀] at hn
  obtain ⟨hwhole, sub, hsub, hfilled⟩ := hn.of_table
  obtain ⟨sub', hassign, hfilled'⟩ := hfilled.assign_given hm hnew v
  have hes : (Line.pair ⟨[], m⟩ v).edit d.opened d.entries =
      some (set n (.table im dt sub') d.entries) := by
    rw [h.opened, ho]
    show TomlItem.modify false (fun _ => assign [] m v) [n] false d.entries = _
    rw [modify_cons, edit_eq_some, hsub]
    exact ⟨_, by simp [through, TomlItem.modify, hassign], rfl⟩
  refine ⟨_, Draft.take_eq_some.2 ⟨_, hes, rfl⟩, h.opened, ?_, ?_, h.table⟩
  · intro n' hn'
    simp only [lookup_set]
    by_cases hne : n' = n
    · subst hne
      simpa [hsub₀, hwhole] using TomlItem.Grown.table im dt hfilled'
    · simpa [hne] using h.settings n' hn'
  · intro n' hn'
    have hne : n' ≠ n := fun heq => hn' m (heq ▸ hm)
    rw [lookup_set, if_neg hne]
    exact h.others n' hn'

/-- A table with settings can be given as a whole, once, in place of its header. -/
theorem Draft.Grown.take_whole {v : Toml} (h : d.Grown P given whole d₀) (ho : d₀.opened = [])
    (hn : ∃ m, P n m) (ht : d₀.take (.pair ⟨[], n⟩ v) = some d₀') :
    whole n = none ∧ ∃ d', d.take (.pair ⟨[], n⟩ v) = some d' ∧
      d'.Grown P given (fun n' => if n' = n then some v else whole n') d₀' := by
  obtain ⟨es₀', hes₀, rfl⟩ := Draft.take_eq_some.1 ht
  have hedit (es : Entries) : (Line.pair ⟨[], n⟩ v).edit [] es =
      TomlItem.edit n (assigned v false) es :=
    congrFun (assign_eq [] n v) es
  rw [ho, hedit, edit_eq_some] at hes₀
  obtain ⟨i₀, hi₀, rfl⟩ := hes₀
  cases hlookup₀ : d₀.entries.lookup n with
  | some j =>
    rw [hlookup₀] at hi₀
    cases hi₀
  | none =>
    have hgrown := h.settings n hn
    rw [hlookup₀] at hgrown hi₀
    obtain ⟨hlookup, hwhole, hnone⟩ := hgrown.of_none
    obtain rfl := Option.some.inj hi₀
    refine ⟨hwhole, ⟨TomlItem.set n (.value v) d.entries, []⟩, ?_, ?_⟩
    · rw [Draft.take_eq_some, h.opened, ho]
      exact ⟨_, by rw [hedit, edit_eq_some, hlookup]; exact ⟨_, rfl, rfl⟩, rfl⟩
    · rw [ho]
      refine ⟨rfl, fun n' hn' => ?_, fun n' hn' => ?_, fun n' hn' => ?_⟩
      · simp only [lookup_set]
        by_cases hne : n' = n
        · subst hne
          simpa using .value v hnone
        · simpa [hne] using h.settings n' hn'
      · have hne : n' ≠ n := fun heq => not_exists.2 hn' (heq ▸ hn)
        simp only [lookup_set, if_neg hne]
        exact h.others n' hn'
      · cases hn'

end

end RecordGateway.Toml
