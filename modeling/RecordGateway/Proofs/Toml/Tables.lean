import RecordGateway.Toml.Parser
import Mathlib.Data.List.Basic

/-!
# Tables under construction

What a line of a document does to the tables read so far goes by its path: it looks up the first
key of the path, and changes or makes the item there (`EditsAt`). Of a table under that key it
looks up the second key in turn, and leaves everything else in the table as it is (`EditsIn`).

So a change that keeps away from some keys of a table is the same whether these are set or not
(`EditsIn.grown`).
-/

namespace RecordGateway.TomlItem

/-! ## Looking up -/

theorem lookup_cons_eq {α : Type} (n l : String) (a : α) (es : List (String × α)) :
    ((l, a) :: es).lookup n = if n = l then some a else es.lookup n := by
  by_cases h : n = l
  · simp [h]
  · simp [List.lookup_cons, beq_false_of_ne h, h]

theorem lookup_put (k n : String) (i : TomlItem) (es : Entries) :
    (put k i es).lookup n = if n = k then (es.lookup k).map fun _ => i else es.lookup n := by
  induction es with
  | nil => simp [put]
  | cons e es ih =>
    obtain ⟨l, j⟩ := e
    have hput : put k i ((l, j) :: es) = (l, if l = k then i else j) :: put k i es := by
      by_cases hl : l = k <;> simp [put, hl]
    rw [hput, lookup_cons_eq, lookup_cons_eq, lookup_cons_eq, ih]
    grind

theorem lookup_entriesToToml (n : String) (es : Entries) :
    (entriesToToml es).lookup n = (es.lookup n).map toToml := by
  induction es with
  | nil => rfl
  | cons e es ih =>
    obtain ⟨l, j⟩ := e
    rw [entriesToToml, lookup_cons_eq, lookup_cons_eq, ih]
    by_cases hl : n = l <;> simp [hl]

/-! ## Edits -/

/-- Sets the item under a key, behind all others if the key is new. -/
def set (k : String) (i : TomlItem) (es : Entries) : Entries :=
  if (es.lookup k).isSome then put k i es else es ++ [(k, i)]

theorem lookup_set (k n : String) (i : TomlItem) (es : Entries) :
    (set k i es).lookup n = if n = k then some i else es.lookup n := by
  unfold set
  cases h : es.lookup k with
  | none =>
    by_cases hn : n = k
    · subst hn
      simp [List.lookup_append, h]
    · simp [List.lookup_append, lookup_cons_eq, hn]
  | some j => simp [lookup_put, h]

/-- Changes or makes the item under a key, by what stands there. -/
def edit (k : String) (g : Option TomlItem → Option TomlItem) (es : Entries) : Option Entries :=
  (g (es.lookup k)).map fun i => set k i es

theorem edit_eq_some {k : String} {g : Option TomlItem → Option TomlItem} {es es' : Entries} :
    edit k g es = some es' ↔ ∃ i, g (es.lookup k) = some i ∧ set k i es = es' :=
  Option.map_eq_some_iff

/-- A change of a table goes by the item under one key. -/
def EditsAt (k : String) (f : Bool → Entries → Option Entries) : Prop :=
  ∃ g : Bool → Option TomlItem → Option TomlItem, ∀ d es, f d es = edit k (g d) es

/-- A change of a table goes by the item under one key, and of a table there by the item under a
second key. It does not change values under the first. -/
def EditsIn (k m : String) (f : Bool → Entries → Option Entries) : Prop :=
  ∃ g : Bool → Option TomlItem → Option TomlItem,
    (∀ d es, f d es = edit k (g d) es) ∧ (∀ d v, g d (some (.value v)) = none) ∧
    (∀ d, ∃ im dt h, g d none = (edit m h []).map (.table im dt)) ∧
    ∀ d im dt, ∃ h, ∀ sub, g d (some (.table im dt sub)) = (edit m h sub).map (.table im dt)

theorem EditsIn.editsAt {k m : String} {f : Bool → Entries → Option Entries}
    (h : EditsIn k m f) : EditsAt k f := by
  obtain ⟨g, hg, -⟩ := h
  exact ⟨g, hg⟩

/-! ### Paths -/

section

variable {f : Bool → Entries → Option Entries} {k m key : String} {ks path : List String}
  {dotted : Bool}

/-- What a path does to the item under its first key. -/
def through (dotted : Bool) (f : Bool → Entries → Option Entries) (ks : List String) :
    Option TomlItem → Option TomlItem
  | none => (modify dotted f ks dotted []).map (.table true dotted)
  | some (.value _) => none
  | some (.table im d sub) =>
    if dotted && !im then none else (modify dotted f ks d sub).map (.table im d)
  | some (.tables ts) =>
    match ts.getLast? with
    | none => none
    | some last => (modify dotted f ks false last).map fun sub => .tables (ts.dropLast ++ [sub])

theorem modify_cons (d : Bool) (es : Entries) :
    modify dotted f (k :: ks) d es = edit k (through dotted f ks) es := by
  rw [modify, edit]
  cases h : es.lookup k with
  | none => simp [through, set, h, Function.comp_def]
  | some i =>
    cases i with
    | value v => rfl
    | table im dt sub =>
      by_cases hd : (dotted && !im) = true
      · simp [through, hd]
      · simp [through, set, h, hd, Function.comp_def]
    | tables ts =>
      cases hlast : ts.getLast? with
      | none => simp [through, hlast]
      | some last => simp [through, set, h, hlast, Function.comp_def]

theorem editsAt_modify_cons : EditsAt k (modify dotted f (k :: ks)) :=
  ⟨fun _ => through dotted f ks, modify_cons⟩

theorem editsIn_modify_cons (h : EditsAt m (modify dotted f ks)) :
    EditsIn k m (modify dotted f (k :: ks)) := by
  obtain ⟨g, hg⟩ := h
  refine ⟨fun _ => through dotted f ks, modify_cons, fun _ _ => rfl, fun _ => ?_, ?_⟩
  · exact ⟨true, dotted, g dotted, by simp [through, hg]⟩
  · intro _ im dt
    by_cases hd : (dotted && !im) = true
    · exact ⟨fun _ => none, fun sub => by simp [through, edit, hd]⟩
    · exact ⟨g dt, fun sub => by simp [through, hd, hg]⟩

theorem editsAt_modify (h : EditsAt key f) (hp : path ++ [key] = k :: ks) :
    EditsAt k (modify dotted f path) := by
  cases path with
  | nil =>
    obtain ⟨rfl, -⟩ := List.cons.inj hp
    exact h
  | cons p path =>
    obtain ⟨rfl, -⟩ := List.cons.inj hp
    exact editsAt_modify_cons

theorem editsIn_modify (h : EditsAt key f) (hp : path ++ [key] = k :: m :: ks) :
    EditsIn k m (modify dotted f path) := by
  cases path with
  | nil => simp at hp
  | cons p path =>
    obtain ⟨rfl, hrest⟩ := List.cons.inj hp
    exact editsIn_modify_cons (editsAt_modify h hrest)

end

/-! ### The edits of a document -/

section

variable {g : Bool → Option TomlItem → Option TomlItem} {k m key : String}
  {ks path header : List String} {v : Toml}

theorem EditsAt.of_edit : EditsAt k fun d => edit k (g d) :=
  ⟨g, fun _ _ => rfl⟩

theorem EditsAt.fix {f : Bool → Entries → Option Entries} (h : EditsAt k f) (d : Bool) :
    EditsAt k fun _ => f d := by
  obtain ⟨g, hg⟩ := h
  exact ⟨fun _ => g d, fun _ => hg d⟩

theorem EditsIn.fix {f : Bool → Entries → Option Entries} (h : EditsIn k m f) (d : Bool) :
    EditsIn k m fun _ => f d := by
  obtain ⟨g, hg, hvalue, habsent, htable⟩ := h
  exact ⟨fun _ => g d, fun _ => hg d, fun _ => hvalue d, fun _ => habsent d, fun _ => htable d⟩

/-- A new value in place of an item; none if keys may not be set there or one is there already. -/
def assigned (v : Toml) (closed : Bool) : Option TomlItem → Option TomlItem
  | none => if closed then none else some (.value v)
  | some _ => none

/-- What the header of a table makes of the item under its key. -/
def opened : Option TomlItem → Option TomlItem
  | none => some (.table false false [])
  | some (.table true false sub) => some (.table false false sub)
  | some _ => none

/-- What the header of a table in an array makes of the item under its key. -/
def extended : Option TomlItem → Option TomlItem
  | none => some (.tables [[]])
  | some (.tables ts) => some (.tables (ts ++ [[]]))
  | some _ => none

theorem modify_congr {f f' : Bool → Entries → Option Entries} (h : ∀ d es, f d es = f' d es)
    (dotted d : Bool) (path : List String) (es : Entries) :
    modify dotted f path d es = modify dotted f' path d es := by
  rw [funext fun d => funext (h d)]

theorem assign_eq (path : List String) (key : String) (v : Toml) :
    assign path key v =
      modify true (fun d => edit key (assigned v (d == path.isEmpty))) path false := by
  refine funext (modify_congr (fun d es => ?_) true false path)
  cases h : es.lookup key <;> by_cases hd : (d == path.isEmpty) = true <;>
    simp [edit, set, assigned, h, hd]

theorem openTable_eq (path : List String) (key : String) :
    openTable path key = modify false (fun _ => edit key opened) path false := by
  refine funext (modify_congr (fun _ es => ?_) false false path)
  cases h : es.lookup key with
  | none => simp [edit, set, opened, h]
  | some i =>
    rcases i with v | ⟨_ | _, _ | _, sub⟩ | ts <;> simp [edit, set, opened, h]

theorem openArrayTable_eq (path : List String) (key : String) :
    openArrayTable path key = modify false (fun _ => edit key extended) path false := by
  refine funext (modify_congr (fun _ es => ?_) false false path)
  cases h : es.lookup key with
  | none => simp [edit, set, extended, h]
  | some i => cases i <;> simp [edit, set, extended, h]

theorem editsAt_assign (hp : path ++ [key] = k :: ks) : EditsAt k fun _ => assign path key v := by
  simp only [assign_eq]
  exact (editsAt_modify .of_edit hp).fix false

theorem editsIn_assign (hp : path ++ [key] = k :: m :: ks) :
    EditsIn k m fun _ => assign path key v := by
  simp only [assign_eq]
  exact (editsIn_modify .of_edit hp).fix false

theorem editsAt_openTable (hp : path ++ [key] = k :: ks) :
    EditsAt k fun _ => openTable path key := by
  simp only [openTable_eq]
  exact (editsAt_modify .of_edit hp).fix false

theorem editsIn_openTable (hp : path ++ [key] = k :: m :: ks) :
    EditsIn k m fun _ => openTable path key := by
  simp only [openTable_eq]
  exact (editsIn_modify .of_edit hp).fix false

theorem editsAt_openArrayTable (hp : path ++ [key] = k :: ks) :
    EditsAt k fun _ => openArrayTable path key := by
  simp only [openArrayTable_eq]
  exact (editsAt_modify .of_edit hp).fix false

theorem editsIn_openArrayTable (hp : path ++ [key] = k :: m :: ks) :
    EditsIn k m fun _ => openArrayTable path key := by
  simp only [openArrayTable_eq]
  exact (editsIn_modify .of_edit hp).fix false

theorem editsAt_assignUnder (hp : header ++ (path ++ [key]) = k :: ks) :
    EditsAt k fun _ => assignUnder header path key v := by
  cases header with
  | nil => exact editsAt_assign hp
  | cons p header =>
    obtain ⟨rfl, -⟩ := List.cons.inj hp
    exact editsAt_modify_cons.fix false

theorem editsIn_assignUnder (hp : header ++ (path ++ [key]) = k :: m :: ks) :
    EditsIn k m fun _ => assignUnder header path key v := by
  cases header with
  | nil => exact editsIn_assign hp
  | cons p header =>
    obtain ⟨rfl, hrest⟩ := List.cons.inj hp
    refine (editsIn_modify_cons ?_).fix false
    cases header with
    | nil => exact editsAt_assign hrest
    | cons q header =>
      obtain ⟨rfl, -⟩ := List.cons.inj hrest
      exact editsAt_modify_cons

end

/-! ### What follows for the entries -/

section

variable {f : Bool → Entries → Option Entries} {k m n : String} {d : Bool}
  {es es' es₀ es₀' : Entries} {v : Toml}

theorem EditsAt.lookup_of_ne (h : EditsAt k f) (hf : f d es = some es') (hn : n ≠ k) :
    es'.lookup n = es.lookup n := by
  obtain ⟨g, hg⟩ := h
  rw [hg, edit_eq_some] at hf
  obtain ⟨i, -, rfl⟩ := hf
  rw [lookup_set, if_neg hn]

theorem EditsAt.congr (h : EditsAt k f) (hk : es.lookup k = es₀.lookup k)
    (hf : f d es₀ = some es₀') : ∃ es', f d es = some es' ∧ es'.lookup k = es₀'.lookup k := by
  obtain ⟨g, hg⟩ := h
  rw [hg, edit_eq_some] at hf
  obtain ⟨i, hi, rfl⟩ := hf
  refine ⟨set k i es, ?_, ?_⟩
  · rw [hg, edit_eq_some]
    exact ⟨i, by rw [hk, hi], rfl⟩
  · rw [lookup_set, lookup_set, if_pos rfl, if_pos rfl]

theorem EditsIn.lookup_table (h : EditsIn k m f) (hf : f d es = some es')
    (ht : ∃ im dt sub, es.lookup n = some (.table im dt sub)) :
    ∃ im dt sub, es'.lookup n = some (.table im dt sub) := by
  by_cases hn : n = k
  · subst hn
    obtain ⟨im, dt, sub, hsub⟩ := ht
    obtain ⟨g, hg, -, -, htable⟩ := h
    obtain ⟨h, hh⟩ := htable d im dt
    rw [hg, edit_eq_some, hsub, hh] at hf
    obtain ⟨i, hi, rfl⟩ := hf
    obtain ⟨sub', -, rfl⟩ := Option.map_eq_some_iff.1 hi
    exact ⟨im, dt, sub', by rw [lookup_set, if_pos rfl]⟩
  · rw [h.editsAt.lookup_of_ne hf hn]
    exact ht

end

/-! ## Tables with more in them -/

/-- One table has more in it than another: of the keys with `P`, which the other does not have, it
has those that are given. -/
structure Filled (P : String → Prop) (given : String → Option Toml) (sub sub₀ : Entries) :
    Prop where
  given : ∀ n, P n → sub.lookup n = (given n).map .value
  lacks : ∀ n, P n → sub₀.lookup n = none
  rest : ∀ n, ¬ P n → sub.lookup n = sub₀.lookup n

/-- One item is a table with more in it than the other is. If an item was given as a whole, both are
that value. -/
inductive Grown (P : String → Prop) (given : String → Option Toml) :
    (whole : Option Toml) → Option TomlItem → Option TomlItem → Prop where
  | absent (hnone : ∀ n, given n = none) : Grown P given none none none
  | value (v : Toml) (hnone : ∀ n, given n = none) :
    Grown P given (some v) (some (.value v)) (some (.value v))
  | table (im d : Bool) {sub sub₀ : Entries} (h : Filled P given sub sub₀) :
    Grown P given none (some (.table im d sub)) (some (.table im d sub₀))

section

variable {f : Bool → Entries → Option Entries} {P : String → Prop} {given : String → Option Toml}
  {whole : Option Toml} {k m : String} {ks path : List String} {key : String} {d : Bool}
  {es es₀ es₀' sub sub₀ sub₀' : Entries} {i i₀ : Option TomlItem}

theorem Filled.nil (hnone : ∀ n, given n = none) : Filled P given [] [] :=
  ⟨fun n _ => by simp [hnone n], fun _ _ => rfl, fun _ _ => rfl⟩

/-- A change of another key is the same with and without the keys with `P`. -/
theorem Filled.edit {g : Option TomlItem → Option TomlItem} (h : Filled P given sub sub₀)
    (hm : ¬ P m) (he : edit m g sub₀ = some sub₀') :
    ∃ sub', TomlItem.edit m g sub = some sub' ∧ Filled P given sub' sub₀' := by
  obtain ⟨j, hj, rfl⟩ := edit_eq_some.1 he
  refine ⟨set m j sub, edit_eq_some.2 ⟨j, by rw [h.rest m hm, hj], rfl⟩, ?_, ?_, ?_⟩
  all_goals intro n hn
  · rw [lookup_set, if_neg fun heq : n = m => hm (heq ▸ hn), h.given n hn]
  · rw [lookup_set, if_neg fun heq : n = m => hm (heq ▸ hn), h.lacks n hn]
  · rw [lookup_set, lookup_set, h.rest n hn]

/-- A pair that keeps away from the keys with `P` can be set with and without them. -/
theorem Filled.assign {v : Toml} (h : Filled P given sub sub₀) (hp : path ++ [key] = m :: ks)
    (hm : ¬ P m) (ha : assign path key v sub₀ = some sub₀') :
    ∃ sub', TomlItem.assign path key v sub = some sub' ∧ Filled P given sub' sub₀' := by
  obtain ⟨g, hg⟩ := editsAt_assign (v := v) hp
  have hedit (es : Entries) : TomlItem.assign path key v es = TomlItem.edit m (g false) es :=
    hg false es
  rw [hedit] at ha ⊢
  exact h.edit hm ha

/-- One of the keys with `P` that is not there yet can be set. -/
theorem Filled.assign_given (h : Filled P given sub sub₀) (hm : P m) (hnew : given m = none)
    (v : Toml) :
    ∃ sub', TomlItem.assign [] m v sub = some sub' ∧
      Filled P (fun n => if n = m then some v else given n) sub' sub₀ := by
  refine ⟨set m (.value v) sub, ?_, fun n hn => ?_, h.lacks, fun n hn => ?_⟩
  · rw [assign_eq]
    simp [modify, TomlItem.edit, assigned, h.given m hm, hnew]
  · by_cases hmm : n = m <;> simp [lookup_set, hmm, h.given n hn]
  · have hmm : n ≠ m := fun heq => hn (heq ▸ hm)
    rw [lookup_set, if_neg hmm, h.rest n hn]

theorem Grown.of_none (h : Grown P given whole i none) :
    i = none ∧ whole = none ∧ ∀ n, given n = none := by
  cases h with | absent hnone => exact ⟨rfl, rfl, hnone⟩

theorem Grown.of_table {im dt : Bool} (h : Grown P given whole i (some (.table im dt sub₀))) :
    whole = none ∧ ∃ sub, i = some (.table im dt sub) ∧ Filled P given sub sub₀ := by
  cases h with | table _ _ h => exact ⟨rfl, _, rfl, h⟩

/-- A header opens a table with and without the keys with `P`. -/
theorem opened_grown {j₀ : TomlItem} (h : Grown P given whole i i₀) (hj₀ : opened i₀ = some j₀) :
    ∃ j, opened i = some j ∧ Grown P given whole (some j) (some j₀) := by
  cases h with
  | absent hnone =>
    obtain rfl := Option.some.inj hj₀
    exact ⟨_, rfl, .table false false (.nil hnone)⟩
  | value v => cases hj₀
  | table im dt h =>
    rcases im with _ | _ <;> rcases dt with _ | _ <;> cases hj₀
    exact ⟨_, rfl, .table false false h⟩

theorem opened_table {j : TomlItem} (h : opened i = some j) :
    ∃ im dt sub, j = .table im dt sub := by
  rcases i with _ | v | ⟨_ | _, _ | _, sub⟩ | ts <;> cases h
  all_goals exact ⟨_, _, _, rfl⟩

/-- A change that keeps away from the keys with `P` is the same with and without them. -/
theorem EditsIn.grown (h : EditsIn k m f) (hm : ¬ P m)
    (hgrown : Grown P given whole (es.lookup k) (es₀.lookup k)) (hf : f d es₀ = some es₀') :
    ∃ es', f d es = some es' ∧ Grown P given whole (es'.lookup k) (es₀'.lookup k) := by
  obtain ⟨g, hg, hvalue, habsent, htable⟩ := h
  have hitem : ∀ {i i₀ j₀}, Grown P given whole i i₀ → g d i₀ = some j₀ →
      ∃ j, g d i = some j ∧ Grown P given whole (some j) (some j₀) := by
    intro i i₀ j₀ hgrown hj₀
    cases hgrown with
    | absent hnone =>
      obtain ⟨im, dt, h, hh⟩ := habsent d
      rw [hh] at hj₀ ⊢
      obtain ⟨sub, hsub, rfl⟩ := Option.map_eq_some_iff.1 hj₀
      obtain ⟨sub', hsub', hfilled⟩ := (Filled.nil hnone).edit hm hsub
      exact ⟨.table im dt sub', by rw [hsub']; rfl, .table im dt hfilled⟩
    | value v =>
      rw [hvalue] at hj₀
      cases hj₀
    | table im dt h =>
      obtain ⟨g', hg'⟩ := htable d im dt
      rw [hg'] at hj₀ ⊢
      obtain ⟨sub, hsub, rfl⟩ := Option.map_eq_some_iff.1 hj₀
      obtain ⟨sub', hsub', hfilled⟩ := h.edit hm hsub
      exact ⟨.table im dt sub', by rw [hsub']; rfl, .table im dt hfilled⟩
  rw [hg, edit_eq_some] at hf
  obtain ⟨j₀, hj₀, rfl⟩ := hf
  obtain ⟨j, hj, hgrown⟩ := hitem hgrown hj₀
  refine ⟨set k j es, by rw [hg, edit_eq_some]; exact ⟨j, hj, rfl⟩, ?_⟩
  rw [lookup_set, lookup_set, if_pos rfl, if_pos rfl]
  exact hgrown

end

end RecordGateway.TomlItem
