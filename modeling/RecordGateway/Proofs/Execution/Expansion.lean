import RecordGateway.Execution.Collect
import RecordGateway.Proofs.GraphQL.Sound

/-!
# Collecting after expanding

`collect` goes through fragments and asks conditions on its way. The same root fields are found in
two steps: put the selections of a fragment wherever it is spread (`Expands`), then list the places
where conditions are asked with all the directives around them (`stations`) and ask each by itself
(`Bindings.survey`).

* `Expands.det`, `exists_expands`: the expansion is unique, and there is one where ways of spreads
  are bounded.
* `collectWithin_eq_survey`, `exists_collect_eq_survey`: the two steps give what `collect` gives.
* `within_of_mem_stations`: what stands in a station was come to from the selections.
-/

namespace RecordGateway.GraphQL

/-! ## Expansion -/

/-- `ts` is `ss` with an inline fragment in the place of every spread, for the same type and under
the same directives. What is selected on the values of fields stays as it is. -/
inductive Expands (d : Document) : (ss ts : List Selection) → Prop
  | nil : Expands d [] []
  | field {f : Field} {body ss ts : List Selection} (hs : Expands d ss ts) :
    Expands d (.field f body :: ss) (.field f body :: ts)
  | inline {i : Nat} {c : Option TypeCondition} {ds : List Directive}
    {body inside ss ts : List Selection} (hb : Expands d body inside) (hs : Expands d ss ts) :
    Expands d (.inline i c ds body :: ss) (.inline i c ds inside :: ts)
  | spread {i : Nat} {n : Name} {ds : List Directive} {f : Fragment}
    {inside ss ts : List Selection} (hf : d.fragment? n = some f)
    (hb : Expands d f.selections inside) (hs : Expands d ss ts) :
    Expands d (.spread i n ds :: ss) (.inline i (some f.condition) ds inside :: ts)

namespace Expands

variable {d : Document} {ss ts : List Selection}

theorem det (h : Expands d ss ts) : ∀ {us : List Selection}, Expands d ss us → ts = us := by
  induction h with
  | nil =>
    intro us hu
    cases hu
    rfl
  | field _ ih =>
    intro us hu
    cases hu with
    | field hs => rw [ih hs]
  | inline _ _ ihb ih =>
    intro us hu
    cases hu with
    | inline hb hs => rw [ihb hb, ih hs]
  | spread hf _ _ ihb ih =>
    intro us hu
    cases hu with
    | spread hf' hb hs =>
      obtain rfl := Option.some.inj (hf.symm.trans hf')
      rw [ihb hb, ih hs]

end Expands

/-- Where ways of spreads are bounded, there is an expansion. -/
theorem exists_expands {d : Document} : ∀ (room : Nat) (ss : List Selection),
    d.Bounded room ss → ∃ ts, Expands d ss ts
  | _, [], _ => ⟨[], .nil⟩
  | room, .field f body :: ss, h => by
    obtain ⟨ts, hs⟩ := exists_expands room ss h.tail
    exact ⟨_, .field hs⟩
  | room, .inline i c ds body :: ss, h => by
    obtain ⟨inside, hb⟩ := exists_expands room body h.inside
    obtain ⟨ts, hs⟩ := exists_expands room ss h.tail
    exact ⟨_, .inline hb hs⟩
  | room, .spread i n ds :: ss, h => by
    obtain ⟨r, f, hroom, hf, hr⟩ := h.spread
    obtain ⟨inside, hb⟩ := exists_expands r f.selections hr
    obtain ⟨ts, hs⟩ := exists_expands room ss h.tail
    exact ⟨_, .spread hf hb hs⟩
termination_by room ss => (room, sizeOf ss)

end RecordGateway.GraphQL

namespace RecordGateway

open GraphQL

/-! ## Stations -/

/-- A place where the walk asks conditions: all the directives on the way there, outermost first,
and the root field that is found there if it is not a fragment. -/
structure Station where
  guards : List Directive
  field? : Option RootField

section

variable (rootField : Name)

mutual

/-- The stations in an expanded selection with the directives `around` it, in document order. -/
def stationsIn (around : List Directive) : Selection → List Station
  | .field f body => if f.name = rootField then [⟨around ++ f.directives, some ⟨f, body⟩⟩] else []
  | .inline _ _ ds body => ⟨around ++ ds, none⟩ :: stations (around ++ ds) body
  | .spread .. => []

def stations (around : List Directive) : List Selection → List Station
  | [] => []
  | x :: xs => stationsIn around x ++ stations around xs

end

end

namespace Bindings

variable {b : Bindings}

/-- The root fields of the stations whose directives all keep them; an error if some station's
directives cannot be told. -/
def survey (b : Bindings) : List Station → Except ExecutionError (List RootField)
  | [] => .ok []
  | t :: ts =>
    match b.included t.guards with
    | .error e => .error e
    | .ok k =>
      match survey b ts with
      | .error e => .error e
      | .ok fs => .ok ((if k then t.field?.toList else []) ++ fs)

theorem included_append (ds es : List Directive) :
    b.included (ds ++ es) = (match b.included ds with
      | .ok true => b.included es
      | r => r) := by
  induction ds with
  | nil => simp [included]
  | cons d ds ih =>
    simp only [List.cons_append, included]
    split <;> simp_all

theorem survey_append (ts us : List Station) :
    b.survey (ts ++ us) = (match b.survey ts with
      | .error e => .error e
      | .ok fs =>
        match b.survey us with
        | .error e => .error e
        | .ok gs => .ok (fs ++ gs)) := by
  induction ts with
  | nil =>
    simp only [List.nil_append, survey]
    cases b.survey us <;> rfl
  | cons t ts ih =>
    simp only [List.cons_append, survey, ih]
    cases b.included t.guards with
    | error e => rfl
    | ok k =>
      cases b.survey ts with
      | error e => rfl
      | ok fs => cases b.survey us <;> simp

mutual

/-- Where the directives around leave everything out, nothing more is asked. -/
theorem survey_stationsIn_excluded {rootField : Name} {around : List Directive}
    (h : b.included around = .ok false) :
    ∀ x : Selection, b.survey (stationsIn rootField around x) = .ok []
  | .field f body => by
    unfold stationsIn
    split <;> simp [survey, included_append, h]
  | .inline i c ds body => by
    have h' : b.included (around ++ ds) = .ok false := by rw [included_append, h]
    simp [stationsIn, survey, h', survey_stations_excluded h' body]
  | .spread i n ds => rfl

theorem survey_stations_excluded {rootField : Name} {around : List Directive}
    (h : b.included around = .ok false) :
    ∀ ss : List Selection, b.survey (stations rootField around ss) = .ok []
  | [] => rfl
  | x :: xs => by
    simp [stations, survey_append, survey_stationsIn_excluded h x, survey_stations_excluded h xs]

end

end Bindings

/-! ## The walk and its stations -/

section

variable {b : Bindings} {rootField : Name} {d : Document}

/-- What `collectWithin` finds behind a spread. -/
def behindSpread (b : Bindings) (rootField : Name) (d : Document) :
    (room : Nat) → Name → Except ExecutionError (List RootField)
  | 0, _ => .ok []
  | room + 1, n =>
    match d.fragment? n with
    | some f => collectWithin b rootField d room f.selections
    | none => .ok []

theorem collectWithin_eq_from (room : Nat) (ss : List Selection) :
    collectWithin b rootField d room ss =
      collectAllFrom b rootField (behindSpread b rootField d room) ss := by
  cases room <;> rfl

theorem collectWithin_cons (room : Nat) (x : Selection) (xs : List Selection) :
    collectWithin b rootField d room (x :: xs) =
      (match collectFrom b rootField (behindSpread b rootField d room) x with
        | .error e => .error e
        | .ok fs =>
          match collectWithin b rootField d room xs with
          | .error e => .error e
          | .ok gs => .ok (fs ++ gs)) := by
  rw [collectWithin_eq_from, collectWithin_eq_from]
  rfl

/-- The station of a fragment and those inside it, where what is inside is found by `r` as long as
the directives keep it. -/
theorem survey_inline {around ds : List Directive} {inside : List Selection}
    {r : Except ExecutionError (List RootField)} (ha : b.included around = .ok true)
    (hr : b.included (around ++ ds) = .ok true →
      r = b.survey (stations rootField (around ++ ds) inside)) :
    b.survey (⟨around ++ ds, none⟩ :: stations rootField (around ++ ds) inside) =
      (match b.included ds with
        | .ok true => r
        | .ok false => .ok []
        | .error e => .error e) := by
  have happ : b.included (around ++ ds) = b.included ds := by rw [Bindings.included_append, ha]
  rw [happ] at hr
  simp only [Bindings.survey, happ]
  cases hds : b.included ds with
  | error e => rfl
  | ok k =>
    cases k with
    | false => simp [Bindings.survey_stations_excluded (happ.trans hds)]
    | true =>
      rw [hr hds]
      cases b.survey (stations rootField (around ++ ds) inside) <;> simp

theorem collectWithin_eq_survey_cons {room : Nat} {around : List Directive} {x y : Selection}
    {xs ys : List Selection}
    (hx : collectFrom b rootField (behindSpread b rootField d room) x =
      b.survey (stationsIn rootField around y))
    (hxs : collectWithin b rootField d room xs = b.survey (stations rootField around ys)) :
    collectWithin b rootField d room (x :: xs) =
      b.survey (stations rootField around (y :: ys)) := by
  rw [collectWithin_cons, hx, hxs, stations, Bindings.survey_append]

/-- Walking through the fragments and asking the stations of the expansion come to the same. -/
theorem collectWithin_eq_survey {ss ts : List Selection} (h : Expands d ss ts) :
    ∀ {room : Nat} {around : List Directive}, d.Bounded room ss → b.included around = .ok true →
      collectWithin b rootField d room ss = b.survey (stations rootField around ts) := by
  induction h with
  | nil =>
    intro room around _ _
    rw [collectWithin_eq_from]
    rfl
  | @field f body ss ts _ ih =>
    intro room around hb ha
    refine collectWithin_eq_survey_cons ?_ (ih hb.tail ha)
    simp only [collectFrom, stationsIn]
    by_cases hn : f.name = rootField
    · simp only [hn, ↓reduceIte, Bindings.survey, Bindings.included_append, ha]
      cases b.included f.directives with
      | error e => rfl
      | ok k => cases k <;> simp
    · simp only [hn, ↓reduceIte, Bindings.survey]
  | @inline i c ds body inside ss ts _ _ ihb ih =>
    intro room around hb ha
    refine collectWithin_eq_survey_cons ?_ (ih hb.tail ha)
    exact (survey_inline ha fun h =>
      (collectWithin_eq_from room body).symm.trans (ihb hb.inside h)).symm
  | @spread i n ds f inside ss ts hf _ _ ihb ih =>
    intro room around hb ha
    obtain ⟨r, f', rfl, hf', hr⟩ := hb.spread
    obtain rfl := Option.some.inj (hf.symm.trans hf')
    refine collectWithin_eq_survey_cons ?_ (ih hb.tail ha)
    have henter : behindSpread b rootField d (r + 1) n =
        collectWithin b rootField d r f.selections := by
      rw [behindSpread, hf]
    exact (survey_inline ha fun h => henter.trans (ihb hr h)).symm

/-- The root fields of an operation are those of the stations of its one expansion. -/
theorem exists_collect_eq_survey {s : Schema} {o : Operation} {reached : List Name}
    (h : o.Vetted s d reached) : ∃ ts, Expands d o.selections ts ∧ ∀ (b : Bindings)
      (rootField : Name), collect b rootField d o.selections =
        b.survey (stations rootField [] ts) := by
  obtain ⟨ts, hts⟩ := exists_expands _ _ h.bounded
  exact ⟨ts, hts, fun b rootField => collectWithin_eq_survey hts h.bounded rfl⟩

/-- The directives of a station that are not `around` it, and its root field, stand on selections
that one comes to from `ss`. -/
structure Station.Within (d : Document) (rootField parent : Name) (ss : List Selection)
    (around : List Directive) (t : Station) : Prop where
  guards : ∀ g ∈ t.guards, g ∈ around ∨ ∃ p x, Walk d parent ss p x ∧ g ∈ x.directives
  field : ∀ f, t.field? = some f →
    f.head.name = rootField ∧ ∃ p, Walk d parent ss p (.field f.head f.body)

namespace Station.Within

variable {parent : Name} {ss : List Selection} {around : List Directive} {x : Selection}

/-- The station of a selection itself. -/
theorem own {r : Option RootField} (hx : x ∈ ss)
    (hr : ∀ f, r = some f → f.head.name = rootField ∧ x = .field f.head f.body) :
    Station.Within d rootField parent ss around ⟨around ++ x.directives, r⟩ := by
  refine ⟨fun g hg => ?_, fun f hf => ?_⟩
  · rcases List.mem_append.1 hg with hg | hg
    · exact .inl hg
    · exact .inr ⟨parent, x, .here hx, hg⟩
  · obtain ⟨hn, rfl⟩ := hr f hf
    exact ⟨hn, parent, .here hx⟩

theorem cons {t : Station} (h : t.Within d rootField parent ss around) :
    t.Within d rootField parent (x :: ss) around := by
  refine ⟨fun g hg => (h.guards g hg).imp_right ?_, fun f hf => ?_⟩
  · exact fun ⟨p, y, w, hg⟩ => ⟨p, y, w.mono (List.subset_cons_self x ss), hg⟩
  · obtain ⟨hn, p, w⟩ := h.field f hf
    exact ⟨hn, p, w.mono (List.subset_cons_self x ss)⟩

/-- A station inside the selection `x`, whose `body` one comes to. -/
theorem outward {parent' : Name} {body : List Selection} {t : Station}
    (h : t.Within d rootField parent' body (around ++ x.directives)) (hx : x ∈ ss)
    (hw : ∀ {p y}, Walk d parent' body p y → Walk d parent ss p y) :
    t.Within d rootField parent ss around := by
  refine ⟨fun g hg => ?_, fun f hf => ?_⟩
  · rcases h.guards g hg with hg | ⟨p, y, w, hg⟩
    · rcases List.mem_append.1 hg with hg | hg
      · exact .inl hg
      · exact .inr ⟨parent, x, .here hx, hg⟩
    · exact .inr ⟨p, y, hw w, hg⟩
  · obtain ⟨hn, p, w⟩ := h.field f hf
    exact ⟨hn, p, hw w⟩

end Station.Within

theorem within_of_mem_stations {ss ts : List Selection} (h : Expands d ss ts) :
    ∀ {around : List Directive} {t : Station} (parent : Name), t ∈ stations rootField around ts →
      t.Within d rootField parent ss around := by
  induction h with
  | nil =>
    intro around t parent ht
    cases ht
  | @field f body ss ts _ ih =>
    intro around t parent ht
    rcases List.mem_append.1 ht with ht | ht
    · unfold stationsIn at ht
      split at ht
      · rw [List.mem_singleton.1 ht]
        exact .own List.mem_cons_self fun _ hf => by
          cases hf
          exact ⟨‹_›, rfl⟩
      · cases ht
    · exact (ih parent ht).cons
  | @inline i c ds body inside ss ts _ _ ihb ih =>
    intro around t parent ht
    rcases List.mem_append.1 ht with ht | ht
    · rcases List.mem_cons.1 ht with rfl | ht
      · exact .own List.mem_cons_self (by simp)
      · exact (ihb (conditionName parent c) ht).outward List.mem_cons_self
          fun w => .inline List.mem_cons_self w
    · exact (ih parent ht).cons
  | @spread i n ds f inside ss ts hf _ _ ihb ih =>
    intro around t parent ht
    rcases List.mem_append.1 ht with ht | ht
    · rcases List.mem_cons.1 ht with rfl | ht
      · exact .own List.mem_cons_self (by simp)
      · exact (ihb f.condition.name ht).outward List.mem_cons_self
          fun w => .spread List.mem_cons_self hf w
    · exact (ih parent ht).cons

end

end RecordGateway
