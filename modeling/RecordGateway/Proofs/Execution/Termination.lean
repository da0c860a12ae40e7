import RecordGateway.Proofs.Execution.Call

/-!
# The walk ends

`collect` walks through fragments with room for so many of them, one within the other, as there are.
`Collects` is the same walk without a bound: it looks up a fragment at each spread that is not left
out, and goes on in what it finds, whatever that is. It keeps the names of the spreads that it has
followed, and so tells all the chains of nested spreads that it has come to.

From an operation of an accepted document this walk comes to an end, with what `collect` gives
(`collect_terminates`). The reason is that the selections it comes to stand at the end of the chain
that leads there (`Selection.AtEnd`), so that the chain has no fragment twice.
-/

namespace RecordGateway

open GraphQL

/-! ## The walk without a bound -/

/-- What there is to do at a selection. -/
inductive Visit where
  | past
  | found (f : RootField)
  | undecided (e : ExecutionError)
  /-- It goes on inside a fragment, which it has looked up if it has a name. -/
  | enter (spread : Option Name) (inside : List Selection)
  /-- There is no such fragment. -/
  | lost (spread : Name)

section
variable (b : Bindings) (rootField : Name) (d : Document)

/-- What the walk does with a selection if it has to ask the directives and they keep it. -/
def Visit.ifKept (ds : List Directive) (v : Visit) : Visit :=
  match b.included ds with
  | .ok true => v
  | .ok false => .past
  | .error e => .undecided e

/-- What the walk does at the selection. -/
def Visit.of : Selection → Visit
  | .field f body =>
    if f.name = rootField then .ifKept b f.directives (.found ⟨f, body⟩) else .past
  | .inline _ _ ds body => .ifKept b ds (.enter none body)
  | .spread _ n ds =>
    .ifKept b ds
      (match d.fragment? n with
        | some f => .enter (some n) f.selections
        | none => .lost n)

/-- The walk through selections at the end of the `path` of followed spreads, the last first: what
it finds, and all the chains of spreads that it comes to. -/
inductive Collects : (path : List Name) → List Selection →
    Except ExecutionError (List RootField) → (chains : List (List Name)) → Prop
  | nil {path : List Name} : Collects path [] (.ok []) []
  | past {path : List Name} {x : Selection} {ss : List Selection}
    {r : Except ExecutionError (List RootField)} {cs : List (List Name)}
    (hx : Visit.of b rootField d x = .past) (hs : Collects path ss r cs) :
    Collects path (x :: ss) r cs
  | found {path : List Name} {x : Selection} {ss : List Selection} {f : RootField}
    {r : Except ExecutionError (List RootField)} {cs : List (List Name)}
    (hx : Visit.of b rootField d x = .found f) (hs : Collects path ss r cs) :
    Collects path (x :: ss) (r.map (f :: ·)) cs
  | undecided {path : List Name} {x : Selection} {ss : List Selection} {e : ExecutionError}
    (hx : Visit.of b rootField d x = .undecided e) : Collects path (x :: ss) (.error e) []
  | lost {path : List Name} {x : Selection} {ss : List Selection} {n : Name}
    {r : Except ExecutionError (List RootField)} {cs : List (List Name)}
    (hx : Visit.of b rootField d x = .lost n) (hs : Collects path ss r cs) :
    Collects path (x :: ss) r ((n :: path) :: cs)
  | stop {path : List Name} {x : Selection} {ss inside : List Selection} {n : Option Name}
    {e : ExecutionError} {cs : List (List Name)}
    (hx : Visit.of b rootField d x = .enter n inside)
    (hb : Collects (n.toList ++ path) inside (.error e) cs) :
    Collects path (x :: ss) (.error e) ((n.map (· :: path)).toList ++ cs)
  | enter {path : List Name} {x : Selection} {ss inside : List Selection} {n : Option Name}
    {fs : List RootField} {r : Except ExecutionError (List RootField)}
    {cs cs' : List (List Name)} (hx : Visit.of b rootField d x = .enter n inside)
    (hb : Collects (n.toList ++ path) inside (.ok fs) cs) (hs : Collects path ss r cs') :
    Collects path (x :: ss) (r.map (fs ++ ·)) ((n.map (· :: path)).toList ++ cs ++ cs')

end

section
variable {b : Bindings} {rootField : Name} {d : Document} {path : List Name} {ss : List Selection}
  {x : Selection} {r : Except ExecutionError (List RootField)} {chains : List (List Name)}

namespace Collects

/-- The walk goes only one way. -/
theorem det (h : Collects b rootField d path ss r chains) :
    ∀ {r' : Except ExecutionError (List RootField)} {chains' : List (List Name)},
      Collects b rootField d path ss r' chains' → r' = r ∧ chains' = chains := by
  induction h with
  | nil =>
    intro r' chains' h'
    cases h'
    exact ⟨rfl, rfl⟩
  | past hx hs ih =>
    intro r' chains' h'
    cases h' with
    | past hx' hs' => exact ih hs'
    | _ => simp_all
  | found hx hs ih =>
    intro r' chains' h'
    cases h' with
    | found hx' hs' =>
      obtain rfl := Visit.found.inj (hx.symm.trans hx')
      obtain ⟨rfl, rfl⟩ := ih hs'
      exact ⟨rfl, rfl⟩
    | _ => simp_all
  | undecided hx =>
    intro r' chains' h'
    cases h' with
    | undecided hx' =>
      obtain rfl := Visit.undecided.inj (hx.symm.trans hx')
      exact ⟨rfl, rfl⟩
    | _ => simp_all
  | lost hx hs ih =>
    intro r' chains' h'
    cases h' with
    | lost hx' hs' =>
      obtain rfl := Visit.lost.inj (hx.symm.trans hx')
      obtain ⟨rfl, rfl⟩ := ih hs'
      exact ⟨rfl, rfl⟩
    | _ => simp_all
  | stop hx hb ih =>
    intro r' chains' h'
    cases h' with
    | stop hx' hb' =>
      obtain ⟨rfl, rfl⟩ := Visit.enter.inj (hx.symm.trans hx')
      obtain ⟨hr, rfl⟩ := ih hb'
      exact ⟨hr, rfl⟩
    | enter hx' hb' hs' =>
      obtain ⟨rfl, rfl⟩ := Visit.enter.inj (hx.symm.trans hx')
      cases (ih hb').1
    | _ => simp_all
  | enter hx hb hs ihb ih =>
    intro r' chains' h'
    cases h' with
    | stop hx' hb' =>
      obtain ⟨rfl, rfl⟩ := Visit.enter.inj (hx.symm.trans hx')
      cases (ihb hb').1
    | enter hx' hb' hs' =>
      obtain ⟨rfl, rfl⟩ := Visit.enter.inj (hx.symm.trans hx')
      obtain ⟨hfs, rfl⟩ := ihb hb'
      obtain ⟨rfl, rfl⟩ := ih hs'
      cases hfs
      exact ⟨rfl, rfl⟩
    | _ => simp_all

end Collects

/-! ## What it looks up -/

theorem Visit.eq_of_ifKept {ds : List Directive} {v w : Visit} (h : ifKept b ds v = w)
    (hp : w ≠ .past) (hu : ∀ e, w ≠ .undecided e) : v = w := by
  unfold ifKept at h
  split at h
  · exact h
  · exact absurd h.symm hp
  · exact absurd h.symm (hu _)

/-- The walk goes on inside an inline fragment, or one that it has looked up. -/
theorem Visit.of_eq_enter {n : Option Name} {inside : List Selection}
    (h : Visit.of b rootField d x = .enter n inside) :
    (n = none ∧ ∃ i c ds, x = .inline i c ds inside) ∨
      ∃ i m ds f, n = some m ∧ x = .spread i m ds ∧ d.fragment? m = some f ∧
        inside = f.selections := by
  cases x with
  | field f body =>
    simp only [Visit.of] at h
    split at h
    · cases Visit.eq_of_ifKept h (by simp) (by simp)
    · cases h
  | inline i c ds body =>
    cases Visit.eq_of_ifKept h (by simp) (by simp)
    exact .inl ⟨rfl, i, c, ds, rfl⟩
  | spread i m ds =>
    have hv := Visit.eq_of_ifKept h (by simp) (by simp)
    split at hv
    · cases hv
      exact .inr ⟨i, m, ds, _, rfl, rfl, ‹_›, rfl⟩
    · cases hv

/-- What the walk does not find is the fragment of a spread. -/
theorem Visit.of_eq_lost {n : Name} (h : Visit.of b rootField d x = .lost n) :
    d.fragment? n = none ∧ ∃ i ds, x = .spread i n ds := by
  cases x with
  | field f body =>
    simp only [Visit.of] at h
    split at h
    · cases Visit.eq_of_ifKept h (by simp) (by simp)
    · cases h
  | inline i c ds body => cases Visit.eq_of_ifKept h (by simp) (by simp)
  | spread i m ds =>
    have hv := Visit.eq_of_ifKept h (by simp) (by simp)
    split at hv
    · cases hv
    · cases hv
      exact ⟨‹_›, i, ds, rfl⟩

/-- The names in a chain of nested spreads are different, and there is a fragment for each. -/
structure SpreadChain (d : Document) (chain : List Name) : Prop where
  nodup : chain.Nodup
  found : ∀ n ∈ chain, ∃ f, d.fragment? n = some f
  length_le : chain.length ≤ d.fragments.length

theorem GraphQL.Selection.AtEnd.spreadChain {s : Schema} {vars : List VariableDefinition}
    {reached : List Name} (h : Selection.AtEnd s d vars reached path ss) : SpreadChain d path :=
  ⟨h.nodup, h.found, h.length_le⟩

/-- What the walk enters stands at the end of the way there. -/
theorem atEnd_of_enter {s : Schema} {o : Operation} {reached : List Name}
    (hv : o.Vetted s d reached) {n : Option Name} {inside : List Selection}
    (hend : Selection.AtEnd s d o.variableDefinitions reached path (x :: ss))
    (hx : Visit.of b rootField d x = .enter n inside) :
    Selection.AtEnd s d o.variableDefinitions reached (n.toList ++ path) inside := by
  obtain ⟨rfl, i, c, ds, rfl⟩ | ⟨i, m, ds, f, rfl, rfl, hf, rfl⟩ := Visit.of_eq_enter hx
  · exact hend.inside
  · obtain ⟨f', hf', hin⟩ := hv.atEnd_spread hend List.mem_cons_self
    obtain rfl := Option.some.inj (hf.symm.trans hf')
    exact hin

/-- From the end of a way, the walk comes only to chains of different fragments. -/
theorem Collects.spreadChain {s : Schema} {o : Operation} {reached : List Name}
    (hv : o.Vetted s d reached) (h : Collects b rootField d path ss r chains) :
    Selection.AtEnd s d o.variableDefinitions reached path ss →
      ∀ chain ∈ chains, SpreadChain d chain := by
  -- the chain of a spread is the path that what it stands for is at the end of
  have hown : ∀ {n : Option Name} {path : List Name} {inside : List Selection},
      Selection.AtEnd s d o.variableDefinitions reached (n.toList ++ path) inside →
        ∀ chain ∈ (n.map (· :: path)).toList, SpreadChain d chain := by
    intro n path inside hin chain hc
    cases n with
    | none => cases hc
    | some m => exact List.mem_singleton.1 hc ▸ hin.spreadChain
  induction h with
  | nil => exact fun _ _ hc => absurd hc List.not_mem_nil
  | past _ _ ih => exact fun hend => ih hend.tail
  | found _ _ ih => exact fun hend => ih hend.tail
  | undecided _ => exact fun _ _ hc => absurd hc List.not_mem_nil
  | lost hx _ ih =>
    intro hend
    obtain ⟨hnone, i, ds, rfl⟩ := Visit.of_eq_lost hx
    obtain ⟨f, hf, -⟩ := hv.atEnd_spread hend List.mem_cons_self
    rw [hnone] at hf
    cases hf
  | stop hx _ ih =>
    intro hend chain hc
    have hin := atEnd_of_enter hv hend hx
    rcases List.mem_append.1 hc with hc | hc
    · exact hown hin chain hc
    · exact ih hin chain hc
  | enter hx _ _ ihb ih =>
    intro hend chain hc
    have hin := atEnd_of_enter hv hend hx
    simp only [List.mem_append] at hc
    obtain (hc | hc) | hc := hc
    · exact hown hin chain hc
    · exact ihb hin chain hc
    · exact ih hend.tail chain hc

/-! ## It comes to an end -/

/-- What is found at a selection, in terms of what there is to do there. -/
theorem collectFrom_eq_visit (room : Nat) (x : Selection) :
    collectFrom b rootField (behindSpread b rootField d room) x =
      (match Visit.of b rootField d x with
        | .past | .lost _ => .ok []
        | .found f => .ok [f]
        | .undecided e => .error e
        | .enter none inside => collectWithin b rootField d room inside
        | .enter (some n) _ => behindSpread b rootField d room n) := by
  cases x with
  | field f body =>
    simp only [Visit.of, collectFrom]
    by_cases hn : f.name = rootField
    · simp only [hn, ↓reduceIte, Visit.ifKept]
      cases b.included f.directives with
      | error e => rfl
      | ok k => cases k <;> rfl
    · simp only [hn, ↓reduceIte]
  | inline i c ds body =>
    simp only [Visit.of, collectFrom, Visit.ifKept]
    cases b.included ds with
    | error e => rfl
    | ok k =>
      cases k with
      | false => rfl
      | true => exact (collectWithin_eq_from room body).symm
  | spread i n ds =>
    simp only [Visit.of, collectFrom, Visit.ifKept]
    cases b.included ds with
    | error e => rfl
    | ok k =>
      cases k with
      | false => rfl
      | true =>
        cases hf : d.fragment? n with
        | some f => rfl
        | none => cases room <;> simp [behindSpread, hf]

theorem collectWithin_cons_map (room : Nat) (x : Selection) (xs : List Selection) :
    collectWithin b rootField d room (x :: xs) =
      (match collectFrom b rootField (behindSpread b rootField d room) x with
        | .error e => .error e
        | .ok fs => (collectWithin b rootField d room xs).map (fs ++ ·)) := by
  rw [collectWithin_cons]
  cases collectFrom b rootField (behindSpread b rootField d room) x with
  | error e => rfl
  | ok fs => cases collectWithin b rootField d room xs <;> rfl

/-- The walk through some selections ends if it does inside the first and through the others. -/
theorem exists_collects_cons {room : Nat}
    (hin : ∀ n inside, Visit.of b rootField d x = .enter n inside →
      ∃ cs, Collects b rootField d (n.toList ++ path) inside
        (collectFrom b rootField (behindSpread b rootField d room) x) cs)
    (hs : ∃ cs, Collects b rootField d path ss (collectWithin b rootField d room ss) cs) :
    ∃ cs, Collects b rootField d path (x :: ss)
      (collectWithin b rootField d room (x :: ss)) cs := by
  obtain ⟨cs, hs⟩ := hs
  have hnil : (collectWithin b rootField d room ss).map ([] ++ ·) =
      collectWithin b rootField d room ss := by
    cases collectWithin b rootField d room ss <;> rfl
  rw [collectWithin_cons_map]
  cases hx : Visit.of b rootField d x with
  | enter n inside =>
    obtain ⟨ci, hi⟩ := hin n inside hx
    cases hr : collectFrom b rootField (behindSpread b rootField d room) x with
    | error e => exact ⟨_, .stop hx (hr ▸ hi)⟩
    | ok fs => exact ⟨_, .enter hx (hr ▸ hi) hs⟩
  | past =>
    simp only [collectFrom_eq_visit, hx, hnil]
    exact ⟨_, .past hx hs⟩
  | lost n =>
    simp only [collectFrom_eq_visit, hx, hnil]
    exact ⟨_, .lost hx hs⟩
  | found f =>
    simp only [collectFrom_eq_visit, hx]
    exact ⟨_, .found hx hs⟩
  | undecided e =>
    simp only [collectFrom_eq_visit, hx]
    exact ⟨_, .undecided hx⟩

/-- Where ways of spreads are bounded, the walk ends. -/
theorem exists_collects : ∀ (room : Nat) (path : List Name) (ss : List Selection),
    d.Bounded room ss →
      ∃ cs, Collects b rootField d path ss (collectWithin b rootField d room ss) cs
  | room, _, [], _ => ⟨[], collectWithin_eq_from room [] ▸ .nil⟩
  | room, path, .field f body :: ss, h => by
    refine exists_collects_cons (fun n inside hx => ?_) (exists_collects room path ss h.tail)
    obtain ⟨_, _, _, _, heq⟩ | ⟨_, _, _, _, _, heq, _⟩ := Visit.of_eq_enter hx
    · cases heq
    · cases heq
  | room, path, .inline i c ds body :: ss, h => by
    refine exists_collects_cons (fun n inside hx => ?_) (exists_collects room path ss h.tail)
    have hin := exists_collects room path body h.inside
    rw [collectFrom_eq_visit, hx]
    obtain ⟨rfl, _, _, _, heq⟩ | ⟨_, _, _, _, _, heq, _⟩ := Visit.of_eq_enter hx
    · cases heq
      exact hin
    · cases heq
  | room, path, .spread i m ds :: ss, h => by
    obtain ⟨r, f, hroom, hf, hr⟩ := h.spread
    refine exists_collects_cons (fun n inside hx => ?_) (exists_collects room path ss h.tail)
    have hin := exists_collects r (m :: path) f.selections hr
    rw [collectFrom_eq_visit, hx]
    obtain ⟨_, _, _, _, heq⟩ | ⟨_, _, _, f', rfl, heq, hf', rfl⟩ := Visit.of_eq_enter hx
    · cases heq
    · cases heq
      obtain rfl := Option.some.inj (hf.symm.trans hf')
      simp only [hroom, behindSpread, hf]
      exact hin
termination_by room _ ss => (room, sizeOf ss)

end

/-- From every operation of an accepted document, whatever the values of its variables, the walk
without a bound comes to an end in one way. It finds what `collect` finds, each spread that it
follows has a fragment, and no chain of nested spreads has one twice. -/
theorem collect_terminates {s : Schema} {text : String} {d : Document}
    (hd : Document.read s text = .ok d) {o : Operation} (ho : o ∈ d.operations) (b : Bindings)
    (rootField : Name) : ∃ chains,
      (∀ r cs, Collects b rootField d [] o.selections r cs ↔
        r = collect b rootField d o.selections ∧ cs = chains) ∧
      ∀ chain ∈ chains, SpreadChain d chain := by
  obtain ⟨reached, hv⟩ := Operation.vetted_of_accepted (Document.accepted_of_read hd) ho
  obtain ⟨chains, h⟩ : ∃ cs, Collects b rootField d [] o.selections
    (collect b rootField d o.selections) cs := exists_collects _ _ _ hv.bounded
  refine ⟨chains, fun r cs => ⟨h.det, ?_⟩, h.spreadChain hv hv.atEnd_top⟩
  rintro ⟨rfl, rfl⟩
  exact h

/-- Fragments within fragments, one of them come to in two ways, and one that is left out. -/
def nestedFragments : Request where
  query := "\x7b ...A ...B @skip(if: true) \x7d " ++
    "fragment A on RootQuery \x7b ... \x7b ...B \x7d ...C \x7d " ++
    "fragment B on RootQuery \x7b ...C \x7d " ++
    "fragment C on RootQuery \x7b getData(id: \"1\") \x7b id \x7d \x7d"

theorem collect_terminates_nestedFragments : ∃ reg d o,
    Registry.ofDescriptors dataEntity getData = .ok reg ∧
      Document.read reg.schema nestedFragments.query = .ok d ∧ o ∈ d.operations ∧
      d.fragments.length = 3 ∧
      (collect ⟨[], []⟩ "getData" d o.selections).toOption.map List.length = some 2 ∧
      ∃ chains, (∀ r cs, Collects ⟨[], []⟩ "getData" d [] o.selections r cs ↔
          r = collect ⟨[], []⟩ "getData" d o.selections ∧ cs = chains) ∧
        ∀ chain ∈ chains, SpreadChain d chain := by
  obtain ⟨reg, hreg, hc⟩ := Registry.exists_compiled_builtin
  obtain ⟨d, o, hd, ho, htest⟩ := hc.exists_chosen nestedFragments
    (fun d o => d.fragments.length == 3 &&
      (collect ⟨[], []⟩ "getData" d o.selections).toOption.map List.length == some 2)
    (by decide +kernel)
  simp only [Bool.and_eq_true, beq_iff_eq] at htest
  have hmem := (Document.picks_of_choose ho).mem
  exact ⟨reg, d, o, hreg, hd, hmem, htest.1, htest.2,
    collect_terminates hd hmem ⟨[], []⟩ "getData"⟩

end RecordGateway
