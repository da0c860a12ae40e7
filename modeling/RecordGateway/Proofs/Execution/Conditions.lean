import RecordGateway.Proofs.Execution.Expansion

/-!
# What conditions decide

Directives are asked in order, up to the first that leaves out what they stand on. Asking fails only
at a condition that is a variable without a boolean (`Undecided`, `undecided_of_kept`), and only if
nothing before it leaves the place out (`included_error`). Otherwise the place is kept unless some
directive excludes it (`excludes_of_included`), so the order does not matter (`included_perm`).

`Bindings.roots` are the root fields of the stations that no directive excludes; `survey_ok` and
`survey_error` say what a survey finds in their terms.
-/

namespace RecordGateway

open GraphQL

namespace Bindings

variable {b : Bindings}

/-! ## One directive -/

/-- The directive `g` goes by a variable that yields no boolean, and `e` says so: the request gives
the variable another value, or neither the request nor a default gives it one. -/
inductive Undecided (b : Bindings) (g : Directive) : ExecutionError → Prop
  | given {a : Argument} {i : Nat} {n : Name} {v : Json} (hg : g.name = "skip" ∨ g.name = "include")
    (ha : g.arguments.find? (·.name == "if") = some a) (hv : a.value = .variable i n)
    (hb : b.value? n = some v) (hn : ∀ x, v ≠ .bool x) :
    Undecided b g (.invalidVariable n v.render notBoolean)
  | absent {a : Argument} {i : Nat} {n : Name} (hg : g.name = "skip" ∨ g.name = "include")
    (ha : g.arguments.find? (·.name == "if") = some a) (hv : a.value = .variable i n)
    (hb : b.value? n = none) (hd : ∀ j x, b.default? n ≠ some (.literal j (.boolean x))) :
    Undecided b g (.missingVariable n "Boolean!")

theorem Undecided.messages_eq {g : Directive} {e : ExecutionError} (h : b.Undecided g e) :
    e.messages = [e.message] := by
  cases h <;> rfl

theorem boolean_error {v : Value} {e : ExecutionError} (h : b.boolean v = .error e) :
    ∃ i n, v = .variable i n ∧
      ((∃ j, b.value? n = some j ∧ (∀ x, j ≠ .bool x) ∧
        e = .invalidVariable n j.render notBoolean) ∨
      b.value? n = none ∧ (∀ j x, b.default? n ≠ some (.literal j (.boolean x))) ∧
        e = .missingVariable n "Boolean!") := by
  unfold boolean at h
  split at h
  · cases h
  · rename_i i n
    split at h
    · cases h
    · rename_i j hn hj
      cases h
      exact ⟨i, n, rfl, .inl ⟨j, hj, fun x hx => hn x hx, rfl⟩⟩
    · rename_i hj
      split at h
      · cases h
      · rename_i hd
        cases h
        exact ⟨i, n, rfl, .inr ⟨hj, fun j x hx => hd j x hx, rfl⟩⟩
  · cases h

/-- Asking a directive fails only at a variable without a boolean. -/
theorem undecided_of_kept {g : Directive} {e : ExecutionError} (h : b.kept g = .error e) :
    b.Undecided g e := by
  unfold kept at h
  split at h
  · rename_i s a hs ha
    have hg : g.name = "skip" ∨ g.name = "include" := by
      unfold skipsWhen? at hs
      split at hs
      · exact .inl ‹_›
      · exact .inr ‹_›
      · cases hs
    split at h
    · cases h
    · rename_i hv
      cases h
      obtain ⟨i, n, hx, ⟨j, hj, hn, rfl⟩ | ⟨hj, hd, rfl⟩⟩ := boolean_error hv
      · exact .given hg ha hx hj hn
      · exact .absent hg ha hx hj hd
  · cases h

/-- The value of the condition of a directive, if it has one that can be told. -/
def condition? (b : Bindings) (g : Directive) : Option Bool :=
  (g.arguments.find? (·.name == "if")).bind fun a => (b.boolean a.value).toOption

/-- Whether a directive leaves out what it stands on: a `@skip` whose condition holds, or an
`@include` whose condition does not. -/
def excludes (b : Bindings) (g : Directive) : Bool :=
  g.name == "skip" && b.condition? g == some true ||
    g.name == "include" && b.condition? g == some false

theorem excludes_of_kept {g : Directive} {k : Bool} (h : b.kept g = .ok k) :
    b.excludes g = !k := by
  unfold kept at h
  unfold excludes condition?
  split at h
  · rename_i s a hs ha
    split at h
    · rename_i v hv
      cases h
      unfold skipsWhen? at hs
      split at hs <;> cases hs <;> cases v <;> simp_all [Except.toOption]
    · cases h
  · rename_i hn
    cases h
    cases ha : g.arguments.find? (·.name == "if") with
    | none => simp
    | some a =>
      cases hs : skipsWhen? g.name with
      | some s => exact absurd ha (hn s a hs)
      | none =>
        unfold skipsWhen? at hs
        split at hs <;> simp_all

/-! ## Several directives -/

/-- Directives whose conditions can be told as far as they are asked keep a place unless one of
them excludes it. -/
theorem excludes_of_included : ∀ {gs : List Directive} {k : Bool}, b.included gs = .ok k →
    gs.any b.excludes = !k
  | [], k, h => by
    cases h
    rfl
  | g :: gs, k, h => by
    simp only [included] at h
    split at h
    · rename_i hg
      rw [List.any_cons, excludes_of_kept hg, excludes_of_included h]
      rfl
    · rename_i hg
      cases k with
      | true => exact absurd h hg
      | false =>
        rw [List.any_cons, excludes_of_kept h]
        rfl

theorem included_error {gs : List Directive} {e : ExecutionError} (h : b.included gs = .error e) :
    ∃ pre g post, gs = pre ++ g :: post ∧ (∀ x ∈ pre, b.kept x = .ok true) ∧
      b.Undecided g e := by
  induction gs with
  | nil => cases h
  | cons g gs ih =>
    simp only [included] at h
    split at h
    · rename_i hg
      obtain ⟨pre, g', post, rfl, hpre, he⟩ := ih h
      exact ⟨g :: pre, g', post, rfl, List.forall_mem_cons.2 ⟨hg, hpre⟩, he⟩
    · exact ⟨[], g, gs, rfl, by simp, undecided_of_kept h⟩

theorem included_ok : ∀ {gs : List Directive}, (∀ g ∈ gs, ∃ k, b.kept g = .ok k) →
    ∃ k, b.included gs = .ok k
  | [], _ => ⟨true, rfl⟩
  | g :: gs, h => by
    obtain ⟨⟨k, hg⟩, hgs⟩ := List.forall_mem_cons.1 h
    cases k with
    | true => simpa [included, hg] using included_ok hgs
    | false => exact ⟨false, by simp [included, hg]⟩

/-- If every condition can be told, their order does not matter. -/
theorem included_perm {gs hs : List Directive} (h : gs.Perm hs)
    (hk : ∀ g ∈ gs, ∃ k, b.kept g = .ok k) : b.included gs = b.included hs := by
  obtain ⟨k, hg⟩ := included_ok hk
  obtain ⟨l, hh⟩ := included_ok fun g hg => hk g (h.mem_iff.2 hg)
  have : gs.any b.excludes = hs.any b.excludes := h.any_eq
  rw [excludes_of_included hg, excludes_of_included hh, Bool.not_inj_iff] at this
  rw [hg, hh, this]

/-! ## Stations -/

/-- The root fields of the stations that no directive excludes. -/
def roots (b : Bindings) (ts : List Station) : List RootField :=
  ts.filterMap fun t => if t.guards.any b.excludes then none else t.field?

theorem roots_cons (t : Station) (ts : List Station) : b.roots (t :: ts) =
    (if t.guards.any b.excludes then [] else t.field?.toList) ++ b.roots ts := by
  unfold roots
  rw [List.filterMap_cons]
  by_cases h : t.guards.any b.excludes = true
  · simp only [h, ↓reduceIte, List.nil_append]
  · simp only [h]
    cases t.field? <;> rfl

theorem survey_ok : ∀ {ts : List Station} {fs : List RootField}, b.survey ts = .ok fs →
    (∀ t ∈ ts, ∃ k, b.included t.guards = .ok k) ∧ fs = b.roots ts
  | [], fs, h => by
    cases h
    exact ⟨by simp, rfl⟩
  | t :: ts, fs, h => by
    simp only [survey] at h
    split at h
    · cases h
    rename_i k hk
    split at h
    · cases h
    rename_i gs hs
    cases h
    obtain ⟨hts, rfl⟩ := survey_ok hs
    refine ⟨List.forall_mem_cons.2 ⟨⟨k, hk⟩, hts⟩, ?_⟩
    rw [roots_cons, excludes_of_included hk]
    cases k <;> rfl

theorem survey_error : ∀ {ts : List Station} {e : ExecutionError}, b.survey ts = .error e →
    ∃ before t after, ts = before ++ t :: after ∧
      (∀ u ∈ before, ∃ k, b.included u.guards = .ok k) ∧ b.included t.guards = .error e
  | [], _, h => by cases h
  | t :: ts, e, h => by
    simp only [survey] at h
    split at h
    · cases h
      exact ⟨[], t, ts, rfl, by simp, ‹_›⟩
    rename_i k hk
    split at h
    · cases h
      obtain ⟨before, u, after, rfl, hb, hu⟩ := survey_error ‹_›
      exact ⟨t :: before, u, after, rfl, List.forall_mem_cons.2 ⟨⟨k, hk⟩, hb⟩, hu⟩
    · cases h

end Bindings

end RecordGateway
