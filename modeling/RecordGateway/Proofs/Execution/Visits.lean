import Mathlib.Algebra.Group.Nat.Defs
import Mathlib.Data.List.Flatten
import Mathlib.Data.List.Nodup
import Mathlib.Data.List.Perm.Subperm
import RecordGateway.Proofs.Execution.Call

/-!
# How often fragments are visited

The walk enters a fragment at every spread that it comes to and keeps, also where it has been in the
fragment before. So the root fields that it collects are those of the operation itself and, for each
visit of a fragment, those of the fragment itself (`collectWithin_perm`), and the mask of a call
follows from them (`paths_by_visits`). If no fragment is visited twice, the mask is no longer than
the fields written under root fields.

A fragment that is spread twice puts its fields into the mask twice (`not_length_paths_le_written`),
and fragments that each spread the one before twice double them at each step
(`behindSpread_doubles`).
-/

namespace RecordGateway

open GraphQL

/-! ## What a fragment holds itself -/

section

variable (keep : List Directive → Bool) (rootField : Name)

mutual

/-- The root fields in a selection that are kept, without those behind spreads. -/
def ownRootsIn : Selection → List RootField
  | .field f body => if f.name = rootField ∧ keep f.directives = true then [⟨f, body⟩] else []
  | .inline _ _ ds body => if keep ds then ownRoots body else []
  | .spread .. => []

def ownRoots : List Selection → List RootField
  | [] => []
  | x :: xs => ownRootsIn x ++ ownRoots xs

end

mutual

/-- The spreads in a selection that are kept. -/
def enteredIn : Selection → List Name
  | .field .. => []
  | .inline _ _ ds body => if keep ds then entered body else []
  | .spread _ n ds => if keep ds then [n] else []

def entered : List Selection → List Name
  | [] => []
  | x :: xs => enteredIn x ++ entered xs

end

/-- The fragments that are visited from selections, each as often as it is, through fragments nested
up to `room` deep. -/
def visits (d : Document) : (room : Nat) → List Selection → List Fragment
  | 0, _ => []
  | room + 1, ss => (entered keep ss).flatMap fun n =>
    match d.fragment? n with
    | some f => f :: visits d room f.selections
    | none => []

end

/-- Whether none of some directives leaves out what they stand on. -/
def Bindings.keeps (b : Bindings) (ds : List Directive) : Bool := !ds.any b.excludes

variable {b : Bindings} {rootField : Name} {d : Document}

theorem Bindings.keeps_of_included {ds : List Directive} {k : Bool} (h : b.included ds = .ok k) :
    b.keeps ds = k := by
  rw [keeps, excludes_of_included h, Bool.not_not]

/-! ## Collecting by visits -/

/-- What is found behind a spread, nothing where that fails. -/
def found (enter : Name → Except ExecutionError (List RootField)) (n : Name) : List RootField :=
  match enter n with
  | .ok fs => fs
  | .error _ => []

-- By induction on the selection and the list: what `enter` finds stays a parameter, so the room for
-- fragments has no part in it.
mutual

theorem collectFrom_perm {enter : Name → Except ExecutionError (List RootField)} :
    ∀ {x : Selection} {fs : List RootField}, collectFrom b rootField enter x = .ok fs →
      (∀ n ∈ enteredIn b.keeps x, ∃ gs, enter n = .ok gs) ∧
        fs.Perm (ownRootsIn b.keeps rootField x ++ (enteredIn b.keeps x).flatMap (found enter))
  | .field f body, fs, h => by
    simp only [collectFrom] at h
    split at h
    · rename_i hn
      split at h
      · cases h
        simp [ownRootsIn, enteredIn, hn, Bindings.keeps_of_included ‹_›]
      · cases h
        simp [ownRootsIn, enteredIn, Bindings.keeps_of_included ‹_›]
      · cases h
    · rename_i hn
      cases h
      simp [ownRootsIn, enteredIn, hn]
  | .inline i c ds body, fs, h => by
    simp only [collectFrom] at h
    split at h
    · have hk := Bindings.keeps_of_included ‹_›
      simpa [ownRootsIn, enteredIn, hk] using collectAllFrom_perm h
    · cases h
      simp [ownRootsIn, enteredIn, Bindings.keeps_of_included ‹_›]
    · cases h
  | .spread i n ds, fs, h => by
    simp only [collectFrom] at h
    split at h
    · simp [ownRootsIn, enteredIn, Bindings.keeps_of_included ‹_›, found, h]
    · cases h
      simp [ownRootsIn, enteredIn, Bindings.keeps_of_included ‹_›]
    · cases h

theorem collectAllFrom_perm {enter : Name → Except ExecutionError (List RootField)} :
    ∀ {ss : List Selection} {fs : List RootField}, collectAllFrom b rootField enter ss = .ok fs →
      (∀ n ∈ entered b.keeps ss, ∃ gs, enter n = .ok gs) ∧
        fs.Perm (ownRoots b.keeps rootField ss ++ (entered b.keeps ss).flatMap (found enter))
  | [], fs, h => by
    cases h
    simp [entered, ownRoots]
  | x :: xs, fs, h => by
    simp only [collectAllFrom] at h
    split at h
    · cases h
    rename_i gs hx
    split at h
    · cases h
    rename_i hs hxs
    cases h
    obtain ⟨hfound, hperm⟩ := collectFrom_perm hx
    obtain ⟨hfounds, hperms⟩ := collectAllFrom_perm hxs
    refine ⟨?_, ?_⟩
    · rw [entered, List.forall_mem_append]
      exact ⟨hfound, hfounds⟩
    · rw [ownRoots, entered, List.flatMap_append]
      refine (hperm.append hperms).trans ?_
      simp only [List.append_assoc]
      exact (List.perm_append_comm_assoc _ _ _).append_left _

end

/-- The root fields that the walk finds are those of the selections themselves and, for each visit
of a fragment, those of the fragment itself. -/
theorem collectWithin_perm : ∀ {room : Nat} {ss : List Selection} {fs : List RootField},
    collectWithin b rootField d room ss = .ok fs →
      fs.Perm (ownRoots b.keeps rootField ss ++
        (visits b.keeps d room ss).flatMap fun f => ownRoots b.keeps rootField f.selections)
  | 0, ss, fs, h => by
    obtain ⟨-, hperm⟩ := collectAllFrom_perm (collectWithin_eq_from 0 ss ▸ h)
    have hnone : (entered b.keeps ss).flatMap (found (behindSpread b rootField d 0)) = [] :=
      List.flatMap_eq_nil_iff.2 fun _ _ => rfl
    rwa [hnone] at hperm
  | room + 1, ss, fs, h => by
    obtain ⟨hfound, hperm⟩ := collectAllFrom_perm (collectWithin_eq_from (room + 1) ss ▸ h)
    refine hperm.trans (List.Perm.append_left _ ?_)
    rw [visits, List.flatMap_assoc]
    refine List.Perm.flatMap_left _ fun n hn => ?_
    obtain ⟨gs, hgs⟩ := hfound n hn
    rw [found, hgs]
    rw [behindSpread] at hgs
    cases hf : d.fragment? n with
    | none =>
      rw [hf] at hgs
      cases hgs
      exact .nil
    | some f =>
      rw [hf] at hgs
      simpa using collectWithin_perm hgs

/-! ## Written fields -/

/-- The root fields that are written in an operation and in the fragments of its document, whatever
their directives. -/
def GraphQL.Document.written (d : Document) (rootField : Name) (o : Operation) : List RootField :=
  ownRoots (fun _ => true) rootField o.selections ++
    d.fragments.flatMap fun f => ownRoots (fun _ => true) rootField f.selections

/-- The names of the plain fields written directly under some root fields. -/
def plainNames (fs : List RootField) : List Name := fs.flatMap fun f => Selection.fieldNames f.body

section

variable {keep : List Directive → Bool}

mutual

theorem ownRootsIn_sublist : ∀ x : Selection,
    (ownRootsIn keep rootField x).Sublist (ownRootsIn (fun _ => true) rootField x)
  | .field f body => by
    by_cases hn : f.name = rootField
    · simp only [ownRootsIn, hn, true_and]
      split <;> simp
    · simp [ownRootsIn, hn]
  | .inline i c ds body => by
    simp only [ownRootsIn]
    split
    · exact ownRoots_sublist body
    · exact List.nil_sublist _
  | .spread i n ds => List.nil_sublist _

theorem ownRoots_sublist : ∀ ss : List Selection,
    (ownRoots keep rootField ss).Sublist (ownRoots (fun _ => true) rootField ss)
  | [] => List.nil_sublist _
  | x :: xs => (ownRootsIn_sublist x).append (ownRoots_sublist xs)

end

theorem visits_subset : ∀ (room : Nat) (ss : List Selection), visits keep d room ss ⊆ d.fragments
  | 0, _ => List.nil_subset _
  | room + 1, ss => by
    intro g hg
    obtain ⟨n, -, hg⟩ := List.mem_flatMap.1 hg
    cases hf : d.fragment? n with
    | none => simp [hf] at hg
    | some f =>
      rw [hf] at hg
      rcases List.mem_cons.1 hg with rfl | hg
      · exact List.mem_of_find?_eq_some hf
      · exact visits_subset room f.selections hg

/-- Where no fragment is visited twice, no root field is found more often than it is written. -/
theorem subperm_written (rootField : Name) {room : Nat} {o : Operation}
    (h : (visits keep d room o.selections).Nodup) :
    (ownRoots keep rootField o.selections ++ (visits keep d room o.selections).flatMap fun f =>
      ownRoots keep rootField f.selections).Subperm (d.written rootField o) := by
  obtain ⟨fs, hperm, hsub⟩ := List.subperm_of_subset h (visits_subset room o.selections)
  refine List.Subperm.append (ownRoots_sublist _).subperm ?_
  refine (hperm.symm.flatMap_right _).subperm.trans (List.Sublist.subperm ?_)
  refine (hsub.flatMap _).trans (List.Sublist.flatMap_right _ fun f _ => ?_)
  exact ownRoots_sublist f.selections

end

/-! ## Fragments that double -/

/-- The fragment `m` spreads the fragment `n` twice and holds nothing else. -/
def Doubles (d : Document) (n m : Name) : Prop :=
  ∃ f i j, d.fragment? m = some f ∧ f.selections = [.spread i n [], .spread j n []]

/-- Of `k` fragments that each spread the one before twice, the last holds what the first does
`2 ^ k` times. -/
theorem behindSpread_doubles {name : Nat → Name} {x : RootField} {k : Nat}
    (h : behindSpread b rootField d 1 (name 0) = .ok [x])
    (hs : ∀ i < k, Doubles d (name i) (name (i + 1))) :
    behindSpread b rootField d (k + 1) (name k) = .ok (List.replicate (2 ^ k) x) := by
  induction k with
  | zero => exact h
  | succ k ih =>
    have hk := ih fun i hi => hs i (Nat.lt_succ_of_lt hi)
    obtain ⟨f, i, j, hf, hsel⟩ := hs k (Nat.lt_succ_self k)
    rw [behindSpread, hf]
    simp only [hsel, collectWithin_eq_from, collectAllFrom, collectFrom, Bindings.included, hk]
    rw [List.append_nil, List.replicate_append_replicate, Nat.pow_succ, Nat.mul_two]

/-! ## Masks -/

theorem Bindings.survey_eq_roots {ts : List Station}
    (h : ∀ t ∈ ts, ∃ k, b.included t.guards = .ok k) : b.survey ts = .ok (b.roots ts) := by
  cases hs : b.survey ts with
  | ok fs => rw [(survey_ok hs).2]
  | error e =>
    obtain ⟨before, t, after, rfl, -, ht⟩ := survey_error hs
    obtain ⟨k, hk⟩ := h t (by simp)
    cases hk.symm.trans ht

/-- The root fields of a request are those that the walk collects. -/
theorem Request.Finds.collect_eq {r : Registry} {q : Request} {o : Operation}
    {ts : List Selection} {fs : List RootField} (h : q.Finds r d o ts fs) :
    collect (q.bindings o) r.root.field d o.selections = .ok fs := by
  obtain ⟨reached, hv⟩ := Operation.vetted_of_accepted (Document.accepted_of_read h.read)
    h.picks.mem
  obtain ⟨us, hus, hcollect⟩ := exists_collect_eq_survey hv
  obtain rfl := h.expands.det hus
  rw [hcollect, Bindings.survey_eq_roots h.told, h.roots]

/-- The mask of a call holds the plain fields under the root fields of the operation itself and, for
each visit of a fragment, those under the root fields of the fragment itself. If no fragment is
visited twice, each field that is written is in the mask at most once. -/
theorem paths_by_visits {reg : Registry} {source : DataSource} {q : Request} {o : Operation}
    (hd : Document.read reg.schema q.query = .ok d) (ho : d.choose q.operationName = .ok o)
    {call : Fetch} (hcall : call ∈ (reg.execute source q).calls) :
    let keep := (q.bindings o).keeps
    let visited := visits keep d d.fragments.length o.selections
    call.paths.Perm (plainNames (ownRoots keep reg.root.field o.selections ++
        visited.flatMap fun f => ownRoots keep reg.root.field f.selections)) ∧
      (visited.Nodup → call.paths.Subperm (plainNames (d.written reg.root.field o)) ∧
        call.paths.length ≤ (plainNames (d.written reg.root.field o)).length) := by
  intro keep visited
  obtain ⟨d', o', ts, f, fs, call', hf, -, hcall', hlist⟩ :=
    finds_of_calls (List.ne_nil_of_mem hcall)
  obtain rfl : call = call' := by simpa [hlist] using hcall
  obtain rfl : d' = d := Except.ok.inj (hf.read.symm.trans hd)
  obtain rfl : o' = o := Except.ok.inj (hf.chosen.symm.trans ho)
  have hperm : call.paths.Perm (plainNames (ownRoots keep reg.root.field o'.selections ++
      visited.flatMap fun f => ownRoots keep reg.root.field f.selections)) := by
    rw [hcall'.paths]
    exact (collectWithin_perm hf.collect_eq).flatMap_right _
  refine ⟨hperm, fun hn => ?_⟩
  obtain ⟨l, hl, hsub⟩ := subperm_written reg.root.field hn
  have hmask : call.paths.Subperm (plainNames (d'.written reg.root.field o')) :=
    (hperm.trans (hl.symm.flatMap_right _)).subperm.trans (hsub.flatMap _).subperm
  exact ⟨hmask, hmask.length_le⟩

/-- A fragment that is spread once, beside a root field. -/
def spreadOnce : Request where
  query := "\x7b ...F getData(id: \"1\") \x7b name \x7d \x7d " ++
    "fragment F on RootQuery \x7b getData(id: \"1\") \x7b id \x7d \x7d"

theorem paths_by_visits_spreadOnce : ∃ reg d o,
    Registry.ofDescriptors dataEntity getData = .ok reg ∧
      Document.read reg.schema spreadOnce.query = .ok d ∧ d.choose none = .ok o ∧
        (reg.execute widget spreadOnce).calls = [⟨"1", ["id", "name"]⟩] ∧
          (["id", "name"] : List Name).Subperm (plainNames (d.written reg.root.field o)) := by
  obtain ⟨reg, hreg, hc⟩ := Registry.exists_compiled_builtin
  obtain ⟨d, o, hd, ho, hn⟩ := hc.exists_chosen spreadOnce (fun d o =>
    decide ((visits (spreadOnce.bindings o).keeps d d.fragments.length o.selections).map
      Fragment.name).Nodup) (by decide +kernel)
  have hcalls : (reg.execute widget spreadOnce).calls = [⟨"1", ["id", "name"]⟩] := by
    rw [execute_eq hc]
    decide +kernel
  have hcall : ⟨"1", ["id", "name"]⟩ ∈ (reg.execute widget spreadOnce).calls := by
    rw [hcalls]
    exact List.mem_singleton_self _
  exact ⟨reg, d, o, hreg, hd, ho, hcalls,
    ((paths_by_visits hd ho hcall).2 (.of_map _ (of_decide_eq_true hn))).1⟩

/-- A fragment that is spread twice. -/
def spreadTwice : Request where
  query := "\x7b ...F ...F \x7d fragment F on RootQuery \x7b getData(id: \"1\") \x7b id \x7d \x7d"

/-- It is not so that a mask is never longer than the fields written under root fields. -/
theorem not_length_paths_le_written : ¬ ∀ (reg : Registry) (source : DataSource) (q : Request)
    (d : Document) (o : Operation), Registry.ofDescriptors dataEntity getData = .ok reg →
      Document.read reg.schema q.query = .ok d → d.choose q.operationName = .ok o →
        ∀ call ∈ (reg.execute source q).calls,
          call.paths.length ≤ (plainNames (d.written reg.root.field o)).length := by
  intro h
  obtain ⟨reg, hreg, hc⟩ := Registry.exists_compiled_builtin
  obtain ⟨d, o, hd, ho, hw⟩ := hc.exists_chosen spreadTwice
    (fun d o => plainNames (d.written "getData" o) == ["id"]) (by decide +kernel)
  have hcall : ⟨"1", ["id", "id"]⟩ ∈ (reg.execute widget spreadTwice).calls := by
    rw [execute_eq hc]
    decide +kernel
  have hle := h reg widget spreadTwice d o hreg hd ho _ hcall
  have hroot : reg.root.field = "getData" := by rw [hc.root]; rfl
  rw [hroot, beq_iff_eq.1 hw] at hle
  exact absurd hle (by decide)

end RecordGateway
