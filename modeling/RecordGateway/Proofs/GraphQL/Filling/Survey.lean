import Mathlib.Data.Nat.Find
import RecordGateway.Proofs.GraphQL.Filling.Basic
import RecordGateway.Proofs.GraphQL.Merging

/-!
# Surveys of sets that say the same

A survey of filled sets may meet a set that is written like a known one where the survey of the
original sets does not, and then leaves out what the other one goes on to look at. It loses nothing
by that: all below the known set has been looked at, unless the set is just being looked at, and
that one lies above and not below itself. So the survey of the filled sets lies within the original
one (`Mirrors.explore_follows`): it shows only what that one shows, all of it, and no deeper.
-/

namespace RecordGateway.GraphQL.Merging

/-! ## Depth -/

section
variable {children : List Occurrence → List (List Occurrence)}

theorem tooDeep_foldl_explore {room : Nat}
    (h : ∀ v x, (Survey.explore children room v x).tooDeep = false → v.tooDeep = false) :
    ∀ {xs : List (List Occurrence)} {v : Survey},
      (xs.foldl (Survey.explore children room) v).tooDeep = false → v.tooDeep = false
  | [], _, hdeep => hdeep
  | _ :: _, _, hdeep => h _ _ (tooDeep_foldl_explore h hdeep)

/-- What lay too deep stays so. -/
theorem tooDeep_explore : ∀ (room : Nat) (v : Survey) (x : List Occurrence),
    (Survey.explore children room v x).tooDeep = false → v.tooDeep = false
  | 0, _, _, hdeep => by cases hdeep
  | room + 1, v, x, hdeep => by
    unfold Survey.explore at hdeep
    split at hdeep
    · exact hdeep
    · have := tooDeep_foldl_explore (tooDeep_explore room) hdeep
      exact this

end

/-! ## Mirrors -/

/-- `R` relates sets with sets that say the same, and so their children `c` and `c'`. It does not
tell sets apart that are written alike, and the sets related to one set are written alike. Sets of
the second kind have depths, which children and sets that are written alike keep to. -/
structure Mirrors (R : List Occurrence → List Occurrence → Prop)
    (c c' : List Occurrence → List (List Occurrence)) (depth : Nat → List Occurrence → Prop) :
    Prop where
  children : ∀ {x x'}, R x x' → List.Forall₂ R (c x) (c' x')
  left : ∀ {x y x'}, R x x' → sameSet y x = true → R y x'
  right : ∀ {x x' y'}, R x x' → sameSet x' y' = true → R x y'
  same : ∀ {x x' y'}, R x x' → R x y' → sameSet x' y' = true
  depth_succ : ∀ {n x'}, depth n x' → depth (n + 1) x'
  depth_same : ∀ {n x' y'}, depth n x' → sameSet x' y' = true → depth n y'
  depth_child : ∀ {n x'}, depth n x' → ∀ y' ∈ c' x', ∃ m < n, depth m y'

/-- Every set of the first kind is related to one of the second kind. -/
def Covered (R : List Occurrence → List Occurrence → Prop)
    (xs xs' : List (List Occurrence)) : Prop :=
  ∀ x ∈ xs, ∃ x' ∈ xs', R x x'

/-- The children of a set are written like known ones. -/
def ChildrenKnown (c' : List Occurrence → List (List Occurrence)) (known : List (List Occurrence))
    (x' : List Occurrence) : Prop :=
  ∀ y' ∈ c' x', ∃ z ∈ known, sameSet y' z = true

theorem ChildrenKnown.mono {c' : List Occurrence → List (List Occurrence)}
    {known known' : List (List Occurrence)} {x' : List Occurrence}
    (h : ChildrenKnown c' known x') (hsub : known ⊆ known') : ChildrenKnown c' known' x' := by
  intro y' hy'
  obtain ⟨z, hz, hsame⟩ := h y' hy'
  exact ⟨z, hsub hz, hsame⟩

/-- The survey `v'` shows what `v` shows, and nothing else. -/
structure Follows (R : List Occurrence → List Occurrence → Prop) (v v' : Survey) : Prop where
  covered : Covered R v.sets v'.sets
  shown : ∀ x' ∈ v'.sets, ∃ x ∈ v.sets, R x x'
  notDeep : v'.tooDeep = false

theorem Follows.concat {R : List Occurrence → List Occurrence → Prop} {v v' : Survey}
    (h : Follows R v v') {x x' : List Occurrence} (hx : R x x') :
    Follows R { v with sets := v.sets ++ [x] } { v' with sets := v'.sets ++ [x'] } := by
  refine ⟨fun y hy => ?_, fun y' hy' => ?_, h.notDeep⟩
  · rcases List.mem_append.1 hy with hy | hy
    · obtain ⟨y', hy', hyy'⟩ := h.covered y hy
      exact ⟨y', List.mem_append_left _ hy', hyy'⟩
    · exact ⟨x', by simp, by rwa [List.mem_singleton.1 hy]⟩
  · rcases List.mem_append.1 hy' with hy' | hy'
    · obtain ⟨y, hy, hyy'⟩ := h.shown y' hy'
      exact ⟨y, List.mem_append_left _ hy, hyy'⟩
    · exact ⟨x, by simp, by rwa [List.mem_singleton.1 hy']⟩

/-- A survey has grown, and of what is new in it the children are known. -/
structure Extends (c' : List Occurrence → List (List Occurrence)) (v w : Survey) : Prop where
  subset : v.sets ⊆ w.sets
  known : ∀ x' ∈ w.sets, x' ∉ v.sets → ChildrenKnown c' w.sets x'

theorem Extends.refl {c' : List Occurrence → List (List Occurrence)} (v : Survey) :
    Extends c' v v :=
  ⟨fun _ h => h, fun _ h h' => absurd h h'⟩

theorem Extends.trans {c' : List Occurrence → List (List Occurrence)} {u v w : Survey}
    (h : Extends c' u v) (h' : Extends c' v w) : Extends c' u w := by
  refine ⟨fun _ hx => h'.subset (h.subset hx), fun x' hx' hu => ?_⟩
  by_cases hv : x' ∈ v.sets
  · exact (h.known x' hv hu).mono h'.subset
  · exact h'.known x' hx' hv

namespace Mirrors

variable {R : List Occurrence → List Occurrence → Prop}
  {c c' : List Occurrence → List (List Occurrence)} {depth : Nat → List Occurrence → Prop}
  (M : Mirrors R c c' depth)
include M

theorem depth_mono {n m : Nat} {x' : List Occurrence} (h : depth n x') (hnm : n ≤ m) :
    depth m x' := by
  induction hnm with
  | refl => exact h
  | step _ ih => exact M.depth_succ ih

/-- Of the known sets of depth `n` the children are known. -/
def KnownTo (_ : Mirrors R c c' depth) (n : Nat) (known : List (List Occurrence)) : Prop :=
  ∀ x' ∈ known, depth n x' → ChildrenKnown c' known x'

omit M in
theorem KnownTo.mono {M : Mirrors R c c' depth} {n m : Nat} {known : List (List Occurrence)}
    (h : M.KnownTo n known) (hmn : m ≤ n) : M.KnownTo m known :=
  fun x' hx' hd => h x' hx' (M.depth_mono hd hmn)

/-- A set is related to a known one, and of the known sets that are not deeper the children are
known. -/
def Settled (M : Mirrors R c c' depth) (known : List (List Occurrence)) (x : List Occurrence) :
    Prop :=
  ∃ z ∈ known, R x z ∧ ∃ n, depth n z ∧ M.KnownTo n known

theorem settled_children {known : List (List Occurrence)} {x : List Occurrence}
    (h : M.Settled known x) : ∀ y ∈ c x, M.Settled known y := by
  intro y hy
  obtain ⟨z, hz, hxz, n, hd, hknown⟩ := h
  obtain ⟨y', hy', hyy'⟩ := exists_mem_of_forall₂ (M.children hxz) hy
  obtain ⟨w, hw, hsame⟩ := hknown z hz hd y' hy'
  obtain ⟨m, hm, hdm⟩ := M.depth_child hd y' hy'
  exact ⟨w, hw, M.right hyy' hsame, m, M.depth_same hdm hsame, hknown.mono (Nat.le_of_lt hm)⟩

/-- Exploring a set that is settled shows nothing that is not covered. -/
theorem covered_explore {known : List (List Occurrence)} : ∀ (room : Nat) {v : Survey}
    {x : List Occurrence}, Covered R v.sets known → M.Settled known x →
      Covered R (Survey.explore c room v x).sets known
  | 0, _, _, hv, _ => hv
  | room + 1, v, x, hv, hx => by
    unfold Survey.explore
    split
    · exact hv
    refine List.foldlRecOn (motive := fun u : Survey => Covered R u.sets known) (c x) _
      (fun y hy => ?_) fun u hu y hy => covered_explore room hu (M.settled_children hx y hy)
    rcases List.mem_append.1 hy with hy | hy
    · exact hv y hy
    · obtain ⟨z, hz, hxz, -⟩ := hx
      rw [List.mem_singleton.1 hy]
      exact ⟨z, hz, hxz⟩

/-- Exploring one set after the other. -/
theorem foldl_explore_follows {room : Nat}
    (hstep : ∀ {v v' : Survey} {x x' : List Occurrence} {n : Nat}, Follows R v v' → R x x' →
      depth n x' → M.KnownTo n v'.sets → (Survey.explore c room v x).tooDeep = false →
      Follows R (Survey.explore c room v x) (Survey.explore c' room v' x') ∧
        Extends c' v' (Survey.explore c' room v' x') ∧
        ∃ z ∈ (Survey.explore c' room v' x').sets, sameSet x' z = true)
    {n : Nat} {xs xs' : List (List Occurrence)} (hxs : List.Forall₂ R xs xs') :
    ∀ {v v' : Survey}, Follows R v v' → (∀ x' ∈ xs', ∃ m < n, depth m x') →
      (∀ m < n, M.KnownTo m v'.sets) → (xs.foldl (Survey.explore c room) v).tooDeep = false →
      Follows R (xs.foldl (Survey.explore c room) v) (xs'.foldl (Survey.explore c' room) v') ∧
        Extends c' v' (xs'.foldl (Survey.explore c' room) v') ∧
        ∀ x' ∈ xs', ∃ z ∈ (xs'.foldl (Survey.explore c' room) v').sets, sameSet x' z = true := by
  induction hxs with
  | nil =>
    intro v v' hv _ _ _
    exact ⟨hv, .refl v', fun _ h => nomatch h⟩
  | @cons x x' xs xs' hx _ ih =>
    intro v v' hv hdepth hknown hdeep
    obtain ⟨⟨m, hm, hd⟩, hdepth⟩ := List.forall_mem_cons.1 hdepth
    rw [List.foldl_cons] at hdeep
    have hdeep' := tooDeep_foldl_explore (tooDeep_explore room) hdeep
    obtain ⟨hfollows, hext, z, hz, hsame⟩ := hstep hv hx hd (hknown m hm) hdeep'
    -- what is new is known to the end, what is old was
    have hknown' : ∀ m < n, M.KnownTo m (Survey.explore c' room v' x').sets := by
      intro m hm y hy hdy
      by_cases hold : y ∈ v'.sets
      · exact (hknown m hm y hold hdy).mono hext.subset
      · exact hext.known y hy hold
    obtain ⟨hfollows', hext', hall⟩ := ih hfollows hdepth hknown' hdeep
    exact ⟨hfollows', hext.trans hext',
      List.forall_mem_cons.2 ⟨⟨z, hext'.subset hz, hsame⟩, hall⟩⟩

/-- Exploring related sets, one where the sets that are not deeper are settled: the second survey
follows the first, what is new in it is settled, and the set is known. -/
theorem explore_follows : ∀ (room : Nat) {v v' : Survey} {x x' : List Occurrence} {n : Nat},
    Follows R v v' → R x x' → depth n x' → M.KnownTo n v'.sets →
      (Survey.explore c room v x).tooDeep = false →
      Follows R (Survey.explore c room v x) (Survey.explore c' room v' x') ∧
        Extends c' v' (Survey.explore c' room v' x') ∧
        ∃ z ∈ (Survey.explore c' room v' x').sets, sameSet x' z = true
  | 0, _, _, _, _, _, _, _, _, _, hdeep => by cases hdeep
  | room + 1, v, v', x, x', n, hv, hx, hd, hknown, hdeep => by
    by_cases hnew : v'.sets.any (sameSet x') = true
    · -- the filled set is known, and so is all below it
      obtain ⟨z, hz, hsame⟩ := List.any_eq_true.1 hnew
      have hsettled : M.Settled v'.sets x :=
        ⟨z, hz, M.right hx hsame, n, M.depth_same hd hsame, hknown⟩
      have hsecond : Survey.explore c' (room + 1) v' x' = v' := by
        simp only [Survey.explore, hnew, if_true]
      rw [hsecond]
      refine ⟨⟨M.covered_explore _ hv.covered hsettled, fun y' hy' => ?_, hv.notDeep⟩, .refl v',
        z, hz, hsame⟩
      obtain ⟨y, hy, hyy'⟩ := hv.shown y' hy'
      exact ⟨y, (explore_grows (room + 1) v x).subset hy, hyy'⟩
    · -- the filled set is new, and so is the original one
      have hfirst : ¬ v.sets.any (sameSet x) = true := by
        intro hknown
        obtain ⟨y, hy, hsame⟩ := List.any_eq_true.1 hknown
        obtain ⟨y', hy', hyy'⟩ := hv.covered y hy
        exact hnew (List.any_eq_true.2 ⟨y', hy', M.same hx (M.left hyy' hsame)⟩)
      simp only [Survey.explore, hfirst, hnew, if_false, Bool.false_eq_true] at hdeep ⊢
      classical
      have hex : ∃ n, depth n x' := ⟨n, hd⟩
      have hle : Nat.find hex ≤ n := Nat.find_min' hex hd
      have hfollows : Follows R { v with sets := v.sets ++ [x] }
          { v' with sets := v'.sets ++ [x'] } := hv.concat hx
      -- the set that is being looked at is not among the ones that are less deep
      have hknown' : ∀ m < Nat.find hex, M.KnownTo m (v'.sets ++ [x']) := by
        intro m hm y hy hdy
        rcases List.mem_append.1 hy with hy | hy
        · exact (hknown y hy (M.depth_mono hdy (Nat.le_of_lt (hm.trans_le hle)))).mono
            (List.subset_append_left ..)
        · rw [List.mem_singleton.1 hy] at hdy
          exact absurd hdy (Nat.find_min hex hm)
      obtain ⟨hfollows', hext, hall⟩ := M.foldl_explore_follows (explore_follows room)
        (M.children hx) hfollows (M.depth_child (Nat.find_spec hex)) hknown' hdeep
      have hmem := hext.subset (List.mem_append_right v'.sets (List.mem_singleton_self x'))
      refine ⟨hfollows', ⟨fun y hy => hext.subset (List.mem_append_left _ hy), ?_⟩, x', hmem,
        M.same hx hx⟩
      intro y hy hold
      by_cases hyx : y = x'
      · exact hyx ▸ hall
      · exact hext.known y hy (by simp [hold, hyx])

/-- The sets that a set of the second kind adds to an empty survey are related to those that its
original adds, and none of them lies too deep. -/
theorem newSets_follows {x x' : List Occurrence} {n : Nat} (hx : R x x') (hd : depth n x')
    (hdeep : (newSets c [] x).2 = false) : (newSets c' [] x').2 = false ∧
      ∀ y' ∈ (newSets c' [] x').1, ∃ y ∈ (newSets c [] x).1, R y y' := by
  have hempty : Follows R ⟨[], false⟩ ⟨[], false⟩ :=
    ⟨fun _ h => absurd h List.not_mem_nil, fun _ h => absurd h List.not_mem_nil, rfl⟩
  obtain ⟨hfollows, -⟩ := M.explore_follows (depthLimit + 1) hempty hx hd
    (fun _ h => absurd h List.not_mem_nil) hdeep
  exact ⟨hfollows.notDeep, hfollows.shown⟩

end Mirrors

end RecordGateway.GraphQL.Merging
