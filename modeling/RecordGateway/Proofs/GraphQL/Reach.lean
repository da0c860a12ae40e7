import Mathlib.Data.List.Chain
import RecordGateway.GraphQL.Validation

/-!
# What spreads lead to

* `reach_spec`: with enough room, `reach` holds the names that it starts from and, with a name, all
  that the name leads to. The room counts the names that lead anywhere at all.
* `not_leads_self`: a fragment with a clear `Trail` is not reached from its own spreads. The trail
  follows ways that never come twice to one name; of a way that does, a part can be cut out.
-/

namespace RecordGateway.GraphQL

/-! ## Reach -/

/-- How many of the names in `all` have not been seen. -/
def unseen (all seen : List Name) : Nat := (all.filter (!seen.contains ·)).length

theorem unseen_mono {all seen seen' : List Name} (h : seen ⊆ seen') :
    unseen all seen' ≤ unseen all seen := by
  refine (List.monotone_filter_right all fun n hn => ?_).length_le
  simp only [Bool.not_eq_true', List.contains_eq_mem, decide_eq_false_iff_not] at hn ⊢
  exact fun hm => hn (h hm)

theorem unseen_concat_lt {all seen : List Name} {n : Name} (hn : n ∈ all) (hs : n ∉ seen) :
    unseen all (seen ++ [n]) < unseen all seen := by
  induction all with
  | nil => cases hn
  | cons m all ih =>
    have hle : unseen all (seen ++ [n]) ≤ unseen all seen :=
      unseen_mono (List.subset_append_left seen [n])
    unfold unseen at hle ih ⊢
    by_cases hm : m = n
    · subst hm
      simp only [List.contains_eq_mem, List.mem_append, List.mem_singleton] at hle
      simpa [List.filter_cons, hs] using Nat.lt_succ_of_le hle
    · have ih := ih (by simpa [Ne.symm hm] using hn)
      simp only [List.filter_cons, List.contains_eq_mem, List.mem_append, List.mem_singleton, hm,
        or_false] at ih ⊢
      split <;> simpa using ih

/-- `seen` has grown to `r`: what is new in `r` leads to nothing outside of it. -/
structure Grown (next : Name → List Name) (seen r : List Name) : Prop where
  subset : seen ⊆ r
  closed : ∀ m ∈ r, m ∉ seen → next m ⊆ r

theorem Grown.refl {next : Name → List Name} (seen : List Name) : Grown next seen seen :=
  ⟨fun _ h => h, fun _ h h' => absurd h h'⟩

theorem Grown.trans {next : Name → List Name} {a b c : List Name} (h : Grown next a b)
    (h' : Grown next b c) : Grown next a c := by
  refine ⟨fun _ hm => h'.subset (h.subset hm), fun m hm ha => ?_⟩
  by_cases hb : m ∈ b
  · exact fun _ hx => h'.subset (h.closed m hb ha hx)
  · exact h'.closed m hm hb

section
variable {next : Name → List Name} {all : List Name}

theorem foldl_visit_grown {room : Nat}
    (hv : ∀ seen n, unseen all seen < room →
      Grown next seen (visit next room seen n) ∧ n ∈ visit next room seen n) :
    ∀ (ns seen : List Name), unseen all seen < room →
      Grown next seen (ns.foldl (visit next room) seen) ∧ ns ⊆ ns.foldl (visit next room) seen
  | [], seen, _ => ⟨Grown.refl seen, List.nil_subset _⟩
  | n :: ns, seen, h => by
    obtain ⟨hg, hn⟩ := hv seen n h
    obtain ⟨hg', hns⟩ := foldl_visit_grown hv ns (visit next room seen n)
      (Nat.lt_of_le_of_lt (unseen_mono hg.subset) h)
    rw [List.foldl_cons]
    exact ⟨hg.trans hg', List.cons_subset.2 ⟨hg'.subset hn, hns⟩⟩

variable (hall : ∀ n, n ∉ all → next n = [])
include hall

theorem visit_grown : ∀ (room : Nat) (seen : List Name) (n : Name), unseen all seen < room →
    Grown next seen (visit next room seen n) ∧ n ∈ visit next room seen n
  | 0, _, _, h => absurd h (Nat.not_lt_zero _)
  | room + 1, seen, n, h => by
    unfold visit
    by_cases hn : n ∈ seen
    · simpa [hn] using Grown.refl seen
    simp only [List.contains_eq_mem, hn, decide_false, Bool.false_eq_true, ↓reduceIte]
    -- a name that leads nowhere costs no room
    have key : Grown next (seen ++ [n]) ((next n).foldl (visit next room) (seen ++ [n])) ∧
        next n ⊆ (next n).foldl (visit next room) (seen ++ [n]) := by
      by_cases hm : n ∈ all
      · have := unseen_concat_lt hm hn
        exact foldl_visit_grown (visit_grown room) _ _ (by omega)
      · rw [hall n hm]
        exact ⟨Grown.refl _, List.nil_subset _⟩
    obtain ⟨hg, hs⟩ := key
    refine ⟨⟨fun _ hx => hg.subset (List.mem_append_left _ hx), fun m hm hms => ?_⟩,
      hg.subset (by simp)⟩
    by_cases hmn : m = n
    · rwa [hmn]
    · exact hg.closed m hm (by simp [hms, hmn])

/-- `reach` holds what it starts from, and all that its names lead to. -/
theorem reach_spec {room : Nat} (hr : all.length < room) (start : List Name) :
    start ⊆ reach next room start ∧
      ∀ m ∈ reach next room start, next m ⊆ reach next room start := by
  have h0 : unseen all [] < room := Nat.lt_of_le_of_lt (List.length_filter_le _ _) hr
  obtain ⟨hg, hs⟩ := foldl_visit_grown (visit_grown hall room) start [] h0
  exact ⟨hs, fun m hm => hg.closed m hm List.not_mem_nil⟩

end

/-! ## Ways back -/

/-- There is a way of spreads, of one at least, from the fragment `n` to `m`. -/
def Document.Leads (d : Document) : Name → Name → Prop :=
  Relation.TransGen fun n m => m ∈ d.spreadsOf n

namespace Trail

theorem first_eq_clear {search : Name → Trail} {ns : List Name} :
    first search ns = clear ↔ ∀ n ∈ ns, search n = clear := by
  induction ns with
  | nil => simp [first]
  | cons n ns ih =>
    cases h : search n <;> simp [first, h, ih]

theorem through_eq_clear {n : Name} {t : Trail} : t.through n = clear ↔ t = clear := by
  cases t <;> simp [through]

/-- `follow` does not miss a way back to `root`, given as the names it comes to after `n`, that
keeps off the path so far. -/
theorem follow_ne_clear {d : Document} {root : Name} (k : Nat) :
    ∀ (l : List Name) (n : Name) (path : List Name) (room : Nat), l.length = k →
      List.IsChain (fun n m => m ∈ d.spreadsOf n) (n :: l) →
      (n :: l).getLast (List.cons_ne_nil _ _) = root →
      (∀ x ∈ n :: l, x ≠ root → x ∉ path) → follow d root room path n ≠ clear := by
  induction k using Nat.strongRecOn with
  | ind k ih =>
    intro l n path room hk hc hlast hpath hclear
    by_cases hroot : n = root
    · unfold follow at hclear
      simp [hroot] at hclear
    by_cases hn : n ∈ l
    · -- the way comes back to `n`: leave out what lies between
      obtain ⟨l₁, l₂, rfl⟩ := List.append_of_mem hn
      refine ih l₂.length (by simp at hk; omega) l₂ n path room rfl ?_ ?_ ?_ hclear
      · exact (List.isChain_cons_split.1 hc).2
      · simpa using hlast
      · exact fun x hx => hpath x (by simp at hx ⊢; tauto)
    cases l with
    | nil => exact hroot (by simpa using hlast)
    | cons m l =>
      obtain ⟨hm, hc'⟩ := List.isChain_cons_cons.1 hc
      have hnp : n ∉ path := hpath n List.mem_cons_self hroot
      unfold follow at hclear
      simp only [hroot, ↓reduceIte, List.contains_eq_mem, hnp, decide_false,
        Bool.false_eq_true] at hclear
      simp only [Document.spreadsOf] at hm
      cases hf : d.fragment? n with
      | none => simp [hf] at hm
      | some f =>
        simp only [hf] at hclear hm
        cases room with
        | zero => cases hclear
        | succ room =>
          simp only [through_eq_clear, first_eq_clear] at hclear
          refine ih l.length (by simp at hk; omega) l m (n :: path) room rfl hc'
            (by simpa using hlast) (fun x hx hxr => ?_) (hclear m hm)
          simp only [List.mem_cons, not_or]
          exact ⟨fun he => hn (he ▸ hx), hpath x (List.mem_cons_of_mem _ hx) hxr⟩

/-- A fragment with a clear trail is not reached from its own spreads. -/
theorem not_leads_self {d : Document} {f : Fragment} (hf : d.fragment? f.name = some f)
    (h : Trail.of d f = clear) : ¬ d.Leads f.name f.name := by
  intro hl
  obtain ⟨m, hm, hw⟩ := Relation.TransGen.head'_iff.1 hl
  obtain ⟨l, hc, hlast⟩ := List.exists_isChain_cons_of_relationReflTransGen hw
  simp only [Document.spreadsOf, hf] at hm
  exact follow_ne_clear l.length l m [f.name] (limit - 1) rfl hc hlast
    (fun x _ hx => by simpa using hx) (first_eq_clear.1 h m hm)

end Trail

end RecordGateway.GraphQL
