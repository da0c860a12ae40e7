import RecordGateway.Proofs.Json.Meaning
import RecordGateway.Proofs.Json.Reading

/-!
# Reading values back

A value whose members stand in the order of their names and whose numbers are integers of 64 bits
(`Json.isCanonical`) is what its text means (`exists_means`). So it is read back from its text, as
long as it nests no deeper than reading allows (`parseBytes_encode`, `parse_render`).
-/

namespace RecordGateway.Json

open Utf8 (encode)
open JsonSyntax

/-! ## Values without doubles -/

mutual

/-- How many levels of arrays and objects nest in a value. -/
def levels : Json → Nat
  | .array vs => itemLevels vs + 1
  | .object ms => memberLevels ms + 1
  | _ => 0

def itemLevels : List Json → Nat
  | [] => 0
  | v :: vs => max (levels v) (itemLevels vs)

def memberLevels : List (String × Json) → Nat
  | [] => 0
  | (_, v) :: ms => max (levels v) (memberLevels ms)

end

/-- Whether members stand in the order of their names, and no name twice. -/
def isSorted (ms : List (String × Json)) : Bool := decide ((ms.map Prod.fst).Pairwise (· < ·))

mutual

/-- Whether all members of objects are sorted, and all numbers are integers of 64 bits. -/
def isCanonical : Json → Bool
  | .number (.int n) => Number.fits n
  | .number (.double _) => false
  | .array vs => itemsCanonical vs
  | .object ms => isSorted ms && membersCanonical ms
  | _ => true

def itemsCanonical : List Json → Bool
  | [] => true
  | v :: vs => isCanonical v && itemsCanonical vs

def membersCanonical : List (String × Json) → Bool
  | [] => true
  | (_, v) :: ms => isCanonical v && membersCanonical ms

end

/-! ## Strings -/

theorem Spells.charParts {ps : List StringPart} {cs : List Char} (h : Spells ps cs) (c : Char) :
    Spells (JsonSyntax.charParts c ++ ps) (c :: cs) := by
  unfold JsonSyntax.charParts
  split
  · exact .unit c h
  · exact .char c h

theorem spells_parts (s : String) : Spells (parts s) s.toList := by
  rw [parts]
  induction s.toList with
  | nil => exact .nil
  | cons c cs ih => exact ih.charParts c

/-- The parts of a string are read back as it. -/
theorem text?_parts (s : String) : text? (parts s) = some s := (spells_parts s).text?

/-! ## Integers -/

/-- One more digit, in base ten. -/
theorem le_foldl_digits (ds : List Nat) (n : Nat) :
    n ≤ ds.foldl (fun n d => 10 * n + d) n := by
  induction ds generalizing n with
  | nil => exact Nat.le_refl n
  | cons d ds ih => exact Nat.le_trans (by omega) (ih (10 * n + d))

theorem gather_of_lt {ds : List Nat} {n : Nat}
    (h : ds.foldl (fun n d => 10 * n + d) n < UInt64.size) :
    gather n ds = (ds.foldl (fun n d => 10 * n + d) n, 0) := by
  induction ds generalizing n with
  | nil => rfl
  | cons d ds ih =>
    have hd : 10 * n + d < UInt64.size := Nat.lt_of_le_of_lt (le_foldl_digits ds _) h
    rw [gather, if_pos hd, ih h]
    rfl

theorem foldl_digitsOf (n : Nat) : (digitsOf n).foldl (fun n d => 10 * n + d) 0 = n := by
  rw [digitsOf, List.foldl_map]
  exact Nat.ofDigitChars_toDigits (by decide) (by decide)

/-- An integer of 64 bits is read back from its digits. -/
theorem ofText?_integerText {n : Int} (h : Number.fits n = true) :
    Number.ofText? (integerText n) = some (.int n) := by
  have hbounds : -9223372036854775808 ≤ n ∧ n < 18446744073709551616 := by
    simpa [Number.fits] using h
  have hlt : n.natAbs < UInt64.size := by
    show n.natAbs < 18446744073709551616
    omega
  have hgather : gather 0 (digitsOf n.natAbs) = (n.natAbs, 0) := by
    have := @gather_of_lt (digitsOf n.natAbs) 0
    rw [foldl_digitsOf] at this
    exact this hlt
  simp only [Number.ofText?, integerText, hgather]
  by_cases hn : n < 0
  · have habs : -(n.natAbs : Int) = n := by omega
    have hpos : 0 < n.natAbs := by omega
    rw [if_neg (by simp [hn]), if_pos ⟨trivial, hpos, by rwa [habs]⟩, habs]
  · have habs : (n.natAbs : Int) = n := by omega
    rw [if_pos (by simp [hn]), habs]

/-! ## Objects -/

theorem isSorted_cons (m : String × Json) (o : Object) :
    isSorted (m :: o) = true ↔ (∀ k ∈ o.map Prod.fst, m.1 < k) ∧ isSorted o = true := by
  simp only [isSorted, List.map_cons, List.pairwise_cons, decide_eq_true_eq]

theorem membersCanonical_iff (ms : List (String × Json)) :
    membersCanonical ms = true ↔ ∀ m ∈ ms, m.2.isCanonical = true := by
  induction ms with
  | nil => simp [membersCanonical]
  | cons m ms ih => simp [membersCanonical, ih]

theorem memberLevels_le_iff (ms : List (String × Json)) (n : Nat) :
    memberLevels ms ≤ n ↔ ∀ m ∈ ms, m.2.levels ≤ n := by
  induction ms with
  | nil => simp [memberLevels]
  | cons m ms ih => rw [memberLevels, Nat.max_le, ih, List.forall_mem_cons]

theorem mem_insert {o : Object} {name : String} {v : Json} {m : String × Json}
    (h : m ∈ o.insert name v) : m = (name, v) ∨ m ∈ o := by
  induction o with
  | nil => simpa [Object.insert] using h
  | cons m' o ih =>
    unfold Object.insert at h
    split at h
    · grind
    split at h <;> grind

/-- A member put where it belongs leaves the members sorted. -/
theorem isSorted_insert {o : Object} (h : isSorted o = true) (name : String) (v : Json) :
    isSorted (o.insert name v) = true := by
  induction o with
  | nil => simp [Object.insert, isSorted]
  | cons m o ih =>
    obtain ⟨k, w⟩ := m
    obtain ⟨hk, ho⟩ := (isSorted_cons (k, w) o).1 h
    unfold Object.insert
    split
    · rename_i heq
      exact (isSorted_cons _ _).2 ⟨heq ▸ hk, ho⟩
    split
    · rename_i hlt
      refine (isSorted_cons _ _).2 ⟨?_, h⟩
      simp only [List.map_cons, List.forall_mem_cons]
      exact ⟨hlt, fun l hl => String.lt_trans hlt (hk l hl)⟩
    · rename_i hne hnlt
      refine (isSorted_cons _ _).2 ⟨fun l hl => ?_, ih ho⟩
      obtain ⟨m, hm, rfl⟩ := List.mem_map.1 hl
      rcases mem_insert hm with rfl | hm
      · exact Std.lt_of_le_of_ne (String.not_lt.1 hnlt) (Ne.symm hne)
      · exact hk _ (List.mem_map_of_mem hm)

theorem isCanonical_insert {o : Object} (h : (object o).isCanonical = true) (name : String)
    {v : Json} (hv : v.isCanonical = true) : (object (o.insert name v)).isCanonical = true := by
  simp only [isCanonical, Bool.and_eq_true, membersCanonical_iff] at h ⊢
  refine ⟨isSorted_insert h.1 name v, fun m hm => ?_⟩
  rcases mem_insert hm with rfl | hm
  · exact hv
  · exact h.2 m hm

theorem levels_insert_le {o : Object} {n : Nat} (h : (object o).levels ≤ n + 1) (name : String)
    {v : Json} (hv : v.levels ≤ n) : (object (o.insert name v)).levels ≤ n + 1 := by
  simp only [levels, Nat.add_le_add_iff_right, memberLevels_le_iff] at h ⊢
  intro m hm
  rcases mem_insert hm with rfl | hm
  · exact hv
  · exact h m hm

/-- A member whose name lies above all others goes to the end. -/
theorem insert_eq_append {o : Object} {name : String} (v : Json)
    (h : ∀ k ∈ o.map Prod.fst, k < name) : o.insert name v = o ++ [(name, v)] := by
  induction o with
  | nil => rfl
  | cons m o ih =>
    obtain ⟨k, w⟩ := m
    obtain ⟨hk, ho⟩ := List.forall_mem_cons.1 h
    have hne : name ≠ k := fun he => String.lt_irrefl k (he ▸ hk)
    have hnlt : ¬ name < k := fun hlt => String.lt_irrefl k (String.lt_trans hk hlt)
    rw [Object.insert, if_neg hne, if_neg hnlt, ih ho]
    rfl

theorem lt_of_isSorted {o : Object} {m : String × Json} {ms : List (String × Json)}
    (h : isSorted (o ++ m :: ms) = true) : ∀ k ∈ o.map Prod.fst, k < m.1 := by
  intro k hk
  simp only [isSorted, decide_eq_true_eq, List.map_append, List.map_cons] at h
  exact (List.pairwise_append.1 h).2.2 k hk m.1 List.mem_cons_self

/-- Members that are sorted are all of them kept, as they stand. -/
theorem foldl_insert_of_isSorted (ms : List (String × Json)) {o : Object}
    (h : isSorted (o ++ ms) = true) :
    ms.foldl (fun o (n, v) => o.insert n v) o = o ++ ms := by
  induction ms generalizing o with
  | nil => simp
  | cons m ms ih =>
    obtain ⟨n, v⟩ := m
    show ms.foldl _ (o.insert n v) = _
    rw [insert_eq_append v (lt_of_isSorted h), ih (by simpa using h)]
    simp

theorem ofList_of_isSorted {ms : List (String × Json)} (h : isSorted ms = true) :
    Object.ofList ms = ms :=
  foldl_insert_of_isSorted ms h

/-! ## Values -/

mutual

/-- The text of a value writes a syntax tree that has the value. -/
theorem exists_means : ∀ j : Json, j.isCanonical = true →
    ∃ t, Written j.chars t ∧ ∀ room, j.levels ≤ room → Means room t j
  | .null, _ => ⟨_, .nullWord, fun _ _ => .null⟩
  | .bool true, _ => ⟨_, .trueWord, fun _ _ => .bool true⟩
  | .bool false, _ => ⟨_, .falseWord, fun _ _ => .bool false⟩
  | .number (.int n), h => ⟨_, written_renderInt n, fun _ _ => .number (ofText?_integerText h)⟩
  | .number (.double _), h => Bool.noConfusion h
  | .string s, _ => ⟨_, written_quote s, fun _ _ => .string (spells_parts s)⟩
  | .array [], _ => ⟨_, .emptyArray spaces_nil, fun
    | 0, hroom => absurd hroom (by simp [levels])
    | _ + 1, _ => .array .nil⟩
  | .array (v :: vs), h => by
    obtain ⟨ts, hts, hvalues⟩ := exists_itemsMean (v :: vs) (List.cons_ne_nil v vs) h
    exact ⟨_, .array hts, fun
      | 0, hroom => absurd hroom (by simp [levels])
      | room + 1, hroom => .array (hvalues room (Nat.le_of_succ_le_succ hroom))⟩
  | .object [], _ => ⟨_, .emptyObject spaces_nil, fun
    | 0, hroom => absurd hroom (by simp [levels])
    | _ + 1, _ => .object .nil⟩
  | .object (m :: ms), h => by
    rw [isCanonical, Bool.and_eq_true] at h
    obtain ⟨ts, hts, hvalues⟩ := exists_membersMean (m :: ms) (List.cons_ne_nil m ms) h.2
    refine ⟨_, .object hts, fun
      | 0, hroom => absurd hroom (by simp [levels])
      | room + 1, hroom => ?_⟩
    rw [← ofList_of_isSorted h.1]
    exact .object (hvalues room (Nat.le_of_succ_le_succ hroom))

theorem exists_itemsMean : ∀ vs : List Json, vs ≠ [] → itemsCanonical vs = true →
    ∃ ts, ItemsWritten (itemChars vs) ts ∧ ∀ room, itemLevels vs ≤ room → ItemsMean room ts vs
  | [], hne, _ => absurd rfl hne
  | [v], _, h => by
    rw [itemsCanonical, itemsCanonical, Bool.and_true] at h
    obtain ⟨t, ht, hvalue⟩ := exists_means v h
    refine ⟨[t], .last ht.element, fun room hroom => .cons (hvalue room ?_) .nil⟩
    exact Nat.le_trans (Nat.le_max_left _ _) hroom
  | v :: w :: vs, _, h => by
    rw [itemsCanonical, Bool.and_eq_true] at h
    obtain ⟨t, ht, hvalue⟩ := exists_means v h.1
    obtain ⟨ts, hts, hvalues⟩ := exists_itemsMean (w :: vs) (List.cons_ne_nil w vs) h.2
    refine ⟨t :: ts, .more ht.element hts, fun room hroom => ?_⟩
    rw [itemLevels, Nat.max_le] at hroom
    exact .cons (hvalue room hroom.1) (hvalues room hroom.2)

theorem exists_membersMean : ∀ ms : List (String × Json), ms ≠ [] → membersCanonical ms = true →
    ∃ ts, MembersWritten (memberChars ms) ts ∧
      ∀ room, memberLevels ms ≤ room → MembersMean room ts ms
  | [], hne, _ => absurd rfl hne
  | [(n, v)], _, h => by
    rw [membersCanonical, membersCanonical, Bool.and_true] at h
    obtain ⟨t, ht, hvalue⟩ := exists_means v h
    refine ⟨[(parts n, t)], .last (nameWritten_quote n) ht.element, fun room hroom =>
      .cons (spells_parts n) (hvalue room ?_) .nil⟩
    exact Nat.le_trans (Nat.le_max_left _ _) hroom
  | (n, v) :: m :: ms, _, h => by
    rw [membersCanonical, Bool.and_eq_true] at h
    obtain ⟨t, ht, hvalue⟩ := exists_means v h.1
    obtain ⟨ts, hts, hvalues⟩ := exists_membersMean (m :: ms) (List.cons_ne_nil m ms) h.2
    refine ⟨(parts n, t) :: ts, .more (nameWritten_quote n) ht.element hts, fun room hroom => ?_⟩
    rw [memberLevels, Nat.max_le] at hroom
    exact .cons (spells_parts n) (hvalue room hroom.1) (hvalues room hroom.2)

end

/-- A value is read back from the bytes of its text. -/
theorem parseBytes_encode {j : Json} (h : j.isCanonical = true) (hl : j.levels ≤ nestingLimit) :
    parseBytes (encode j.chars) = .ok j := by
  obtain ⟨t, ht, hvalue⟩ := exists_means j h
  exact (parseBytes_encode_eq_ok_iff ht.element).2 (hvalue nestingLimit hl)

/-- A value is read back from its text. -/
theorem parse_render {j : Json} (h : j.isCanonical = true) (hl : j.levels ≤ nestingLimit) :
    parse j.render = .ok j := by
  rw [parse, Utf8.toList_toUTF8, render, String.toList_ofList]
  exact parseBytes_encode h hl

end RecordGateway.Json
