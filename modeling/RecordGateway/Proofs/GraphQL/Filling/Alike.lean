import RecordGateway.GraphQL.Validation.Merging
import RecordGateway.Proofs.GraphQL.Filling.Values

/-!
# Written alike

Constructs are written alike just if one fills the other without a literal for any variable
(`Value.same_iff`, `Merging.sameSelections_iff`, `Merging.sameSet_iff`). So filling does not tell
constructs apart that are written alike (`Merging.SetFills.of_same`), and those that fill the same
one are written alike (`Merging.SetFills.same`).

Values that agree still do with literals for their variables (`Value.agrees_of_fills`).
-/

namespace RecordGateway.GraphQL

variable {lits : Literals}

theorem nowhere_comp (move : Nat → Nat) : nowhere ∘ move = nowhere := rfl

/-! ## Values -/

namespace Value

mutual

theorem same_iff : ∀ {v w : Value}, same v w = true ↔ v.Fills noLiterals w
  | .literal .., .literal .. => by simp [same, Fills, subst, nowhere]
  | .variable .., .variable .. => by simp [same, Fills, subst, nowhere, noLiterals]
  | .list _ vs, .list _ ws => by simp [same, Fills, subst, nowhere, sameItems_iff]
  | .object _ fs, .object _ gs => by simp [same, Fills, subst, nowhere, sameFields_iff]
  | .literal .., .variable .. | .literal .., .list .. | .literal .., .object ..
  | .variable .., .literal .. | .variable .., .list .. | .variable .., .object ..
  | .list .., .literal .. | .list .., .variable .. | .list .., .object ..
  | .object .., .literal .. | .object .., .variable .. | .object .., .list .. => by
    simp [same, Fills, subst, noLiterals]

theorem sameItems_iff : ∀ {vs ws : List Value}, sameItems vs ws = true ↔
    substItems noLiterals nowhere vs = substItems noLiterals nowhere ws
  | [], [] | [], _ :: _ | _ :: _, [] => by simp [sameItems, substItems]
  | v :: vs, w :: ws => by simp [sameItems, substItems, same_iff, sameItems_iff, Fills]

theorem sameFields_iff : ∀ {fs gs : List (Name × Value)}, sameFields fs gs = true ↔
    substFields noLiterals nowhere fs = substFields noLiterals nowhere gs
  | [], [] | [], _ :: _ | _ :: _, [] => by simp [sameFields, substFields]
  | (n, v) :: fs, (m, w) :: gs => by
    simp [sameFields, substFields, same_iff, sameFields_iff, Fills, and_assoc]

end

/-- Fields of one name are filled alike. -/
theorem find?_of_fills {fs fs' : List (Name × Value)}
    (h : substFields lits nowhere fs = substFields noLiterals nowhere fs') (n : Name) :
    Option.Rel (fun f f' => f.2.Fills lits f'.2) (fs.find? (·.1 == n)) (fs'.find? (·.1 == n)) := by
  have hfind := congrArg (fun fs => (fs.find? (·.1 == n)).map (·.2)) h
  simp only [find?_substFields, Option.map_map, Function.comp_def] at hfind
  generalize fs.find? (·.1 == n) = x at hfind ⊢
  generalize fs'.find? (·.1 == n) = y at hfind ⊢
  cases x <;> cases y <;> simp_all
  exact hfind

theorem length_eq_of_fills : ∀ {fs fs' : List (Name × Value)},
    substFields lits nowhere fs = substFields noLiterals nowhere fs' → fs.length = fs'.length
  | [], [], _ => rfl
  | [], _ :: _, h | _ :: _, [], h => by simp [substFields] at h
  | _ :: fs, _ :: fs', h => by
    simp only [substFields, List.cons.injEq] at h
    simp only [List.length_cons, length_eq_of_fills h.2]

mutual

/-- Values that agree still do with literals for their variables. -/
theorem agrees_of_fills : ∀ {v w v' w' : Value}, v.Fills lits v' → w.Fills lits w' →
    agrees v w = true → agrees v' w' = true
  | .literal _ l, .literal _ m, v', w', hv, hw, h => by
    obtain ⟨-, rfl⟩ := fills_literal hv
    obtain ⟨-, rfl⟩ := fills_literal hw
    exact h
  | .variable _ n, .variable _ m, v', w', hv, hw, h => by
    have hnm : n = m := by simpa [agrees] using h
    subst hnm
    cases hn : lits n with
    | none =>
      obtain ⟨-, rfl⟩ := fills_unfilled hn hv
      obtain ⟨-, rfl⟩ := fills_unfilled hn hw
      exact h
    | some l =>
      obtain ⟨-, rfl⟩ := fills_variable hn hv
      obtain ⟨-, rfl⟩ := fills_variable hn hw
      simp [agrees]
  | .list _ vs, .list _ ws, v', w', hv, hw, h => by
    obtain ⟨-, vs', rfl, hvs⟩ := fills_list hv
    obtain ⟨-, ws', rfl, hws⟩ := fills_list hw
    exact agreesItems_of_fills hvs hws h
  | .object _ fs, .object _ gs, v', w', hv, hw, h => by
    obtain ⟨-, fs', rfl, hfs⟩ := fills_object hv
    obtain ⟨-, gs', rfl, hgs⟩ := fills_object hw
    simp only [agrees, Bool.and_eq_true, beq_iff_eq] at h ⊢
    exact ⟨by rw [← length_eq_of_fills hfs, ← length_eq_of_fills hgs, h.1],
      agreesFields_of_fills hfs hgs h.2⟩
  | .literal .., .variable .., _, _, _, _, h | .literal .., .list .., _, _, _, _, h
  | .literal .., .object .., _, _, _, _, h | .variable .., .literal .., _, _, _, _, h
  | .variable .., .list .., _, _, _, _, h | .variable .., .object .., _, _, _, _, h
  | .list .., .literal .., _, _, _, _, h | .list .., .variable .., _, _, _, _, h
  | .list .., .object .., _, _, _, _, h | .object .., .literal .., _, _, _, _, h
  | .object .., .variable .., _, _, _, _, h | .object .., .list .., _, _, _, _, h => by
    simp [agrees] at h

theorem agreesItems_of_fills : ∀ {vs ws vs' ws' : List Value},
    substItems lits nowhere vs = substItems noLiterals nowhere vs' →
      substItems lits nowhere ws = substItems noLiterals nowhere ws' →
        agreesItems vs ws = true → agreesItems vs' ws' = true
  | _, _, [], _, _, _, _ => by simp [agreesItems]
  | _, _, _ :: _, [], _, _, _ => by simp [agreesItems]
  | [], _, _ :: _, _ :: _, hv, _, _ => by simp [substItems] at hv
  | _ :: _, [], _ :: _, _ :: _, _, hw, _ => by simp [substItems] at hw
  | v :: vs, w :: ws, v' :: vs', w' :: ws', hv, hw, h => by
    simp only [substItems, List.cons.injEq] at hv hw
    simp only [agreesItems, Bool.and_eq_true] at h ⊢
    exact ⟨agrees_of_fills hv.1 hw.1 h.1, agreesItems_of_fills hv.2 hw.2 h.2⟩

theorem agreesFields_of_fills : ∀ {fs gs fs' gs' : List (Name × Value)},
    substFields lits nowhere fs = substFields noLiterals nowhere fs' →
      substFields lits nowhere gs = substFields noLiterals nowhere gs' →
        agreesFields fs gs = true → agreesFields fs' gs' = true
  | [], _, [], _, _, _, _ => by simp [agreesFields]
  | [], _, _ :: _, _, hf, _, _ | _ :: _, _, [], _, hf, _, _ => by simp [substFields] at hf
  | (n, v) :: fs, gs, (n', v') :: fs', gs', hf, hg, h => by
    simp only [substFields, List.cons.injEq, Prod.mk.injEq] at hf
    obtain ⟨⟨rfl, hv⟩, hf⟩ := hf
    simp only [agreesFields, Bool.and_eq_true] at h ⊢
    refine ⟨?_, agreesFields_of_fills hf hg h.2⟩
    have hone := h.1
    have hfind := find?_of_fills hg n
    generalize gs.find? (·.1 == n) = x at hfind hone
    generalize gs'.find? (·.1 == n) = y at hfind ⊢
    cases hfind with
    | none => exact hone
    | some hw => exact agrees_of_fills hv hw hone

end

end Value

/-! ## Arguments, directives and fields -/

namespace Merging

/-- A comparison item by item says that the items are related. -/
theorem all_zip_iff {α β : Type} {r : α → β → Bool} {as : List α} {bs : List β} :
    (as.length == bs.length && (as.zip bs).all fun p => r p.1 p.2) = true ↔
      List.Forall₂ (fun a b => r a b = true) as bs := by
  rw [List.forall₂_iff_zip, Bool.and_eq_true, beq_iff_eq, List.all_eq_true]
  exact and_congr_right fun _ => ⟨fun h _ _ hab => h _ hab, fun h _ hab => h hab⟩

theorem map_eq_map_of_all_zip {α β : Type} {r : α → α → Bool} {f : α → β}
    (hf : ∀ {a b}, r a b = true → f a = f b) {as bs : List α}
    (h : (as.length == bs.length && (as.zip bs).all fun p => r p.1 p.2) = true) :
    as.map f = bs.map f :=
  map_eq_map_iff.2 ((all_zip_iff.1 h).imp fun _ _ => hf)

theorem sameArgumentTexts_iff {as bs : List Argument} :
    sameArgumentTexts as bs = true ↔ List.Forall₂ (Argument.Fills noLiterals) as bs := by
  simp only [sameArgumentTexts,
    all_zip_iff (r := fun a b : Argument => a.name == b.name && a.value.same b.value),
    Bool.and_eq_true, beq_iff_eq, Value.same_iff, ← Argument.fills_iff]

theorem sameDirectives_iff {ds es : List Directive} :
    sameDirectives ds es = true ↔ List.Forall₂ (Directive.Fills noLiterals) ds es := by
  simp only [sameDirectives,
    all_zip_iff (r := fun d e : Directive =>
      d.name == e.name && sameArgumentTexts d.arguments e.arguments),
    Bool.and_eq_true, beq_iff_eq, sameArgumentTexts_iff,
    ← Directive.fills_iff]

theorem sameField_iff {f g : Field} : sameField f g = true ↔ f.Fills noLiterals g := by
  simp only [sameField, Bool.and_eq_true, beq_iff_eq, sameArgumentTexts_iff, sameDirectives_iff,
    Field.fills_iff, and_assoc]

/-! ## Selections -/

theorem fillsAll_of_sameSelections : ∀ {ss ts : List Selection}, sameSelections ss ts = true →
    Selection.FillsAll noLiterals ss ts
  | [], [], _ => .nil
  | [], _ :: _, h | _ :: _, [], h => by simp [sameSelections] at h
  | .field f b :: ss, .field g c :: ts, h => by
    simp only [sameSelections, sameSelection, Bool.and_eq_true] at h
    obtain ⟨⟨hf, hb⟩, hs⟩ := h
    exact .field (sameField_iff.1 hf) (fillsAll_of_sameSelections hb)
      (fillsAll_of_sameSelections hs)
  | .inline _ c ds b :: ss, .inline _ e es b' :: ts, h => by
    simp only [sameSelections, sameSelection, Bool.and_eq_true, beq_iff_eq] at h
    obtain ⟨⟨⟨hc, hd⟩, hb⟩, hs⟩ := h
    exact .inline hc (sameDirectives_iff.1 hd) (fillsAll_of_sameSelections hb)
      (fillsAll_of_sameSelections hs)
  | .spread _ n ds :: ss, .spread _ m es :: ts, h => by
    simp only [sameSelections, sameSelection, Bool.and_eq_true, beq_iff_eq] at h
    obtain ⟨⟨rfl, hd⟩, hs⟩ := h
    exact .spread (sameDirectives_iff.1 hd) (fillsAll_of_sameSelections hs)
  | .field .. :: _, .inline .. :: _, h | .field .. :: _, .spread .. :: _, h
  | .inline .. :: _, .field .. :: _, h | .inline .. :: _, .spread .. :: _, h
  | .spread .. :: _, .field .. :: _, h | .spread .. :: _, .inline .. :: _, h => by
    simp [sameSelections, sameSelection] at h

/-- Selections are written alike just if nothing is to be filled between them. -/
theorem sameSelections_iff {ss ts : List Selection} :
    sameSelections ss ts = true ↔ Selection.FillsAll noLiterals ss ts := by
  refine ⟨fillsAll_of_sameSelections, fun h => ?_⟩
  induction h with
  | nil => simp [sameSelections]
  | field hf _ _ ihb ih => simp [sameSelections, sameSelection, sameField_iff.2 hf, ihb, ih]
  | inline hc hd _ _ ihb ih =>
    simp [sameSelections, sameSelection, hc, sameDirectives_iff.2 hd, ihb, ih]
  | spread hd _ ih => simp [sameSelections, sameSelection, sameDirectives_iff.2 hd, ih]

end Merging

/-! ## Filling what is written alike -/

namespace Field.Fills

variable {f g f' g' : Field}

theorem of_same (h : f.Fills noLiterals g) (hg : g.Fills lits g') : f.Fills lits g' :=
  calc f.subst lits nowhere
    _ = (f.subst noLiterals nowhere).subst lits nowhere := by
      rw [subst_subst, Literals.noLiterals_or, nowhere_comp]
    _ = (g.subst noLiterals nowhere).subst lits nowhere := congrArg (Field.subst lits nowhere) h
    _ = g.subst lits nowhere := by rw [subst_subst, Literals.noLiterals_or, nowhere_comp]
    _ = g'.subst noLiterals nowhere := hg

theorem trans_same (h : f.Fills lits f') (hg : f'.Fills noLiterals g') : f.Fills lits g' :=
  Eq.trans h hg

theorem same (h : f.Fills lits f') (h' : f.Fills lits g') : f'.Fills noLiterals g' :=
  Eq.trans (Eq.symm h) h'

end Field.Fills

namespace Selection.FillsAll

variable {ss ts ss' ts' : List Selection}

theorem of_same (h : FillsAll noLiterals ss ts) (ht : FillsAll lits ts ts') :
    FillsAll lits ss ts' := by
  rw [fillsAll_iff] at h ht ⊢
  calc substAll lits nowhere ss
    _ = substAll lits nowhere (substAll noLiterals nowhere ss) := by
      rw [substAll_substAll, Literals.noLiterals_or, nowhere_comp]
    _ = substAll lits nowhere (substAll noLiterals nowhere ts) := by rw [h]
    _ = substAll lits nowhere ts := by
      rw [substAll_substAll, Literals.noLiterals_or, nowhere_comp]
    _ = substAll noLiterals nowhere ts' := ht

theorem trans_same (h : FillsAll lits ss ss') (ht : FillsAll noLiterals ss' ts') :
    FillsAll lits ss ts' :=
  fillsAll_iff.2 ((fillsAll_iff.1 h).trans (fillsAll_iff.1 ht))

theorem same (h : FillsAll lits ss ss') (h' : FillsAll lits ss ts') :
    FillsAll noLiterals ss' ts' :=
  fillsAll_iff.2 ((fillsAll_iff.1 h).symm.trans (fillsAll_iff.1 h'))

end Selection.FillsAll

namespace Merging

/-! ## Occurrences -/

/-- The second occurrence is the first with literals for variables, wherever both stand. -/
structure Occurrence.Fills (lits : Literals) (o o' : Occurrence) : Prop where
  parent : o.parent = o'.parent
  field : o.field.Fills lits o'.field
  body : Selection.FillsAll lits o.body o'.body

namespace Occurrence.Fills

variable {o p o' p' : Occurrence}

/-- What is written like an occurrence is filled like it. -/
theorem of_same (h : o.Fills noLiterals p) (hp : p.Fills lits p') : o.Fills lits p' :=
  ⟨h.parent.trans hp.parent, h.field.of_same hp.field, h.body.of_same hp.body⟩

/-- What is written like a filled occurrence fills the same one. -/
theorem trans_same (h : o.Fills lits o') (hp : o'.Fills noLiterals p') : o.Fills lits p' :=
  ⟨h.parent.trans hp.parent, h.field.trans_same hp.field, h.body.trans_same hp.body⟩

/-- Occurrences that fill one are written alike. -/
theorem same (h : o.Fills lits o') (h' : o.Fills lits p') : o'.Fills noLiterals p' :=
  ⟨h.parent.symm.trans h'.parent, h.field.same h'.field, h.body.same h'.body⟩

end Occurrence.Fills

/-! ## Sets -/

/-- The second set is the first with literals for variables, wherever the occurrences stand. -/
def SetFills (lits : Literals) : (os os' : List Occurrence) → Prop :=
  List.Forall₂ (Occurrence.Fills lits)

theorem sameSet_iff {os ps : List Occurrence} :
    sameSet os ps = true ↔ SetFills noLiterals os ps := by
  have hone : ∀ o p, sameOccurrence o p = true ↔ o.Fills noLiterals p := by
    intro o p
    simp only [sameOccurrence, Bool.and_eq_true, beq_iff_eq, sameField_iff, sameSelections_iff]
    exact ⟨fun ⟨⟨hp, hf⟩, hb⟩ => ⟨hp, hf, hb⟩, fun h => ⟨⟨h.parent, h.field⟩, h.body⟩⟩
  simp only [sameSet, all_zip_iff (r := sameOccurrence), hone]
  rfl

namespace SetFills

variable {os ps os' ps' : List Occurrence}

theorem of_same (h : SetFills noLiterals os ps) (hp : SetFills lits ps ps') :
    SetFills lits os ps' :=
  forall₂_trans h hp fun _ _ _ h hp => h.of_same hp

theorem trans_same (h : SetFills lits os os') (hp : SetFills noLiterals os' ps') :
    SetFills lits os ps' :=
  forall₂_trans h hp fun _ _ _ h hp => h.trans_same hp

theorem same (h : SetFills lits os os') (h' : SetFills lits os ps') :
    SetFills noLiterals os' ps' :=
  forall₂_trans (R := flip (Occurrence.Fills lits)) h.flip h' fun _ _ _ h h' =>
    Occurrence.Fills.same h h'

end SetFills

end Merging

end RecordGateway.GraphQL
