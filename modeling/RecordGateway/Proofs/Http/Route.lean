import Mathlib.Data.List.TakeWhile
import RecordGateway.Http.Route

/-!
# Literal routes

A path without braces and without segments that start with a colon or an asterisk is a route that
accepts itself and nothing else (`Route.exists_parse?_of_isText`). The paths whose segments are made
of letters, digits, hyphens and underscores are of that kind (`Route.isText_of_isLiteral`).
-/

namespace RecordGateway.Route

/-- Whether a character stands for itself wherever it is in a route. -/
def isPlainChar (c : Char) : Bool := c != '\x7b' && c != '\x7d' && c != ':' && c != '*'

/-- Whether all characters of a path stand for themselves. -/
def isLiteral (path : String) : Bool := path.toList.all isPlainChar

def isBrace (c : Char) : Bool := c == '\x7b' || c == '\x7d'

/-- Whether a path has no braces and no segments that start with a colon or an asterisk. -/
def isText (path : String) : Bool :=
  path.toList.all (!isBrace ·) && !hasMarkedSegment path.toList

section Text

variable {cs : List Char} (h : ∀ c ∈ cs, isBrace c = false)
include h

theorem unescape_text : unescape cs = cs.map (⟨·, false⟩) := by
  induction cs with
  | nil => rfl
  | cons c cs ih =>
    obtain ⟨hc, hcs⟩ := List.forall_mem_cons.1 h
    simp only [isBrace, Bool.or_eq_false_iff, beq_eq_false_iff_ne] at hc
    rw [unescape.eq_def]
    split <;> simp_all

theorem partsOf?_text {fuel : Nat} (hne : cs ≠ []) :
    partsOf? (fuel + 1) (cs.map (⟨·, false⟩)) = some [.text cs] := by
  have hplain : ∀ c ∈ cs.map (⟨·, false⟩ : Char → RouteChar), (!isOpen c && !isClose c) = true := by
    simp only [List.forall_mem_map, isOpen, isClose]
    intro c hc
    have := h c hc
    simp only [isBrace, Bool.or_eq_false_iff] at this
    simp [this]
  have htake := List.takeWhile_eq_self_iff.2 hplain
  rw [partsOf?, htake, List.drop_length]
  simp [hne, Function.comp_def]

end Text

theorem hasMarkedSegment_plain {cs : List Char} (h : ∀ c ∈ cs, isPlainChar c = true) :
    hasMarkedSegment cs = false := by
  fun_induction hasMarkedSegment cs with
  | case1 cs => exact absurd (h ':' (by simp)) (by decide)
  | case2 cs => exact absurd (h '*' (by simp)) (by decide)
  | case3 c cs _ _ ih => exact ih fun c hc => h c (List.mem_cons_of_mem _ hc)
  | case4 => rfl

theorem isText_of_isLiteral {path : String} (h : isLiteral path = true) : isText path = true := by
  have hplain : ∀ c ∈ path.toList, isPlainChar c = true := List.all_eq_true.1 h
  have hbrace : ∀ c ∈ path.toList, (!isBrace c) = true := fun c hc => by
    have := hplain c hc
    simp only [isPlainChar, Bool.and_eq_true, bne_iff_ne] at this
    simp [isBrace, this]
  rw [isText, List.all_eq_true.2 hbrace, hasMarkedSegment_plain hplain]
  rfl

/-- A rooted path without braces and marked segments is a route of one text, the path. -/
theorem parse?_of_isText {path : String} (hr : path.toList.head? = some '/')
    (h : isText path = true) : parse? path = some ⟨[.text path.toList]⟩ := by
  simp only [isText, Bool.and_eq_true, List.all_eq_true, Bool.not_eq_true'] at h
  obtain ⟨hbrace, hmarked⟩ := h
  obtain ⟨cs, hcs⟩ : ∃ cs, path.toList = '/' :: cs := List.head?_eq_some_iff.1 hr
  have hparts : partsOf? path.toList.length (path.toList.map (⟨·, false⟩)) =
      some [.text path.toList] := by
    rw [show path.toList.length = cs.length + 1 by simp [hcs]]
    exact partsOf?_text hbrace (by simp [hcs])
  rw [parse?, hr, hmarked, unescape_text hbrace, hparts]
  rfl

theorem accepts_text (cs : List Char) (path : String) :
    accepts ⟨[.text cs]⟩ path = true ↔ path.toList = cs := by
  simp only [accepts, matchesParts, Bool.and_eq_true, List.isPrefixOf_iff_prefix,
    List.isEmpty_iff, List.drop_eq_nil_iff]
  constructor
  · rintro ⟨hfront, hlen⟩
    exact (hfront.eq_of_length_le hlen).symm
  · rintro rfl
    exact ⟨List.prefix_rfl, Nat.le_refl _⟩

/-- A rooted path without braces and marked segments accepts itself and nothing else. -/
theorem exists_parse?_of_isText {path : String} (hr : path.toList.head? = some '/')
    (h : isText path = true) :
    ∃ r, parse? path = some r ∧ ∀ other, r.accepts other = true ↔ other = path :=
  ⟨_, parse?_of_isText hr h, fun other => (accepts_text _ other).trans String.toList_inj⟩

/-- A rooted path whose characters stand for themselves accepts itself and nothing else. -/
theorem exists_parse?_literal {path : String} (hr : path.toList.head? = some '/')
    (h : isLiteral path = true) :
    ∃ r, parse? path = some r ∧ ∀ other, r.accepts other = true ↔ other = path :=
  exists_parse?_of_isText hr (isText_of_isLiteral h)

end RecordGateway.Route
