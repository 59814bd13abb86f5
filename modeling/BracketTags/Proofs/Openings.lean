import BracketTags.Proofs.Forms
import Mathlib.Data.List.Infix

/-!
# Openings

Whether a tag can be read at the start of a text is settled by its opening.

*Any names.*  A tag can be read after a bracket and a name that ends there, if a
closing bracket follows (`read?_ne_none`).  Wherever a tag can be read, such an
opening stands there or one character later (`exists_opening_of_read?`).

*Ordinary names* are made of word characters and hyphens.  Two of them that end
at the start of the same text are equal (`OrdinaryName.eq_of_append_eq`), and so
are two candidates (`Candidate.eq_of_read?`).  So there is only one way to read a
tag whose name is ordinary (`read?_opening_of_ordinary`), and the order of the
names does not matter (`read?_eq_some_iff_of_ordinary`).

*Markers.*  After two brackets and a name the tag is read with a marker, and its
name is the first one of the list that ends there (`exists_read?_of_marked`).
-/

namespace BracketTags

/-! ## Cuts at one character -/

namespace Text

theorem cut?_singleton {c : Char} {u : Text} (h : c ∉ u) (v : Text) :
    cut? [c] (u ++ ([c] ++ v)) = some (u, v) := by
  refine cut?_eq_some_iff.mpr ⟨rfl, fun k hk hpre => ?_⟩
  rw [singleton_prefix_iff, List.head?_drop, List.getElem?_append_left hk] at hpre
  exact h (List.mem_of_getElem? hpre)

/-- A character does not occur before the place where a text is cut at it. -/
theorem notMem_of_cut?_singleton {c : Char} {t u v : Text} (h : cut? [c] t = some (u, v)) :
    c ∉ u := by
  intro hmem
  obtain ⟨hsplit, hfirst⟩ := cut?_eq_some_iff.mp h
  obtain ⟨k, hk, hget⟩ := List.getElem_of_mem hmem
  refine hfirst k hk ?_
  rw [hsplit, singleton_prefix_iff, List.head?_drop, List.getElem?_append_left hk,
    List.getElem?_eq_getElem hk, hget]

theorem exists_cut?_of_mem {c : Char} {t : Text} (h : c ∈ t) :
    ∃ u v, cut? [c] t = some (u, v) := by
  cases hcut : cut? [c] t with
  | none => exact absurd ((List.singleton_infix_iff c t).mpr h) (cut?_eq_none_iff.mp hcut)
  | some p => exact ⟨p.1, p.2, rfl⟩

theorem head?_append_ne_of_notMem {c : Char} {u : Text} (hu : u ≠ []) (h : c ∉ u) (v : Text) :
    (u ++ v).head? ≠ some c := by
  intro hhead
  rw [List.head?_append_of_ne_nil u hu] at hhead
  exact h (List.mem_of_head? hhead)

theorem mem_of_cut? {c : Char} {t u v : Text} (h : cut? [c] t = some (u, v)) : c ∈ t := by
  rw [(cut?_eq_some_iff.mp h).1]
  simp

end Text

/-! ## Any names -/

theorem nameEnds_append {u : Text} (h : nameEnds u = true) {v : Text} (hv : nameEnds v = true) :
    nameEnds (u ++ v) = true := by
  cases u with
  | nil => exact hv
  | cons c u => exact h

namespace Candidate

/-- A candidate whose name ends can be read if a closing bracket follows. -/
theorem exists_read? (form : Form) (c : Candidate) {rest : Text} (hends : nameEnds rest = true)
    (hclose : ']' ∈ rest) : ∃ g, c.read? form (c.opening ++ rest) = some g := by
  obtain ⟨inner, after, hcut⟩ := Text.exists_cut?_of_mem hclose
  exact ⟨_, read?_eq_some_iff.mpr
    ⟨rest, rfl, readRest?_eq_some_iff.mpr ⟨hends, inner, after, hcut, rfl⟩⟩⟩

/-- A candidate with no closing bracket in its attribute text is read up to the first one. -/
theorem read?_opening (form : Form) (c : Candidate) {inner : Text} (hends : nameEnds inner = true)
    (hinner : ']' ∉ inner) (after : Text) :
    c.read? form (c.opening ++ (inner ++ ([']'] ++ after))) = some (c.tag form inner after) :=
  read?_eq_some_iff.mpr ⟨_, rfl, readRest?_eq_some_iff.mpr
    ⟨nameEnds_append hends rfl, inner, after, Text.cut?_singleton hinner after, rfl⟩⟩

/-- A candidate is read from a text that it opens, up to the first closing bracket. -/
theorem read?_eq_some_iff_parts {form : Form} {t : Text} {c : Candidate} {g : Tag} :
    c.read? form t = some g ↔ ∃ inner after, t = c.opening ++ (inner ++ ([']'] ++ after)) ∧
      nameEnds inner = true ∧ ']' ∉ inner ∧ c.tag form inner after = g := by
  constructor
  · intro h
    obtain ⟨rest, rfl, hrest⟩ := read?_eq_some_iff.mp h
    obtain ⟨hends, inner, after, hcut, htag⟩ := readRest?_eq_some_iff.mp hrest
    obtain ⟨rfl, -⟩ := Text.cut?_eq_some_iff.mp hcut
    refine ⟨inner, after, rfl, ?_, Text.notMem_of_cut?_singleton hcut, htag⟩
    cases inner with
    | nil => rfl
    | cons d inner => exact hends
  · rintro ⟨inner, after, rfl, hends, hinner, rfl⟩
    exact c.read?_opening form hends hinner after

theorem mem_all {names : List Text} {name : Text} (h : name ∈ names) (marked : Bool) :
    mk marked name ∈ all names := by
  cases marked with
  | true => exact List.mem_append_left _ (List.mem_map_of_mem h)
  | false => exact List.mem_append_right _ (List.mem_map_of_mem h)

end Candidate

namespace Tag

variable {names : List Text} {form : Form}

/-- The candidates with a marker are tried before those without one. -/
theorem read?_eq_or (names : List Text) (form : Form) (t : Text) :
    read? names form t =
      (names.findSome? fun m => Candidate.read? form t ⟨true, m⟩).or
        (names.findSome? fun m => Candidate.read? form t ⟨false, m⟩) := by
  rw [read?, Candidate.all, List.findSome?_append, List.findSome?_map, List.findSome?_map]
  rfl

theorem name_mem_of_read? {t : Text} {g : Tag} (h : read? names form t = some g) :
    g.name ∈ names := by
  obtain ⟨c, hc, hg⟩ := List.exists_of_findSome?_eq_some h
  obtain ⟨rest, -, hrest⟩ := Candidate.read?_eq_some_iff.mp hg
  obtain ⟨-, inner, after, -, rfl⟩ := Candidate.readRest?_eq_some_iff.mp hrest
  exact Candidate.name_mem_of_mem_all hc

/-- No tag begins without a bracket. -/
theorem read?_eq_none_of_head {t : Text} (h : t.head? ≠ some '[') :
    read? names form t = none := by
  cases hg : read? names form t with
  | none => rfl
  | some g =>
      obtain ⟨rest, hrest⟩ := render_prefix_of_read? hg
      refine absurd ?_ h
      rw [← hrest, render_eq]
      rfl

/-- A tag can be read where a name of the list ends behind a bracket. -/
theorem read?_ne_none {name rest : Text} (hname : name ∈ names) (hends : nameEnds rest = true)
    (hclose : ']' ∈ rest) : read? names form ('[' :: (name ++ rest)) ≠ none := by
  intro hnone
  obtain ⟨g, hg⟩ := Candidate.exists_read? form ⟨false, name⟩ hends hclose
  have hunread := List.findSome?_eq_none_iff.mp hnone _ (Candidate.mem_all hname false)
  exact absurd (hunread.symm.trans hg) (by simp)

/-- Wherever a tag can be read, there is such a name, maybe behind a marker. -/
theorem exists_opening_of_read? {t : Text} {g : Tag} (h : read? names form t = some g) :
    ∃ name ∈ names, ∃ marker rest, t = marker ++ '[' :: (name ++ rest) ∧
      nameEnds rest = true ∧ ']' ∈ rest := by
  obtain ⟨c, hc, hg⟩ := List.exists_of_findSome?_eq_some h
  obtain ⟨rest, ht, hrest⟩ := Candidate.read?_eq_some_iff.mp hg
  obtain ⟨hends, inner, after, hcut, -⟩ := Candidate.readRest?_eq_some_iff.mp hrest
  refine ⟨c.name, Candidate.name_mem_of_mem_all hc, openingMarker c.marked, rest, ?_, hends,
    Text.mem_of_cut? hcut⟩
  rw [ht, Candidate.opening]
  cases c.marked with
  | true => rfl
  | false => rfl

/-! ## Markers -/

/-- After two brackets and a name that ends, the tag is read with a marker, and with a name of the
list that ends too.  The candidates with a marker come before the others. -/
theorem exists_read?_of_marked {name rest : Text} (hname : name ∈ names)
    (hends : nameEnds rest = true) (hclose : ']' ∈ rest) :
    ∃ name' ∈ names, ∃ inner after,
      name ++ rest = name' ++ (inner ++ ([']'] ++ after)) ∧ nameEnds inner = true ∧ ']' ∉ inner ∧
      read? names form ('[' :: '[' :: (name ++ rest)) =
        some (Candidate.tag form ⟨true, name'⟩ inner after) := by
  obtain ⟨g, hg⟩ := Candidate.exists_read? form ⟨true, name⟩ hends hclose
  have hmarked : (names.findSome? fun m =>
      Candidate.read? form ('[' :: '[' :: (name ++ rest)) ⟨true, m⟩) ≠ none := by
    intro hnone
    have hunread := List.findSome?_eq_none_iff.mp hnone name hname
    exact absurd (hunread.symm.trans hg) (by simp)
  obtain ⟨g', hg'⟩ := Option.ne_none_iff_exists'.mp hmarked
  obtain ⟨name', hname', hread'⟩ := List.exists_of_findSome?_eq_some hg'
  obtain ⟨inner, after, ht, hends', hinner, rfl⟩ := Candidate.read?_eq_some_iff_parts.mp hread'
  refine ⟨name', hname', inner, after, List.cons_injective (List.cons_injective ht), hends',
    hinner, ?_⟩
  rw [read?_eq_or, hg', Option.some_or]

end Tag

/-! ## Ordinary names -/

/-- Whether a character may belong to an ordinary name. -/
def isNameChar (c : Char) : Bool := isWord c || c == '-'

/-- A name that is made of word characters and hyphens. -/
structure OrdinaryName (name : Text) : Prop where
  ne_nil : name ≠ []
  chars : ∀ c ∈ name, isNameChar c = true

namespace OrdinaryName

variable {m n : Text}

/-- An ordinary name is all that a text begins with of its characters, if it ends there. -/
theorem takeWhile_append (hm : OrdinaryName m) {rest : Text} (hends : nameEnds rest = true) :
    (m ++ rest).takeWhile isNameChar = m := by
  rw [List.takeWhile_append_of_pos hm.chars]
  cases rest with
  | nil => simp
  | cons c rest =>
      have hc : isNameChar c = false := by simpa [nameEnds, isNameChar] using hends
      simp [hc]

/-- Ordinary names that end at the start of the same text are equal. -/
theorem eq_of_append_eq (hm : OrdinaryName m) (hn : OrdinaryName n) {r s : Text}
    (hr : nameEnds r = true) (hs : nameEnds s = true) (h : m ++ r = n ++ s) : m = n := by
  rw [← hm.takeWhile_append hr, h, hn.takeWhile_append hs]

theorem notMem (hm : OrdinaryName m) {c : Char} (hc : isNameChar c = false) : c ∉ m := by
  intro hmem
  rw [hm.chars c hmem] at hc
  cases hc

theorem bracket_notMem (hm : OrdinaryName m) : '[' ∉ m := hm.notMem (by decide)

/-- A text that begins with an ordinary name does not begin with a bracket. -/
theorem head?_append_ne (hm : OrdinaryName m) (rest : Text) : (m ++ rest).head? ≠ some '[' :=
  Text.head?_append_ne_of_notMem hm.ne_nil hm.bracket_notMem rest

theorem closingBracket_notMem (hm : OrdinaryName m) : ']' ∉ m := hm.notMem (by decide)

theorem slash_notMem (hm : OrdinaryName m) : '/' ∉ m := hm.notMem (by decide)

end OrdinaryName

/-- Candidates with ordinary names that can be read at the start of the same text are equal.  Both
of them have a marker or none has, since no name begins with a bracket. -/
theorem Candidate.eq_of_read? {form : Form} {t : Text} {c c' : Candidate} {g g' : Tag}
    (hc : OrdinaryName c.name) (hc' : OrdinaryName c'.name) (h : c.read? form t = some g)
    (h' : c'.read? form t = some g') : c = c' := by
  obtain ⟨rest, ht, hrest⟩ := read?_eq_some_iff.mp h
  obtain ⟨rest', ht', hrest'⟩ := read?_eq_some_iff.mp h'
  obtain ⟨hends, -⟩ := readRest?_eq_some_iff.mp hrest
  obtain ⟨hends', -⟩ := readRest?_eq_some_iff.mp hrest'
  have hopening : openingMarker c.marked ++ (c.name ++ rest) =
      openingMarker c'.marked ++ (c'.name ++ rest') := by
    rw [ht, opening, opening] at ht'
    simpa using ht'
  obtain ⟨marked, m⟩ := c
  obtain ⟨marked', m'⟩ := c'
  have hmarked : marked = marked' := by
    cases marked with
    | false =>
        cases marked' with
        | false => rfl
        | true => exact absurd (congrArg List.head? hopening) (hc.head?_append_ne rest)
    | true =>
        cases marked' with
        | false => exact absurd (congrArg List.head? hopening).symm (hc'.head?_append_ne rest')
        | true => rfl
  subst hmarked
  have hname : m = m' := hc.eq_of_append_eq hc' hends hends' (List.append_cancel_left hopening)
  rw [hname]

namespace Tag

variable {names : List Text} {form : Form}

/-- Of ordinary names, it does not matter in which order they are tried. -/
theorem read?_eq_some_iff_of_ordinary (hnames : ∀ name ∈ names, OrdinaryName name) {t : Text}
    {g : Tag} :
    read? names form t = some g ↔ ∃ c : Candidate, c.name ∈ names ∧ c.read? form t = some g := by
  constructor
  · intro h
    obtain ⟨c, hc, hg⟩ := List.exists_of_findSome?_eq_some h
    exact ⟨c, Candidate.name_mem_of_mem_all hc, hg⟩
  · rintro ⟨c, hname, hg⟩
    cases h : read? names form t with
    | none =>
        have hunread := List.findSome?_eq_none_iff.mp h c (Candidate.mem_all hname c.marked)
        exact hunread.symm.trans hg
    | some g' =>
        obtain ⟨c', hc', hg'⟩ := List.exists_of_findSome?_eq_some h
        have hname' : c'.name ∈ names := Candidate.name_mem_of_mem_all hc'
        obtain rfl := Candidate.eq_of_read? (hnames _ hname) (hnames _ hname') hg hg'
        exact hg'.symm.trans hg

/-- There is one way to read a tag whose name is ordinary. -/
theorem read?_opening_of_ordinary (hnames : ∀ name ∈ names, OrdinaryName name) (form : Form)
    (c : Candidate) {inner : Text} (hname : c.name ∈ names) (hends : nameEnds inner = true)
    (hinner : ']' ∉ inner) (after : Text) :
    read? names form (c.opening ++ (inner ++ ([']'] ++ after))) = some (c.tag form inner after) :=
  (read?_eq_some_iff_of_ordinary hnames).mpr ⟨c, hname, c.read?_opening form hends hinner after⟩

end Tag

end BracketTags
