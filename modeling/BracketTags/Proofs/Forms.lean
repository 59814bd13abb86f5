import BracketTags.Proofs.Expression
import Mathlib.Data.List.Basic

/-!
# The two forms of an expression

The plain expression leaves out the content, and the full one looks for it.
They read the same tag wherever no closing tag of the name follows, because
then the full expression looks in vain and goes on where the plain one does
(`Candidate.read?_plain`).

A scan goes over the suffixes of its text, and a closing tag that does not
occur in the text does not occur in a suffix of it.  So the form that is
chosen for a text finds what the full form finds.
-/

namespace BracketTags

/-! ## Texts without closing tags -/

theorem wrapped?_plain {name after : Text} (h : ¬ closingTag name <:+: after) :
    wrapped? .plain name after = wrapped? .full name after :=
  (Text.cut?_eq_none_iff.mpr h).symm

theorem bodyAfter_plain {name after : Text} (h : ¬ closingTag name <:+: after) (inner : Text) :
    bodyAfter .plain name inner after = bodyAfter .full name inner after := by
  rw [bodyAfter, bodyAfter, wrapped?_plain h]

namespace Candidate

theorem tag_plain {c : Candidate} {after : Text} (h : ¬ closingTag c.name <:+: after)
    (inner : Text) : c.tag .plain inner after = c.tag .full inner after := by
  rw [tag, tag, bodyAfter_plain h]

theorem readRest?_plain {c : Candidate} {rest : Text} (h : ¬ closingTag c.name <:+: rest) :
    c.readRest? .plain rest = c.readRest? .full rest := by
  rw [readRest?, readRest?]
  cases hcut : Text.cut? [']'] rest with
  | none => rfl
  | some p =>
      obtain ⟨inner, after⟩ := p
      obtain ⟨hrest, -⟩ := Text.cut?_eq_some_iff.mp hcut
      have hafter : ¬ closingTag c.name <:+: after := by
        rintro ⟨u, v, rfl⟩
        refine h ⟨inner ++ [']'] ++ u, v, ?_⟩
        rw [hrest]
        simp
      rw [Option.map_some, Option.map_some, tag_plain hafter]

/-- Both forms read the same tag of a candidate whose closing tag does not occur. -/
theorem read?_plain {c : Candidate} {t : Text} (h : ¬ closingTag c.name <:+: t) :
    c.read? .plain t = c.read? .full t := by
  rw [read?, read?]
  cases hdrop : Text.dropStart? c.opening t with
  | none => rfl
  | some rest =>
      have ht := Text.dropStart?_eq_some_iff.mp hdrop
      have hrest : ¬ closingTag c.name <:+: rest := by
        intro hin
        refine h (hin.trans ?_)
        rw [ht]
        exact (List.suffix_append _ _).isInfix
      rw [Option.bind_some, Option.bind_some, readRest?_plain hrest]

theorem name_mem_of_mem_all {names : List Text} {c : Candidate} (h : c ∈ all names) :
    c.name ∈ names := by
  rcases List.mem_append.mp h with h | h
  · obtain ⟨name, hname, rfl⟩ := List.mem_map.mp h
    exact hname
  · obtain ⟨name, hname, rfl⟩ := List.mem_map.mp h
    exact hname

end Candidate

namespace Tag

theorem read?_plain {names : List Text} {t : Text}
    (h : ∀ name ∈ names, ¬ closingTag name <:+: t) :
    read? names .plain t = read? names .full t := by
  rw [read?, read?, ← List.head?_filterMap, ← List.head?_filterMap]
  refine congrArg List.head? (List.filterMap_congr fun c hc => ?_)
  exact Candidate.read?_plain (h c.name (Candidate.name_mem_of_mem_all hc))

/-- Both expressions match alike in a text in which no closing tag occurs. -/
theorem found?_plain {names : List Text} (hn : names ≠ []) {t : Text}
    (h : ∀ name ∈ names, ¬ closingTag name <:+: t) (start : Nat) :
    (expression names .plain).found? start t = (expression names .full).found? start t := by
  rw [found?_expression hn, found?_expression hn, read?_plain h]

theorem formFor_eq_full_or (names : List Text) (t : Text) :
    formFor names t = .full ∨
      formFor names t = .plain ∧ ∀ name ∈ names, ¬ closingTag name <:+: t := by
  cases h : names.any fun name => Text.occursIn (closingTag name) t with
  | true => exact .inl (by rw [formFor, h, if_pos rfl])
  | false =>
      refine .inr ⟨by rw [formFor, h, if_neg Bool.false_ne_true], fun name hname hin => ?_⟩
      exact List.any_eq_false.mp h name hname (Text.occursIn_iff.mpr hin)

end Tag

/-! ## Scans -/

/-- Patterns that match alike at every suffix of a text find the same in it. -/
theorem Pattern.findFrom_congr {γ : Type} [DecidableEq γ] {p q : Pattern γ} {t : Text}
    (h : ∀ u, u <:+ t → ∀ start, p.found? start u = q.found? start u) (skip start : Nat) :
    p.findFrom skip start t = q.findFrom skip start t := by
  induction t generalizing skip start with
  | nil => rw [findFrom, findFrom]
  | cons c cs ih =>
      have hcs : ∀ u, u <:+ cs → ∀ start, p.found? start u = q.found? start u :=
        fun u hu => h u (hu.trans (List.suffix_cons c cs))
      cases skip with
      | succ skip =>
          rw [findFrom, findFrom]
          exact ih hcs skip (start + 1)
      | zero =>
          rw [findFrom, findFrom, h (c :: cs) (List.suffix_refl _)]
          cases q.found? start (c :: cs) with
          | none => exact ih hcs 0 (start + 1)
          | some m => exact congrArg (m :: ·) (ih hcs (m.whole.length - 1) (start + 1))

namespace Tag

/-- The expression of some names.  No names have no expression. -/
def expression? (names : List Text) (form : Form) : Option (Pattern Field) :=
  if names.isEmpty then none else some (expression names form)

theorem expression?_of_ne {names : List Text} (hn : names ≠ []) (form : Form) :
    expression? names form = some (expression names form) := by
  rw [expression?, if_neg (by simpa using hn)]

theorem findAll_formFor {names : List Text} (hn : names ≠ []) (t : Text) :
    (expression names (formFor names t)).findAll t = (expression names .full).findAll t := by
  rcases formFor_eq_full_or names t with hform | ⟨hform, hclose⟩
  · rw [hform]
  · rw [hform]
    refine Pattern.findFrom_congr (fun u hu start => found?_plain hn ?_ start) 0 0
    exact fun name hname hin => hclose name hname (hin.trans hu.isInfix)

/-- The form that is chosen for a text finds the same matches in it as the full form, with all
their parts.  Where no closing tag of the names occurs, the two forms match alike at every
offset. -/
theorem forms_agree (names : List Text) (t : Text) :
    (expression? names (formFor names t)).map (fun p => p.findAll t) =
      (expression? names .full).map (fun p => p.findAll t) ∧
    ((∀ name ∈ names, ¬ closingTag name <:+: t) →
      ∀ i, (expression? names .plain).map (fun p => p.found? i (t.drop i)) =
        (expression? names .full).map fun p => p.found? i (t.drop i)) := by
  by_cases hn : names = []
  · subst hn
    exact ⟨rfl, fun _ _ => rfl⟩
  · simp only [expression?_of_ne hn, Option.map_some, Option.some.injEq]
    refine ⟨findAll_formFor hn t, fun h i => found?_plain hn (fun name hname hin => ?_) i⟩
    exact h name hname (hin.trans (List.drop_suffix i t).isInfix)

/-- The closing tag of another name does not count. -/
theorem forms_agree_other_name :
    (∀ name ∈ [['b']], ¬ closingTag name <:+: "[[b]x[/c]]".toList) ∧
    (expression? [['b']] .plain).map (fun p => p.found? 1 ("[[b]x[/c]]".toList.drop 1)) =
      (expression? [['b']] .full).map fun p => p.found? 1 ("[[b]x[/c]]".toList.drop 1) := by
  have hclose : ∀ name ∈ [['b']], ¬ closingTag name <:+: "[[b]x[/c]]".toList := by
    simp only [List.mem_singleton, forall_eq, ← Text.occursIn_iff]
    decide
  exact ⟨hclose, (forms_agree [['b']] "[[b]x[/c]]".toList).2 hclose 1⟩

end Tag

end BracketTags
