import BracketTags.Proofs.Openings

/-!
# Closing tags

A tag wraps the text up to the nearest closing tag of its name.  So one has to
know where no closing tag of a name is found.

A search *passes over* a text if it finds nothing that begins there, whatever
follows the text (`Text.Passes`).  It passes over the parts of a text if it
passes over each of them.  The search for a closing tag passes over

* a text without an opening bracket,
* an opening bracket that no slash follows,
* the closing tag of another name.
-/

namespace BracketTags

/-! ## Searches that pass over a text -/

namespace Text

/-- The search for a part finds nothing that begins in the text `u`. -/
def Passes (part u : Text) : Prop :=
  ∀ x, cut? part (u ++ x) = (cut? part x).map fun p => (u ++ p.1, p.2)

variable {part u v : Text}

theorem passes_nil (part : Text) : Passes part [] := by
  intro x
  cases h : cut? part x with
  | none => rw [List.nil_append, h, Option.map_none]
  | some p => rw [List.nil_append, h, Option.map_some, List.nil_append]

theorem Passes.append (hu : Passes part u) (hv : Passes part v) : Passes part (u ++ v) := by
  intro x
  rw [List.append_assoc, hu, hv, Option.map_map]
  refine congrFun (congrArg Option.map (funext fun p => ?_)) _
  exact congrArg (·, p.2) (List.append_assoc u v p.1).symm

theorem Passes.cons {c : Char} (h : ∀ x, ¬ part <+: c :: (u ++ x)) (hu : Passes part u) :
    Passes part (c :: u) := by
  intro x
  rw [List.cons_append, cut?_cons (h x), hu, Option.map_map]
  rfl

/-- A part is not found before its first character. -/
theorem passes_of_notMem {c : Char} (h : c ∉ u) (part : Text) : Passes (c :: part) u := by
  induction u with
  | nil => exact passes_nil _
  | cons d u ih =>
      rw [List.mem_cons, not_or] at h
      refine (ih h.2).cons fun x hpre => h.1 ?_
      exact List.head_eq_of_cons_eq (List.prefix_iff_eq_append.mp hpre)

theorem Passes.infix_append_iff (hu : Passes part u) (x : Text) :
    part <:+: u ++ x ↔ part <:+: x := by
  rw [← not_iff_not, ← cut?_eq_none_iff, ← cut?_eq_none_iff, hu, Option.map_eq_none_iff]

theorem Passes.cut?_append (hu : Passes part u) (x : Text) :
    cut? part (u ++ (part ++ x)) = some (u, x) := by
  have hpart : cut? part (part ++ x) = some ([], x) := by
    rw [cut?_of_start (List.prefix_append part x), List.drop_left]
  rw [hu, hpart, Option.map_some, List.append_nil]

end Text

/-! ## Closing tags -/

section ClosingTags

variable {m n u : Text}

theorem passes_of_bracket_notMem (n : Text) (h : '[' ∉ u) : Text.Passes (closingTag n) u :=
  Text.passes_of_notMem h _

/-- Nothing is wrapped where no opening bracket follows. -/
theorem wrapped?_of_bracket_notMem (h : '[' ∉ u) (form : Form) (n : Text) :
    wrapped? form n u = none := by
  cases form with
  | plain => rfl
  | full => exact Text.cut?_eq_none_iff.mpr fun hin => h (hin.subset List.mem_cons_self)

theorem passes_bracket {d : Char} (hd : d ≠ '/') (hu : Text.Passes (closingTag n) (d :: u)) :
    Text.Passes (closingTag n) ('[' :: d :: u) := by
  refine hu.cons fun x hpre => hd ?_
  obtain ⟨rest, hrest⟩ := hpre
  exact (List.head_eq_of_cons_eq (List.cons_injective hrest)).symm

/-- The search for a closing tag passes over the beginning of a tag whose name is ordinary. -/
theorem passes_opening (hm : OrdinaryName m) (n : Text) (hu : '[' ∉ u) :
    Text.Passes (closingTag n) ('[' :: (m ++ u)) := by
  obtain ⟨c, cs, rfl⟩ := List.exists_cons_of_ne_nil hm.ne_nil
  have hslash : c ≠ '/' := by
    rintro rfl
    exact hm.slash_notMem List.mem_cons_self
  exact passes_bracket hslash
    (passes_of_bracket_notMem n (List.not_mem_append hm.bracket_notMem hu))

/-- The closing tag of another name is passed over. -/
theorem passes_closingTag (hne : m ≠ n) (hm : ']' ∉ m) (hn : ']' ∉ n) (hopen : '[' ∉ m) :
    Text.Passes (closingTag n) (closingTag m) := by
  have htail : '[' ∉ '/' :: (m ++ [']']) := by
    simp [hopen]
  refine (passes_of_bracket_notMem n htail).cons fun x hpre => hne ?_
  obtain ⟨rest, hrest⟩ := hpre
  have hnames : m ++ ([']'] ++ x) = n ++ ([']'] ++ rest) := by
    simpa [closingTag] using hrest.symm
  have hcut := Text.cut?_singleton hm x
  rw [hnames, Text.cut?_singleton hn rest] at hcut
  exact (congrArg Prod.fst (Option.some.inj hcut)).symm

end ClosingTags

end BracketTags
