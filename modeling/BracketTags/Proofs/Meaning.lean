import BracketTags.Proofs.Expression

/-!
# The meaning of the full expression

What the full expression matches at an offset of a text is told here by offsets
alone.

*Viable candidates.*  A candidate is viable at an offset if the bracket, its
marker and its name stand there, the name ends, and a closing bracket stands at
or after its end (`Candidate.Viable`).  The expression matches exactly where a
candidate is viable, and it takes the first viable one.

*Forced fields.*  The offset of the first closing bracket settles the
attributes and whether the tag closes itself, and the first closing tag of the
name after it settles the content (`Candidate.Ends`).  So there is only one
occurrence that a candidate describes (`Candidate.Describes.unique`).
-/

namespace BracketTags

/-! ## Places in a text -/

/-- The part stands in the text at offset `k`, and at no offset from `q` on before that. -/
structure Text.FirstFrom (part t : Text) (q k : Nat) : Prop where
  le : q ≤ k
  stands : part <+: t.drop k
  first : ∀ j, q ≤ j → j < k → ¬ part <+: t.drop j

namespace Text

theorem FirstFrom.unique {part t : Text} {q k k' : Nat} (h : FirstFrom part t q k)
    (h' : FirstFrom part t q k') : k = k' := by
  rcases Nat.lt_trichotomy k k' with hlt | heq | hgt
  · exact absurd h.stands (h'.first k h.le hlt)
  · exact heq
  · exact absurd h'.stands (h.first k' h'.le hgt)

theorem singleton_prefix_drop_iff {c : Char} {t : Text} {k : Nat} :
    [c] <+: t.drop k ↔ t[k]? = some c := by
  rw [singleton_prefix_iff, List.head?_drop]

/-- A cut of the rest of a text, by offsets. -/
theorem cut?_drop_eq_some_iff {part t u v : Text} {q : Nat} :
    cut? part (t.drop q) = some (u, v) ↔
      ∃ k, FirstFrom part t q k ∧ u = t.slice q k ∧ v = t.drop (k + part.length) := by
  rw [cut?_eq_some_iff]
  constructor
  · rintro ⟨ht, hfirst⟩
    have hk : t.drop (q + u.length) = part ++ v := by
      rw [← List.drop_drop, ht, List.drop_left]
    refine ⟨q + u.length, ⟨Nat.le_add_right q _, ⟨v, hk.symm⟩, fun j hj hlt => ?_⟩, ?_, ?_⟩
    · have hdrop := hfirst (j - q) (by omega)
      rwa [List.drop_drop, Nat.add_sub_cancel' hj] at hdrop
    · rw [slice, ht, Nat.add_sub_cancel_left, List.take_left]
    · rw [← List.drop_drop, hk, List.drop_left]
  · rintro ⟨k, hk, rfl, rfl⟩
    have hdrop : (t.drop q).drop (k - q) = part ++ t.drop (k + part.length) := by
      obtain ⟨v, hv⟩ := hk.stands
      rw [List.drop_drop, Nat.add_sub_cancel' hk.le, ← List.drop_drop, ← hv, List.drop_left]
    refine ⟨?_, fun j hj => ?_⟩
    · rw [← hdrop, slice, List.take_append_drop]
    · rw [List.drop_drop]
      refine hk.first (q + j) (Nat.le_add_right q j) ?_
      rw [slice, List.length_take] at hj
      omega

theorem cut?_drop_eq_none_iff {part t : Text} {q : Nat} :
    cut? part (t.drop q) = none ↔ ∀ j, q ≤ j → ¬ part <+: t.drop j := by
  rw [cut?_eq_none_iff]
  constructor
  · intro h j hj hpre
    refine h (List.IsInfix.trans hpre.isInfix ?_)
    rw [← Nat.add_sub_cancel' hj, ← List.drop_drop]
    exact (List.drop_suffix _ _).isInfix
  · rintro h ⟨u, v, huv⟩
    refine h (q + u.length) (Nat.le_add_right q _) ⟨v, ?_⟩
    rw [← List.drop_drop, ← huv, List.append_assoc, List.drop_left]

theorem FirstFrom.lt_length {c : Char} {t : Text} {q k : Nat} (h : FirstFrom [c] t q k) :
    k < t.length := by
  obtain ⟨hlt, -⟩ := List.getElem?_eq_some_iff.mp (singleton_prefix_drop_iff.mp h.stands)
  exact hlt

theorem length_slice {t : Text} {q k : Nat} (h : k ≤ t.length) : (t.slice q k).length = k - q := by
  rw [slice, List.length_take, List.length_drop]
  omega

theorem getLast?_slice {t : Text} {q k : Nat} (h : k ≤ t.length) {c : Char} :
    (t.slice q k).getLast? = some c ↔ q < k ∧ t[k - 1]? = some c := by
  rw [List.getLast?_eq_getElem?, length_slice h]
  by_cases hlt : q < k
  · rw [slice, List.getElem?_take_of_lt (by omega), List.getElem?_drop,
      show q + (k - q - 1) = k - 1 by omega]
    exact (and_iff_right hlt).symm
  · simp [slice, show k - q = 0 by omega, hlt]

theorem dropLast_slice {t : Text} {q k : Nat} (h : k ≤ t.length) :
    (t.slice q k).dropLast = t.slice q (k - 1) := by
  rw [List.dropLast_eq_take, length_slice h, slice, slice, List.take_take]
  congr 1
  omega

end Text

/-! ## Viable candidates -/

namespace Candidate

/-- The offset of the name of a candidate that begins at offset `i`. -/
def nameOffset (c : Candidate) (i : Nat) : Nat := i + 1 + (openingMarker c.marked).length

/-- The offset just past the name of a candidate that begins at offset `i`. -/
def nameStop (c : Candidate) (i : Nat) : Nat := c.nameOffset i + c.name.length

/-- A tag of the candidate begins at offset `i`. -/
structure Viable (c : Candidate) (t : Text) (i : Nat) : Prop where
  /-- A bracket stands there. -/
  bracket : t[i]? = some '['
  /-- The marker is a second bracket. -/
  marker : c.marked = true → t[i + 1]? = some '['
  /-- The name stands after them. -/
  name : c.name <+: t.drop (c.nameOffset i)
  /-- No word character and no hyphen follows the name. -/
  ends : ∀ d, t[c.nameStop i]? = some d → isWord d = false ∧ d ≠ '-'
  /-- A closing bracket follows the name. -/
  closes : ∃ k, c.nameStop i ≤ k ∧ t[k]? = some ']'

/-- The first of the viable candidates, in the order in which they are tried. -/
def FirstViable (names : List Text) (t : Text) (i : Nat) (c : Candidate) : Prop :=
  ∃ before after, all names = before ++ c :: after ∧ c.Viable t i ∧ ∀ b ∈ before, ¬ b.Viable t i

theorem FirstViable.viable {names : List Text} {t : Text} {i : Nat} {c : Candidate}
    (h : FirstViable names t i c) : c.Viable t i := by
  obtain ⟨_, _, -, hviable, -⟩ := h
  exact hviable

/-! ## Forced fields -/

/-- The fields of a tag of the name `name` that are settled by its first closing bracket, which
stands at offset `k`, when the name ends at offset `q`: the attributes, whether the tag closes
itself, the content, and the offset of the end without a marker. -/
inductive Ends (name t : Text) (q k : Nat) : Text → Bool → Option Text → Nat → Prop where
  /-- A slash before the bracket closes the tag. -/
  | selfClosing (hlt : q < k) (hslash : t[k - 1]? = some '/') :
      Ends name t q k (t.slice q (k - 1)) true none (k + 1)
  /-- The tag wraps the text up to the first closing tag. -/
  | wrapping (j : Nat) (hslash : ¬ (q < k ∧ t[k - 1]? = some '/'))
      (hclose : Text.FirstFrom (closingTag name) t (k + 1) j) :
      Ends name t q k (t.slice q k) false (some (t.slice (k + 1) j))
        (j + (closingTag name).length)
  /-- The tag only opens, since no closing tag follows. -/
  | opening (hslash : ¬ (q < k ∧ t[k - 1]? = some '/'))
      (hopen : ∀ j, k + 1 ≤ j → ¬ closingTag name <+: t.drop j) :
      Ends name t q k (t.slice q k) false none (k + 1)

/-- The occurrence at offset `i` that a candidate begins, field by field. -/
structure Describes (c : Candidate) (t : Text) (i : Nat) (o : Occurrence) : Prop where
  start : o.start = i
  name : o.tag.name = c.name
  openText : o.tag.openText = openingMarker c.marked
  /-- The first closing bracket settles the other fields, and the marker after the tag is a
  closing bracket exactly if one stands there. -/
  bracket : ∃ k e, Text.FirstFrom [']'] t (c.nameStop i) k ∧
    Ends c.name t (c.nameStop i) k o.tag.attributes o.tag.isSelfClosing o.tag.content? e ∧
    o.tag.closeText = (if t[e]? = some ']' then [']'] else []) ∧
    o.stop = e + o.tag.closeText.length
  text : o.text = t.slice i o.stop

/-- The first closing bracket settles its fields. -/
theorem Ends.unique {name t : Text} {q k : Nat} {a a' : Text} {s s' : Bool}
    {content content' : Option Text} {e e' : Nat} (h : Ends name t q k a s content e)
    (h' : Ends name t q k a' s' content' e') : a = a' ∧ s = s' ∧ content = content' ∧ e = e' := by
  cases h with
  | selfClosing hlt hslash =>
      cases h' with
      | selfClosing _ _ => exact ⟨rfl, rfl, rfl, rfl⟩
      | wrapping _ hno _ => exact absurd ⟨hlt, hslash⟩ hno
      | opening hno _ => exact absurd ⟨hlt, hslash⟩ hno
  | wrapping j hno hclose =>
      cases h' with
      | selfClosing hlt hslash => exact absurd ⟨hlt, hslash⟩ hno
      | wrapping j' _ hclose' =>
          obtain rfl := hclose.unique hclose'
          exact ⟨rfl, rfl, rfl, rfl⟩
      | opening _ hopen => exact absurd hclose.stands (hopen j hclose.le)
  | opening hno hopen =>
      cases h' with
      | selfClosing hlt hslash => exact absurd ⟨hlt, hslash⟩ hno
      | wrapping j _ hclose => exact absurd hclose.stands (hopen j hclose.le)
      | opening _ _ => exact ⟨rfl, rfl, rfl, rfl⟩

end Candidate

/-- A tag is settled by its fields. -/
theorem Tag.ext_fields {g g' : Tag} (hname : g.name = g'.name)
    (hattr : g.attributes = g'.attributes) (hself : g.isSelfClosing = g'.isSelfClosing)
    (hcontent : g.content? = g'.content?) (hopen : g.openText = g'.openText)
    (hclose : g.closeText = g'.closeText) : g = g' := by
  obtain ⟨name, attributes, body, openMarker, closeMarker⟩ := g
  obtain ⟨name', attributes', body', openMarker', closeMarker'⟩ := g'
  have hbody : body = body' := by
    cases body <;> cases body' <;>
      simp_all [isSelfClosing, content?, Body.content?]
  have hom : openMarker = openMarker' := by
    cases openMarker <;> cases openMarker' <;> simp_all [openText]
  have hcm : closeMarker = closeMarker' := by
    cases closeMarker <;> cases closeMarker' <;> simp_all [closeText]
  simp_all

namespace Candidate

/-- A candidate describes one occurrence. -/
theorem Describes.unique {c : Candidate} {t : Text} {i : Nat} {o o' : Occurrence}
    (h : c.Describes t i o) (h' : c.Describes t i o') : o = o' := by
  obtain ⟨k, e, hk, hends, hclose, hstop⟩ := h.bracket
  obtain ⟨k', e', hk', hends', hclose', hstop'⟩ := h'.bracket
  obtain rfl := hk.unique hk'
  obtain ⟨hattr, hself, hcontent, rfl⟩ := hends.unique hends'
  have hcloseText : o.tag.closeText = o'.tag.closeText := hclose.trans hclose'.symm
  have htag : o.tag = o'.tag := Tag.ext_fields (h.name.trans h'.name.symm) hattr hself hcontent
    (h.openText.trans h'.openText.symm) hcloseText
  have hstops : o.stop = o'.stop := by rw [hstop, hstop', hcloseText]
  have htext : o.text = o'.text := by rw [h.text, h'.text, hstops]
  have hstart : o.start = o'.start := h.start.trans h'.start.symm
  cases o
  cases o'
  simp_all

/-! ## Readings by offsets -/

theorem opening_prefix_drop_iff {c : Candidate} {t : Text} {i : Nat} :
    c.opening <+: t.drop i ↔
      t[i]? = some '[' ∧ (c.marked = true → t[i + 1]? = some '[') ∧
        c.name <+: t.drop (c.nameOffset i) := by
  have hmarker : openingMarker c.marked <+: t.drop (i + 1) ↔
      (c.marked = true → t[i + 1]? = some '[') := by
    cases hm : c.marked with
    | false => simp [openingMarker]
    | true => simpa [openingMarker] using Text.singleton_prefix_drop_iff
  rw [opening, Text.append_prefix_iff, Text.append_prefix_iff, Text.singleton_prefix_drop_iff,
    List.drop_drop, List.drop_drop, List.length_append, List.length_singleton, hmarker, and_assoc,
    nameOffset, Nat.add_assoc]

theorem nameEnds_drop_iff {t : Text} {q : Nat} :
    nameEnds (t.drop q) = true ↔ ∀ d, t[q]? = some d → isWord d = false ∧ d ≠ '-' := by
  rw [← List.head?_drop]
  cases t.drop q with
  | nil => simp [nameEnds]
  | cons d ds => simp [nameEnds]

/-- A candidate can be read at an offset, and the first closing bracket is at offset `k`. -/
theorem read?_drop_eq_some_iff {form : Form} {c : Candidate} {t : Text} {i : Nat} {g : Tag} :
    c.read? form (t.drop i) = some g ↔
      c.opening <+: t.drop i ∧ nameEnds (t.drop (c.nameStop i)) = true ∧
        ∃ k, Text.FirstFrom [']'] t (c.nameStop i) k ∧
          c.tag form (t.slice (c.nameStop i) k) (t.drop (k + 1)) = g := by
  have hdrop : c.nameStop i = i + c.opening.length := by
    simp [nameStop, nameOffset, opening]
    omega
  rw [read?_eq_some_iff]
  constructor
  · rintro ⟨rest, ht, hg⟩
    have hrest : t.drop (c.nameStop i) = rest := by
      rw [hdrop, ← List.drop_drop, ht, List.drop_left]
    rw [← hrest, readRest?_eq_some_iff] at hg
    obtain ⟨hend, inner, after, hcut, hg⟩ := hg
    obtain ⟨k, hk, rfl, rfl⟩ := Text.cut?_drop_eq_some_iff.mp hcut
    exact ⟨⟨rest, ht.symm⟩, hend, k, hk, hg⟩
  · rintro ⟨⟨rest, ht⟩, hend, k, hk, hg⟩
    refine ⟨t.drop (c.nameStop i), ?_, readRest?_eq_some_iff.mpr ⟨hend, _, _, ?_, hg⟩⟩
    · rw [hdrop, ← List.drop_drop, ← ht, List.drop_left]
    · exact Text.cut?_drop_eq_some_iff.mpr ⟨k, hk, rfl, rfl⟩

/-- Exactly the viable candidates can be read. -/
theorem viable_iff_read? (form : Form) {c : Candidate} {t : Text} {i : Nat} :
    c.Viable t i ↔ ∃ g, c.read? form (t.drop i) = some g := by
  constructor
  · rintro ⟨hbracket, hmarker, hname, hends, k, hk, hclose⟩
    have hcut : Text.cut? [']'] (t.drop (c.nameStop i)) ≠ none := fun hnone =>
      Text.cut?_drop_eq_none_iff.mp hnone k hk (Text.singleton_prefix_drop_iff.mpr hclose)
    obtain ⟨⟨inner, after⟩, hcut⟩ := Option.ne_none_iff_exists'.mp hcut
    obtain ⟨k, hk, -, -⟩ := Text.cut?_drop_eq_some_iff.mp hcut
    exact ⟨_, read?_drop_eq_some_iff.mpr
      ⟨opening_prefix_drop_iff.mpr ⟨hbracket, hmarker, hname⟩, nameEnds_drop_iff.mpr hends, k, hk,
        rfl⟩⟩
  · rintro ⟨g, hg⟩
    obtain ⟨hopen, hends, k, hk, -⟩ := read?_drop_eq_some_iff.mp hg
    obtain ⟨hbracket, hmarker, hname⟩ := opening_prefix_drop_iff.mp hopen
    exact ⟨hbracket, hmarker, hname, nameEnds_drop_iff.mp hends, k, hk.le,
      Text.singleton_prefix_drop_iff.mp hk.stands⟩

/-- The body that is read after the first closing bracket, by offsets. -/
theorem ends_bodyAfter (name : Text) {t : Text} {q k : Nat} (hk : Text.FirstFrom [']'] t q k) :
    ∃ e, Ends name t q k (attributesIn (t.slice q k))
        (decide ((bodyAfter .full name (t.slice q k) (t.drop (k + 1))).1 = .selfClosing))
        (bodyAfter .full name (t.slice q k) (t.drop (k + 1))).1.content? e ∧
      (bodyAfter .full name (t.slice q k) (t.drop (k + 1))).2 = t.drop e ∧
      q + (attributesIn (t.slice q k)).length +
        ((bodyAfter .full name (t.slice q k) (t.drop (k + 1))).1.render name).length = e := by
  have hlen := Nat.le_of_lt hk.lt_length
  have hle := hk.le
  by_cases hslash : (t.slice q k).getLast? = some '/'
  · obtain ⟨hlt, hs⟩ := (Text.getLast?_slice hlen).mp hslash
    rw [bodyAfter_of_slash hslash, attributesIn, if_pos hslash, Text.dropLast_slice hlen]
    refine ⟨k + 1, .selfClosing hlt hs, rfl, ?_⟩
    rw [Text.length_slice (by omega)]
    simp [Body.render]
    omega
  · have hno := mt (Text.getLast?_slice hlen).mpr hslash
    rw [attributesIn_of_ne hslash]
    cases hw : wrapped? .full name (t.drop (k + 1)) with
    | none =>
        have hcut : Text.cut? (closingTag name) (t.drop (k + 1)) = none := hw
        have hopen := Text.cut?_drop_eq_none_iff.mp hcut
        rw [bodyAfter_of_not_wrapped hslash hw]
        refine ⟨k + 1, .opening hno hopen, rfl, ?_⟩
        rw [Text.length_slice hlen]
        simp [Body.render]
        omega
    | some p =>
        obtain ⟨content, rest⟩ := p
        obtain ⟨j, hj, rfl, rfl⟩ := Text.cut?_drop_eq_some_iff.mp (cut?_of_wrapped? hw)
        rw [bodyAfter_of_wrapped hslash hw]
        refine ⟨j + (closingTag name).length, .wrapping j hno hj, rfl, ?_⟩
        have hjle := hj.le
        have hjlen : j ≤ t.length := by
          have hlength := hj.stands.length_le
          simp [closingTag] at hlength
          omega
        simp only [Body.render, List.length_append, List.length_singleton,
          Text.length_slice hlen, Text.length_slice hjlen]
        omega

/-- A candidate describes the tag that is read. -/
theorem describes_of_read? {c : Candidate} {t : Text} {i : Nat} {g : Tag}
    (h : c.read? .full (t.drop i) = some g) : c.Describes t i ⟨g, i, g.render⟩ := by
  have hrender := render_prefix_of_read? h
  obtain ⟨-, -, k, hk, rfl⟩ := read?_drop_eq_some_iff.mp h
  obtain ⟨e, hends, hrest, hlen⟩ := ends_bodyAfter c.name hk
  have hclose : (c.tag .full (t.slice (c.nameStop i) k) (t.drop (k + 1))).closeText =
      if t[e]? = some ']' then [']'] else [] := by
    rw [Tag.closeText, tag, hrest, List.head?_drop]
    simp
  have hstop : i + (c.tag .full (t.slice (c.nameStop i) k) (t.drop (k + 1))).render.length =
      e + (c.tag .full (t.slice (c.nameStop i) k) (t.drop (k + 1))).closeText.length := by
    rw [Tag.render_eq, openText_tag]
    simp only [List.length_append, List.length_singleton]
    simp only [nameStop, nameOffset] at hlen ⊢
    simp only [tag] at hlen ⊢
    omega
  refine ⟨rfl, rfl, rfl, ⟨k, e, hk, hends, hclose, hstop⟩, ?_⟩
  simp only [Occurrence.stop, Text.slice, Nat.add_sub_cancel_left]
  exact List.prefix_iff_eq_take.mp hrender

end Candidate

/-! ## The full expression -/

namespace Tag

/-- The tag that is read is the one that the first viable candidate describes. -/
theorem read?_drop_eq_some_iff {names : List Text} {t : Text} {i : Nat} {g : Tag} :
    read? names .full (t.drop i) = some g ↔
      ∃ c, Candidate.FirstViable names t i c ∧ c.Describes t i ⟨g, i, g.render⟩ := by
  constructor
  · intro h
    obtain ⟨before, c, after, hall, hg, hnone⟩ := List.findSome?_eq_some_iff.mp h
    refine ⟨c, ⟨before, after, hall, (Candidate.viable_iff_read? .full).mpr ⟨g, hg⟩, ?_⟩,
      Candidate.describes_of_read? hg⟩
    intro b hb hviable
    obtain ⟨g', hg'⟩ := (Candidate.viable_iff_read? .full).mp hviable
    rw [hnone b hb] at hg'
    cases hg'
  · rintro ⟨c, ⟨before, after, hall, hviable, hfirst⟩, hdesc⟩
    obtain ⟨g', hg'⟩ := (Candidate.viable_iff_read? .full).mp hviable
    have hsame := (Candidate.describes_of_read? hg').unique hdesc
    obtain rfl : g' = g := congrArg Occurrence.tag hsame
    refine List.findSome?_eq_some_iff.mpr ⟨before, c, after, hall, hg', fun b hb => ?_⟩
    rw [Option.eq_none_iff_forall_ne_some]
    exact fun g' hb' => hfirst b hb ((Candidate.viable_iff_read? .full).mpr ⟨g', hb'⟩)

/-- A tag can be read exactly where a candidate is viable. -/
theorem isSome_read?_drop_iff {names : List Text} {t : Text} {i : Nat} :
    (read? names .full (t.drop i)).isSome ↔ ∃ c ∈ Candidate.all names, c.Viable t i := by
  rw [read?, List.findSome?_isSome_iff]
  simp only [Option.isSome_iff_exists, Candidate.viable_iff_read? .full]

/-- The full expression matches at an offset exactly if a candidate is viable there.  Its match is
the occurrence that the first viable candidate describes, and the parts it keeps are those of the
tag. -/
theorem full_expression_matches {names : List Text} (hn : names ≠ []) (t : Text) (i : Nat) :
    (((expression names .full).found? i (t.drop i)).isSome ↔
      ∃ c ∈ Candidate.all names, c.Viable t i) ∧
    (∀ o, ((expression names .full).found? i (t.drop i)).map Occurrence.ofFound = some o ↔
      ∃ c, Candidate.FirstViable names t i c ∧ c.Describes t i o) ∧
    (∀ m, (expression names .full).found? i (t.drop i) = some m →
      ∀ f, m.part? f = (Occurrence.ofFound m).tag.part? f) := by
  rw [found?_expression hn]
  refine ⟨?_, fun o => ?_, ?_⟩
  · rw [Option.isSome_map, isSome_read?_drop_iff]
  · rw [Option.map_map, Option.map_eq_some_iff]
    constructor
    · rintro ⟨g, hg, rfl⟩
      rw [Function.comp_apply, Occurrence.ofFound_found (render_prefix_of_read? hg)]
      exact read?_drop_eq_some_iff.mp hg
    · rintro ⟨c, hfirst, hdesc⟩
      obtain ⟨g, hg⟩ := (Candidate.viable_iff_read? .full).mp hfirst.viable
      have ho : (⟨g, i, g.render⟩ : Occurrence) = o :=
        (Candidate.describes_of_read? hg).unique hdesc
      have hread : read? names .full (t.drop i) = some g :=
        read?_drop_eq_some_iff.mpr ⟨c, hfirst, Candidate.describes_of_read? hg⟩
      refine ⟨g, hread, ?_⟩
      rw [Function.comp_apply, Occurrence.ofFound_found (render_prefix_of_read? hread), ho]
  · intro m hm f
    obtain ⟨g, hg, rfl⟩ := Option.map_eq_some_iff.mp hm
    have hpre := render_prefix_of_read? hg
    rw [part?_found hpre, Occurrence.ofFound_found hpre]

/-- A name with a bracket in it does not win over a marker, and a slash inside the brackets does
not close the tag. -/
theorem full_expression_matches_marked :
    [['[', 'b'], ['b']] ≠ [] ∧
    ∃ c, Candidate.FirstViable [['[', 'b'], ['b']] "x[[b k/v][c][/b]]".toList 1 c ∧
      c.Describes "x[[b k/v][c][/b]]".toList 1
        ⟨⟨['b'], " k/v".toList, .wrapping "[c]".toList, true, true⟩, 1,
          "[[b k/v][c][/b]]".toList⟩ :=
  ⟨by decide, ((full_expression_matches (by decide) "x[[b k/v][c][/b]]".toList 1).2.1 _).mp
    (by decide)⟩

end Tag

end BracketTags
