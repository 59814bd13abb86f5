import BracketTags.Proofs.Expression

/-!
# Names in a written expression

The expression of the tags of some names is written with the names in one of its
groups, whatever characters they are made of.  Here the names are read back.

*Signs.*  An expression is read sign by sign, where a backslash belongs to the
character after it (`Text.signs`).  Only a sign without a backslash has a
meaning of its own.  Each character of a name becomes one sign of its own,
whatever stands after the name (`Text.signs_escaped_append`), and it has no
meaning if it is special.

*The group.*  The text before the names and the text after their group are the
same for all names (`Tag.source_eq`).  The group ends at the first closing
bracket without a backslash (`Text.groupSigns`), and that is the one that was
written there (`Tag.groupSigns_source`).

*The names.*  The strokes without a backslash stand between the names, so the
group is split into the names at these strokes (`source_names`).
-/

namespace BracketTags

/-! ## Signs -/

/-- A character of a written expression. -/
inductive Sign where
  /-- The character by itself, which may have a meaning. -/
  | bare (c : Char)
  /-- The character after a backslash. -/
  | escaped (c : Char)
deriving DecidableEq

/-- The character without its backslash. -/
def Sign.char : Sign → Char
  | bare c => c
  | escaped c => c

/-- The sign that a character of a name is written as. -/
def writtenSign (c : Char) : Sign := if isSpecial c then .escaped c else .bare c

@[simp] theorem char_writtenSign (c : Char) : (writtenSign c).char = c := by
  rw [writtenSign]
  split <;> rfl

/-- A character that stands by itself in a name has no meaning. -/
theorem isSpecial_of_bare_eq {c d : Char} (h : .bare c = writtenSign d) : isSpecial c = false := by
  rw [writtenSign] at h
  split at h
  · cases h
  · next hd =>
      cases h
      exact Bool.eq_false_iff.mpr hd

namespace Text

/-- The signs of a written expression.  A backslash belongs to the character after it. -/
def signs : Text → List Sign
  | '\\' :: c :: t => .escaped c :: signs t
  | c :: t => .bare c :: signs t
  | [] => []

theorem signs_cons_of_ne {c : Char} (h : c ≠ '\\') (t : Text) :
    signs (c :: t) = .bare c :: signs t := by
  rw [signs]
  rintro d t' rfl
  exact absurd rfl h

theorem signs_escapedChar_append (c : Char) (t : Text) :
    signs (escapedChar c ++ t) = writtenSign c :: signs t := by
  rw [escapedChar, writtenSign]
  split
  · rfl
  · next hc =>
      refine signs_cons_of_ne ?_ t
      rintro rfl
      exact hc (by decide)

/-- A name ends with its last character, whatever stands after it. -/
theorem signs_escaped_append (t rest : Text) :
    signs (t.escaped ++ rest) = t.map writtenSign ++ signs rest := by
  induction t with
  | nil => rfl
  | cons c t ih =>
      rw [escaped] at ih
      rw [escaped, List.flatMap_cons, List.append_assoc, signs_escapedChar_append, ih,
        List.map_cons, List.cons_append]

end Text

/-! ## Alternatives -/

/-- Texts to choose from, as they are written. -/
def alternativesSource (ts : List Text) : Text := ['|'].intercalate (ts.map Text.escaped)

/-- The signs that texts to choose from are written with. -/
def alternativesSigns (ts : List Text) : List Sign :=
  [.bare '|'].intercalate (ts.map (List.map writtenSign))

/-- The texts to choose from that some signs mean. -/
def alternatives (signs : List Sign) : List Text :=
  (signs.splitOn (.bare '|')).map (List.map Sign.char)

theorem signs_alternativesSource_append (ts : List Text) (rest : Text) :
    Text.signs (alternativesSource ts ++ rest) = alternativesSigns ts ++ rest.signs := by
  rw [alternativesSource, alternativesSigns]
  induction ts with
  | nil => rfl
  | cons t ts ih =>
      cases ts with
      | nil => simpa using Text.signs_escaped_append t rest
      | cons u us =>
          have hstroke (v : Text) : Text.signs (['|'] ++ v) = .bare '|' :: v.signs :=
            Text.signs_cons_of_ne (by decide) v
          simp only [List.map_cons, List.intercalate_cons_cons] at ih ⊢
          rw [List.append_assoc, List.append_assoc, Text.signs_escaped_append, hstroke, ih]
          simp

/-- A stroke by itself stands in no name. -/
theorem bare_notMem_map_writtenSign {c : Char} (hc : isSpecial c = true) (t : Text) :
    .bare c ∉ t.map writtenSign := by
  intro h
  obtain ⟨d, -, hd⟩ := List.mem_map.mp h
  rw [isSpecial_of_bare_eq hd.symm] at hc
  cases hc

theorem alternatives_alternativesSigns {ts : List Text} (h : ts ≠ []) :
    alternatives (alternativesSigns ts) = ts := by
  have hsplit : (alternativesSigns ts).splitOn (.bare '|') = ts.map (List.map writtenSign) := by
    refine List.splitOn_intercalate _ (fun l hl => ?_) (by simpa using h)
    obtain ⟨t, -, rfl⟩ := List.mem_map.mp hl
    exact bare_notMem_map_writtenSign (by decide) t
  have hchars : List.map Sign.char ∘ List.map writtenSign = id := by
    funext t
    simp [Function.comp_def]
  rw [alternatives, hsplit, List.map_map, hchars, List.map_id]

/-- The only characters with a meaning are the strokes between the texts. -/
theorem eq_stroke_of_bare_mem {ts : List Text} {c : Char} (h : .bare c ∈ alternativesSigns ts)
    (hc : isSpecial c = true) : c = '|' := by
  rw [alternativesSigns] at h
  induction ts with
  | nil => cases h
  | cons t ts ih =>
      cases ts with
      | nil =>
          simp only [List.map_cons, List.map_nil, List.intercalate_singleton] at h
          exact absurd h (bare_notMem_map_writtenSign hc t)
      | cons u us =>
          simp only [List.map_cons, List.intercalate_cons_cons, List.mem_append,
            List.mem_singleton] at h ih
          rcases h with (h | h) | h
          · exact absurd h (bare_notMem_map_writtenSign hc t)
          · exact Sign.bare.inj h
          · exact ih h

/-- There is one stroke less than there are texts. -/
theorem count_stroke {ts : List Text} (h : ts ≠ []) :
    (alternativesSigns ts).count (.bare '|') + 1 = ts.length := by
  have hnone (t : Text) : (t.map writtenSign).count (.bare '|') = 0 :=
    List.count_eq_zero.mpr (bare_notMem_map_writtenSign (by decide) t)
  rw [alternativesSigns]
  induction ts with
  | nil => exact absurd rfl h
  | cons t ts ih =>
      cases ts with
      | nil => simpa using hnone t
      | cons u us =>
          have hrest := ih (List.cons_ne_nil u us)
          simp only [List.map_cons, List.intercalate_cons_cons] at hrest ⊢
          rw [List.count_append, List.count_append, hnone, List.count_singleton_self]
          simp only [List.length_cons] at hrest ⊢
          omega

/-! ## The group of the names -/

/-- The signs in the group of a label: those after its opening, up to the first closing bracket that
stands by itself. -/
def Text.groupSigns (t label : Text) : List Sign :=
  match cut? ("(?P<".toList ++ label ++ ">".toList) t with
  | some (_, rest) => rest.signs.takeWhile (· ≠ .bare ')')
  | none => []

namespace Pattern

variable {γ : Type} (label : γ → Text)

theorem source_char (c : Char) : (char c : Pattern γ).source label = escapedChar c := rfl

theorem source_alt (p q : Pattern γ) :
    (alt p q).source label = p.source label ++ '|' :: q.source label := rfl

theorem source_seq {p q : Pattern γ} (hp : p.isChoice = false) (hq : q.isChoice = false) :
    (seq p q).source label = p.source label ++ q.source label := by
  show enclosedIf p.isChoice (p.source label) ++ enclosedIf q.isChoice (q.source label) = _
  rw [hp, hq]
  rfl

theorem source_group (g : γ) (p : Pattern γ) :
    (group g p).source label = "(?P<".toList ++ label g ++ ">".toList ++ p.source label ++ [')'] :=
  rfl

/-- A text is no choice, so it is never enclosed. -/
theorem isChoice_literal (t : Text) : (literal t : Pattern γ).isChoice = false := by
  rw [literal]
  cases t with
  | nil => rfl
  | cons c t => cases t <;> rfl

theorem source_literal (t : Text) : (literal t).source label = t.escaped := by
  induction t with
  | nil => rfl
  | cons c t ih =>
      cases t with
      | nil => simp [literal, sequence, source_char, Text.escaped]
      | cons d ds =>
          have hcons : (literal (c :: d :: ds) : Pattern γ) = .seq (.char c) (literal (d :: ds)) :=
            rfl
          rw [hcons, source_seq label rfl (isChoice_literal _), ih]
          rfl

theorem source_choice (ts : List Text) :
    (choice (ts.map literal)).source label = alternativesSource ts := by
  rw [alternativesSource]
  induction ts with
  | nil => rfl
  | cons t ts ih =>
      cases ts with
      | nil => simpa [choice] using source_literal label t
      | cons u us =>
          have hcons : choice ((t :: u :: us).map literal) =
              .alt (literal t : Pattern γ) (choice ((u :: us).map literal)) := rfl
          rw [hcons, source_alt, ih, source_literal]
          simp

end Pattern

namespace Tag

/-- What is written before the names. -/
def sourceStart : Text := "\\[(?P<open_escape>\\[?)(?P<name>".toList

/-- What is written after the group of the names. -/
def sourceEnd (form : Form) : Text :=
  "(?![\\w-])(?P<attrs>[^\\]/]*(?:/(?!\\])[^\\]/]*)*?)(?:(?P<self_closing>/)\\]|\\](?:".toList ++
    (match form with
      | .full =>
          "(?P<content>[^\\[]*+(?:\\[(?!/(?P=name)\\])[^\\[]*+)*+)\\[/(?P=name)\\]".toList
      | .plain => "(?P<content>(?!))".toList) ++
    ")?)(?P<close_escape>\\]?)".toList

theorem source_restPattern (form : Form) :
    (restPattern form).source Field.label = sourceEnd form := by
  cases form with
  | full => decide +kernel
  | plain => decide +kernel

theorem source_eq (names : List Text) (form : Form) :
    source names form = sourceStart ++ (alternativesSource names ++ ')' :: sourceEnd form) := by
  have hrest : (restPattern form).isChoice = false := by cases form <;> rfl
  rw [source, expression_eq]
  simp only [Pattern.sequence]
  rw [Pattern.source_seq _ rfl rfl, Pattern.source_seq _ rfl rfl, Pattern.source_seq _ rfl hrest,
    Pattern.source_group Field.label .name, Pattern.source_choice Field.label names,
    source_restPattern]
  simp only [List.append_assoc]
  rfl

theorem sourceEnd_injective : Function.Injective sourceEnd := by
  intro form form' h
  cases form with
  | full =>
      cases form' with
      | full => rfl
      | plain => exact absurd h (by decide +kernel)
  | plain =>
      cases form' with
      | full => exact absurd h (by decide +kernel)
      | plain => rfl

/-- The group of the names ends where it was closed, whatever the names are. -/
theorem groupSigns_source (names : List Text) (form : Form) :
    (source names form).groupSigns Field.name.label = alternativesSigns names := by
  have hstart : Text.cut? ("(?P<".toList ++ Field.name.label ++ ">".toList) sourceStart =
      some ("\\[(?P<open_escape>\\[?)".toList, []) := by decide +kernel
  have hbracket : Text.signs (')' :: sourceEnd form) = .bare ')' :: (sourceEnd form).signs :=
    Text.signs_cons_of_ne (by decide) _
  have hinside : ∀ s ∈ alternativesSigns names, decide (s ≠ .bare ')') = true := by
    intro s hs
    refine decide_eq_true fun heq => ?_
    subst heq
    exact absurd (eq_stroke_of_bare_mem hs (by decide)) (by decide)
  rw [Text.groupSigns, source_eq, Text.cut?_append_of_some hstart]
  dsimp only
  rw [List.nil_append, signs_alternativesSource_append, hbracket,
    List.takeWhile_append_of_pos hinside, List.takeWhile_cons_of_neg (by decide), List.append_nil]

end Tag

/-- The names of an expression can be read off from how it is written, in both forms and whatever
characters they are made of.  They are the texts between the strokes in the group of the names.

What stands around the group is the same for all names, so no name ends the group.  Nothing in the
group has a meaning but one stroke less than there are names.  So expressions of different names or
of different forms are written differently. -/
theorem source_names {names : List Text} (h : names ≠ []) (form : Form) :
    alternatives ((Tag.source names form).groupSigns Field.name.label) = names ∧
    (∃ inside, Tag.source names form = Tag.sourceStart ++ (inside ++ ')' :: Tag.sourceEnd form) ∧
      inside.signs = (Tag.source names form).groupSigns Field.name.label) ∧
    (∀ c, .bare c ∈ (Tag.source names form).groupSigns Field.name.label → isSpecial c = true →
      c = '|') ∧
    ((Tag.source names form).groupSigns Field.name.label).count (.bare '|') + 1 = names.length ∧
    ∀ names' form', names' ≠ [] → Tag.source names' form' = Tag.source names form →
      names' = names ∧ form' = form := by
  rw [Tag.groupSigns_source]
  refine ⟨alternatives_alternativesSigns h,
    ⟨alternativesSource names, Tag.source_eq names form, ?_⟩,
    fun c => eq_stroke_of_bare_mem, count_stroke h, fun names' form' h' heq => ?_⟩
  · have hsigns := signs_alternativesSource_append names []
    rwa [List.append_nil, Text.signs, List.append_nil] at hsigns
  · have hnames : names' = names := by
      rw [← alternatives_alternativesSigns h', ← alternatives_alternativesSigns h,
        ← Tag.groupSigns_source names' form', heq, Tag.groupSigns_source]
    subst hnames
    rw [Tag.source_eq, Tag.source_eq] at heq
    have hend := List.append_cancel_left (List.append_cancel_left heq)
    exact ⟨rfl, Tag.sourceEnd_injective (List.cons.inj hend).2⟩

/-- Names made of strokes, brackets and backslashes are read back, and a stroke in a name does not
make two names of it. -/
theorem source_names_syntax :
    alternatives ((Tag.source [[], "|)".toList, "a\\".toList, "(?P<name>".toList]
      .plain).groupSigns Field.name.label) =
        [[], "|)".toList, "a\\".toList, "(?P<name>".toList] ∧
    Tag.source ["a|b".toList] .full ≠ Tag.source [['a'], ['b']] .full := by
  refine ⟨(source_names (by decide) .plain).1, fun heq => ?_⟩
  obtain ⟨hnames, -⟩ := (source_names (by decide) .full).2.2.2.2 _ _ (by decide) heq
  exact absurd hnames (by decide)

/-- No names at all are written as the empty name is. -/
example : Tag.source [] .full = Tag.source [[]] .full := rfl

end BracketTags
