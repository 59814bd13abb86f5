import BracketTags.Proofs.Reading

/-!
# What the expressions of tags match

An expression of tags is tried part by part, and most ways through it fail.

*Attributes.*  The attribute text ends where a closing bracket stands or a
slash before one.  Whatever follows it fails at any other place, so of all
numbers of characters and rounds only one goes on (`attempt_attributesPattern`).

*Content.*  The content gives nothing back, and it stops at the first closing
tag or at the end of the text (`attempt_wrappingPattern`).

*Names.*  The marker and the name are tried in the order of the candidates.

Together these say that an expression matches where a tag can be read
(`Tag.matchStart?_expression`).
-/

namespace BracketTags

/-! ## The end of a match -/

namespace Tag

/-- The offset of the name. -/
def nameStart (g : Tag) : Nat := 1 + g.openText.length

/-- The offset of the attribute text. -/
def attributesStart (g : Tag) : Nat := g.nameStart + g.name.length

/-- The offset just past the attribute text. -/
def bodyStart (g : Tag) : Nat := g.attributesStart + g.attributes.length

/-- The offset of the marker after the tag. -/
def markerStart (g : Tag) : Nat := g.bodyStart + (g.body.render g.name).length

theorem nameStart_eq (g : Tag) : g.nameStart = (['['] ++ g.openText).length := by
  rw [List.length_append, List.length_singleton, nameStart]

theorem attributesStart_eq (g : Tag) :
    g.attributesStart = (['['] ++ g.openText ++ g.name).length := by
  rw [List.length_append, ← nameStart_eq, attributesStart]

theorem bodyStart_eq (g : Tag) :
    g.bodyStart = (['['] ++ g.openText ++ g.name ++ g.attributes).length := by
  rw [List.length_append, ← attributesStart_eq, bodyStart]

theorem markerStart_eq (g : Tag) :
    g.markerStart =
      (['['] ++ g.openText ++ g.name ++ g.attributes ++ g.body.render g.name).length := by
  rw [List.length_append, ← bodyStart_eq, markerStart]

theorem length_render (g : Tag) : g.render.length = g.markerStart + g.closeText.length := by
  rw [render_eq, List.length_append, ← markerStart_eq]

/-- The parts of a tag that stands at the start of a text. -/
def captures (g : Tag) (t : Text) : Field → Option Capture
  | .openMarker => some ⟨t.drop 1, g.openText.length⟩
  | .name => some ⟨t.drop g.nameStart, g.name.length⟩
  | .attributes => some ⟨t.drop g.attributesStart, g.attributes.length⟩
  | .selfClosing => if g.isSelfClosing then some ⟨t.drop g.bodyStart, 1⟩ else none
  | .content => g.content?.map fun content => ⟨t.drop (g.bodyStart + 1), content.length⟩
  | .closeMarker => some ⟨t.drop g.markerStart, g.closeText.length⟩

/-- The state after a tag that stands at the start of a text. -/
def progress (g : Tag) (t : Text) : Progress Field :=
  ⟨t.drop g.render.length, g.render.length, g.captures t⟩

end Tag

/-- The state after the body of a tag. -/
def Body.pass (name : Text) (s : Progress Field) : Body → Progress Field
  | .opening => s.skip 1
  | .selfClosing => (s.keepNext .selfClosing 1).skip 1
  | .wrapping content => ((s.skip 1).keepNext .content content.length).skip (closingTag name).length

/-- The state after the bracket and the marker of a tag. -/
def Progress.afterMarker (marked : Bool) (t : Text) : Progress Field :=
  ((Progress.start t).skip 1).keepNext .openMarker (openingMarker marked).length

/-- The state after the bracket, the marker and the name of a candidate. -/
def Candidate.progress (c : Candidate) (t : Text) : Progress Field :=
  (Progress.afterMarker c.marked t).keepNext .name c.name.length

/-- The state after the marker at the end of a tag. -/
def Progress.passMarker (s : Progress Field) : Progress Field :=
  s.keepNext .closeMarker (if s.rest.head? = some ']' then 1 else 0)

namespace Tag

open Pattern

/-! ## Markers and names -/

theorem attempt_marker (g : Field) (c : Char) (next : Follow Field) (s : Progress Field) :
    attempt (.group g (.optional (.char c))) next s =
      (if s.rest.head? = some c then next (s.keepNext g 1) else none).or
        (next (s.keepNext g 0)) := by
  rw [attempt, attempt_optional, attempt_char, after]
  by_cases h : s.rest.head? = some c
  · rw [if_pos (Text.singleton_prefix_iff.mpr h), if_pos h]
    rfl
  · rw [if_neg (mt Text.singleton_prefix_iff.mp h), if_neg h]
    rfl

theorem attempt_closeMarkerPattern (s : Progress Field) :
    attempt closeMarkerPattern some s = some s.passMarker := by
  rw [closeMarkerPattern, attempt_marker, Progress.passMarker]
  by_cases h : s.rest.head? = some ']'
  · rw [if_pos h, if_pos h]
    rfl
  · rw [if_neg h, if_neg h]
    rfl

/-- The names are tried in order. -/
theorem attempt_names {names : List Text} (hn : names ≠ []) (next : Follow Field)
    (s : Progress Field) :
    attempt (.group .name (choice (names.map literal))) next s =
      names.findSome? fun name =>
        if name <+: s.rest then next (s.keepNext .name name.length) else none := by
  rw [attempt, attempt_choice (by simpa using hn), List.findSome?_map]
  congr 1
  funext name
  rw [Function.comp_apply, attempt_literal]
  rfl

/-- A name goes on where no word character and no hyphen follows. -/
theorem attempt_nameEnd (next : Follow Field) (s : Progress Field) :
    attempt (.notAhead (.one (.of [.word, .exact '-']))) next s =
      if nameEnds s.rest then next s else none := by
  obtain ⟨rest, taken, captures⟩ := s
  cases rest with
  | nil => simp [attempt, nameEnds]
  | cons c cs =>
      have hc : (CharClass.of [.word, .exact '-']).has c = (isWord c || c == '-') := by
        simp only [CharClass.of, CharClass.has, CharKind.has, List.any_cons, List.any_nil,
          Bool.or_false, Bool.bne_false]
        exact congrArg (isWord c || ·) BEq.comm
      by_cases h : (isWord c || c == '-') = true
      · simp only [attempt, nameEnds, hc, h]
        rfl
      · simp only [attempt, nameEnds, hc, h]
        rfl

/-! ## Attributes -/

/-- What follows the attribute text fails where neither a closing bracket nor a slash before one
stands. -/
def EndsAttributes (next : Follow Field) : Prop :=
  ∀ s, ¬ [']'] <+: s.rest → ¬ ['/', ']'] <+: s.rest → next s = none

/-- What follows the attribute text, tried only at its end. -/
def afterAttributes (next : Follow Field) : Follow Field := fun s =>
  (Text.cut? [']'] s.rest).bind fun p => next (s.skip (attributesIn p.1).length)

theorem afterAttributes_nil (next : Follow Field) {s : Progress Field} (h : s.rest = []) :
    afterAttributes next s = none := by
  rw [afterAttributes, h]
  rfl

theorem afterAttributes_of_bracket (next : Follow Field) {s : Progress Field}
    (h : [']'] <+: s.rest) : afterAttributes next s = next s := by
  rw [afterAttributes, Text.cut?_of_start h]
  rfl

theorem afterAttributes_of_slash (next : Follow Field) {s : Progress Field}
    (h : ['/', ']'] <+: s.rest) : afterAttributes next s = next s := by
  obtain ⟨rest, hr⟩ := h
  have hcut : Text.cut? [']'] s.rest = some (['/'], rest) := by
    rw [← hr, List.cons_append, Text.cut?_cons (by simp), Text.cut?_of_start (by simp)]
    rfl
  rw [afterAttributes, hcut]
  rfl

/-- The attribute text ends no sooner than here. -/
theorem afterAttributes_step (next : Follow Field) {s : Progress Field} {c : Char} {cs : Text}
    (hs : s.rest = c :: cs) (hb : ¬ [']'] <+: s.rest) (hsl : ¬ ['/', ']'] <+: s.rest) :
    afterAttributes next s = afterAttributes next (s.skip 1) := by
  rw [hs] at hb hsl
  simp only [afterAttributes, Progress.rest_skip, hs, Text.cut?_cons hb, List.drop_succ_cons,
    List.drop_zero]
  cases hcut : Text.cut? [']'] cs with
  | none => rfl
  | some p =>
      obtain ⟨inner, after⟩ := p
      have hin : attributesIn (c :: inner) = c :: attributesIn inner := by
        cases inner with
        | nil =>
            have hc : c ≠ '/' := by
              rintro rfl
              obtain ⟨hcs, -⟩ := Text.cut?_eq_some_iff.mp hcut
              exact hsl ⟨after, by simp [hcs]⟩
            simp [attributesIn, hc]
        | cons d ds => simp [attributesIn]; split <;> rfl
      simp [hin, Progress.skip_skip, Nat.add_comm 1]

/-- The characters of the attribute text that are no slash. -/
def notSlashClass : CharClass := .except [.exact ']', .exact '/']

theorem has_notSlashClass {c : Char} : notSlashClass.has c = true ↔ c ≠ ']' ∧ c ≠ '/' := by
  simp [notSlashClass, CharClass.except, CharClass.has, CharKind.has, @eq_comm _ c]

/-- Characters of the attribute text lead on to its end, if what follows them does. -/
theorem mostChars_eq_afterAttributes {next more : Follow Field} {captures : Field → Option Capture}
    (hclass : ∀ n c cs, notSlashClass.has c = true → more ⟨c :: cs, n, captures⟩ = none) :
    ∀ (t : Text) (n : Nat),
      (∀ m u, u.length ≤ t.length → (∀ c ∈ u.head?, notSlashClass.has c = false) →
        more ⟨u, m, captures⟩ = afterAttributes next ⟨u, m, captures⟩) →
      mostChars notSlashClass more captures t n = afterAttributes next ⟨t, n, captures⟩
  | [], n, hstop => hstop n [] (Nat.le_refl _) (by simp)
  | c :: cs, n, hstop => by
      by_cases hc : notSlashClass.has c = true
      · have ih := mostChars_eq_afterAttributes hclass cs (n + 1) fun m u hu =>
          hstop m u (by simp; omega)
        obtain ⟨hb, hs⟩ := has_notSlashClass.mp hc
        have hstep : afterAttributes next ⟨c :: cs, n, captures⟩ =
            afterAttributes next ⟨cs, n + 1, captures⟩ :=
          afterAttributes_step next rfl (by simp [Ne.symm hb]) (by simp [Ne.symm hs])
        rw [mostChars, if_pos hc, ih, hclass n c cs hc, hstep]
        cases afterAttributes next ⟨cs, n + 1, captures⟩ with
        | none => rfl
        | some s => rfl
      · rw [mostChars, if_neg hc]
        exact hstop n (c :: cs) (Nat.le_refl _) (by simpa using hc)

/-- One round of the attribute text: a slash that no bracket follows, and no slashes after it. -/
def slashRound : Pattern Field := sequence [.char '/', .notAhead (.char ']'), notSlash]

theorem attempt_slashRound (next : Follow Field) (s : Progress Field) :
    attempt slashRound next s =
      after ['/'] (fun s' => if [']'] <+: s'.rest then none
        else mostChars notSlashClass next s'.captures s'.rest s'.taken) s := by
  rw [slashRound, attempt_sequence_cons, attempt_char, attempt_sequence_cons]
  congr 1
  funext s'
  rw [attempt, attempt_char, after]
  by_cases h : [']'] <+: s'.rest
  · simp only [if_pos h]
    rfl
  · simp only [if_neg h]
    rfl

/-- The rounds of the attribute text fail in the middle of characters that are no slash. -/
theorem fewestRounds_of_class {next : Follow Field} (hend : EndsAttributes next) (bound : Text)
    {s : Progress Field} {c : Char} {cs : Text} (hs : s.rest = c :: cs)
    (hc : notSlashClass.has c = true) :
    fewestRounds (attempt slashRound) next bound s = none := by
  obtain ⟨hb, hsl⟩ := has_notSlashClass.mp hc
  have hnext : next s = none :=
    hend s (by simp [hs, Ne.symm hb]) (by simp [hs, Ne.symm hsl])
  cases bound with
  | nil => exact hnext
  | cons b bound =>
      have hround : ¬ ['/'] <+: s.rest := by simp [hs, Ne.symm hsl]
      rw [fewestRounds, hnext, attempt_slashRound, after, if_neg hround]

/-- The rounds of the attribute text lead on to its end. -/
theorem fewestRounds_eq_afterAttributes {next : Follow Field} (hend : EndsAttributes next)
    (bound : Text) (s : Progress Field) (hlen : s.rest.length ≤ bound.length)
    (hs : ∀ c ∈ s.rest.head?, notSlashClass.has c = false) :
    fewestRounds (attempt slashRound) next bound s = afterAttributes next s := by
  induction bound generalizing s with
  | nil =>
      have hrest : s.rest = [] := List.length_eq_zero_iff.mp (Nat.le_zero.mp hlen)
      rw [fewestRounds, afterAttributes_nil next hrest]
      exact hend s (by simp [hrest]) (by simp [hrest])
  | cons b bound ih =>
      obtain ⟨rest, taken, captures⟩ := s
      cases rest with
      | nil =>
          rw [afterAttributes_nil next rfl, fewestRounds, hend ⟨[], _, _⟩ (by simp) (by simp),
            attempt_slashRound, after, if_neg (by simp)]
      | cons c cs =>
          by_cases hb : [']'] <+: c :: cs
          · rw [afterAttributes_of_bracket next hb, fewestRounds, attempt_slashRound, after,
              if_neg (by rintro ⟨u, hu⟩; obtain ⟨v, hv⟩ := hb; simp [← hv] at hu)]
            cases next ⟨c :: cs, taken, captures⟩ with
            | none => rfl
            | some s' => rfl
          · have hc : c = '/' := by
              have hcls := hs c rfl
              rw [← Bool.not_eq_true, has_notSlashClass] at hcls
              by_cases he : c = ']'
              · exact absurd ⟨cs, by simp [he]⟩ hb
              · exact Classical.byContradiction fun h => hcls ⟨he, h⟩
            subst hc
            rw [fewestRounds, attempt_slashRound, after, if_pos (by simp)]
            by_cases hsl : [']'] <+: cs
            · rw [if_pos (by simpa using hsl), afterAttributes_of_slash next (by simpa using hsl)]
              cases next ⟨'/' :: cs, taken, captures⟩ with
              | none => rfl
              | some s' => rfl
            · rw [hend ⟨'/' :: cs, _, _⟩ hb (by simpa using hsl), if_neg (by simpa using hsl),
                afterAttributes_step next rfl hb (by simpa using hsl)]
              refine mostChars_eq_afterAttributes
                (fun n d ds hd => fewestRounds_of_class hend bound rfl hd) cs (taken + 1)
                fun m u hu hcls => ih ⟨u, m, captures⟩ ?_ hcls
              exact Nat.le_trans hu (Nat.le_of_succ_le_succ hlen)

/-- The attribute text goes on to the closing bracket or to the slash before it. -/
theorem attempt_attributesPattern {next : Follow Field} (hend : EndsAttributes next)
    (s : Progress Field) :
    attempt attributesPattern next s =
      (Text.cut? [']'] s.rest).bind fun p =>
        next (s.keepNext .attributes (attributesIn p.1).length) := by
  have hkeep : EndsAttributes fun s' => next (s.keep .attributes s') :=
    fun s' hb hsl => hend (s.keep .attributes s') hb hsl
  calc attempt attributesPattern next s
      = mostChars notSlashClass
          (attempt (.star .sparing slashRound) fun s' => next (s.keep .attributes s'))
          s.captures s.rest s.taken := rfl
    _ = afterAttributes (fun s' => next (s.keep .attributes s')) s :=
        mostChars_eq_afterAttributes
          (fun n c cs hc => fewestRounds_of_class hkeep (c :: cs) rfl hc) s.rest s.taken
          fun m u _ hcls => fewestRounds_eq_afterAttributes hkeep u ⟨u, m, s.captures⟩
            (Nat.le_refl _) hcls

/-! ## Content -/

/-- The length of the text before the first closing tag of a name, or of all the text. -/
def contentLength (name t : Text) : Nat :=
  match Text.cut? (closingTag name) t with
  | some (content, _) => content.length
  | none => t.length

theorem contentLength_of_start {name t : Text} (h : closingTag name <+: t) :
    contentLength name t = 0 := by
  simp only [contentLength, Text.cut?_of_start h, List.length_nil]

theorem contentLength_cons {name : Text} {c : Char} {cs : Text}
    (h : ¬ closingTag name <+: c :: cs) :
    contentLength name (c :: cs) = contentLength name cs + 1 := by
  rw [contentLength, contentLength, Text.cut?_cons h]
  cases Text.cut? (closingTag name) cs with
  | none => rfl
  | some p => rfl

/-- The characters of the content that are no opening bracket. -/
def notBracketClass : CharClass := .except [.exact '[']

theorem has_notBracketClass {c : Char} : notBracketClass.has c = true ↔ c ≠ '[' := by
  simp [notBracketClass, CharClass.except, CharClass.has, CharKind.has, @eq_comm _ c]

/-- No closing tag begins before the first opening bracket. -/
theorem contentLength_eq_takeWhile_add (name t : Text) :
    contentLength name t = (t.takeWhile notBracketClass.has).length +
      contentLength name (t.drop (t.takeWhile notBracketClass.has).length) := by
  induction t with
  | nil => simp
  | cons c cs ih =>
      by_cases hc : notBracketClass.has c = true
      · have hstart : ¬ closingTag name <+: c :: cs := by
          simp [closingTag, Ne.symm (has_notBracketClass.mp hc)]
        rw [contentLength_cons hstart, ih, List.takeWhile_cons_of_pos hc, List.length_cons,
          List.drop_succ_cons]
        omega
      · simp [List.takeWhile_cons_of_neg hc]

/-- The state keeps a name. -/
def Named (name : Text) (s : Progress Field) : Prop :=
  ∃ c, s.captures .name = some c ∧ c.text = name ∧ c.length = name.length

theorem Named.skip {name : Text} {s : Progress Field} (h : Named name s) (n : Nat) :
    Named name (s.skip n) := h

theorem attempt_name_again {name : Text} {s : Progress Field} (h : Named name s)
    (next : Follow Field) : attempt (.again .name) next s = after name next s := by
  obtain ⟨c, hc, rfl, hlen⟩ := h
  exact attempt_again next hc hlen.symm

theorem attempt_nameClosed {name : Text} {s : Progress Field} (h : Named name s)
    (next : Follow Field) :
    attempt (sequence [.again .name, .char ']']) next s = after (name ++ [']']) next s := by
  rw [attempt_sequence_cons, attempt_name_again h, after_append]
  exact congrArg (fun f => after name f s) (attempt_char ']' next)

theorem attempt_slashNameClosed {name : Text} {s : Progress Field} (h : Named name s)
    (next : Follow Field) :
    attempt (sequence [.char '/', .again .name, .char ']']) next s =
      after (['/'] ++ (name ++ [']'])) next s := by
  rw [attempt_sequence_cons, attempt_char, after_append]
  exact congrArg (fun x => if ['/'] <+: s.rest then x else none)
    (attempt_nameClosed (h.skip 1) next)

theorem attempt_closingTag {name : Text} {s : Progress Field} (h : Named name s)
    (next : Follow Field) :
    attempt (sequence [.char '[', .char '/', .again .name, .char ']']) next s =
      after (closingTag name) next s := by
  rw [attempt_sequence_cons, attempt_char,
    show closingTag name = ['['] ++ (['/'] ++ (name ++ [']'])) by simp [closingTag], after_append]
  exact congrArg (fun x => if ['['] <+: s.rest then x else none)
    (attempt_slashNameClosed (h.skip 1) next)

/-- One round of the content: a bracket that begins no closing tag, and no brackets after it. -/
def bracketRound : Pattern Field :=
  sequence [.char '[', .notAhead (sequence [.char '/', .again .name, .char ']']), notBracket]

theorem attempt_bracketRound_nil {s : Progress Field} (hs : s.rest = []) :
    attempt bracketRound some s = none := by
  rw [bracketRound, attempt_sequence_cons, attempt_char, after, if_neg (by simp [hs])]

theorem attempt_bracketRound {name : Text} {s : Progress Field} (h : Named name s) {cs : Text}
    (hs : s.rest = '[' :: cs) :
    attempt bracketRound some s =
      if closingTag name <+: s.rest then none
      else some (s.skip (1 + (cs.takeWhile notBracketClass.has).length)) := by
  have hcl : closingTag name <+: s.rest ↔ ['/'] ++ (name ++ [']']) <+: (s.skip 1).rest := by
    simp [hs, closingTag]
  rw [bracketRound, attempt_sequence_cons, attempt_char, after, if_pos (by simp [hs]),
    attempt_sequence_cons, attempt, attempt_slashNameClosed (h.skip _), after]
  by_cases hstart : closingTag name <+: s.rest
  · rw [if_pos hstart, List.length_singleton, if_pos (hcl.mp hstart)]
    rfl
  · rw [if_neg hstart, List.length_singleton, if_neg (mt hcl.mpr hstart)]
    refine (allChars_eq notBracketClass some s.captures (s.rest.drop 1) (s.taken + 1)).trans ?_
    simp [hs, Progress.skip, Nat.add_assoc, Nat.add_comm 1]

/-- The rounds of the content go on to the first closing tag or to the end. -/
theorem allRounds_eq_skip {name : Text} (bound : Text) {s : Progress Field} (h : Named name s)
    (hlen : (s.rest.drop (s.rest.takeWhile notBracketClass.has).length).length ≤ bound.length) :
    allRounds (attempt bracketRound some) bound
        (s.skip (s.rest.takeWhile notBracketClass.has).length) =
      s.skip (contentLength name s.rest) := by
  induction bound generalizing s with
  | nil =>
      have hnil := List.length_eq_zero_iff.mp (Nat.le_zero.mp hlen)
      rw [contentLength_eq_takeWhile_add, hnil]
      rfl
  | cons b bound ih =>
      rw [contentLength_eq_takeWhile_add, ← Progress.skip_skip]
      generalize hk : (s.rest.takeWhile notBracketClass.has).length = k at hlen ⊢
      cases hrest : s.rest.drop k with
      | nil =>
          rw [allRounds, attempt_bracketRound_nil (by simpa using hrest)]
          rfl
      | cons c cs =>
          have hc : c = '[' := by
            have hcls := Text.eq_false_of_drop_takeWhile (hk ▸ hrest)
            rwa [← Bool.not_eq_true, has_notBracketClass, Classical.not_not] at hcls
          subst hc
          have hcs : (s.skip (k + 1)).rest = cs := by
            rw [Progress.rest_skip, ← List.drop_drop, hrest, List.drop_succ_cons, List.drop_zero]
          rw [allRounds, attempt_bracketRound (h.skip k) (by simpa using hrest),
            Progress.rest_skip, hrest]
          by_cases hstart : closingTag name <+: '[' :: cs
          · rw [if_pos hstart, contentLength_of_start hstart]
            rfl
          · have hshorter : cs.length ≤ bound.length := by
              rw [hrest] at hlen
              exact Nat.le_of_succ_le_succ hlen
            have hind := ih (h.skip (k + 1)) (by rw [hcs, List.length_drop]; omega)
            rw [hcs] at hind
            rw [if_neg hstart, contentLength_cons hstart]
            simp only [Progress.skip_skip] at hind ⊢
            rw [show k + (1 + (cs.takeWhile notBracketClass.has).length) =
              k + 1 + (cs.takeWhile notBracketClass.has).length by omega, hind]
            congr 1
            omega

/-- The content goes on to the first closing tag or to the end. -/
theorem attempt_contentPattern {name : Text} {s : Progress Field} (h : Named name s)
    (next : Follow Field) :
    attempt contentPattern next s = next (s.keepNext .content (contentLength name s.rest)) := by
  have hloop := allRounds_eq_skip (s.rest.drop (s.rest.takeWhile notBracketClass.has).length) h
    (Nat.le_refl _)
  calc attempt contentPattern next s
      = allChars notBracketClass
          (fun s' => next (s.keep .content (allRounds (attempt bracketRound some) s'.rest s')))
          s.captures s.rest s.taken := rfl
    _ = next (s.keep .content (allRounds (attempt bracketRound some)
          (s.rest.drop (s.rest.takeWhile notBracketClass.has).length)
          (s.skip (s.rest.takeWhile notBracketClass.has).length))) := allChars_eq ..
    _ = next (s.keepNext .content (contentLength name s.rest)) := by
        rw [hloop, Progress.keepNext]

/-- A tag wraps the text up to the first closing tag of its name. -/
theorem attempt_wrappingPattern {name : Text} {s : Progress Field} (h : Named name s)
    (next : Follow Field) :
    attempt wrappingPattern next s =
      (Text.cut? (closingTag name) s.rest).bind fun p =>
        next ((s.keepNext .content p.1.length).skip (closingTag name).length) := by
  have hnamed : ∀ n, Named name (s.keepNext .content n) := by
    rintro n
    obtain ⟨c, hc, hrest⟩ := h
    exact ⟨c, by simpa using hc, hrest⟩
  rw [wrappingPattern, attempt_sequence_cons, attempt_contentPattern h,
    attempt_closingTag (hnamed _), after, contentLength, Progress.rest_keepNext]
  cases hcut : Text.cut? (closingTag name) s.rest with
  | none =>
      rw [if_neg (by simp [closingTag])]
      rfl
  | some p =>
      obtain ⟨content, rest⟩ := p
      rw [(Text.cut?_eq_some_iff.mp hcut).1, List.drop_left, if_pos (List.prefix_append _ _)]
      rfl

/-! ## The end of a tag -/

/-- What may stand between an opening tag and its end. -/
def innerPattern : Form → Pattern Field
  | .full => wrappingPattern
  | .plain => noContentPattern

/-- The pattern of the body of a tag. -/
def bodyPattern (form : Form) : Pattern Field :=
  .alt selfClosingPattern (.seq (.char ']') (.optional (innerPattern form)))

/-- The pattern of what follows the name of a tag. -/
def restPattern (form : Form) : Pattern Field :=
  sequence [.notAhead (.one (.of [.word, .exact '-'])), attributesPattern, bodyPattern form,
    closeMarkerPattern]

theorem expression_eq (names : List Text) (form : Form) :
    expression names form =
      sequence
        [.char '[', .group .openMarker (.optional (.char '[')),
          .group .name (choice (names.map literal)), restPattern form] := by
  cases form with
  | full => rfl
  | plain => rfl

/-- Content is taken exactly when it is wrapped. -/
theorem attempt_innerPattern (form : Form) {name : Text} {s : Progress Field} (h : Named name s)
    (next : Follow Field) :
    attempt (innerPattern form) next s =
      (wrapped? form name s.rest).bind fun p =>
        next ((s.keepNext .content p.1.length).skip (closingTag name).length) := by
  cases form with
  | full => exact attempt_wrappingPattern h next
  | plain => rfl

theorem attempt_selfClosingPattern (next : Follow Field) (s : Progress Field) :
    attempt selfClosingPattern next s =
      if ['/', ']'] <+: s.rest then next ((s.keepNext .selfClosing 1).skip 1) else none := by
  rw [selfClosingPattern, attempt, attempt, attempt_char, attempt_char, after]
  have hsplit : ['/', ']'] <+: s.rest ↔ ['/'] <+: s.rest ∧ [']'] <+: s.rest.drop 1 :=
    Text.append_prefix_iff (p := ['/']) (q := [']'])
  by_cases h : ['/'] <+: s.rest
  · rw [if_pos h, after]
    by_cases h' : [']'] <+: s.rest.drop 1
    · rw [if_pos (hsplit.mpr ⟨h, h'⟩)]
      exact if_pos h'
    · rw [if_neg fun hs => h' (hsplit.mp hs).2]
      exact if_neg h'
  · rw [if_neg h, if_neg fun hs => h (hsplit.mp hs).1]

theorem attempt_openingBody (form : Form) (next : Follow Field) (s : Progress Field) :
    attempt (.seq (.char ']') (.optional (innerPattern form))) next s =
      if [']'] <+: s.rest then
        (attempt (innerPattern form) next (s.skip 1)).or (next (s.skip 1))
      else none := by
  rw [attempt, attempt_char, after, attempt_optional]
  rfl

/-- The body of a tag fails where the attribute text does not end. -/
theorem endsAttributes_bodyPattern (form : Form) (next : Follow Field) :
    EndsAttributes (attempt (bodyPattern form) next) := by
  intro s hb hs
  rw [bodyPattern, attempt_alt, attempt_selfClosingPattern, attempt_openingBody, if_neg hb,
    if_neg hs]
  rfl

/-- At the end of the attribute text the rest of a tag always matches. -/
theorem attempt_bodyPattern (form : Form) {name inner after : Text} {s : Progress Field}
    (h : Named name s) (hs : attributesIn inner ++ s.rest = inner ++ ([']'] ++ after)) :
    attempt (bodyPattern form) (attempt closeMarkerPattern some) s =
      some ((bodyAfter form name inner after).1.pass name s).passMarker := by
  rw [bodyPattern, attempt_alt, attempt_selfClosingPattern, attempt_openingBody]
  by_cases hi : inner.getLast? = some '/'
  · have hrest : s.rest = ['/', ']'] ++ after :=
      List.append_cancel_left (hs.trans (append_bracket_of_slash hi after).symm)
    rw [if_pos (by simp [hrest]), attempt_closeMarkerPattern, bodyAfter_of_slash hi]
    rfl
  · have hrest : s.rest = [']'] ++ after := by
      rw [attributesIn_of_ne hi] at hs
      exact List.append_cancel_left hs
    rw [if_neg (by simp [hrest]), if_pos (by simp [hrest]), attempt_innerPattern form (h.skip 1),
      Progress.rest_skip, hrest, attempt_closeMarkerPattern]
    cases hw : wrapped? form name after with
    | none =>
        rw [bodyAfter_of_not_wrapped hi hw]
        simp [hw, Body.pass]
    | some p =>
        rw [bodyAfter_of_wrapped hi hw]
        simp [hw, Body.pass, attempt_closeMarkerPattern]

/-- After its name a tag goes on as it is read. -/
theorem attempt_restPattern (form : Form) {name : Text} {s : Progress Field} (h : Named name s) :
    attempt (restPattern form) some s =
      if nameEnds s.rest then
        (Text.cut? [']'] s.rest).map fun p =>
          ((bodyAfter form name p.1 p.2).1.pass name
            (s.keepNext .attributes (attributesIn p.1).length)).passMarker
      else none := by
  rw [restPattern, attempt_sequence_cons, attempt_nameEnd, attempt_sequence_cons,
    attempt_sequence_cons, attempt_attributesPattern (endsAttributes_bodyPattern form _)]
  cases hcut : Text.cut? [']'] s.rest with
  | none => rfl
  | some p =>
      obtain ⟨inner, after⟩ := p
      have hnamed : Named name (s.keepNext .attributes (attributesIn inner).length) := by
        obtain ⟨c, hc, hc'⟩ := h
        exact ⟨c, by simpa using hc, hc'⟩
      have hrest : attributesIn inner ++ s.rest.drop (attributesIn inner).length =
          inner ++ ([']'] ++ after) := by
        have happ := attributesIn_append_render form name inner after
        rw [(Text.cut?_eq_some_iff.mp hcut).1, ← happ, List.drop_left]
      exact congrArg (fun x => if nameEnds s.rest then x else none)
        (attempt_bodyPattern form hnamed hrest)

end Tag

/-! ## Matches and readings -/

@[simp] theorem Body.rest_pass (name : Text) (s : Progress Field) (b : Body) :
    (b.pass name s).rest = s.rest.drop (b.render name).length := by
  cases b with
  | opening => rfl
  | selfClosing => simp [pass, render]
  | wrapping content =>
      simp only [pass, render, Progress.rest_skip, Progress.rest_keepNext, List.drop_drop,
        List.length_append, List.length_singleton]

@[simp] theorem Body.taken_pass (name : Text) (s : Progress Field) (b : Body) :
    (b.pass name s).taken = s.taken + (b.render name).length := by
  cases b with
  | opening => rfl
  | selfClosing => rfl
  | wrapping content =>
      simp only [pass, render, Progress.taken_skip, Progress.taken_keepNext, List.length_append,
        List.length_singleton, Nat.add_assoc]

/-- The state after a tag is made of the states after its parts. -/
theorem Tag.pass_eq_progress (g : Tag) (t : Text) :
    (g.body.pass g.name ((Candidate.progress ⟨g.openMarker, g.name⟩ t).keepNext .attributes
      g.attributes.length)).keepNext .closeMarker g.closeText.length = g.progress t := by
  apply Progress.ext
  · simp only [Progress.rest_keepNext, Body.rest_pass, Candidate.progress, Progress.afterMarker,
      Progress.rest_skip, Progress.start, List.drop_drop, progress, length_render]
    rfl
  · simp only [Progress.taken_keepNext, Body.taken_pass, Candidate.progress, Progress.afterMarker,
      Progress.taken_skip, Progress.start, Nat.zero_add, progress, length_render]
    rfl
  · funext f
    obtain ⟨name, attributes, body, openMarker, closeMarker⟩ := g
    cases f with
    | closeMarker =>
        simp only [Progress.captures_keepNext, if_true, Body.rest_pass, Progress.rest_keepNext,
          Candidate.progress, Progress.afterMarker, Progress.rest_skip, Progress.start,
          List.drop_drop]
        rfl
    | openMarker | name | attributes | selfClosing | content =>
        cases body <;>
          simp only [Body.pass, Candidate.progress, Progress.afterMarker,
            Progress.captures_keepNext, Progress.captures_skip, Progress.rest_keepNext,
            Progress.rest_skip, Progress.start, List.drop_drop, reduceCtorEq, if_false, if_true] <;>
          rfl

namespace Candidate

theorem rest_progress {c : Candidate} {rest : Text} :
    (c.progress (c.opening ++ rest)).rest = rest := by
  simp [progress, Progress.afterMarker, Progress.start, opening, List.drop_append]

theorem named_progress {c : Candidate} {rest : Text} :
    Tag.Named c.name (c.progress (c.opening ++ rest)) := by
  refine ⟨⟨c.name ++ rest, c.name.length⟩, ?_, ?_, rfl⟩
  · simp [progress, Progress.afterMarker, Progress.start, opening]
  · simp [Capture.text]

theorem passMarker_eq {form : Form} {c : Candidate} {inner after : Text} {s : Progress Field}
    (h : s.rest = (bodyAfter form c.name inner after).2) :
    s.passMarker = s.keepNext .closeMarker (c.tag form inner after).closeText.length := by
  rw [Progress.passMarker, h, Tag.closeText, tag]
  by_cases hm : (bodyAfter form c.name inner after).2.head? = some ']'
  · simp [hm]
  · simp [hm]

/-- A candidate that stands at the start of a text goes on as it is read. -/
theorem attempt_progress (form : Form) (c : Candidate) (rest : Text) :
    Pattern.attempt (Tag.restPattern form) some (c.progress (c.opening ++ rest)) =
      (c.readRest? form rest).map fun g => g.progress (c.opening ++ rest) := by
  rw [Tag.attempt_restPattern form named_progress, rest_progress, readRest?]
  by_cases hend : nameEnds rest = true
  · rw [if_pos hend, if_pos hend, Option.map_map]
    cases hcut : Text.cut? [']'] rest with
    | none => rfl
    | some p =>
        obtain ⟨inner, after⟩ := p
        have hrest : ((bodyAfter form c.name inner after).1.pass c.name
            ((c.progress (c.opening ++ rest)).keepNext .attributes
              (attributesIn inner).length)).rest = (bodyAfter form c.name inner after).2 := by
          rw [Body.rest_pass, Progress.rest_keepNext, rest_progress,
            (Text.cut?_eq_some_iff.mp hcut).1, ← attributesIn_append_render form c.name inner after,
            List.drop_left, List.drop_left]
        rw [Option.map_some, Option.map_some, Function.comp_apply, ← Tag.pass_eq_progress,
          passMarker_eq hrest]
        rfl
  · rw [if_neg hend, if_neg hend]
    rfl

end Candidate

namespace Tag

open Pattern

/-- The names that follow a marker, tried in order. -/
theorem findSome?_names {t : Text} {marked : Bool} (hm : ['['] ++ openingMarker marked <+: t)
    (next : Follow Field) (names : List Text) :
    (names.findSome? fun name =>
        if name <+: (Progress.afterMarker marked t).rest then
          next ((Progress.afterMarker marked t).keepNext .name name.length)
        else none) =
      names.findSome? fun name =>
        if (Candidate.mk marked name).opening <+: t then
          next ((Candidate.mk marked name).progress t)
        else none := by
  congr 1
  funext name
  have hrest : (Progress.afterMarker marked t).rest =
      t.drop (['['] ++ openingMarker marked).length := by
    simp [Progress.afterMarker, Progress.start]
  have hopen : (Candidate.mk marked name).opening <+: t ↔
      name <+: (Progress.afterMarker marked t).rest := by
    rw [Candidate.opening, Text.append_prefix_iff, hrest]
    exact and_iff_right hm
  by_cases h : (Candidate.mk marked name).opening <+: t
  · rw [if_pos h, if_pos (hopen.mp h)]
    rfl
  · rw [if_neg h, if_neg (mt hopen.mpr h)]

/-- No candidate goes on without its marker at the start of the text. -/
theorem findSome?_names_eq_none {t : Text} {marked : Bool}
    (hm : ¬ ['['] ++ openingMarker marked <+: t) (next : Follow Field) (names : List Text) :
    (names.findSome? fun name =>
      if (Candidate.mk marked name).opening <+: t then
        next ((Candidate.mk marked name).progress t)
      else none) = none := by
  rw [List.findSome?_eq_none_iff]
  intro name _
  exact if_neg fun h => hm (Text.append_prefix_iff.mp h).1

/-- An expression of tags tries the candidates in order. -/
theorem attempt_expression {names : List Text} (hn : names ≠ []) (form : Form) (t : Text) :
    attempt (expression names form) some (.start t) =
      (Candidate.all names).findSome? fun c =>
        if c.opening <+: t then attempt (restPattern form) some (c.progress t) else none := by
  have hone : sequence [restPattern form] = restPattern form := rfl
  rw [expression_eq, attempt_sequence_cons, attempt_char, attempt_sequence_cons,
    attempt_sequence_cons, after, Candidate.all, List.findSome?_append, List.findSome?_map,
    List.findSome?_map, attempt_marker, attempt_names hn, attempt_names hn, hone]
  generalize attempt (restPattern form) some = next
  by_cases h : ['['] <+: t
  · have hplain : ['['] ++ openingMarker false <+: t := by simpa [openingMarker] using h
    refine (if_pos h).trans (congr (congrArg Option.or ?_) (findSome?_names hplain next names))
    by_cases hm : ['['] ++ openingMarker true <+: t
    · have hhead := Text.singleton_prefix_iff.mp (Text.append_prefix_iff.mp hm).2
      exact (if_pos hhead).trans (findSome?_names hm next names)
    · have hhead : ¬ (t.drop 1).head? = some '[' := fun hh =>
        hm (Text.append_prefix_iff.mpr ⟨h, Text.singleton_prefix_iff.mpr hh⟩)
      exact (if_neg hhead).trans (findSome?_names_eq_none hm next names).symm
  · have hnone : ∀ marked, ¬ ['['] ++ openingMarker marked <+: t := fun marked hm =>
      h (Text.append_prefix_iff.mp hm).1
    exact (if_neg h).trans (congr
      (congrArg Option.or (findSome?_names_eq_none (hnone true) next names).symm)
      (findSome?_names_eq_none (hnone false) next names).symm)

/-- An expression of tags matches exactly where a tag can be read, and keeps its parts. -/
theorem matchStart?_expression {names : List Text} (hn : names ≠ []) (form : Form) (t : Text) :
    (expression names form).matchStart? t = (read? names form t).map fun g => g.progress t := by
  rw [matchStart?, attempt_expression hn, read?, List.map_findSome?]
  congr 1
  funext c
  rw [Function.comp_apply]
  by_cases h : c.opening <+: t
  · obtain ⟨rest, rfl⟩ := h
    rw [if_pos (List.prefix_append _ _), Candidate.attempt_progress, Candidate.read?,
      Text.dropStart?_eq_some_iff.mpr rfl]
    rfl
  · rw [if_neg h, Candidate.read?, Text.dropStart?_eq_none_iff.mpr h]
    rfl

/-- The match of a tag that stands at the start of a text, which stands at offset `start`. -/
def found (g : Tag) (start : Nat) (t : Text) : Found Field :=
  ⟨start, ⟨t, g.render.length⟩, g.captures t⟩

theorem length_render_pos (g : Tag) : 0 < g.render.length := by
  rw [length_render, markerStart, bodyStart, attributesStart, nameStart]
  omega

theorem found?_expression {names : List Text} (hn : names ≠ []) (form : Form) (start : Nat)
    (t : Text) :
    (expression names form).found? start t =
      (read? names form t).map fun g => g.found start t := by
  rw [found?, matchStart?_expression hn]
  cases read? names form t with
  | none => rfl
  | some g =>
      have hpos : (g.progress t).taken ≠ 0 := Nat.ne_of_gt g.length_render_pos
      simp only [Option.map_some, if_neg hpos]
      rfl

end Tag

/-! ## Parts of a match -/

/-- The parts that an expression keeps of a tag. -/
def Tag.part? (g : Tag) : Field → Option Text
  | .openMarker => some g.openText
  | .name => some g.name
  | .attributes => some g.attributes
  | .selfClosing => if g.isSelfClosing then some ['/'] else none
  | .content => g.content?
  | .closeMarker => some g.closeText

theorem Capture.text_drop (before part after : Text) {t : Text} {k : Nat}
    (ht : t = before ++ part ++ after) (hk : k = before.length) :
    Capture.text ⟨t.drop k, part.length⟩ = part := by
  rw [Capture.text, ht, hk, List.append_assoc, List.drop_left, List.take_left]

/-- The parts kept of a tag are its own. -/
theorem Tag.part?_found {g : Tag} {t : Text} (h : g.render <+: t) (start : Nat) (f : Field) :
    (g.found start t).part? f = g.part? f := by
  obtain ⟨rest, ht⟩ := h
  rw [render_eq] at ht
  cases f with
  | openMarker =>
      exact congrArg some (Capture.text_drop ['['] g.openText
        (g.name ++ g.attributes ++ g.body.render g.name ++ g.closeText ++ rest)
        (by simp [← ht]) rfl)
  | name =>
      exact congrArg some (Capture.text_drop (['['] ++ g.openText) g.name
        (g.attributes ++ g.body.render g.name ++ g.closeText ++ rest)
        (by simp [← ht]) g.nameStart_eq)
  | attributes =>
      exact congrArg some (Capture.text_drop (['['] ++ g.openText ++ g.name) g.attributes
        (g.body.render g.name ++ g.closeText ++ rest) (by simp [← ht]) g.attributesStart_eq)
  | selfClosing =>
      by_cases hb : g.body = .selfClosing
      · have hpart := Capture.text_drop (['['] ++ g.openText ++ g.name ++ g.attributes) ['/']
          ([']'] ++ g.closeText ++ rest) (t := t) (by simp [← ht, hb, Body.render]) g.bodyStart_eq
        simpa [Found.part?, found, captures, part?, isSelfClosing, hb] using hpart
      · simp [Found.part?, found, captures, part?, isSelfClosing, hb]
  | content =>
      cases hb : g.body with
      | wrapping content =>
          have hpart := Capture.text_drop (['['] ++ g.openText ++ g.name ++ g.attributes ++ [']'])
            content (closingTag g.name ++ g.closeText ++ rest) (t := t)
            (by simp [← ht, hb, Body.render])
            (by rw [List.length_append, ← bodyStart_eq, List.length_singleton])
          simpa [Found.part?, found, captures, part?, content?, hb, Body.content?] using hpart
      | opening | selfClosing =>
          simp [Found.part?, found, captures, part?, content?, hb, Body.content?]
  | closeMarker =>
      exact congrArg some (Capture.text_drop
        (['['] ++ g.openText ++ g.name ++ g.attributes ++ g.body.render g.name) g.closeText rest
        ht.symm g.markerStart_eq)

/-- A match of an expression stands for the tag that was read. -/
theorem Occurrence.ofFound_found {g : Tag} {t : Text} (h : g.render <+: t) (start : Nat) :
    ofFound (g.found start t) = ⟨g, start, g.render⟩ := by
  have htext : (g.found start t).text = g.render := (List.prefix_iff_eq_take.mp h).symm
  obtain ⟨name, attributes, body, openMarker, closeMarker⟩ := g
  simp only [ofFound, Tag.part?_found h, htext]
  cases body <;> cases openMarker <;> cases closeMarker <;> rfl

end BracketTags
