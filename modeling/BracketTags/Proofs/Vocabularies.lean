import BracketTags.Proofs.Building
import BracketTags.Proofs.Partition

/-!
# Vocabularies

The tags of a text depend on the names only through what can be read at each
offset.  Two lists of names *read alike* in a text if they read the same tag
everywhere (`Tag.ReadAlike`).  Then the tags of the text are the same, and so is
what stripping leaves of it.

*Order.*  Ordinary names read alike in any order and with any repetitions, since
at most one of them ends at a given offset.  A tag has as its name all the name
characters that stand there, so a name is not shadowed by the beginning of it
(`scan_of_same_names`).

*Unrelated names.*  A name that does not occur behind a bracket is read nowhere.
It may be added anywhere in a list, whatever characters the names have.  A pass
calls the same handlers with and without it, and if their answers depend on the
calls alone, it leaves the same text (`passes_of_unrelated_name`).
-/

namespace BracketTags

variable {η σ η' σ' : Type}

/-! ## Lists that read alike -/

namespace Tag

variable {names names' : List Text} {t : Text}

/-- Two lists of names read the same tag at each offset of a text. -/
def ReadAlike (names names' : List Text) (t : Text) : Prop :=
  ∀ i, read? names .full (t.drop i) = read? names' .full (t.drop i)

theorem Scanned.of_readAlike (halike : ReadAlike names names' t) {pos : Nat}
    {os : List Occurrence} (h : Scanned names t pos os) : Scanned names' t pos os := by
  induction h with
  | done hunread => exact .done fun i hi => (halike i).symm.trans (hunread i hi)
  | next hpos hunread hread _ ih =>
      exact .next hpos (fun j hj hlt => (halike j).symm.trans (hunread j hj hlt))
        ((halike _).symm.trans hread) ih

theorem ReadAlike.tagsIn (h : ReadAlike names names' t) : tagsIn names' t = tagsIn names t :=
  tagsIn_eq_iff.mpr ((scanned_tagsIn names t).of_readAlike h)

theorem ReadAlike.leftover (h : ReadAlike names names' t) :
    leftover names' t = leftover names t := by
  rw [leftover_eq_stripped, leftover_eq_stripped, h.tagsIn]

end Tag

/-- Expanders whose names read alike find the same tags, and what they strip leaves the same. -/
theorem outcomes_of_readAlike {e : Expander η} {e' : Expander η'} {w : World η σ}
    {w' : World η' σ'} {t : Text}
    (h : Tag.ReadAlike (e.source.names w.registry) (e'.source.names w'.registry) t) :
    (e'.scan t w').outcome = (e.scan t w).outcome ∧
      (e'.strip t w').outcome = (e.strip t w).outcome := by
  obtain ⟨_, _, hstrip, -⟩ := strip_apply e t w
  obtain ⟨_, _, hstrip', -⟩ := strip_apply e' t w'
  rw [scan_outcome, scan_outcome, h.tagsIn, hstrip, hstrip', h.leftover]
  exact ⟨rfl, rfl⟩

/-! ## Ordinary names in any order -/

/-- The offset of the name of a tag. -/
def Occurrence.nameStart (o : Occurrence) : Nat := o.start + (1 + o.tag.openText.length)

theorem Candidate.name_of_read? {form : Form} {t : Text} {c : Candidate} {g : Tag}
    (h : c.read? form t = some g) : g.name = c.name ∧ g.openMarker = c.marked := by
  obtain ⟨rest, -, hrest⟩ := read?_eq_some_iff.mp h
  obtain ⟨-, inner, after, -, rfl⟩ := readRest?_eq_some_iff.mp hrest
  exact ⟨rfl, rfl⟩

namespace Tag

variable {names names' : List Text} {t : Text}

theorem readAlike_of_same_names (hnames : ∀ m ∈ names, OrdinaryName m)
    (hsame : ∀ m, m ∈ names ↔ m ∈ names') : ReadAlike names names' t := by
  have hnames' : ∀ m ∈ names', OrdinaryName m := fun m hm => hnames m ((hsame m).mpr hm)
  refine fun i => Option.ext fun g => ?_
  rw [read?_eq_some_iff_of_ordinary hnames, read?_eq_some_iff_of_ordinary hnames']
  simp only [hsame]

/-- Wherever a name stands behind a bracket, the tag is read with this name. -/
theorem read?_candidate_of_ordinary (hnames : ∀ m ∈ names, OrdinaryName m) {c : Candidate}
    (hname : c.name ∈ names) {rest : Text} (hends : nameEnds rest = true) (hclose : ']' ∈ rest) :
    ∃ g, read? names .full (c.opening ++ rest) = some g ∧ g.name = c.name ∧
      g.openMarker = c.marked := by
  obtain ⟨g, hg⟩ := c.exists_read? .full hends hclose
  exact ⟨g, (read?_eq_some_iff_of_ordinary hnames).mpr ⟨c, hname, hg⟩, Candidate.name_of_read? hg⟩

/-- The name of a tag is all the name characters that stand in its place. -/
theorem takeWhile_nameStart (hnames : ∀ m ∈ names, OrdinaryName m) {o : Occurrence}
    (ho : o ∈ tagsIn names t) : (t.drop o.nameStart).takeWhile isNameChar = o.tag.name := by
  obtain ⟨hread, -⟩ := (scanned_tagsIn names t).of_mem ho
  obtain ⟨c, hc, hg⟩ := (read?_eq_some_iff_of_ordinary hnames).mp hread
  obtain ⟨hname, hmarked⟩ := Candidate.name_of_read? hg
  obtain ⟨rest, ht, hrest⟩ := Candidate.read?_eq_some_iff.mp hg
  obtain ⟨hends, -⟩ := Candidate.readRest?_eq_some_iff.mp hrest
  have hdrop : t.drop o.nameStart = c.name ++ rest := by
    have hlen : 1 + o.tag.openText.length = (['['] ++ openingMarker c.marked).length := by
      rw [List.length_append, ← hmarked]
      rfl
    rw [Occurrence.nameStart, ← List.drop_drop, ht, Candidate.opening, hlen, List.append_assoc,
      List.drop_left]
  rw [hdrop, hname, (hnames _ hc).takeWhile_append hends]

end Tag

/-- The order in which ordinary names are registered does not matter, and neither do repetitions.
The tags of a text and what stripping leaves of it are the same, and no name is shadowed by another
one: the name of a tag is as long as it can be, and wherever a name ends behind a bracket, with or
without a marker, the expression matches a tag of this name. -/
theorem scan_of_same_names {names names' : List Text} (hnames : ∀ m ∈ names, OrdinaryName m)
    (hsame : ∀ m, m ∈ names ↔ m ∈ names') (t : Text) :
    (Tag.tagsIn names' t = Tag.tagsIn names t ∧ Tag.leftover names' t = Tag.leftover names t) ∧
    (∀ (e : Expander η) (e' : Expander η') (w : World η σ) (w' : World η' σ'),
      e.source.names w.registry = names → e'.source.names w'.registry = names' →
      (e'.scan t w').outcome = (e.scan t w).outcome ∧
        (e'.strip t w').outcome = (e.strip t w).outcome) ∧
    (∀ o ∈ Tag.tagsIn names t, (t.drop o.nameStart).takeWhile isNameChar = o.tag.name) ∧
    ∀ (c : Candidate) (i : Nat) (rest : Text), c.name ∈ names → t.drop i = c.opening ++ rest →
      nameEnds rest = true → ']' ∈ rest →
      ∃ o, ((Tag.expression? names (Tag.formFor names t)).bind fun p =>
          p.found? i (t.drop i)).map Occurrence.ofFound = some o ∧
        o.tag.name = c.name ∧ o.tag.openMarker = c.marked := by
  have halike : Tag.ReadAlike names names' t := Tag.readAlike_of_same_names hnames hsame
  refine ⟨⟨halike.tagsIn, halike.leftover⟩, ?_, fun o ho => Tag.takeWhile_nameStart hnames ho,
    fun c i rest hname hdrop hends hclose => ?_⟩
  · rintro e e' w w' rfl rfl
    exact outcomes_of_readAlike halike
  · obtain ⟨g, hread, htag⟩ := Tag.read?_candidate_of_ordinary hnames hname hends hclose
    refine ⟨⟨g, i, g.render⟩, ?_, htag⟩
    rw [Tag.found?_expression?, Tag.read?_formFor, hdrop, hread]
    rfl

/-- One name begins with the other one, and it is registered after it. -/
theorem scan_of_same_names_prefix :
    (Tag.tagsIn ["a-b".toList, "a".toList] "[a-b k/][[a]x[/a] [a-bc]".toList).map
        (fun o => (o.text, o.tag.name)) =
      [("[a-b k/]".toList, "a-b".toList), ("[[a]x[/a]".toList, "a".toList)] ∧
    ∀ o ∈ Tag.tagsIn ["a".toList, "a-b".toList, "a".toList] "[a-b k/][[a]x[/a] [a-bc]".toList,
      ("[a-b k/][[a]x[/a] [a-bc]".toList.drop o.nameStart).takeWhile isNameChar = o.tag.name := by
  have hnames : ∀ m ∈ ["a".toList, "a-b".toList, "a".toList], OrdinaryName m := by
    intro m hm
    have hm' : m = "a".toList ∨ m = "a-b".toList := by simpa [or_comm, or_left_comm] using hm
    rcases hm' with rfl | rfl
    · exact ⟨by decide, List.all_eq_true.mp (by decide +kernel)⟩
    · exact ⟨by decide, List.all_eq_true.mp (by decide +kernel)⟩
  obtain ⟨⟨htags, -⟩, -, hwhole, -⟩ := @scan_of_same_names Unit Unit Unit Unit _
    ["a-b".toList, "a".toList] hnames (by simp [or_comm]) "[a-b k/][[a]x[/a] [a-bc]".toList
  refine ⟨?_, hwhole⟩
  rw [htags]
  decide +kernel

/-! ## Unrelated names -/

theorem Candidate.infix_of_read? {form : Form} {t : Text} {c : Candidate} {g : Tag}
    (h : c.read? form t = some g) : '[' :: c.name <:+: t := by
  obtain ⟨rest, rfl, -⟩ := read?_eq_some_iff.mp h
  obtain ⟨marked, name⟩ := c
  cases marked with
  | false => exact ⟨[], rest, rfl⟩
  | true => exact ⟨['['], rest, rfl⟩

namespace Tag

variable {x t : Text} {before after : List Text}

/-- A name that does not occur behind a bracket is tried in vain. -/
theorem read?_unrelated (hx : ¬ '[' :: x <:+: t) (form : Form) :
    read? (before ++ x :: after) form t = read? (before ++ after) form t := by
  have hunread : ∀ marked, Candidate.read? form t ⟨marked, x⟩ = none := by
    intro marked
    cases hg : Candidate.read? form t ⟨marked, x⟩ with
    | none => rfl
    | some g => exact absurd (Candidate.infix_of_read? hg) hx
  simp [read?, Candidate.all, List.findSome?_append, hunread]

theorem readAlike_unrelated (hx : ¬ '[' :: x <:+: t) :
    ReadAlike (before ++ after) (before ++ x :: after) t := fun i =>
  (read?_unrelated (fun hin => hx (hin.trans (List.drop_suffix i t).isInfix)) .full).symm

end Tag

/-! ## Handlers that are functions -/

/-- A call does nothing but answer, and the answer depends on the call alone. -/
def Behaviour.IsPure (act : Behaviour η σ) : Prop :=
  ∀ h c, ∃ outcome, ∀ w, act h c w = ⟨outcome, w, []⟩

theorem Behaviour.IsPure.call {act : Behaviour η σ} (hpure : act.IsPure) {h : η} {c : Call}
    {w w₁ : World η σ} {outcome : Except Error (Reply η σ)} {events : List Event}
    (hcall : act h c w = ⟨outcome, w₁, events⟩) (w' : World η σ) :
    w₁ = w ∧ act h c w' = ⟨outcome, w', []⟩ := by
  obtain ⟨outcome', heq⟩ := hpure h c
  have hresult := hcall.symm.trans (heq w)
  obtain rfl : outcome = outcome' := congrArg Result.outcome hresult
  exact ⟨congrArg Result.world hresult, heq w'⟩

section Pure

variable {act : Behaviour η σ} {e e' : Expander η} {strict : Bool} {w w' : World η σ}

/-- A tag that has a handler is answered in the same way in any world with this handler. -/
theorem Answers.of_isPure (hpure : act.IsPure) {o : Occurrence} {calls : List (η × Call)}
    {out : Except Error Text} {w₁ : World η σ} {events : List Event}
    (h : Answers act e strict o w calls out w₁ events)
    (hget : e.source.get? w.registry o.tag.name ≠ none)
    (hsame : e'.source.get? w'.registry o.tag.name = e.source.get? w.registry o.tag.name)
    (strict' : Bool) :
    w₁ = w ∧ ∃ events', Answers act e' strict' o w' calls out w' events' := by
  cases h with
  | escaped hesc => exact ⟨rfl, _, .escaped hesc⟩
  | unhandled hesc hnone hstrict => exact absurd hnone hget
  | missing hesc hnone hstrict => exact absurd hnone hget
  | value hesc hsome hcall =>
      obtain ⟨hw, hcall'⟩ := hpure.call hcall w'
      exact ⟨hw, _, .value hesc (hsame.trans hsome) hcall'⟩
  | awaitable hesc hsome hcall =>
      obtain ⟨hw, hcall'⟩ := hpure.call hcall w'
      exact ⟨hw, _, .awaitable hesc (hsame.trans hsome) hcall'⟩
  | failed hesc hsome hcall =>
      obtain ⟨hw, hcall'⟩ := hpure.call hcall w'
      exact ⟨hw, _, .failed hesc (hsame.trans hsome) hcall'⟩

theorem replaceAll_outcome_of_isPure (hpure : act.IsPure) {strict' : Bool} {segs : List Segment}
    (hget : ∀ o, .tag o ∈ segs → e.source.get? w.registry o.tag.name ≠ none)
    (hsame : ∀ o, .tag o ∈ segs →
      e'.source.get? w'.registry o.tag.name = e.source.get? w.registry o.tag.name) :
    (Expander.replaceAll act e' strict' segs w').outcome =
      (Expander.replaceAll act e strict segs w).outcome := by
  induction segs with
  | nil => rfl
  | cons seg segs ih =>
      have hrest := ih (fun o ho => hget o (List.mem_cons_of_mem seg ho))
        (fun o ho => hsame o (List.mem_cons_of_mem seg ho))
      cases seg with
      | gap u => exact Run.outcome_map_congr hrest _
      | tag o =>
          obtain ⟨calls, out, w₁, events, answers⟩ := exists_answers act e strict o w
          obtain ⟨rfl, events', answers'⟩ := answers.of_isPure hpure
            (hget o List.mem_cons_self) (hsame o List.mem_cons_self) strict'
          rw [Expander.replaceAll, Expander.replaceAll]
          cases out with
          | error err =>
              rw [Run.bind_error answers.replacement, Run.bind_error answers'.replacement]
          | ok r =>
              rw [Run.bind_ok answers.replacement, Run.bind_ok answers'.replacement]
              exact Run.outcome_map_congr hrest _

/-- The outcome of a pass is that of replacing the tags. -/
theorem exists_expand_outcome (act : Behaviour η σ) (e : Expander η) (t : Text) (w : World η σ) :
    ∃ cache, (e.expand act t w).outcome =
      (Expander.replaceAll act e (e.fixed.getD w.config).isStrict
        (segments t (Tag.tagsIn (e.source.names w.registry) t))
        { w with expressions := cache }).outcome := by
  obtain ⟨p?, cache, events, hbuilt, -⟩ := exists_onlyBuilds_pattern? e (some t) w
  refine ⟨cache, ?_⟩
  rw [expand_eq_building, Run.bind_ok hbuilt]
  rfl

/-- Expanders whose names read alike and find the same handlers expand a text alike, if the
handlers are functions. -/
theorem expand_outcome_of_readAlike (hpure : act.IsPure) {t : Text}
    (halike : Tag.ReadAlike (e.source.names w.registry) (e'.source.names w'.registry) t)
    (hsame : ∀ name ∈ e.source.names w.registry,
      e'.source.get? w'.registry name = e.source.get? w.registry name) :
    (e'.expand act t w').outcome = (e.expand act t w).outcome := by
  obtain ⟨cache, hexpand⟩ := exists_expand_outcome act e t w
  obtain ⟨cache', hexpand'⟩ := exists_expand_outcome act e' t w'
  have hname : ∀ o, .tag o ∈ segments t (Tag.tagsIn (e.source.names w.registry) t) →
      o.tag.name ∈ e.source.names w.registry := by
    intro o ho
    obtain ⟨hread, -⟩ := (Tag.scanned_tagsIn _ t).of_mem (mem_of_tag_mem_segments ho)
    exact Tag.name_mem_of_read? hread
  rw [hexpand, hexpand', halike.tagsIn]
  exact replaceAll_outcome_of_isPure hpure
    (fun o ho => e.source.hasAll_names w.registry _ (hname o ho)) fun o ho => hsame _ (hname o ho)

end Pure

/-- A name that does not occur behind a bracket changes nothing where it is added.  The tags of the
text and what stripping leaves of it are the same with and without it, whatever the names are, and
also if there are no others.  If the handlers are functions and the other names keep theirs,
expanders do the same with and without it. -/
theorem passes_of_unrelated_name {x t : Text} (hx : ¬ '[' :: x <:+: t) (before after : List Text) :
    (Tag.tagsIn (before ++ x :: after) t = Tag.tagsIn (before ++ after) t ∧
      Tag.leftover (before ++ x :: after) t = Tag.leftover (before ++ after) t) ∧
    ∀ (act : Behaviour η σ) (e e' : Expander η) (w w' : World η σ), act.IsPure →
      e.source.names w.registry = before ++ after →
      e'.source.names w'.registry = before ++ x :: after →
      (∀ name ∈ before ++ after,
        e'.source.get? w'.registry name = e.source.get? w.registry name) →
      (e'.scan t w').outcome = (e.scan t w).outcome ∧
        (e'.strip t w').outcome = (e.strip t w).outcome ∧
        (e'.expand act t w').outcome = (e.expand act t w).outcome := by
  have halike : Tag.ReadAlike (before ++ after) (before ++ x :: after) t :=
    Tag.readAlike_unrelated hx
  refine ⟨⟨halike.tagsIn, halike.leftover⟩, fun act e e' w w' hpure hnames hnames' hsame => ?_⟩
  rw [← hnames] at hsame
  rw [← hnames, ← hnames'] at halike
  obtain ⟨hscan, hstrip⟩ := outcomes_of_readAlike halike
  exact ⟨hscan, hstrip, expand_outcome_of_readAlike hpure halike hsame⟩

/-- A world in which a name that begins with a bracket has a handler, too. -/
def bracketName : World Unit Unit where
  registry := oneName.registry.accept ['[', 'b'] (by decide) ()
  memory := ()

theorem passes_of_unrelated_name_bracket :
    ¬ ['[', '[', 'b'] <:+: "[ [b k]x[/b][b/]".toList ∧
    (Expander.scan ⟨.live, none⟩ "[ [b k]x[/b][b/]".toList bracketName).outcome =
      (Expander.scan ⟨.live, none⟩ "[ [b k]x[/b][b/]".toList oneName).outcome ∧
    (Expander.expand (fun _ c => pure (.value (.text (c.content.getD c.name)))) ⟨.live, none⟩
      "[ [b k]x[/b][b/]".toList bracketName).outcome = .ok "[ xb".toList := by
  have hx : ¬ ['[', '[', 'b'] <:+: "[ [b k]x[/b][b/]".toList := by decide
  obtain ⟨-, hpasses⟩ := passes_of_unrelated_name hx [['b']] []
  obtain ⟨hscan, -, hexpand⟩ := hpasses
    (fun _ c => pure (.value (.text (c.content.getD c.name)))) ⟨.live, none⟩ ⟨.live, none⟩ oneName
    bracketName (fun _ _ => ⟨_, fun _ => rfl⟩) rfl (by decide) (by decide)
  refine ⟨hx, hscan, ?_⟩
  rw [hexpand]
  decide +kernel

end BracketTags
