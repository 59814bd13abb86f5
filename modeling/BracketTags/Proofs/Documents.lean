import BracketTags.Proofs.ClosingTags
import BracketTags.Proofs.Offsets
import BracketTags.Proofs.Yielding
import BracketTags.Session.Run

/-!
# Documents

A document is a tree of words and tags.  It is written as a text
(`Document.render`), and it has a value under a function of the tags
(`Document.eval`).  Handlers that expand their content evaluate the tree: a pass
over the text of a document gives its value (`expand_render`).

Three things are needed for that.

*Reading.*  A tag that stands in a document is read as it is written.  Its
closing tag is the nearest one, because a wrapping tag has no other wrapping tag
of its name inside (`WellFormed.passes`).

*Gaps.*  A word is a gap, and it is not a marker of the tag before it.

*Content.*  The content of a wrapping tag is the text of a document again, and
its handler expands that.  The depth of the tree is what counts down
(`WellFormed.yields_eval`).
-/

namespace BracketTags

variable {η σ : Type}

/-! ## Trees -/

/-- Words and tags, one after another, where a wrapping tag stands around a document. -/
inductive Document where
  | empty
  | word (text : Text) (rest : Document)
  | single (name attributes : Text) (rest : Document)
  | wrap (name attributes : Text) (inner rest : Document)

namespace Document

/-- The document as text. -/
def render : Document → Text
  | empty => []
  | word text rest => text ++ rest.render
  | single name attributes rest =>
      (Tag.mk name attributes .selfClosing false false).render ++ rest.render
  | wrap name attributes inner rest =>
      (Tag.mk name attributes (.wrapping inner.render) false false).render ++ rest.render

/-- The value of a document, if `answer` gives the value of a tag from its name, its attributes and
the value of its content. -/
def eval (answer : Text → Attributes → Option Text → Value) : Document → Text
  | empty => []
  | word text rest => text ++ rest.eval answer
  | single name attributes rest =>
      (answer name (.parse attributes) none).toText ++ rest.eval answer
  | wrap name attributes inner rest =>
      (answer name (.parse attributes) (some (inner.eval answer))).toText ++ rest.eval answer

/-- The names of the wrapping tags, inside each other too. -/
def wrapped : Document → List Text
  | empty => []
  | word _ rest => rest.wrapped
  | single _ _ rest => rest.wrapped
  | wrap name _ inner rest => name :: (inner.wrapped ++ rest.wrapped)

/-- How many passes are inside each other when each tag is answered by a pass over its content. -/
def depth : Document → Nat
  | empty => 0
  | word _ rest => rest.depth
  | single _ _ rest => max 1 rest.depth
  | wrap _ _ inner rest => max (inner.depth + 1) rest.depth

end Document

/-- Attribute text that does not go on with a name and does not end a tag. -/
structure PlainAttributes (attributes : Text) : Prop where
  bracket_notMem : '[' ∉ attributes
  closingBracket_notMem : ']' ∉ attributes
  ends : nameEnds attributes = true

/-- The names of the tags are among `names`, and no wrapping tag is inside another one of its
name. -/
inductive Document.WellFormed (names : List Text) : Document → Prop where
  | empty : WellFormed names .empty
  | word {text : Text} {rest : Document} (hopen : '[' ∉ text) (hclose : ']' ∉ text)
      (hrest : WellFormed names rest) : WellFormed names (.word text rest)
  | single {name attributes : Text} {rest : Document} (hname : name ∈ names)
      (hattributes : PlainAttributes attributes) (hrest : WellFormed names rest) :
      WellFormed names (.single name attributes rest)
  | wrap {name attributes : Text} {inner rest : Document} (hname : name ∈ names)
      (hattributes : PlainAttributes attributes) (hslash : attributes.getLast? ≠ some '/')
      (hinner : WellFormed names inner) (hwrapped : name ∉ inner.wrapped)
      (hrest : WellFormed names rest) : WellFormed names (.wrap name attributes inner rest)

/-! ## Reading a tag as it is written -/

section Reading

variable {names : List Text} {name attributes : Text}

theorem read?_selfClosing (hnames : ∀ m ∈ names, OrdinaryName m) (hname : name ∈ names)
    (hattributes : PlainAttributes attributes) {after : Text} (hafter : after.head? ≠ some ']') :
    Tag.read? names .full ((Tag.mk name attributes .selfClosing false false).render ++ after) =
      some ⟨name, attributes, .selfClosing, false, false⟩ := by
  have hends : nameEnds (attributes ++ ['/']) = true := nameEnds_append hattributes.ends rfl
  have hclose : ']' ∉ attributes ++ ['/'] :=
    List.not_mem_append hattributes.closingBracket_notMem (by decide)
  have hslash : (attributes ++ ['/']).getLast? = some '/' := List.getLast?_concat
  have hread := Tag.read?_opening_of_ordinary hnames .full ⟨false, name⟩ hname hends hclose after
  rw [Candidate.tag, bodyAfter_of_slash hslash, attributesIn, if_pos hslash, List.dropLast_concat,
    beq_eq_false_iff_ne.mpr hafter] at hread
  rw [← hread, Tag.render_eq]
  simp [Body.render, Tag.openText, Tag.closeText, Candidate.opening, openingMarker]

theorem read?_wrapping (hnames : ∀ m ∈ names, OrdinaryName m) (hname : name ∈ names)
    (hattributes : PlainAttributes attributes) (hslash : attributes.getLast? ≠ some '/')
    {content : Text} (hcontent : Text.Passes (closingTag name) content) {after : Text}
    (hafter : after.head? ≠ some ']') :
    Tag.read? names .full
        ((Tag.mk name attributes (.wrapping content) false false).render ++ after) =
      some ⟨name, attributes, .wrapping content, false, false⟩ := by
  have hread := Tag.read?_opening_of_ordinary hnames .full ⟨false, name⟩ hname hattributes.ends
    hattributes.closingBracket_notMem (content ++ (closingTag name ++ after))
  have hwrapped : wrapped? .full name (content ++ (closingTag name ++ after)) =
      some (content, after) := hcontent.cut?_append after
  rw [Candidate.tag, bodyAfter_of_wrapped hslash hwrapped, attributesIn_of_ne hslash,
    beq_eq_false_iff_ne.mpr hafter] at hread
  rw [← hread, Tag.render_eq]
  simp [Body.render, Tag.openText, Tag.closeText, Candidate.opening, openingMarker]

end Reading

namespace Document

variable {names : List Text} {d : Document}

/-- A document does not begin with a marker of the tag before it. -/
theorem WellFormed.head?_render (hd : d.WellFormed names) : d.render.head? ≠ some ']' := by
  induction hd with
  | empty => simp [render]
  | @word text rest hopen hclose hrest ih =>
      cases text with
      | nil => exact ih
      | cons c cs =>
          rintro ⟨⟩
          exact hclose List.mem_cons_self
  | single hname hattributes hrest ih => simp [render, Tag.render_eq]
  | wrap hname hattributes hslash hinner hwrapped hrest ihinner ih => simp [render, Tag.render_eq]

/-- The search for a closing tag passes over a document that has no wrapping tag of its name. -/
theorem WellFormed.passes (hnames : ∀ m ∈ names, OrdinaryName m) {name : Text}
    (hname : ']' ∉ name) (hd : d.WellFormed names) (hwrapped : name ∉ d.wrapped) :
    Text.Passes (closingTag name) d.render := by
  induction hd with
  | empty => exact Text.passes_nil _
  | word hopen hclose hrest ih => exact (passes_of_bracket_notMem name hopen).append (ih hwrapped)
  | @single m attributes rest hm hattributes hrest ih =>
      have htail : '[' ∉ attributes ++ ['/', ']'] :=
        List.not_mem_append hattributes.bracket_notMem (by decide)
      have hopening := passes_opening (hnames m hm) name htail
      simpa [render, Tag.render_eq, Body.render, Tag.openText, Tag.closeText]
        using hopening.append (ih hwrapped)
  | @wrap m attributes inner rest hm hattributes hslash hinner hnot hrest ihinner ih =>
      simp only [wrapped, List.mem_cons, List.mem_append, not_or] at hwrapped
      obtain ⟨hne, hinnerWrapped, hrestWrapped⟩ := hwrapped
      have htail : '[' ∉ attributes ++ [']'] :=
        List.not_mem_append hattributes.bracket_notMem (by decide)
      have hopening := passes_opening (hnames m hm) name htail
      have hclosing := passes_closingTag (Ne.symm hne) (hnames m hm).closingBracket_notMem hname
        (hnames m hm).bracket_notMem
      simpa [render, Tag.render_eq, Body.render, Tag.openText, Tag.closeText] using
        hopening.append ((ihinner hinnerWrapped).append (hclosing.append (ih hrestWrapped)))

theorem depth_le_length_render (d : Document) : d.depth ≤ d.render.length := by
  induction d with
  | empty => exact Nat.le_refl 0
  | word text rest ih =>
      rw [depth, render, List.length_append]
      omega
  | single name attributes rest ih =>
      have hpos := (Tag.mk name attributes .selfClosing false false).length_render_pos
      rw [depth, render, List.length_append]
      omega
  | wrap name attributes inner rest ihinner ih =>
      have hlen : inner.render.length + 1 ≤
          (Tag.mk name attributes (.wrapping inner.render) false false).render.length := by
        rw [Tag.render_eq]
        simp only [Body.render, List.length_append, List.length_cons]
        omega
      rw [depth, render, List.length_append]
      omega

/-- Without names a document has no tags, and its value is its text. -/
theorem WellFormed.render_eq_eval (hd : d.WellFormed [])
    (answer : Text → Attributes → Option Text → Value) : d.render = d.eval answer := by
  induction hd with
  | empty => rfl
  | word hopen hclose hrest ih => rw [render, eval, ih]
  | single hname => cases hname
  | wrap hname => cases hname

end Document

/-! ## Handlers that expand their content -/

section Handlers

variable {act : Reentrant η σ} {e : Expander η} {h : η} {c : Call} {depth : Nat}
  {answer : Text → Attributes → Option Text → Value}

/-- The handler expands its content, and answers with a value of the name, the attributes and the
text that it got. -/
def Reentrant.AnswersBy (act : Reentrant η σ) (answer : Text → Attributes → Option Text → Value)
    (h : η) : Prop :=
  ∀ inner c, act inner h c =
    (fun content? => .value (answer c.name c.attributes content?)) <$> inner

theorem nested_of_content (hact : act.AnswersBy answer h) {content u : Text}
    (hc : c.content = some content) {w w' : World η σ} {events : List Event}
    (hinner : e.expand (act.nested e depth) content w = ⟨.ok u, w', events⟩) :
    act.nested e (depth + 1) h c w =
      ⟨.ok (.value (answer c.name c.attributes (some u))), w', events⟩ := by
  have hnested : act.nested e (depth + 1) h c =
      act (some <$> e.expand (act.nested e depth) content) h c := by
    simp only [Reentrant.nested, hc]
  rw [hnested, hact, Run.map_ok (Run.map_ok hinner some)]

theorem nested_of_no_content (hact : act.AnswersBy answer h) (hc : c.content = none)
    (w : World η σ) :
    act.nested e (depth + 1) h c w =
      ⟨.ok (.value (answer c.name c.attributes none)), w, []⟩ := by
  have hnested : act.nested e (depth + 1) h c = act (pure none) h c := by
    simp only [Reentrant.nested, hc]
  rw [hnested, hact, Run.map_ok (Run.pure_apply none w)]

end Handlers

/-! ## Passes over documents -/

section Passes

variable {act : Behaviour η σ} {e : Expander η} {strict : Bool} {names : List Text}
  {P : Registry η → Prop}

/-- A word stays, and the pass goes on after it. -/
theorem yields_divide_word (hn : names ≠ []) {t u r : Text} (ht : '[' ∉ t)
    (hrest : ∀ start,
      (Expander.replaceAll act e strict (Tag.divide names start u)).Yields P r) (start : Nat) :
    (Expander.replaceAll act e strict (Tag.divide names start (t ++ u))).Yields P (t ++ r) := by
  induction t generalizing start with
  | nil => exact hrest start
  | cons c cs ih =>
      rw [List.mem_cons, not_or] at ht
      have hread : Tag.read? names .full (c :: (cs ++ u)) = none :=
        Tag.read?_eq_none_of_head (by simpa using Ne.symm ht.1)
      rw [List.cons_append, Tag.divide_cons hn hread, replaceAll_prependChar]
      exact (ih ht.2 (start + 1)).map (c :: ·)

/-- A tag is replaced, and the pass goes on after it. -/
theorem yields_divide_tag (hn : names ≠ []) {g : Tag} {u a r : Text}
    (hread : Tag.read? names .full (g.render ++ u) = some g)
    (htag : ∀ start, (Expander.replacement act e strict ⟨g, start, g.render⟩).Yields P a)
    (hrest : ∀ start,
      (Expander.replaceAll act e strict (Tag.divide names start u)).Yields P r) (start : Nat) :
    (Expander.replaceAll act e strict (Tag.divide names start (g.render ++ u))).Yields P
      (a ++ r) := by
  rw [replaceAll_divide_of_read? hn hread, List.drop_left]
  exact (htag start).bind ((hrest _).map (a ++ ·))

end Passes

section Evaluation

variable {act : Reentrant η σ} {e : Expander η} {registry : Registry η}
  {answer : Text → Attributes → Option Text → Value} {d : Document}

/-- A tag without markers yields the value of its handler. -/
theorem yields_answer {behaviour : Behaviour η σ} {strict : Bool} {name attributes : Text}
    {body : Body} (hname : name ∈ e.source.names registry) {v : Value}
    (hcall : ∀ h w, e.source.get? registry name = some h → w.registry = registry →
      ∃ w' events, behaviour h (Tag.mk name attributes body false false).call w =
        ⟨.ok (.value v), w', events⟩ ∧ w'.registry = registry) (start : Nat) (u : Text) :
    (Expander.replacement behaviour e strict
      ⟨⟨name, attributes, body, false, false⟩, start, u⟩).Yields (· = registry) v.toText := by
  obtain ⟨h, hget⟩ := Option.ne_none_iff_exists'.mp (e.source.hasAll_names registry name hname)
  have hyields : (Expander.replacement behaviour e strict
      ⟨⟨name, attributes, body, false, false⟩, start, u⟩).Yields (· = registry)
      ((Tag.mk name attributes body false false).withMarkers v.toText) := by
    refine yields_replacement rfl ?_
    rintro w rfl
    obtain ⟨w', events, happly, hregistry⟩ := hcall h w hget rfl
    exact ⟨h, v, w', events, hget, happly, rfl, hregistry⟩
  simpa [Tag.withMarkers, Tag.openText, Tag.closeText] using hyields

/-- A pass over the text of a document yields the value of the document.  The passes over the
contents go one level down, and may be strict or not. -/
theorem Document.WellFormed.yields_eval (hd : d.WellFormed (e.source.names registry))
    (hn : e.source.names registry ≠ [])
    (hnames : ∀ m ∈ e.source.names registry, OrdinaryName m)
    (hact : ∀ name h, e.source.get? registry name = some h → act.AnswersBy answer h)
    (strict : Bool) {depth : Nat} (hdepth : d.depth ≤ depth) (start : Nat) :
    (Expander.replaceAll (act.nested e depth) e strict
      (Tag.divide (e.source.names registry) start d.render)).Yields (· = registry)
      (d.eval answer) := by
  induction hd generalizing strict depth start with
  | empty =>
      rw [render, Tag.divide_nil]
      exact (Run.Yields.pure []).map ([] ++ ·)
  | word hopen hclose hrest ih => exact yields_divide_word hn hopen (ih strict hdepth) start
  | @single name attributes rest hname hattributes hrest ih =>
      rw [Document.depth] at hdepth
      obtain ⟨k, rfl⟩ : ∃ k, depth = k + 1 := ⟨depth - 1, by omega⟩
      have hread := read?_selfClosing hnames hname hattributes hrest.head?_render
      refine yields_divide_tag hn hread (fun start => yields_answer hname ?_ start _)
        (ih strict (by omega)) start
      intro h w hget hw
      exact ⟨w, [], nested_of_no_content (hact name h hget) rfl w, hw⟩
  | @wrap name attributes inner rest hname hattributes hslash hinner hwrapped hrest ihinner ih =>
      rw [Document.depth] at hdepth
      obtain ⟨k, rfl⟩ : ∃ k, depth = k + 1 := ⟨depth - 1, by omega⟩
      have hpasses := hinner.passes hnames (hnames name hname).closingBracket_notMem hwrapped
      have hread := read?_wrapping hnames hname hattributes hslash hpasses hrest.head?_render
      refine yields_divide_tag hn hread (fun start => yields_answer hname ?_ start _)
        (ih strict (by omega)) start
      rintro h w hget rfl
      have hinnerDepth : inner.depth ≤ k := by omega
      obtain ⟨w', events, happly, hregistry⟩ := expand_of_yields (P := (· = w.registry)) hn rfl
        fun strict => ihinner strict hinnerDepth 0
      exact ⟨w', events, nested_of_content (hact name h hget) rfl happly, hregistry⟩

/-- A pass over the text of a document gives the value of the document, if the handlers expand
their content and answer with values of it. -/
theorem expand_render {w : World η σ}
    (hnames : ∀ m ∈ e.source.names w.registry, OrdinaryName m)
    (hact : ∀ name h, e.source.get? w.registry name = some h → act.AnswersBy answer h)
    (d : Document) (hd : d.WellFormed (e.source.names w.registry)) :
    (e.expand (act.nested e (depthFor d.render)) d.render w).outcome = .ok (d.eval answer) := by
  by_cases hn : e.source.names w.registry = []
  · rw [hn] at hd
    rw [(Expands.nameless hn).expand_eq, hd.render_eq_eval answer]
  · have hdepth : d.depth ≤ depthFor d.render :=
      Nat.le_succ_of_le d.depth_le_length_render
    obtain ⟨w', events, happly, -⟩ := expand_of_yields (P := (· = w.registry)) hn rfl
      fun strict => hd.yields_eval hn hnames hact strict hdepth 0
    rw [happly]

end Evaluation

/-! ## Scripts -/

/-- A script that expands its content puts it in round brackets. -/
theorem answersBy_expandContent (e : Expander Handler) {h : Handler}
    (hscript : h.script = .expandContent) :
    Reentrant.AnswersBy (fun inner h c => h.script.perform e inner c)
      (fun _ _ content? => inBrackets content?) h := by
  intro inner c
  dsimp only
  rw [hscript, Script.perform]
  exact Run.bind_pure_comp _ inner

/-- A world in which two names have handlers that expand their content. -/
def twoNames : World Handler Memory :=
  { World.initial with
    registry :=
      (World.initial.registry.accept ['q'] (by decide) ⟨0, .expandContent⟩).accept ['i']
        (by decide) ⟨1, .expandContent⟩ }

/-- A wrapping tag inside another one, and after it a tag of the outer name that closes itself. -/
def nestedTags : Document :=
  .wrap ['q'] " k=1".toList
    (.word ['x'] (.wrap ['i'] [] (.word ['y'] .empty) (.single ['q'] [] .empty)))
    (.word ['z'] .empty)

theorem expand_render_nestedTags :
    nestedTags.render = "[q k=1]x[i]y[/i][q/][/q]z".toList ∧
    (Expander.expand (Script.behaviour ⟨.live, none⟩ (depthFor nestedTags.render)) ⟨.live, none⟩
      nestedTags.render twoNames).outcome = .ok "(x(y))z".toList := by
  have hnames : ∀ m ∈ (Source.live : Source Handler).names twoNames.registry, OrdinaryName m := by
    intro m hm
    refine ⟨?_, List.all_eq_true.mp ?_⟩
    · rintro rfl
      exact Source.live.nil_notMem_names twoNames.registry hm
    · revert m
      decide
  have hplain : PlainAttributes [] := ⟨by decide, by decide, rfl⟩
  have hkey : PlainAttributes " k=1".toList := ⟨by decide, by decide, by decide⟩
  have hd : nestedTags.WellFormed ((Source.live : Source Handler).names twoNames.registry) := by
    refine .wrap (by decide) hkey (by decide) (.word (by decide) (by decide) ?_) (by decide)
      (.word (by decide) (by decide) .empty)
    exact .wrap (by decide) hplain (by decide) (.word (by decide) (by decide) .empty) (by decide)
      (.single (by decide) hplain .empty)
  have hact : ∀ name h, (Source.live : Source Handler).get? twoNames.registry name = some h →
      Reentrant.AnswersBy (fun inner h c => h.script.perform ⟨.live, none⟩ inner c)
        (fun _ _ content? => inBrackets content?) h := by
    intro name h hget
    refine answersBy_expandContent _ ?_
    have hfind : ((OrderedMap.empty.insert ['q'] ⟨0, .expandContent⟩).insert ['i']
        ⟨1, .expandContent⟩ : OrderedMap Text Handler).find? name = some h := hget
    rw [OrderedMap.find?_insert, OrderedMap.find?_insert] at hfind
    split at hfind
    · cases hfind
      rfl
    · split at hfind
      · cases hfind
        rfl
      · cases hfind
  have hvalue : nestedTags.eval (fun _ _ content? => inBrackets content?) = "(x(y))z".toList := by
    decide
  have hexpand := @expand_render _ _ _ ⟨.live, none⟩ _ twoNames hnames hact nestedTags hd
  rw [hvalue] at hexpand
  exact ⟨by decide, hexpand⟩

end BracketTags
