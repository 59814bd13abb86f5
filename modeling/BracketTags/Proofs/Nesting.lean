import BracketTags.Pass.Nesting
import BracketTags.Proofs.Awaiting
import BracketTags.Proofs.Rendering

/-!
# Nested passes

Handlers that start passes only over the content they are called with come to an
end, whatever they do to the registry in between.

*Content.*  The content of a tag stands between two tags of the name, so it is
shorter than the text by twice the name and five characters
(`Tag.length_content_add_le`).  No name is empty, so these are seven characters at
least.

*Behaviour.*  What the handlers do is given as a function of the passes that they
may start (`SelfNesting`).  It is closed when the handlers in these passes do the
same.  Down to a depth the passes can be told, and the ones beyond that depth may be
anything (`SelfNesting.upTo`).

*Agreement.*  Two behaviours that agree on all calls with short content have the same
passes over texts that are seven characters longer
(`AgreeBelow.innerPasses_eq`).  So every level of passes adds seven characters to the
contents on which the passes beyond the depth play no part.

*The end.*  There is one closed behaviour, and no more levels of it take part in a pass
than there are sevens in the length of the text (`passes_end`).  Passes that are counted
down from the length never run out of depth (`Reentrant.innerPasses_nested`).
-/

namespace BracketTags

variable {η σ : Type}

/-! ## Content -/

section Content

variable {t content : Text}

/-- The content of a tag is shorter than the text, by two names and the five characters of the
brackets and the slash. -/
theorem Tag.length_content_add_le {names : List Text} {o : Occurrence} (ho : o ∈ tagsIn names t)
    (hc : o.tag.content? = some content) :
    content.length + (2 * o.tag.name.length + 5) ≤ t.length := by
  obtain ⟨hplace, htext, -⟩ := exists_read?_of_mem_tagsIn ho
  have hle : o.text.length ≤ t.length := by
    rw [hplace, Text.slice, List.length_take, List.length_drop]
    omega
  have hbody : o.tag.body = .wrapping content := by
    cases hb : o.tag.body with
    | opening => simp [content?, hb, Body.content?] at hc
    | selfClosing => simp [content?, hb, Body.content?] at hc
    | wrapping u =>
        simp only [content?, hb, Body.content?, Option.some.injEq] at hc
        rw [hc]
  rw [htext, render_eq, hbody] at hle
  simp only [Body.render, closingTag, List.length_append, List.length_cons, List.length_nil] at hle
  omega

/-- A handler is called with content that is at least seven characters shorter than the text. -/
theorem Calls.length_content_add_le {act : Behaviour η σ} {e : Expander η} {w w₁ : World η σ}
    {h : η} {c : Call} (hcall : Calls act e t w h c w₁) (hc : c.content = some content) :
    content.length + 7 ≤ t.length := by
  cases hcall with
  | @intro before after o strict w₀ w₁ first events calls rs h begins visits hesc hget =>
      have ho : o ∈ Tag.tagsIn (e.source.names w.registry) t := by
        rw [Tag.tagsIn, if_neg begins.names_ne, ← begins.tags]
        simp
      obtain ⟨-, -, u, hread⟩ := Tag.exists_read?_of_mem_tagsIn ho
      have hname : o.tag.name ≠ [] := fun hnil =>
        e.source.nil_notMem_names w.registry (hnil ▸ Tag.name_mem_of_read? hread)
      have hpos := List.length_pos_iff.mpr hname
      have hle := Tag.length_content_add_le ho hc
      omega

/-- The handler of the first tag is called at once. -/
theorem Begins.calls_head {e : Expander η} {w w₀ : World η σ} {o : Occurrence}
    {os : List Occurrence} {strict : Bool} {first : List Event} {h : η}
    (hb : Begins e t w (o :: os) strict w₀ first) (act : Behaviour η σ)
    (hesc : o.tag.isEscaped = false) (hget : e.source.get? w₀.registry o.tag.name = some h) :
    Calls act e t w h o.tag.call w₀ := by
  have visits : Visits act e strict [] w₀ [] [] w₀ [] := .nil
  rw [← List.nil_append (o :: os)] at hb
  exact .intro hb visits hesc hget

end Content

/-! ## Behaviour -/

/-- The passes that can be started over a text, by any expander. -/
structure InnerPasses (η σ : Type) where
  expand : Expander η → Run η σ Text
  expandAwaiting : Expander η → Run η σ Text
  strip : Expander η → Run η σ Text

/-- The passes over a text in which the handlers behave as given. -/
def innerPasses (act : Behaviour η σ) (t : Text) : InnerPasses η σ where
  expand e := e.expand act t
  expandAwaiting e := e.expandAwaiting act t
  strip e := e.strip t

/-- Passes that cannot be started. -/
def InnerPasses.refused : InnerPasses η σ where
  expand _ := Run.fail .tooDeep
  expandAwaiting _ := Run.fail .tooDeep
  strip _ := Run.fail .tooDeep

/-- Behaviour that may start passes over the content it is called with.  It is given these passes,
or nothing if there is no content. -/
abbrev SelfNesting (η σ : Type) := Option (InnerPasses η σ) → Behaviour η σ

namespace SelfNesting

/-- The behaviour when the passes over the content are given. -/
def answer (act : SelfNesting η σ) (inner : Text → InnerPasses η σ) : Behaviour η σ :=
  fun h c => act (c.content.map inner) h c

/-- The handlers in the passes that `B` starts behave as `B` again. -/
def IsClosed (act : SelfNesting η σ) (B : Behaviour η σ) : Prop := B = act.answer (innerPasses B)

/-- The behaviour when the passes that are nested deeper than `depth` are those of `beyond`. -/
def upTo (act : SelfNesting η σ) (beyond : Text → InnerPasses η σ) : Nat → Behaviour η σ
  | 0 => act.answer beyond
  | depth + 1 => act.answer (innerPasses (upTo act beyond depth))

end SelfNesting

/-! ## Agreement -/

/-- The behaviours agree on all calls whose content, if there is any, is shorter than `n`. -/
def AgreeBelow (n : Nat) (act act' : Behaviour η σ) : Prop :=
  ∀ h c, (∀ u, c.content = some u → u.length < n) → act h c = act' h c

namespace AgreeBelow

variable {n : Nat} {act act' : Behaviour η σ}

theorem symm (h : AgreeBelow n act act') : AgreeBelow n act' act :=
  fun x c hc => (h x c hc).symm

theorem awaited (h : AgreeBelow n act act') : AgreeBelow n act.awaited act'.awaited := by
  intro x c hc
  rw [Behaviour.awaited, Behaviour.awaited, h x c hc]

theorem expand_eq (h : AgreeBelow n act act') {t : Text} (ht : t.length < n + 7)
    (e : Expander η) : e.expand act t = e.expand act' t := by
  funext w
  refine expand_congr fun x c w₁ hcall => ?_
  rw [h x c fun u hu => ?_]
  have hle := hcall.length_content_add_le hu
  omega

/-- Passes over a text call handlers with content that is seven characters shorter. -/
theorem innerPasses_eq (h : AgreeBelow n act act') {t : Text} (ht : t.length < n + 7) :
    innerPasses act t = innerPasses act' t := by
  have hexpand := h.expand_eq ht
  have hawait : ∀ e : Expander η, e.expandAwaiting act t = e.expandAwaiting act' t := by
    intro e
    rw [expandAwaiting_eq, expandAwaiting_eq, h.awaited.expand_eq ht]
  rw [innerPasses, innerPasses]
  simp only [hexpand, hawait]

/-- A level of passes adds seven characters. -/
theorem answer (act : SelfNesting η σ) {B B' : Behaviour η σ} (h : AgreeBelow n B B') :
    AgreeBelow (n + 7) (act.answer (innerPasses B)) (act.answer (innerPasses B')) := by
  intro x c hc
  rw [SelfNesting.answer, SelfNesting.answer]
  cases hcontent : c.content with
  | none => rfl
  | some u => rw [Option.map_some, Option.map_some, h.innerPasses_eq (hc u hcontent)]

/-- Without content no pass is started. -/
theorem zero (act : SelfNesting η σ) (inner inner' : Text → InnerPasses η σ) :
    AgreeBelow 0 (act.answer inner) (act.answer inner') := by
  intro x c hc
  rw [SelfNesting.answer, SelfNesting.answer]
  cases hcontent : c.content with
  | none => rfl
  | some u => exact absurd (hc u hcontent) (Nat.not_lt_zero _)

/-- Behaviours that agree on content of any length are the same. -/
theorem eq_of_forall (h : ∀ depth, AgreeBelow (7 * depth) act act') : act = act' := by
  funext x c
  refine h ((c.content.getD []).length + 1) x c fun u hu => ?_
  rw [hu, Option.getD_some]
  omega

end AgreeBelow

/-! ## Depth -/

/-- Each text is content that a handler is called with in a pass over the text before it, the first
of them in a pass over `t`. -/
inductive Descends (η σ : Type) : Text → List Text → Prop where
  | nil {t : Text} : Descends η σ t []
  | cons {t u : Text} {us : List Text} {act : Behaviour η σ} {e : Expander η} {w w₁ : World η σ}
      {h : η} {c : Call} (hcall : Calls act e t w h c w₁) (hcontent : c.content = some u)
      (hrest : Descends η σ u us) : Descends η σ t (u :: us)

theorem Descends.length_le {t : Text} {us : List Text} (h : Descends η σ t us) :
    us.length ≤ t.length / 7 := by
  induction h with
  | nil => exact Nat.zero_le _
  | @cons t u us act e w w₁ h c hcall hcontent hrest ih =>
      have hle := hcall.length_content_add_le hcontent
      rw [List.length_cons]
      omega

namespace SelfNesting

variable (act : SelfNesting η σ)

/-- The passes beyond the depth play no part for short content. -/
theorem agreeBelow_upTo (beyond beyond' : Text → InnerPasses η σ) {depth depth' : Nat}
    (hle : depth ≤ depth') :
    AgreeBelow (7 * depth) (act.upTo beyond depth) (act.upTo beyond' depth') := by
  induction depth generalizing depth' with
  | zero =>
      cases depth' with
      | zero => exact .zero act _ _
      | succ depth' => exact .zero act _ _
  | succ depth ih =>
      obtain ⟨depth', rfl⟩ := Nat.exists_eq_add_of_lt hle
      rw [Nat.mul_succ]
      exact (ih (by omega)).answer act

/-- Passes nested as deep as `t` allows are the same as passes nested deeper. -/
theorem innerPasses_upTo (beyond beyond' : Text → InnerPasses η σ) {t : Text} {depth depth' : Nat}
    (hdepth : t.length / 7 ≤ depth) (hle : depth ≤ depth') :
    innerPasses (act.upTo beyond depth) t = innerPasses (act.upTo beyond' depth') t :=
  (act.agreeBelow_upTo beyond beyond' hle).innerPasses_eq (by omega)

/-! ## The closed behaviour -/

/-- The behaviour with passes that are nested without a limit.  The content of a call tells how deep
they can be nested. -/
def unlimited : Behaviour η σ := fun h c =>
  act.upTo (fun _ => .refused) ((c.content.getD []).length / 7 + 1) h c

theorem agreeBelow_unlimited (beyond : Text → InnerPasses η σ) (depth : Nat) :
    AgreeBelow (7 * depth) act.unlimited (act.upTo beyond depth) := by
  intro h c hc
  rw [unlimited]
  rcases Nat.le_total depth ((c.content.getD []).length / 7 + 1) with hle | hle
  · exact (act.agreeBelow_upTo beyond _ hle).symm h c hc
  · refine act.agreeBelow_upTo _ beyond hle h c fun u hu => ?_
    rw [hu, Option.getD_some]
    omega

theorem isClosed_unlimited : act.IsClosed act.unlimited := by
  funext h c
  refine ((act.agreeBelow_unlimited _ _).answer act).symm h c fun u hu => ?_
  rw [hu, Option.getD_some]
  omega

variable {act} {B B' : Behaviour η σ}

/-- Passes of a closed behaviour may stand at any depth. -/
theorem IsClosed.upTo_eq (hB : act.IsClosed B) (depth : Nat) :
    act.upTo (innerPasses B) depth = B := by
  induction depth with
  | zero => exact hB.symm
  | succ depth ih =>
      rw [upTo, ih]
      exact hB.symm

theorem IsClosed.unique (hB : act.IsClosed B) (hB' : act.IsClosed B') : B = B' := by
  refine AgreeBelow.eq_of_forall fun depth => ?_
  rw [← hB.upTo_eq depth, ← hB'.upTo_eq depth]
  exact act.agreeBelow_upTo _ _ (Nat.le_refl depth)

theorem IsClosed.innerPasses_eq (hB : act.IsClosed B) (beyond : Text → InnerPasses η σ) {t : Text}
    {depth : Nat} (hdepth : t.length / 7 ≤ depth) :
    innerPasses (act.upTo beyond depth) t = innerPasses B t := by
  rw [act.innerPasses_upTo beyond (innerPasses B) hdepth (Nat.le_refl depth), hB.upTo_eq]

end SelfNesting

/-! ## Passes that are counted -/

namespace Reentrant

/-- Behaviour that expands its content with `e`. -/
def toSelfNesting (act : Reentrant η σ) (e : Expander η) : SelfNesting η σ
  | none => act (pure none)
  | some inner => act (some <$> inner.expand e)

theorem nested_succ (act : Reentrant η σ) (e : Expander η) (depth : Nat) :
    act.nested e (depth + 1) = (act.toSelfNesting e).answer (innerPasses (act.nested e depth)) := by
  funext h c
  obtain ⟨attributes, content, name⟩ := c
  cases content with
  | none => rfl
  | some u => rfl

theorem nested_eq_upTo (act : Reentrant η σ) (e : Expander η) (depth : Nat) :
    act.nested e (depth + 1) =
      (act.toSelfNesting e).upTo (innerPasses (act.nested e 0)) depth := by
  induction depth with
  | zero => exact nested_succ act e 0
  | succ depth ih => rw [nested_succ, ih, SelfNesting.upTo]

/-- The depth that passes are given is never used up. -/
theorem innerPasses_nested (act : Reentrant η σ) (e : Expander η) {t : Text} {depth : Nat}
    (hdepth : depthFor t ≤ depth) :
    innerPasses (act.nested e depth) t = innerPasses (act.nested e (depthFor t)) t := by
  obtain ⟨more, rfl⟩ := Nat.exists_eq_add_of_le hdepth
  rw [depthFor, Nat.add_right_comm, nested_eq_upTo, nested_eq_upTo]
  exact ((act.toSelfNesting e).innerPasses_upTo _ _ (Nat.div_le_self _ _)
    (Nat.le_add_right _ _)).symm

end Reentrant

/-! ## The end of the passes -/

/-- Handlers that start passes only over their own content, and do whatever they like otherwise.
The content of a tag is shorter than the text that is scanned, so passes over content of content are
nested only so deep.  What the handlers do with all these passes is determined, and no pass beyond
the depth plays a part in it. -/
theorem passes_end (act : SelfNesting η σ) :
    (∀ (e : Expander η) (w : World η σ) (t : Text), ∃ os, (e.scan t w).outcome = .ok os ∧
      ∀ o ∈ os, ∀ content, o.tag.content? = some content →
        content.length + (2 * o.tag.name.length + 5) ≤ t.length) ∧
    (∀ t us, Descends η σ t us → us.length + 1 ≤ t.length / 7 + 1) ∧
    (∃! B, act.IsClosed B) ∧
    ∀ B, act.IsClosed B → ∀ beyond t depth, t.length / 7 ≤ depth →
      innerPasses (act.upTo beyond depth) t = innerPasses B t := by
  refine ⟨?_, ?_, ?_, ?_⟩
  · exact fun e w t => ⟨_, scan_outcome e t w, fun o ho _ hcontent =>
      Tag.length_content_add_le ho hcontent⟩
  · intro t us h
    exact Nat.succ_le_succ h.length_le
  · exact ⟨act.unlimited, act.isClosed_unlimited, fun B hB => hB.unique act.isClosed_unlimited⟩
  · intro B hB beyond t depth hdepth
    exact hB.innerPasses_eq beyond hdepth

/-- A handler that registers a second name and expands its content in round brackets. -/
def registersAndExpands : SelfNesting Unit Unit
  | none, _, _ => pure (.value .nothing)
  | some inner, _, _ => do
      Run.register ['c'] (.handler ())
      let expanded ← inner.expand ⟨.live, none⟩
      return .value (.text ('(' :: expanded ++ [')']))

/-- The name of the inner tag is registered by the handler of the outer one.  Three passes are
nested, which is what fifteen characters allow. -/
theorem passes_end_registersAndExpands :
    (∃ os, (Expander.scan ⟨.live, none⟩ "[b][c]x[/c][/b]".toList oneName).outcome = .ok os ∧
      ∀ o ∈ os, ∀ content, o.tag.content? = some content →
        content.length + (2 * o.tag.name.length + 5) ≤ 15) ∧
    (Descends Unit Unit "[b][c]x[/c][/b]".toList ["[c]x[/c]".toList, ['x']] ∧ 2 + 1 ≤ 15 / 7 + 1) ∧
    (∃ B, registersAndExpands.IsClosed B ∧
      (Expander.expand B ⟨.live, none⟩ "[b][c]x[/c][/b]".toList oneName).outcome =
        .ok "((x))".toList) ∧
    (Expander.expand (registersAndExpands.upTo (fun _ => .refused) 1) ⟨.live, none⟩
      "[b][c]x[/c][/b]".toList oneName).outcome = .error .tooDeep := by
  obtain ⟨hshort, hnested, ⟨B, hB, -⟩, hsame⟩ := passes_end registersAndExpands
  have houter : Tag.scan [['b']] "[b][c]x[/c][/b]".toList =
      [⟨⟨['b'], [], .wrapping "[c]x[/c]".toList, false, false⟩, 0, "[b][c]x[/c][/b]".toList⟩] := by
    decide +kernel
  have hinner : Tag.scan [['b'], ['c']] "[c]x[/c]".toList =
      [⟨⟨['c'], [], .wrapping ['x'], false, false⟩, 0, "[c]x[/c]".toList⟩] := by decide +kernel
  have beginsOuter : Begins ⟨.live, none⟩ "[b][c]x[/c][/b]".toList oneName _ _ _ _ :=
    ⟨by decide, houter.symm, rfl, _, rfl⟩
  have beginsInner : Begins ⟨.live, none⟩ "[c]x[/c]".toList
      { oneName with registry := oneName.registry.accept ['c'] (by decide) () } _ _ _ _ :=
    ⟨by decide, hinner.symm, rfl, _, rfl⟩
  have descends : Descends Unit Unit "[b][c]x[/c][/b]".toList ["[c]x[/c]".toList, ['x']] :=
    .cons (beginsOuter.calls_head B rfl rfl) rfl
      (.cons (beginsInner.calls_head B rfl rfl) rfl .nil)
  refine ⟨hshort _ _ _, ⟨descends, hnested _ _ descends⟩, ⟨B, hB, ?_⟩, ?_⟩
  · have hexpand := congrArg (fun inner => (inner.expand ⟨.live, none⟩ oneName).outcome)
      (hsame B hB (fun _ => .refused) "[b][c]x[/c][/b]".toList 2 (by decide))
    dsimp only [innerPasses] at hexpand
    rw [← hexpand]
    decide +kernel
  · decide +kernel

end BracketTags
