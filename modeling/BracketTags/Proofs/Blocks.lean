import BracketTags.Proofs.Building
import BracketTags.Proofs.MissingHandlers
import Mathlib.Logic.Relation

/-!
# Blocks

A block runs a program inside a context configuration.

*Programs.*  A program sets the context configuration, runs passes, fails,
recovers from failures, and runs programs in blocks (`Program`).  Its meaning is
a run, in which blocks are told by `Run.withConfig`.

*The machine.*  A machine takes programs step by step (`Step`).  A block is
nothing but two assignments for it.  When it enters a block, it keeps the
configuration on a stack and sets another one.  When the program in the block
has ended, in whichever way, it takes the configuration from the stack and sets
it again.

*Agreement.*  The machine ends every program as its meaning says, and leaves
what lies below on the stack alone (`reaches_run`).  There is one way to go on
from each state.  So a block that is entered is always left again, and it is left
in the configuration that was in force before, whatever happened inside
(`restores_block`).

*Passes.*  A pass is settled by the configuration in force when it starts, or by
the one of its expander (`obeys_config`).
-/

namespace BracketTags

variable {η σ : Type}

/-! ## Programs -/

/-- What can be done with the context configuration. -/
inductive Program (η : Type) where
  | skip
  | setConfig (c : Config)
  | resetConfig
  | expand (e : Expander η) (t : Text)
  | expandAwaiting (e : Expander η) (t : Text)
  | fail (err : Error)
  /-- The second program runs if the first one does not fail. -/
  | seq (p q : Program η)
  /-- The second program runs if the first one fails. -/
  | recover (p q : Program η)
  /-- The program runs inside a context configuration. -/
  | block (c : Config) (p : Program η)

/-- A run, and another one if it fails. -/
def Run.recover (x y : Run η σ Unit) : Run η σ Unit := do
  let (outcome, events) ← x.observe
  Run.emitAll events
  match outcome with
  | .ok _ => return ()
  | .error _ => y

namespace Run

variable {α : Type} {w w' : World η σ} {events : List Event}

theorem recover_ok {x : Run η σ Unit} (h : x w = ⟨.ok (), w', events⟩) (y : Run η σ Unit) :
    x.recover y w = ⟨.ok (), w', events⟩ := by
  have hobserve : x.observe w = ⟨.ok (.ok (), events), w', []⟩ := by rw [observe, h]
  rw [recover, bind_ok hobserve, Result.after_nil]
  dsimp only
  rw [bind_ok (show emitAll events w' = ⟨.ok (), w', events⟩ from rfl), pure_apply,
    Result.after_mk, List.append_nil]

theorem recover_error {x : Run η σ Unit} {err : Error} (h : x w = ⟨.error err, w', events⟩)
    (y : Run η σ Unit) : x.recover y w = (y w').after events := by
  have hobserve : x.observe w = ⟨.ok (.error err, events), w', []⟩ := by rw [observe, h]
  rw [recover, bind_ok hobserve, Result.after_nil]
  dsimp only
  rw [bind_ok (show emitAll events w' = ⟨.ok (), w', events⟩ from rfl)]

theorem withConfig_apply {x : Run η σ α} {c : Config} {outcome : Except Error α}
    (h : x { w with config := c } = ⟨outcome, w', events⟩) :
    withConfig c x w = ⟨outcome, { w' with config := w.config }, events⟩ := by
  rw [withConfig, h]

end Run

namespace Program

/-- The meaning of a program. -/
def run (act : Behaviour η σ) : Program η → Run η σ Unit
  | skip => pure ()
  | setConfig c => Run.setConfig c
  | resetConfig => Run.setConfig {}
  | expand e t => (fun _ => ()) <$> e.expand act t
  | expandAwaiting e t => (fun _ => ()) <$> e.expandAwaiting act t
  | fail err => Run.fail err
  | seq p q => do
      p.run act
      q.run act
  | recover p q => (p.run act).recover (q.run act)
  | block c p => Run.withConfig c (p.run act)

/-- A program in some blocks, the first of which is the outermost. -/
def within (cs : List Config) (p : Program η) : Program η := cs.foldr block p

end Program

/-! ## The machine -/

namespace Machine

/-- What the machine is about to do. -/
inductive Control (η : Type) where
  | run (p : Program η)
  /-- A program has ended. -/
  | ended (outcome : Except Error Unit)

/-- What is left to do when a program has ended. -/
inductive Frame (η : Type) where
  /-- Run a program, unless there was a failure. -/
  | next (q : Program η)
  /-- Run a program if there was a failure. -/
  | rescue (q : Program η)
  /-- Leave a block that was entered in this configuration. -/
  | restore (c : Config)

structure State (η σ : Type) where
  control : Control η
  /-- The frames, innermost first. -/
  stack : List (Frame η)
  world : World η σ
  /-- The events so far. -/
  events : List Event

/-- A text is not kept. -/
def discard : Except Error Text → Except Error Unit
  | .ok _ => .ok ()
  | .error err => .error err

/-- One step of the machine. -/
inductive Step (act : Behaviour η σ) : State η σ → State η σ → Prop where
  | skip {K w ev} : Step act ⟨.run .skip, K, w, ev⟩ ⟨.ended (.ok ()), K, w, ev⟩
  | setConfig {c K w ev} :
      Step act ⟨.run (.setConfig c), K, w, ev⟩ ⟨.ended (.ok ()), K, { w with config := c }, ev⟩
  | resetConfig {K w ev} :
      Step act ⟨.run .resetConfig, K, w, ev⟩ ⟨.ended (.ok ()), K, { w with config := {} }, ev⟩
  | expand {e t K w ev outcome w' more} (h : e.expand act t w = ⟨outcome, w', more⟩) :
      Step act ⟨.run (.expand e t), K, w, ev⟩ ⟨.ended (discard outcome), K, w', ev ++ more⟩
  | expandAwaiting {e t K w ev outcome w' more}
      (h : e.expandAwaiting act t w = ⟨outcome, w', more⟩) :
      Step act ⟨.run (.expandAwaiting e t), K, w, ev⟩
        ⟨.ended (discard outcome), K, w', ev ++ more⟩
  | fail {err K w ev} : Step act ⟨.run (.fail err), K, w, ev⟩ ⟨.ended (.error err), K, w, ev⟩
  | seq {p q K w ev} : Step act ⟨.run (.seq p q), K, w, ev⟩ ⟨.run p, .next q :: K, w, ev⟩
  | recover {p q K w ev} :
      Step act ⟨.run (.recover p q), K, w, ev⟩ ⟨.run p, .rescue q :: K, w, ev⟩
  /-- A block is entered. -/
  | enter {c p K w ev} :
      Step act ⟨.run (.block c p), K, w, ev⟩
        ⟨.run p, .restore w.config :: K, { w with config := c }, ev⟩
  | next {q K w ev} : Step act ⟨.ended (.ok ()), .next q :: K, w, ev⟩ ⟨.run q, K, w, ev⟩
  | stop {err q K w ev} :
      Step act ⟨.ended (.error err), .next q :: K, w, ev⟩ ⟨.ended (.error err), K, w, ev⟩
  | keep {q K w ev} :
      Step act ⟨.ended (.ok ()), .rescue q :: K, w, ev⟩ ⟨.ended (.ok ()), K, w, ev⟩
  | rescue {err q K w ev} :
      Step act ⟨.ended (.error err), .rescue q :: K, w, ev⟩ ⟨.run q, K, w, ev⟩
  /-- A block is left, and its outcome is passed on. -/
  | leave {outcome c K w ev} :
      Step act ⟨.ended outcome, .restore c :: K, w, ev⟩
        ⟨.ended outcome, K, { w with config := c }, ev⟩

/-- The machine comes from one state to another. -/
def Reaches (act : Behaviour η σ) : State η σ → State η σ → Prop :=
  Relation.ReflTransGen (Step act)

/-- A step before and after which the frames `K` lie at the bottom of the stack. -/
structure StepAbove (act : Behaviour η σ) (K : List (Frame η)) (s s' : State η σ) : Prop where
  step : Step act s s'
  before : K <:+ s.stack
  after : K <:+ s'.stack

/-- The machine comes from one state to another, and the frames `K` are never taken from the
stack. -/
def ReachesAbove (act : Behaviour η σ) (K : List (Frame η)) : State η σ → State η σ → Prop :=
  Relation.ReflTransGen (StepAbove act K)

section Machine

variable {act : Behaviour η σ} {K K' : List (Frame η)} {s s' s'' : State η σ}

/-- There is one way to go on. -/
theorem Step.unique (h : Step act s s') (h' : Step act s s'') : s' = s'' := by
  cases h with
  | expand h =>
      cases h' with
      | expand h' =>
          cases h.symm.trans h'
          rfl
  | expandAwaiting h =>
      cases h' with
      | expandAwaiting h' =>
          cases h.symm.trans h'
          rfl
  | skip => cases h'; rfl
  | setConfig => cases h'; rfl
  | resetConfig => cases h'; rfl
  | fail => cases h'; rfl
  | seq => cases h'; rfl
  | recover => cases h'; rfl
  | enter => cases h'; rfl
  | next => cases h'; rfl
  | stop => cases h'; rfl
  | keep => cases h'; rfl
  | rescue => cases h'; rfl
  | leave => cases h'; rfl

theorem ReachesAbove.reaches (h : ReachesAbove act K s s') : Reaches act s s' :=
  Relation.ReflTransGen.mono (fun _ _ => StepAbove.step) _ _ h

theorem ReachesAbove.mono (h : ReachesAbove act K s s') (hK : K' <:+ K) :
    ReachesAbove act K' s s' :=
  Relation.ReflTransGen.mono
    (fun _ _ h => ⟨h.step, hK.trans h.before, hK.trans h.after⟩) _ _ h

/-- What is reached from a state is on the way to another one, or behind it. -/
theorem ReachesAbove.on_the_way_or_behind (h : ReachesAbove act K s s') (hs : K <:+ s.stack)
    (h' : Reaches act s s'') : K <:+ s''.stack ∧ Reaches act s'' s' ∨ Reaches act s' s'' := by
  induction h using Relation.ReflTransGen.head_induction_on with
  | refl => exact .inr h'
  | @head s₀ s₁ hstep hrest ih =>
      rcases Relation.ReflTransGen.cases_head h' with rfl | ⟨s₂, hstep', hrest'⟩
      · exact .inl ⟨hs, ReachesAbove.reaches (.head hstep hrest)⟩
      · obtain rfl := hstep.step.unique hstep'
        exact ih hstep.after hrest'

/-! ## Agreement -/

/-- The state in which a program has ended. -/
def finish (K : List (Frame η)) (ev : List Event) (r : Result η σ Unit) : State η σ :=
  ⟨.ended r.outcome, K, r.world, ev ++ r.events⟩

theorem step_pass {x : Run η σ Text} {w : World η σ} {p : Program η} {ev : List Event}
    (h : ∀ outcome w' more, x w = ⟨outcome, w', more⟩ →
      Step act ⟨.run p, K, w, ev⟩ ⟨.ended (discard outcome), K, w', ev ++ more⟩) :
    Step act ⟨.run p, K, w, ev⟩ (finish K ev (((fun _ => ()) <$> x) w)) := by
  cases hx : x w with
  | mk outcome w' more =>
      cases outcome with
      | ok t =>
          rw [Run.map_ok hx]
          exact h _ _ _ hx
      | error err =>
          rw [Run.map_error hx]
          exact h _ _ _ hx

theorem finish_nil (K : List (Frame η)) (ev : List Event) (outcome : Except Error Unit)
    (w : World η σ) : finish K ev ⟨outcome, w, []⟩ = ⟨.ended outcome, K, w, ev⟩ := by
  rw [finish, List.append_nil]

theorem finish_after (K : List (Frame η)) (ev more : List Event) (r : Result η σ Unit) :
    finish K ev (r.after more) = finish K (ev ++ more) r := by
  rw [finish, finish, Result.after, List.append_assoc]

section StepAbove

variable {control control' : Control η} {f : Frame η} {w w' : World η σ} {ev ev' : List Event}

theorem StepAbove.level (h : Step act ⟨control, K, w, ev⟩ ⟨control', K, w', ev'⟩) :
    StepAbove act K ⟨control, K, w, ev⟩ ⟨control', K, w', ev'⟩ :=
  ⟨h, List.suffix_refl K, List.suffix_refl K⟩

theorem StepAbove.push (h : Step act ⟨control, K, w, ev⟩ ⟨control', f :: K, w', ev'⟩) :
    StepAbove act K ⟨control, K, w, ev⟩ ⟨control', f :: K, w', ev'⟩ :=
  ⟨h, List.suffix_refl K, List.suffix_cons f K⟩

theorem StepAbove.pop (h : Step act ⟨control, f :: K, w, ev⟩ ⟨control', K, w', ev'⟩) :
    StepAbove act K ⟨control, f :: K, w, ev⟩ ⟨control', K, w', ev'⟩ :=
  ⟨h, List.suffix_cons f K, List.suffix_refl K⟩

end StepAbove

/-- The machine ends every program as its meaning says, and leaves alone the frames that lie on the
stack before. -/
theorem reaches_run (act : Behaviour η σ) (p : Program η) (K : List (Frame η)) (w : World η σ)
    (ev : List Event) :
    ReachesAbove act K ⟨.run p, K, w, ev⟩ (finish K ev (p.run act w)) := by
  induction p generalizing K w ev with
  | skip =>
      rw [Program.run, Run.pure_apply, finish_nil]
      exact .single (.level .skip)
  | setConfig c =>
      rw [Program.run, Run.setConfig, finish_nil]
      exact .single (.level .setConfig)
  | resetConfig =>
      rw [Program.run, Run.setConfig, finish_nil]
      exact .single (.level .resetConfig)
  | expand e t => exact .single (.level (step_pass fun _ _ _ h => .expand h))
  | expandAwaiting e t => exact .single (.level (step_pass fun _ _ _ h => .expandAwaiting h))
  | fail err =>
      rw [Program.run, Run.fail, finish_nil]
      exact .single (.level .fail)
  | seq p q ihp ihq =>
      have hfirst := (ihp (.next q :: K) w ev).mono (List.suffix_cons _ K)
      refine .head (.push .seq) (hfirst.trans ?_)
      rw [Program.run]
      cases hp : p.run act w with
      | mk outcome w' more =>
          cases outcome with
          | ok _ =>
              rw [Run.bind_ok hp, finish_after]
              exact .head (.pop .next) (ihq K w' (ev ++ more))
          | error err =>
              rw [Run.bind_error hp]
              exact .single (.pop .stop)
  | recover p q ihp ihq =>
      have hfirst := (ihp (.rescue q :: K) w ev).mono (List.suffix_cons _ K)
      refine .head (.push .recover) (hfirst.trans ?_)
      rw [Program.run]
      cases hp : p.run act w with
      | mk outcome w' more =>
          cases outcome with
          | ok _ =>
              rw [Run.recover_ok hp]
              exact .single (.pop .keep)
          | error err =>
              rw [Run.recover_error hp, finish_after]
              exact .head (.pop .rescue) (ihq K w' (ev ++ more))
  | block c p ih =>
      have hbody := (ih (.restore w.config :: K) { w with config := c } ev).mono
        (List.suffix_cons _ K)
      refine .head (.push .enter) (hbody.trans ?_)
      rw [Program.run]
      cases hp : p.run act { w with config := c } with
      | mk outcome w' more =>
          rw [Run.withConfig_apply hp]
          exact .single (.pop .leave)

/-! ## Blocks -/

/-- The block `c` around the program `p` is entered in the world `w`, and the program ends with the
result `r`. -/
structure Restores (act : Behaviour η σ) (c : Config) (p : Program η) (K : List (Frame η))
    (w : World η σ) (ev : List Event) (r : Result η σ Unit) : Prop where
  /-- The program is run inside the block, which is not left before it has ended. -/
  body : ReachesAbove act (.restore w.config :: K)
    ⟨.run p, .restore w.config :: K, { w with config := c }, ev⟩
    (finish (.restore w.config :: K) ev r)
  /-- The block is left with the same outcome, in the configuration in which it was entered. -/
  left : Reaches act ⟨.run (.block c p), K, w, ev⟩
    ⟨.ended r.outcome, K, { r.world with config := w.config }, ev ++ r.events⟩
  /-- The machine enters the block, or it is inside, or it has left it like that. -/
  covers : ∀ s, Reaches act ⟨.run (.block c p), K, w, ev⟩ s →
    s = ⟨.run (.block c p), K, w, ev⟩ ∨ (.restore w.config :: K) <:+ s.stack ∨
      Reaches act ⟨.ended r.outcome, K, { r.world with config := w.config }, ev ++ r.events⟩ s

theorem restores_block (act : Behaviour η σ) (c : Config) (p : Program η) (K : List (Frame η))
    (w : World η σ) (ev : List Event) :
    Restores act c p K w ev (p.run act { w with config := c }) := by
  have hbody := reaches_run act p (.restore w.config :: K) { w with config := c } ev
  refine ⟨hbody, ?_, fun s hs => ?_⟩
  · exact .head .enter (hbody.reaches.tail .leave)
  · rcases Relation.ReflTransGen.cases_head hs with rfl | ⟨s', hstep, hrest⟩
    · exact .inl rfl
    · obtain rfl := hstep.unique .enter
      rcases hbody.on_the_way_or_behind (List.suffix_refl _) hrest with ⟨hinside, -⟩ | hbehind
      · exact .inr (.inl hinside)
      · rcases Relation.ReflTransGen.cases_head hbehind with rfl | ⟨s'', hstep', hrest'⟩
        · exact .inr (.inl (List.suffix_refl _))
        · obtain rfl := hstep'.unique .leave
          exact .inr (.inr hrest')

/-- The innermost of some blocks sets the configuration. -/
theorem reaches_within (act : Behaviour η σ) (cs : List Config) (p : Program η)
    (K : List (Frame η)) (w : World η σ) (ev : List Event) :
    ∃ K', ReachesAbove act K ⟨.run (p.within cs), K, w, ev⟩
      ⟨.run p, K' ++ K, { w with config := cs.getLast?.getD w.config }, ev⟩ := by
  induction cs generalizing K w with
  | nil => exact ⟨[], .refl⟩
  | cons c cs ih =>
      obtain ⟨K', hrest⟩ := ih (.restore w.config :: K) { w with config := c }
      refine ⟨K' ++ [.restore w.config], ?_⟩
      rw [List.append_assoc, List.getLast?_cons, Option.getD_some]
      exact .head (.push .enter) (hrest.mono (List.suffix_cons _ K))

end Machine

end Machine

/-! ## Passes -/

section Passes

variable (act : Behaviour η σ) (e : Expander η) (t : Text) (w : World η σ)

/-- Passes treat tags without handlers as the configuration `c` says. -/
structure Obeys (c : Config) : Prop where
  expand : e.expand act t w = Expander.expand act ⟨e.source, some c⟩ t w
  expandAwaiting : e.expandAwaiting act t w = Expander.expandAwaiting act ⟨e.source, some c⟩ t w
  fails : ∀ name i?, FailsItself act e t w (.missingHandler name i?) → c.isStrict = true
  warns : ∀ name i, .unhandled name i ∈ (e.expand act t w).events →
    HappensInCall act e t w (.unhandled name i) ∨ c.isStrict = false

/-- Nothing but strictness is taken from a configuration, and it is taken at the start. -/
theorem expand_eq_fixed :
    e.expand act t w = Expander.expand act ⟨e.source, some (e.fixed.getD w.config)⟩ t w := by
  have hreplace (strict : Bool) (segs : List Segment) :
      Expander.replaceAll act ⟨e.source, some (e.fixed.getD w.config)⟩ strict segs =
        Expander.replaceAll act e strict segs :=
    replaceAll_congr fun _ _ => rfl
  rw [expand_eq_building, expand_eq_building, hreplace]
  rfl

/-- The configuration of the expander counts, or else the one in force when the pass starts. -/
theorem obeys_config : Obeys act e t w (e.fixed.getD w.config) where
  expand := expand_eq_fixed act e t w
  expandAwaiting := by
    rw [expandAwaiting_eq, expandAwaiting_eq]
    exact expand_eq_fixed act.awaited e t w
  fails _ _ h := h.exists_misses.1
  warns _ _ h := (unhandled_mem_expand h).imp id And.left

end Passes

open Machine

/-- A block always restores the configuration.

The machine ends every program as its meaning says.  Whatever the state in which it enters a block,
it runs the program in the block, and when this has ended, it leaves the block with the outcome of
the program, be it a failure or not, and in the configuration in which it entered the block.  There
is no other way out of the block.

A pass obeys the configuration of its expander, and if this has none, the one in force when the
pass starts.  In nested blocks that is the one of the innermost block. -/
theorem blocks_restore (act : Behaviour η σ) :
    (∀ p w, Reaches act ⟨.run p, [], w, []⟩ (finish [] [] (p.run act w))) ∧
    (∀ c p K w ev, Restores act c p K w ev (p.run act { w with config := c })) ∧
    (∀ e t w, Obeys act e t w (e.fixed.getD w.config)) ∧
    ∀ cs p K w ev, ∃ K', ReachesAbove act K ⟨.run (p.within cs), K, w, ev⟩
      ⟨.run p, K' ++ K, { w with config := cs.getLast?.getD w.config }, ev⟩ :=
  ⟨fun p w => (reaches_run act p [] w []).reaches, restores_block act, obeys_config act,
    reaches_within act⟩

/-- A handler sets the configuration and fails. -/
def setsAndFails : Behaviour Unit Unit := fun _ _ => do
  Run.setConfig ⟨.int 0⟩
  Run.fail .unsupported

/-- The failure of a handler leaves two blocks, and the configuration is the one before them. -/
theorem blocks_restore_setsAndFails :
    ∃ w ev, Reaches setsAndFails
      ⟨.run (.block ⟨.bool false⟩ (.seq .resetConfig
        (.block ⟨.int 2⟩ (.expand ⟨.live, none⟩ "[b]".toList)))),
        [], { oneName with config := ⟨.int 7⟩ }, []⟩
      ⟨.ended (.error .unsupported), [], w, ev⟩ ∧ w.config = ⟨.int 7⟩ := by
  have hout : (Program.run setsAndFails (.seq .resetConfig
      (.block ⟨.int 2⟩ (.expand ⟨.live, none⟩ "[b]".toList)))
      { oneName with config := ⟨.bool false⟩ }).outcome = .error .unsupported := by
    decide +kernel
  have hleft := ((blocks_restore setsAndFails).2.1 ⟨.bool false⟩ (.seq .resetConfig
    (.block ⟨.int 2⟩ (.expand ⟨.live, none⟩ "[b]".toList))) []
    { oneName with config := ⟨.int 7⟩ } []).left
  rw [hout] at hleft
  exact ⟨_, _, hleft, rfl⟩

end BracketTags
