import BracketTags.Proofs.Calls
import BracketTags.Session.Run

/-!
# Snapshots

A pass over a snapshot has nothing to do with the registry that the snapshot was
taken of.

*The pass.*  Its names and handlers are those of the snapshot in every world, so
its handlers are steady, and it makes no difference whether it is strict
(`expand_frozen_congr`).

*What runs leave alone.*  A run may leave a part of the world as it is, however
it ends (`Run.Leaves`).  A pass does if its handlers do (`leaves_expand`).

*Sessions.*  Snapshots are kept by name in the memory of a session.  No handler
and no command changes one, unless it is taken again (`leaves_reportAll`).  So a
snapshot always shows the registry as it was when it was taken
(`snapshot_isolated`).
-/

namespace BracketTags

variable {η σ α β κ : Type}

/-! ## Passes over snapshots -/

section Frozen

variable {s : Snapshot η} {act : Behaviour η σ} {t : Text} {w : World η σ}

theorem isSteady_frozen (s : Snapshot η) (fixed : Option Config) (act : Behaviour η σ) (t : Text)
    (w : World η σ) : (Expander.mk (.frozen s) fixed).IsSteady act t w :=
  fun _ _ _ _ => rfl

/-- The handler of a tag is found, so it is not asked whether the pass is strict. -/
theorem replacement_frozen_congr {o : Occurrence} (hget : s.get? o.tag.name ≠ none)
    (fixed fixed' : Option Config) (strict strict' : Bool) :
    Expander.replacement act ⟨.frozen s, fixed⟩ strict o =
      Expander.replacement act ⟨.frozen s, fixed'⟩ strict' o := by
  obtain ⟨h, hget⟩ := Option.ne_none_iff_exists'.mp hget
  have hresolve : (Expander.resolve ⟨.frozen s, fixed⟩ strict o : Run η σ (Option η)) =
      Expander.resolve ⟨.frozen s, fixed'⟩ strict' o := by
    funext w
    cases hesc : o.tag.isEscaped with
    | true => rw [resolve_escaped hesc, resolve_escaped hesc]
    | false =>
        have hfound (fixed : Option Config) (strict : Bool) :
            Expander.resolve ⟨.frozen s, fixed⟩ strict o w = ⟨.ok (some h), w, []⟩ :=
          resolve_some hesc hget
        rw [hfound, hfound]
  rw [Expander.replacement, Expander.replacement, hresolve]

/-- A pass over a snapshot does the same with any configuration. -/
theorem expand_frozen_congr (s : Snapshot η) (fixed fixed' : Option Config)
    (act : Behaviour η σ) (t : Text) (w : World η σ) :
    Expander.expand act ⟨.frozen s, fixed⟩ t w = Expander.expand act ⟨.frozen s, fixed'⟩ t w := by
  have hreplace : Expander.replaceAll act ⟨.frozen s, fixed⟩ (fixed.getD w.config).isStrict
      (segments t (Tag.tagsIn s.names t)) =
      Expander.replaceAll act ⟨.frozen s, fixed'⟩ (fixed'.getD w.config).isStrict
        (segments t (Tag.tagsIn s.names t)) := by
    refine replaceAll_congr fun o ho => replacement_frozen_congr ?_ _ _ _ _
    exact (Source.frozen s).hasAll_names w.registry _
      (Tag.name_mem_of_mem_tagsIn (mem_of_tag_mem_segments ho))
  rw [expand_eq_building, expand_eq_building]
  exact congrArg
    (fun x => (Expander.pattern? ⟨.frozen s, fixed⟩ (some t) >>= fun _ => x) w) hreplace

end Frozen

/-! ## What runs leave alone -/

/-- The run leaves the part `f` of the world as it is, however it ends, and `P` holds of its
value. -/
def Run.Leaves (f : World η σ → κ) (P : α → Prop) (x : Run η σ α) : Prop :=
  ∀ w, f (x w).world = f w ∧ ∀ a, (x w).outcome = .ok a → P a

namespace Run.Leaves

variable {f : World η σ → κ} {P : α → Prop} {Q : β → Prop} {x : Run η σ α}

theorem pure {a : α} (ha : P a) : (Pure.pure a : Run η σ α).Leaves f P := by
  intro w
  refine ⟨rfl, fun b hb => ?_⟩
  rw [← Except.ok.inj hb]
  exact ha

theorem fail (err : Error) : (Run.fail err : Run η σ α).Leaves f P :=
  fun _ => ⟨rfl, nofun⟩

theorem ofExcept (r : Except Error α) : (Run.ofExcept r : Run η σ α).Leaves f fun _ => True := by
  cases r with
  | ok a => exact .pure trivial
  | error err => exact .fail err

theorem bind {g : α → Run η σ β} (hx : x.Leaves f P) (hg : ∀ a, P a → (g a).Leaves f Q) :
    (x >>= g).Leaves f Q := by
  intro w
  obtain ⟨hworld, hvalue⟩ := hx w
  cases hw : x w with
  | mk outcome w' events =>
      rw [hw] at hworld hvalue
      cases outcome with
      | error err =>
          rw [bind_error hw]
          exact ⟨hworld, nofun⟩
      | ok a =>
          rw [bind_ok hw]
          obtain ⟨hworld', hvalue'⟩ := hg a (hvalue a rfl) w'
          exact ⟨hworld'.trans hworld, hvalue'⟩

theorem map {g : α → β} (hx : x.Leaves f P) (hg : ∀ a, P a → Q (g a)) :
    (g <$> x).Leaves f Q := by
  rw [← bind_pure_comp]
  exact hx.bind fun a ha => .pure (hg a ha)

theorem observe (hx : x.Leaves f P) : x.observe.Leaves f fun _ => True := by
  intro w
  obtain ⟨hworld, -⟩ := hx w
  rw [Run.observe]
  cases hw : x w with
  | mk outcome w' events =>
      rw [hw] at hworld
      exact ⟨hworld, fun _ _ => trivial⟩

theorem withConfig (hf : ∀ w c, f { w with config := c } = f w) (c : Config)
    (hx : x.Leaves f P) : (Run.withConfig c x).Leaves f P := by
  intro w
  obtain ⟨hworld, hvalue⟩ := hx { w with config := c }
  rw [Run.withConfig]
  cases hw : x { w with config := c } with
  | mk outcome w' events =>
      rw [hw] at hworld hvalue
      exact ⟨(hf w' w.config).trans (hworld.trans (hf w c)), hvalue⟩

theorem of_eq (h : ∀ w, f (x w).world = f w) : x.Leaves f fun _ => True :=
  fun w => ⟨h w, fun _ _ => trivial⟩

/-- Runs that only build leave alone everything but the expressions. -/
theorem of_onlyBuilds (hf : ∀ w cache, f { w with expressions := cache } = f w)
    (hx : ∀ w, ∃ a, x.OnlyBuilds w a) : x.Leaves f fun _ => True := by
  intro w
  obtain ⟨a, cache, events, happly, -⟩ := hx w
  rw [happly]
  exact ⟨hf w cache, fun _ _ => trivial⟩

end Run.Leaves

/-! ## Passes leave alone what handlers do -/

/-- If the answer has to be awaited, then this leaves the part `f` of the world as it is. -/
def Reply.Leaves (f : World η σ → κ) : Reply η σ → Prop
  | .value _ => True
  | .awaitable body => body.Leaves f fun _ => True

/-- The handlers leave the part `f` of the world as it is, and so do awaited answers. -/
def Behaviour.Leaves (f : World η σ → κ) (act : Behaviour η σ) : Prop :=
  ∀ h c, (act h c).Leaves f (Reply.Leaves f)

section Leaves

variable {f : World η σ → κ} {act : Behaviour η σ}

theorem leaves_resolve (e : Expander η) (strict : Bool) (o : Occurrence) :
    (e.resolve strict o : Run η σ (Option η)).Leaves f fun _ => True := by
  refine .of_eq fun w => ?_
  cases hesc : o.tag.isEscaped with
  | true => rw [resolve_escaped hesc]
  | false =>
      cases hget : e.source.get? w.registry o.tag.name with
      | some h => rw [resolve_some hesc hget]
      | none =>
          rw [resolve_none hesc hget]
          split <;> rfl

theorem leaves_replaceAll (hact : act.Leaves f) (e : Expander η) (strict : Bool)
    (segs : List Segment) : (Expander.replaceAll act e strict segs).Leaves f fun _ => True := by
  induction segs with
  | nil => exact .pure trivial
  | cons seg segs ih =>
      cases seg with
      | gap u => exact ih.map fun _ _ => trivial
      | tag o =>
          refine Run.Leaves.bind (P := fun _ => True) ?_ fun _ _ => ih.map fun _ _ => trivial
          refine (leaves_resolve e strict o).bind fun h? _ => ?_
          cases h? with
          | none => exact .pure trivial
          | some h =>
              have hcalled : (act.invoke h o.tag.call).Leaves f (Reply.Leaves f) :=
                (Run.Leaves.of_eq fun _ => rfl).bind fun _ _ => hact h o.tag.call
              refine hcalled.bind fun reply _ => ?_
              cases reply with
              | value v => exact .pure trivial
              | awaitable body => exact .fail _

variable (hf : ∀ w cache, f { w with expressions := cache } = f w)
include hf

theorem leaves_scan? (e : Expander η) (t : Text) :
    (e.scan? t : Run η σ (Option (List Occurrence))).Leaves f fun _ => True :=
  (Run.Leaves.of_onlyBuilds hf (exists_onlyBuilds_pattern? e (some t))).bind fun p? _ => by
    cases p? with
    | none => exact .pure trivial
    | some p => exact .pure trivial

theorem leaves_scan (e : Expander η) (t : Text) :
    (e.scan t : Run η σ (List Occurrence)).Leaves f fun _ => True :=
  (leaves_scan? hf e t).bind fun _ _ => .pure trivial

theorem leaves_hasTag (e : Expander η) (t : Text) (name? : Option Text) :
    (e.hasTag t name? : Run η σ Bool).Leaves f fun _ => True :=
  (leaves_scan hf e t).bind fun _ _ => .pure trivial

theorem leaves_strip (e : Expander η) (t : Text) :
    (e.strip t : Run η σ Text).Leaves f fun _ => True :=
  .of_onlyBuilds hf fun w => ⟨_, onlyBuilds_strip e t w⟩

/-- A pass leaves alone what its handlers and the expressions have no part in. -/
theorem leaves_expand (hact : act.Leaves f) (e : Expander η) (t : Text) :
    (e.expand act t).Leaves f fun _ => True := by
  refine (leaves_scan? hf e t).bind fun os? _ => ?_
  cases os? with
  | none => exact .pure trivial
  | some os =>
      refine Run.Leaves.bind (P := fun _ => True) (.of_eq fun w => ?_) fun c _ =>
        leaves_replaceAll hact e c.isStrict (segments t os)
      rw [Expander.config]
      cases e.fixed with
      | none => rfl
      | some c => rfl

theorem leaves_expandAwaiting (hact : act.Leaves f) (e : Expander η) (t : Text) :
    (e.expandAwaiting act t).Leaves f fun _ => True := by
  rw [expandAwaiting_eq]
  refine leaves_expand hf (fun h c => (hact h c).bind fun reply hreply => ?_) e t
  refine Run.Leaves.map (P := fun _ => True) ?_ fun _ _ => trivial
  cases reply with
  | value v => exact .pure trivial
  | awaitable body => exact (Run.Leaves.of_eq fun _ => rfl).bind fun _ _ => hreply

end Leaves

/-! ## Scripts -/

/-- The snapshot that a session keeps under a name. -/
def World.snapshot? (name : Text) (w : World Handler Memory) : Option (Snapshot Handler) :=
  w.memory.snapshots.find? name

/-- The run leaves the snapshot of the name as it is. -/
abbrev Scripted.Keeps (name : Text) (x : Scripted α) : Prop :=
  x.Leaves (World.snapshot? name) fun _ => True

section Scripts

variable {name : Text}

theorem keeps_registerScript (m : Text) (offer : Offer Script) :
    Scripted.Keeps name (registerScript m offer) := by
  refine Run.Leaves.bind (P := fun _ => True) ?_ fun made _ => ?_
  · cases offer with
    | handler script => exact .of_eq fun _ => rfl
    | scalar v => exact .pure trivial
  · refine Run.Leaves.bind (P := fun _ => True) (.of_eq fun _ => rfl) fun r _ => ?_
    cases r.register m made with
    | error err => exact .fail err
    | ok p => exact (Run.Leaves.of_eq fun _ => rfl).bind fun _ _ => .of_eq fun _ => rfl

theorem keeps_perform_action (a : Action Script) : Scripted.Keeps name a.perform := by
  cases a with
  | register m offer => exact keeps_registerScript m offer
  | unregister m => exact .of_eq fun _ => rfl
  | clear => exact .of_eq fun _ => rfl
  | setConfig c => exact .of_eq fun _ => rfl

theorem keeps_performAll (actions : List (Action Script)) :
    Scripted.Keeps name (performAll actions) := by
  induction actions with
  | nil => exact .pure trivial
  | cons a actions ih => exact (keeps_perform_action a).bind fun _ _ => ih

/-- A script leaves a snapshot as it is, also when the rest of its work is awaited. -/
theorem leaves_perform_script (e : Expander Handler) {inner : Scripted (Option Text)}
    (hinner : Scripted.Keeps name inner) (c : Call) : ∀ script : Script,
      (script.perform e inner c).Leaves (World.snapshot? name) (Reply.Leaves (World.snapshot? name))
  | .value v => .pure trivial
  | .content => .pure trivial
  | .wrap => .pure trivial
  | .attribute key default => .pure trivial
  | .item key => (Run.Leaves.ofExcept _).bind fun _ _ => .pure trivial
  | .has key => .pure trivial
  | .merge known => (Run.Leaves.ofExcept _).bind fun _ _ => .pure trivial
  | .fail reason => .fail reason
  | .expandContent => hinner.bind fun _ _ => .pure trivial
  | .stripContent => by
      rw [Script.perform]
      cases c.content with
      | none => exact .pure trivial
      | some t => exact (leaves_strip (fun _ _ => rfl) e t).bind fun _ _ => .pure trivial
  | .act actions next =>
      (keeps_performAll actions).bind fun _ _ => leaves_perform_script e hinner c next
  | .later next => by
      refine .pure ((leaves_perform_script e hinner c next).bind fun reply hreply => ?_)
      cases reply with
      | value v => exact .pure trivial
      | awaitable body => exact hreply

/-- Scripted handlers leave a snapshot as it is, also those of nested passes. -/
theorem leaves_behaviour (e : Expander Handler) (depth : Nat) :
    (Script.behaviour e depth).Leaves (World.snapshot? name) := by
  induction depth with
  | zero => exact fun h c => leaves_perform_script e (.fail _) c h.script
  | succ depth ih =>
      intro h c
      refine leaves_perform_script e ?_ c h.script
      cases c.content with
      | none => exact .pure trivial
      | some content =>
          exact (leaves_expand (fun _ _ => rfl) ih e content).map fun _ _ => trivial

end Scripts

/-! ## Commands -/

mutual

/-- Whether a command takes a snapshot under the name. -/
def Command.takes (name : Text) : Command → Bool
  | .snapshot m => m == name
  | .withConfig _ commands _ => Command.anyTakes name commands
  | _ => false

def Command.anyTakes (name : Text) : List Command → Bool
  | [] => false
  | c :: rest => c.takes name || Command.anyTakes name rest

end

section Commands

variable {name : Text} (fixed : Option Config)

open Command

theorem keeps_sourceOf (place : Place) : Scripted.Keeps name (sourceOf place) := by
  cases place with
  | registry => exact .pure trivial
  | snapshot m =>
      refine Run.Leaves.bind (P := fun _ => True) (.of_eq fun _ => rfl) fun memory _ => ?_
      cases memory.snapshots.find? m with
      | none => exact .fail _
      | some s => exact .pure trivial

theorem keeps_expanderOf (target : Target) : Scripted.Keeps name (expanderOf fixed target) := by
  cases target with
  | facade => exact .pure trivial
  | fresh place own => exact (keeps_sourceOf place).bind fun _ _ => .pure trivial

theorem keeps_expandBy (e : Expander Handler) (t : Text) :
    Scripted.Keeps name (expandBy fixed e t) :=
  leaves_expand (fun _ _ => rfl) (leaves_behaviour _ _) e t

theorem keeps_expandAll (ts : List Text) : Scripted.Keeps name (expandAll fixed ts) := by
  induction ts with
  | nil => exact .pure trivial
  | cons t ts ih =>
      exact (keeps_expandBy fixed _ t).bind fun _ _ => ih.bind fun _ _ => .pure trivial

theorem keeps_report {x : Scripted Answer} (hx : Scripted.Keeps name x) :
    Scripted.Keeps name (report x) :=
  hx.observe.bind fun _ _ => .of_eq fun _ => rfl

theorem keeps_snapshot {m : Text} (hne : (m == name) = false) :
    Scripted.Keeps name (perform fixed (.snapshot m)) := by
  refine .of_eq fun w => ?_
  show (w.memory.snapshots.insert m w.registry.snapshot).find? name = _
  rw [OrderedMap.find?_insert, if_neg]
  · rfl
  · rintro rfl
    exact absurd hne (by simp)

mutual

/-- A command leaves a snapshot as it is, unless it takes it again. -/
theorem keeps_perform : ∀ c : Command, c.takes name = false →
    Scripted.Keeps name (perform fixed c)
  | .register m offer, _ => (keeps_registerScript m offer).bind fun _ _ => .pure trivial
  | .decorate m offer, _ => (keeps_registerScript m offer).bind fun _ _ => .pure trivial
  | .unregister _, _ => .of_eq fun _ => rfl
  | .clear, _ => .of_eq fun _ => rfl
  | .snapshot _, h => keeps_snapshot fixed h
  | .state place, _ => (keeps_sourceOf place).bind fun _ _ => .of_eq fun _ => rfl
  | .lookup place _, _ => (keeps_sourceOf place).bind fun _ _ => .of_eq fun _ => rfl
  | .sameHandler a b _, _ =>
      (keeps_sourceOf a).bind fun _ _ => (keeps_sourceOf b).bind fun _ _ => .of_eq fun _ => rfl
  | .wiring place, _ => (keeps_sourceOf place).bind fun _ _ => .pure trivial
  | .pattern place text?, _ => (keeps_sourceOf place).bind fun _ _ =>
      (Run.Leaves.of_onlyBuilds (fun _ _ => rfl) (exists_onlyBuilds_pattern? _ text?)).bind
        fun _ _ => .pure trivial
  | .expand target t, _ => (keeps_expanderOf fixed target).bind fun e _ =>
      (keeps_expandBy fixed e t).bind fun _ _ => .pure trivial
  | .expandAwaiting target t, _ => (keeps_expanderOf fixed target).bind fun e _ =>
      (leaves_expandAwaiting (fun _ _ => rfl) (leaves_behaviour _ _) e t).bind
        fun _ _ => .pure trivial
  | .scan target t, _ => (keeps_expanderOf fixed target).bind fun e _ =>
      (leaves_scan (fun _ _ => rfl) e t).bind fun _ _ => .pure trivial
  | .hasTag target t name?, _ => (keeps_expanderOf fixed target).bind fun e _ =>
      (leaves_hasTag (fun _ _ => rfl) e t name?).bind fun _ _ => .pure trivial
  | .expandMany ts, _ => (keeps_expandAll fixed ts).bind fun _ _ => .pure trivial
  | .strip place t, _ => (keeps_sourceOf place).bind fun _ _ =>
      (leaves_strip (fun _ _ => rfl) _ t).bind fun _ _ => .pure trivial
  | .effectiveConfig own, _ => by
      refine Run.Leaves.bind (P := fun _ => True) ?_ fun _ _ => .pure trivial
      cases own with
      | none => exact .of_eq fun _ => rfl
      | some c => exact .pure trivial
  | .getConfig, _ => .of_eq fun _ => rfl
  | .setConfig _, _ => .of_eq fun _ => rfl
  | .resetConfig, _ => .of_eq fun _ => rfl
  | .withConfig c commands _, h => by
      rw [takes] at h
      exact ((keeps_reportAll commands h).withConfig (fun _ _ => rfl) c).bind
        fun _ _ => .of_eq fun _ => rfl

theorem keeps_reportAll : ∀ commands : List Command, anyTakes name commands = false →
    Scripted.Keeps name (reportAll fixed commands)
  | [], _ => .pure trivial
  | c :: rest, h => by
      rw [anyTakes, Bool.or_eq_false_iff] at h
      exact (keeps_report (keeps_perform c h.1)).bind fun _ _ =>
        (keeps_reportAll rest h.2).bind fun _ _ => .pure trivial

end

variable {w : World Handler Memory} {s : Snapshot Handler}

theorem sourceOf_snapshot (h : w.snapshot? name = some s) :
    sourceOf (.snapshot name) w = ⟨.ok (.frozen s), w, []⟩ := by
  rw [World.snapshot?] at h
  rw [sourceOf, Run.bind_ok (show Run.memory w = ⟨.ok w.memory, w, []⟩ from rfl), h]
  rfl

/-- Later commands find the snapshot that was taken. -/
theorem snapshot?_reportAll {commands : List Command} (h : anyTakes name commands = false) :
    (reportAll fixed (.snapshot name :: commands) w).world.snapshot? name =
      some w.registry.snapshot := by
  have hrest (r : Report Answer) :
      Scripted.Keeps name (reportAll fixed commands >>= fun rs => pure (r :: rs)) :=
    (keeps_reportAll fixed commands h).bind fun _ _ => .pure trivial
  rw [reportAll, Run.bind_ok (show report (perform fixed (.snapshot name)) w =
    ⟨.ok _, { w with memory := { w.memory with
      snapshots := w.memory.snapshots.insert name w.registry.snapshot } }, []⟩ from rfl)]
  refine (hrest _ _).1.trans ?_
  rw [World.snapshot?, OrderedMap.find?_insert, if_pos rfl]

end Commands

/-- A snapshot is not affected by what becomes of the registry.

A pass over a snapshot finds the tags of the names at the time when it was taken, whatever the world
is in which it runs and whatever its handlers do.  It calls the handlers that these names had then,
one for each tag that is not escaped, in order, up to the first call that fails.  It fails only with
such a call, and it warns of no missing handler.  So it makes no difference whether it is strict.

A session keeps the snapshot as it was taken, through all commands that do not take it again, among
them passes whose handlers change the registry.  It shows the names, the handlers and the version
of the registry at that time, and passes over it are passes over the snapshot. -/
theorem snapshot_isolated (r : Registry η) (act : Behaviour η σ) (fixed : Option Config) (t : Text)
    (w : World η σ) :
    (((Expander.mk (.frozen r.snapshot) fixed).scan t w).outcome = .ok (Tag.tagsIn r.names t) ∧
      (∃ calls, (∀ calls', Makes act ⟨.frozen r.snapshot, fixed⟩ t w calls' ↔ calls' = calls) ∧
        (calls.map fun p => (some p.1, p.2)) <+: due r.get? (Tag.tagsIn r.names t) ∧
        ∀ u, (Expander.expand act ⟨.frozen r.snapshot, fixed⟩ t w).outcome = .ok u →
          (calls.map fun p => (some p.1, p.2)) = due r.get? (Tag.tagsIn r.names t)) ∧
      (∀ err, (Expander.expand act ⟨.frozen r.snapshot, fixed⟩ t w).outcome = .error err →
        ∃ h c w₁, Calls act ⟨.frozen r.snapshot, fixed⟩ t w h c w₁ ∧
          ((act h c w₁).outcome = .error err ∨
            ∃ body, (act h c w₁).outcome = .ok (.awaitable body) ∧ err = .awaitable c.name)) ∧
      (∀ name i,
        .unhandled name i ∈ (Expander.expand act ⟨.frozen r.snapshot, fixed⟩ t w).events →
        HappensInCall act ⟨.frozen r.snapshot, fixed⟩ t w (.unhandled name i)) ∧
      ∀ c, Expander.expand act ⟨.frozen r.snapshot, some c⟩ t w =
        Expander.expand act ⟨.frozen r.snapshot, fixed⟩ t w) ∧
    ∀ (name : Text) (commands : List Command) (w w' : World Handler Memory),
      Command.anyTakes name commands = false →
      w' = (Command.reportAll fixed (.snapshot name :: commands) w).world →
      w'.snapshot? name = some w.registry.snapshot ∧
      (Command.perform fixed (.state (.snapshot name)) w').outcome =
        .ok (.state ⟨w.registry.names, w.registry.version, w.registry.snapshot.shown⟩) ∧
      (∀ n, (Command.perform fixed (.lookup (.snapshot name) n) w').outcome =
        .ok (.found (w.registry.names.contains n) (w.registry.get? n).isSome)) ∧
      ∀ own t, Command.perform fixed (.expand (.fresh (.snapshot name) own) t) w' =
        (Answer.text <$> Command.expandBy fixed ⟨.frozen w.registry.snapshot, own⟩ t) w' := by
  have hsteady := isSteady_frozen r.snapshot fixed act t w
  obtain ⟨calls, hmakes⟩ := exists_makes act ⟨.frozen r.snapshot, fixed⟩ t w
  refine ⟨⟨scan_outcome _ t w,
    ⟨calls, fun calls' => ⟨fun h => h.unique hmakes, fun h => h ▸ hmakes⟩,
      hmakes.of_steady hsteady⟩,
    fun err h => expand_error_of_steady hsteady h,
    fun name i h => happensInCall_of_steady hsteady h,
    fun c => expand_frozen_congr r.snapshot (some c) fixed act t w⟩, ?_⟩
  intro name commands w w' hcommands hw'
  have hkept : w'.snapshot? name = some w.registry.snapshot := by
    rw [hw']
    exact snapshot?_reportAll fixed hcommands
  have hsource := sourceOf_snapshot hkept
  refine ⟨hkept, ?_, fun n => ?_, fun own u => ?_⟩
  · rw [Command.perform, Run.bind_ok hsource]
    rfl
  · rw [Command.perform, Run.bind_ok hsource]
    rfl
  · have hexpander : Command.expanderOf fixed (.fresh (.snapshot name) own) w' =
        ⟨.ok ⟨.frozen w.registry.snapshot, own⟩, w', []⟩ := by
      rw [Command.expanderOf, Run.bind_ok hsource]
      rfl
    rw [Command.perform, Run.bind_ok hexpander, Result.after_nil]
    exact congrFun (Run.bind_pure_comp _ _) _

/-- A session with a handler that clears the registry. -/
def clearingWorld : World Handler Memory where
  registry := World.initial.registry.accept ['c'] (by decide) ⟨0, .act [.clear] (.value (.int 1))⟩
  memory := {}

/-- Both tags are answered although the first answer removes the handler, and the snapshot of a
session outlives passes over it and a cleared registry. -/
theorem snapshot_isolated_cleared :
    (∃ calls, Makes removeFirst ⟨.frozen twoRemovable.registry.snapshot, none⟩ "[b][b k]".toList
      twoRemovable calls ∧ (calls.map fun p => (some p.1, p.2)) =
        due twoRemovable.registry.get? (Tag.tagsIn [['b'], ['m']] "[b][b k]".toList)) ∧
    (Command.perform none (.state (.snapshot ['s'])) (Command.reportAll none
      [.snapshot ['s'], .expand (.fresh (.snapshot ['s']) none) "[c][c]".toList, .clear]
      clearingWorld).world).outcome =
      .ok (.state ⟨[['c']], 1, "RegistrySnapshot(names=('c',))".toList⟩) := by
  obtain ⟨⟨-, ⟨calls, hmakes, -, hcalls⟩, -⟩, -⟩ := snapshot_isolated twoRemovable.registry
    removeFirst none "[b][b k]".toList twoRemovable
  refine ⟨⟨calls, (hmakes calls).mpr rfl, hcalls [] (by decide +kernel)⟩, ?_⟩
  have hsession := (snapshot_isolated twoRemovable.registry removeFirst none [] twoRemovable).2
    ['s'] [.expand (.fresh (.snapshot ['s']) none) "[c][c]".toList, .clear] clearingWorld
  have hstate := (hsession _ rfl rfl).2.1
  have hshown : clearingWorld.registry.snapshot.shown =
      "RegistrySnapshot(names=('c',))".toList := by decide +kernel
  rw [hshown] at hstate
  exact hstate

end BracketTags
