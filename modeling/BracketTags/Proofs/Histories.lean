import BracketTags.Registry
import Mathlib.Data.List.Induction

/-!
# Histories of a registry

A registry is changed by *requests*: to register, to unregister and to clear.
What it holds after some requests is told here by the list of requests alone.

*Handlers.*  A name has the handler of its last accepted registration, unless
the name was removed after that (`LastRegistered`).

*Order.*  A name was *brought* by a registration that found it absent
(`Brought`).  The names stand in the order in which each of them was brought
last.

*Version.*  The version counts the requests that were accepted and changed
something.  So a registry that shows the same version twice did not change in
between (`Registry.after_eq_of_version_eq`).

The induction goes along the requests from the first to the last.  One lemma for
each of the three says what a single request does (`get?_answer`,
`names_answer`, `version_answer`).
-/

namespace BracketTags

variable {η : Type}

/-! ## Requests -/

/-- What is asked of a registry. -/
inductive Request (η : Type) where
  | register (name : Text) (offer : Offer η)
  | unregister (name : Text)
  | clear

/-- After the request it does not matter which handler the name had before. -/
inductive Request.Settles (name : Text) : Request η → Prop where
  | register (hname : name ≠ []) (h : η) : Settles name (.register name (.handler h))
  | unregister : Settles name (.unregister name)
  | clear : Settles name .clear

/-- Whether the request is an accepted registration. -/
def Request.isAcceptance : Request η → Bool
  | .register name (.handler _) => !name.isEmpty
  | _ => false

/-- Whether the request removes a name that the registry has. -/
def Request.isRemoval (r : Registry η) : Request η → Bool
  | .unregister name => r.handlers.contains name
  | _ => false

def Request.isClearing : Request η → Bool
  | .clear => true
  | _ => false

namespace Registry

/-- The registry after a request.  A request that fails leaves it as it is. -/
def answer (r : Registry η) : Request η → Registry η
  | .register name offer =>
      match r.register name offer with
      | .ok (r', _) => r'
      | .error _ => r
  | .unregister name => r.unregister name
  | .clear => r.clear

/-- The registry after some requests, one after another. -/
def after (r : Registry η) (qs : List (Request η)) : Registry η := qs.foldl answer r

/-- The number of names that the requests remove, beginning with the registry `r`. -/
def removals (r : Registry η) : List (Request η) → Nat
  | [] => 0
  | q :: qs => (if q.isRemoval r then 1 else 0) + removals (r.answer q) qs

end Registry

/-! ## What a history says -/

/-- The last accepted registration of the name offers the handler `h`, and the name is not removed
after it. -/
def LastRegistered (qs : List (Request η)) (name : Text) (h : η) : Prop :=
  ∃ before after, qs = before ++ .register name (.handler h) :: after ∧ name ≠ [] ∧
    ∀ q ∈ after, ¬ q.Settles name

/-- The request at place `i` is an accepted registration of the name, which was absent. -/
def Brought (qs : List (Request η)) (i : Nat) (name : Text) : Prop :=
  (∃ h, qs[i]? = some (.register name (.handler h))) ∧ name ≠ [] ∧
    ∀ h, ¬ LastRegistered (qs.take i) name h

/-- The name was brought at place `i`, and never after that. -/
structure LastBrought (qs : List (Request η)) (i : Nat) (name : Text) : Prop where
  brought : Brought qs i name
  last : ∀ j, i < j → ¬ Brought qs j name

/-- A registry holds what the requests say that it holds. -/
structure Registry.Records (qs : List (Request η)) (r : Registry η) : Prop where
  nodup_names : r.names.Nodup
  nil_notMem_names : [] ∉ r.names
  get?_eq_some_iff : ∀ name h, r.get? name = some h ↔ LastRegistered qs name h
  mem_names_iff : ∀ name, name ∈ r.names ↔ (r.get? name).isSome
  contains_eq : ∀ name, r.handlers.contains name = (r.get? name).isSome
  size_eq : r.handlers.size = r.names.length
  /-- Each name was brought at some time. -/
  brought : ∀ name ∈ r.names, ∃ i, LastBrought qs i name
  /-- Of two names, the one that was brought first comes first. -/
  ordered : r.names.Pairwise fun m n => ∀ i j, LastBrought qs i m → LastBrought qs j n → i < j
  version_eq : r.version = qs.countP Request.isAcceptance + Registry.removals {} qs +
    qs.countP Request.isClearing

/-! ## One request -/

theorem Request.settles_iff {q : Request η} {name : Text} :
    q.Settles name ↔
      (∃ h, q = .register name (.handler h)) ∧ name ≠ [] ∨ q = .unregister name ∨ q = .clear := by
  constructor
  · intro hq
    cases hq with
    | register hname h => exact .inl ⟨⟨h, rfl⟩, hname⟩
    | unregister => exact .inr (.inl rfl)
    | clear => exact .inr (.inr rfl)
  · rintro (⟨⟨h, rfl⟩, hname⟩ | rfl | rfl)
    · exact .register hname h
    · exact .unregister
    · exact .clear

namespace Registry

variable {r : Registry η} {q : Request η} {name m : Text} {h : η}

theorem contains_iff : r.handlers.contains name = true ↔ name ∈ r.names :=
  OrderedMap.contains_iff_mem_keys

theorem mem_names_iff : name ∈ r.names ↔ (r.get? name).isSome := by
  rw [← contains_iff]
  rfl

/-- A registration of the empty name fails. -/
theorem answer_register_nil (r : Registry η) (offer : Offer η) :
    r.answer (.register [] offer) = r := rfl

/-- A value that is no handler is ignored. -/
theorem answer_register_scalar (r : Registry η) (name : Text) (v : Value) :
    r.answer (.register name (.scalar v)) = r := by
  by_cases hname : name = []
  · rw [hname, answer_register_nil]
  · simp only [answer, register, dif_neg hname]

theorem answer_register_handler (r : Registry η) (hname : name ≠ []) (h : η) :
    r.answer (.register name (.handler h)) = r.accept name hname h := by
  simp only [answer, register, dif_neg hname]

theorem answer_unregister_of_notMem (hname : name ∉ r.names) :
    r.answer (.unregister name) = r := by
  rw [answer, unregister, if_neg (mt contains_iff.mp hname)]

theorem get?_accept (r : Registry η) (hm : m ≠ []) (h : η) (name : Text) :
    (r.accept m hm h).get? name = if name = m then some h else r.get? name :=
  OrderedMap.find?_insert r.handlers m h name

theorem get?_unregister (r : Registry η) (m name : Text) :
    (r.unregister m).get? name = if name = m then none else r.get? name := by
  rw [unregister]
  split
  · exact OrderedMap.find?_erase r.handlers m name
  · next hm =>
      split
      · next hname =>
          rw [hname, ← Option.not_isSome_iff_eq_none, ← mem_names_iff]
          exact mt contains_iff.mpr hm
      · rfl

/-- A request gives a name its handler, or takes it away, or has nothing to do with the name. -/
theorem get?_answer (r : Registry η) (q : Request η) (name : Text) (h : η) :
    (r.answer q).get? name = some h ↔
      q = .register name (.handler h) ∧ name ≠ [] ∨ ¬ q.Settles name ∧ r.get? name = some h := by
  cases q with
  | clear =>
      have hnone : (r.answer .clear).get? name = none := rfl
      simp [hnone, Request.settles_iff]
  | unregister m =>
      rw [answer, get?_unregister]
      by_cases hname : name = m <;> simp [hname, Request.settles_iff, Ne.symm]
  | register m offer =>
      cases offer with
      | scalar v => simp [answer_register_scalar, Request.settles_iff]
      | handler k =>
          by_cases hm : m = []
          · subst hm
            rw [answer_register_nil]
            by_cases hname : name = [] <;> simp [hname, Request.settles_iff]
          · rw [answer_register_handler r hm, get?_accept]
            by_cases hname : name = m
            · simp [hname, hm, Request.settles_iff]
            · simp [hname, Ne.symm hname, Request.settles_iff]

/-- A request brings a new name to the end, or it brings none. -/
theorem names_answer (r : Registry η) (q : Request η) :
    (r.answer q).names.Sublist r.names ∨
      ∃ name h, q = .register name (.handler h) ∧ name ≠ [] ∧ name ∉ r.names ∧
        (r.answer q).names = r.names ++ [name] := by
  cases q with
  | clear => exact .inl (List.nil_sublist _)
  | unregister m =>
      left
      rw [answer, unregister]
      split
      · exact (List.filter_sublist).map Prod.fst
      · exact List.Sublist.refl _
  | register m offer =>
      cases offer with
      | scalar v =>
          left
          simp [answer_register_scalar]
      | handler k =>
          by_cases hm : m = []
          · subst hm
            exact .inl (List.Sublist.refl _)
          · rw [answer_register_handler r hm]
            by_cases hmem : m ∈ r.names
            · left
              have hkeys : (r.accept m hm k).names = r.names :=
                OrderedMap.keys_insert_of_mem k hmem
              simp [hkeys]
            · exact .inr ⟨m, k, rfl, hm, hmem, OrderedMap.keys_insert_of_notMem k hmem⟩

theorem version_answer (r : Registry η) (q : Request η) :
    (r.answer q).version = r.version + (if q.isAcceptance then 1 else 0) +
      (if q.isRemoval r then 1 else 0) + (if q.isClearing then 1 else 0) := by
  cases q with
  | clear => rfl
  | unregister m =>
      rw [answer, unregister]
      split
      · next hm => simp [Request.isAcceptance, Request.isRemoval, Request.isClearing, hm]
      · next hm => simp [Request.isAcceptance, Request.isRemoval, Request.isClearing, hm]
  | register m offer =>
      cases offer with
      | scalar v =>
        simp [answer_register_scalar, Request.isAcceptance, Request.isRemoval, Request.isClearing]
      | handler k =>
          by_cases hm : m = []
          · subst hm
            rfl
          · rw [answer_register_handler r hm]
            simp [accept, Request.isAcceptance, Request.isRemoval, Request.isClearing, hm]

/-- A request that does not count changes nothing. -/
theorem answer_eq_of_version_eq (h : (r.answer q).version = r.version) : r.answer q = r := by
  cases q with
  | clear => exact absurd h (Nat.succ_ne_self _)
  | unregister m =>
      by_cases hm : m ∈ r.names
      · rw [answer, unregister, if_pos (contains_iff.mpr hm)] at h
        exact absurd h (Nat.succ_ne_self _)
      · exact answer_unregister_of_notMem hm
  | register m offer =>
      cases offer with
      | scalar v => exact answer_register_scalar r m v
      | handler k =>
          by_cases hm : m = []
          · rw [hm, answer_register_nil]
          · rw [answer_register_handler r hm] at h
            exact absurd h (Nat.succ_ne_self _)

/-! ## Some requests -/

theorem after_append (r : Registry η) (qs more : List (Request η)) :
    r.after (qs ++ more) = (r.after qs).after more :=
  List.foldl_append

theorem after_append_singleton (r : Registry η) (qs : List (Request η)) (q : Request η) :
    r.after (qs ++ [q]) = (r.after qs).answer q :=
  after_append r qs [q]

theorem version_after (r : Registry η) (qs : List (Request η)) :
    (r.after qs).version = r.version +
      (qs.countP Request.isAcceptance + removals r qs + qs.countP Request.isClearing) := by
  induction qs generalizing r with
  | nil => rfl
  | cons q qs ih =>
      have hstep : r.after (q :: qs) = (r.answer q).after qs := rfl
      rw [hstep, ih, version_answer, removals, List.countP_cons, List.countP_cons]
      omega

theorem version_le_version_after (r : Registry η) (qs : List (Request η)) :
    r.version ≤ (r.after qs).version := by
  rw [version_after]
  exact Nat.le_add_right _ _

/-- Requests that do not count change nothing.  The version goes up and not down, so it stays at
each of them. -/
theorem after_eq_of_version_eq {r : Registry η} {qs : List (Request η)}
    (h : (r.after qs).version = r.version) : r.after qs = r := by
  induction qs with
  | nil => rfl
  | cons q qs ih =>
      have hstep : r.after (q :: qs) = (r.answer q).after qs := rfl
      have hle := version_le_version_after (r.answer q) qs
      have hge : r.version ≤ (r.answer q).version := version_le_version_after r [q]
      rw [hstep] at h ⊢
      have hq : r.answer q = r := answer_eq_of_version_eq (by omega)
      rw [hq] at h ⊢
      exact ih h

/-- Two moments of one history with the same version show the same registry. -/
theorem after_take_eq_of_version_eq {r : Registry η} {qs : List (Request η)} {i j : Nat}
    (hle : i ≤ j) (h : (r.after (qs.take i)).version = (r.after (qs.take j)).version) :
    r.after (qs.take i) = r.after (qs.take j) := by
  have hsplit : qs.take j = qs.take i ++ (qs.take j).drop i := by
    conv_lhs => rw [← List.take_append_drop i (qs.take j), List.take_take, Nat.min_eq_left hle]
  rw [hsplit, after_append] at h ⊢
  exact (after_eq_of_version_eq h.symm).symm

end Registry

/-! ## Histories step by step -/

section Histories

variable {qs : List (Request η)} {q : Request η} {name : Text} {i : Nat}

theorem not_lastRegistered_nil {h : η} : ¬ LastRegistered [] name h := by
  rintro ⟨before, after, hqs, -⟩
  simp at hqs

theorem lastRegistered_append_singleton {h : η} :
    LastRegistered (qs ++ [q]) name h ↔
      q = .register name (.handler h) ∧ name ≠ [] ∨
        ¬ q.Settles name ∧ LastRegistered qs name h := by
  constructor
  · rintro ⟨before, after, hqs, hname, hafter⟩
    rcases List.eq_nil_or_concat after with rfl | ⟨init, last, rfl⟩
    · obtain ⟨rfl, hq⟩ := List.append_inj' hqs rfl
      exact .inl ⟨List.singleton_inj.mp hq, hname⟩
    · rw [List.concat_eq_append, ← List.cons_append, ← List.append_assoc] at hqs
      obtain ⟨rfl, hq⟩ := List.append_inj' hqs rfl
      obtain rfl := List.singleton_inj.mp hq
      refine .inr ⟨hafter q (by simp), before, init, rfl, hname, fun q' hq' => ?_⟩
      exact hafter q' (by simp [hq'])
  · rintro (⟨rfl, hname⟩ | ⟨hq, before, after, rfl, hname, hafter⟩)
    · exact ⟨qs, [], rfl, hname, by simp⟩
    · refine ⟨before, after ++ [q], by simp, hname, fun q' hq' => ?_⟩
      rcases List.mem_append.mp hq' with hq' | hq'
      · exact hafter q' hq'
      · rw [List.mem_singleton.mp hq']
        exact hq

theorem Brought.lt_length (h : Brought qs i name) : i < qs.length := by
  obtain ⟨⟨k, hk⟩, -⟩ := h
  exact (List.getElem?_eq_some_iff.mp hk).1

/-- A later request has no part in what was brought before. -/
theorem brought_append_singleton_of_lt (hi : i < qs.length) :
    Brought (qs ++ [q]) i name ↔ Brought qs i name := by
  rw [Brought, Brought, List.getElem?_append_left hi,
    List.take_append_of_le_length (Nat.le_of_lt hi)]

theorem brought_append_singleton_length :
    Brought (qs ++ [q]) qs.length name ↔
      (∃ h, q = .register name (.handler h)) ∧ name ≠ [] ∧ ∀ h, ¬ LastRegistered qs name h := by
  simp [Brought]

/-- A request that finds the name there does not bring it. -/
theorem lastBrought_append_singleton {h : η} (hname : LastRegistered qs name h) :
    LastBrought (qs ++ [q]) i name ↔ LastBrought qs i name := by
  have hend : ¬ Brought (qs ++ [q]) qs.length name := fun hb =>
    (brought_append_singleton_length.mp hb).2.2 h hname
  have hiff : ∀ j, Brought (qs ++ [q]) j name ↔ Brought qs j name := by
    intro j
    rcases Nat.lt_trichotomy j qs.length with hj | rfl | hj
    · exact brought_append_singleton_of_lt hj
    · exact iff_of_false hend fun hb => absurd hb.lt_length (Nat.lt_irrefl _)
    · refine iff_of_false (fun hb => ?_) fun hb => absurd hb.lt_length (Nat.lt_asymm hj)
      have hlt := hb.lt_length
      rw [List.length_append, List.length_singleton] at hlt
      omega
  constructor
  · rintro ⟨hb, hlast⟩
    exact ⟨(hiff i).mp hb, fun j hj hb' => hlast j hj ((hiff j).mpr hb')⟩
  · rintro ⟨hb, hlast⟩
    exact ⟨(hiff i).mpr hb, fun j hj hb' => hlast j hj ((hiff j).mp hb')⟩

/-- The last request brings a name that is not there. -/
theorem lastBrought_append_singleton_new {h : η} (hname : name ≠ [])
    (habsent : ∀ k, ¬ LastRegistered qs name k) :
    LastBrought (qs ++ [.register name (.handler h)]) i name ↔ i = qs.length := by
  have hend : Brought (qs ++ [.register name (.handler h)]) qs.length name :=
    brought_append_singleton_length.mpr ⟨⟨h, rfl⟩, hname, habsent⟩
  constructor
  · intro hlast
    have hlt := hlast.brought.lt_length
    rw [List.length_append, List.length_singleton] at hlt
    have hge : ¬ i < qs.length := fun hi => hlast.last _ hi hend
    omega
  · rintro rfl
    refine ⟨hend, fun j hj hb => ?_⟩
    have hlt := hb.lt_length
    rw [List.length_append, List.length_singleton] at hlt
    omega

end Histories

/-! ## What a registry holds -/

namespace Registry

/-- A name has the handler of its last accepted registration, unless it was removed after that. -/
theorem get?_after (qs : List (Request η)) (name : Text) (h : η) :
    (after {} qs).get? name = some h ↔ LastRegistered qs name h := by
  induction qs using List.reverseRecOn with
  | nil => exact iff_of_false (by rintro ⟨⟩) not_lastRegistered_nil
  | append_singleton qs q ih =>
      rw [after_append_singleton, get?_answer, ih, lastRegistered_append_singleton]

theorem mem_names_after {qs : List (Request η)} {name : Text} :
    name ∈ (after {} qs).names ↔ ∃ h, LastRegistered qs name h := by
  simp only [mem_names_iff, Option.isSome_iff_exists, get?_after]

/-- The names stand in the order in which each of them was brought last.  With a request those that
were there keep their places, and a new one is later than all of them. -/
theorem names_after (qs : List (Request η)) :
    (∀ name ∈ (after {} qs).names, ∃ i, LastBrought qs i name) ∧
      (after {} qs).names.Pairwise fun m n =>
        ∀ i j, LastBrought qs i m → LastBrought qs j n → i < j := by
  induction qs using List.reverseRecOn with
  | nil => exact ⟨by rintro name ⟨⟩, List.Pairwise.nil⟩
  | append_singleton qs q ih =>
      obtain ⟨hbrought, hordered⟩ := ih
      have hold : ∀ name ∈ (after {} qs).names, ∀ i,
          LastBrought (qs ++ [q]) i name ↔ LastBrought qs i name := by
        intro name hname i
        obtain ⟨h, hlast⟩ := mem_names_after.mp hname
        exact lastBrought_append_singleton hlast
      have hpairs : (after {} qs).names.Pairwise fun m n =>
          ∀ i j, LastBrought (qs ++ [q]) i m → LastBrought (qs ++ [q]) j n → i < j := by
        refine hordered.imp_of_mem fun hm hn hlt i j hi hj => ?_
        exact hlt i j ((hold _ hm i).mp hi) ((hold _ hn j).mp hj)
      rw [after_append_singleton]
      rcases names_answer (after {} qs) q with hsub | ⟨name, h, rfl, hname, hmem, hnames⟩
      · refine ⟨fun m hm => ?_, hpairs.sublist hsub⟩
        obtain ⟨i, hi⟩ := hbrought m (hsub.subset hm)
        exact ⟨i, (hold m (hsub.subset hm) i).mpr hi⟩
      · have habsent : ∀ k, ¬ LastRegistered qs name k := fun k hk =>
          hmem (mem_names_after.mpr ⟨k, hk⟩)
        have hnew : ∀ i, LastBrought (qs ++ [.register name (.handler h)]) i name ↔
            i = qs.length := fun i => lastBrought_append_singleton_new hname habsent
        rw [hnames]
        refine ⟨fun m hm => ?_, List.pairwise_append.mpr ⟨hpairs, List.pairwise_singleton _ _, ?_⟩⟩
        · rcases List.mem_append.mp hm with hm | hm
          · obtain ⟨i, hi⟩ := hbrought m hm
            exact ⟨i, (hold m hm i).mpr hi⟩
          · rw [List.mem_singleton.mp hm]
            exact ⟨qs.length, (hnew _).mpr rfl⟩
        · intro m hm n hn i j hi hj
          rw [List.mem_singleton.mp hn] at hj
          rw [(hnew j).mp hj]
          exact ((hold m hm i).mp hi).brought.lt_length

/-- A registry holds what the requests made to it say.

* A registration of the empty name fails and a value that is no handler is ignored.  Neither changes
  the registry, and nor does the removal of a name that is absent.
* The version never goes down.
* Two moments with the same version show the same names in the same order with the same handlers. -/
theorem settled_by_requests (qs : List (Request η)) :
    Records qs (after {} qs) ∧
    ((∀ offer, (after {} qs).register [] offer = .error .emptyName ∧
        (after {} qs).answer (.register [] offer) = after {} qs) ∧
      (∀ name v, (after {} qs).answer (.register name (.scalar v)) = after {} qs) ∧
      ∀ name, name ∉ (after {} qs).names → (after {} qs).answer (.unregister name) = after {} qs) ∧
    (∀ more, (after {} qs).version ≤ (after {} (qs ++ more)).version) ∧
    ∀ i j, (after {} (qs.take i)).version = (after {} (qs.take j)).version →
      after {} (qs.take i) = after {} (qs.take j) := by
  refine ⟨?_, ⟨fun offer => ⟨rfl, rfl⟩, answer_register_scalar _, fun name hname => ?_⟩,
    fun more => ?_, fun i j h => ?_⟩
  · exact {
      nodup_names := (after {} qs).handlers.nodup_keys
      nil_notMem_names := (after {} qs).nil_notMem
      get?_eq_some_iff := get?_after qs
      mem_names_iff := fun _ => mem_names_iff
      contains_eq := fun _ => rfl
      size_eq := ((after {} qs).handlers.length_keys).symm
      brought := (names_after qs).1
      ordered := (names_after qs).2
      version_eq := (version_after {} qs).trans (Nat.zero_add _) }
  · exact answer_unregister_of_notMem hname
  · rw [after_append]
    exact version_le_version_after _ _
  · rcases Nat.le_total i j with hle | hle
    · exact after_take_eq_of_version_eq hle h
    · exact (after_take_eq_of_version_eq hle h.symm).symm

/-- One name is registered, the second one after it, and the first one is removed and registered
again.  In between a value that is no handler is offered, and a name is removed that is absent. -/
def moveRequests : List (Request Nat) :=
  [.register ['a'] (.handler 0), .register ['b'] (.handler 1), .register ['a'] (.scalar .nothing),
    .unregister ['c'], .unregister ['a'], .register ['a'] (.handler 2)]

/-- The name goes to the end, and only the requests that change something count. -/
theorem settled_by_requests_move :
    (after {} moveRequests).names = [['b'], ['a']] ∧ (after {} moveRequests).version = 4 ∧
    LastRegistered moveRequests ['a'] 2 ∧
    (after {} (moveRequests.take 2)).version = (after {} (moveRequests.take 4)).version ∧
    after {} (moveRequests.take 2) = after {} (moveRequests.take 4) := by
  obtain ⟨hrecords, -, -, hsame⟩ := settled_by_requests moveRequests
  have hversion : (after {} (moveRequests.take 2)).version =
      (after {} (moveRequests.take 4)).version := by decide
  exact ⟨by decide, by decide, (hrecords.get?_eq_some_iff ['a'] 2).mp (by decide), hversion,
    hsame 2 4 hversion⟩

end Registry

end BracketTags
