import BracketTags.Attributes.Merge
import BracketTags.Proofs.Coverage
import Mathlib.Algebra.BigOperators.Group.Finset.Basic
import Mathlib.Data.UInt

/-!
# Equality of attributes

Equality, hashing and merging look at attributes in three ways, and they agree.

*Maps.*  Two ordered maps are the same if the entries of one are those of the other
in some order (`OrderedMap.same_iff_perm`).  Then they have the same values under
all keys.

*Collections.*  Attributes are *alike* if they have the same shape, the same entries
in some order, and the same unnamed values in the same order (`Attributes.Alike`).
This is what equality decides.  It is also what the hash is computed from, which is
the set of the entries and the list of the unnamed values (`Attributes.hashed`).
Merging reads the attributes as one mapping, and alike attributes have the same
values there.

*Rearranged text.*  Named items may stand anywhere among the others.  When their
keys are different, each rearrangement gives the same entries in another order
(`parse_rearranged`).
-/

namespace BracketTags

/-! ## Maps -/

section Entries

variable {κ α : Type} [DecidableEq κ]

theorem lookupIn_eq_some_iff {k : κ} {v : α} {es : List (κ × α)} (h : (es.map Prod.fst).Nodup) :
    lookupIn k es = some v ↔ (k, v) ∈ es := by
  induction es with
  | nil => simp [lookupIn]
  | cons e es ih =>
      obtain ⟨j, u⟩ := e
      rw [List.map_cons, List.nodup_cons] at h
      rw [lookupIn, List.mem_cons, Prod.mk.injEq]
      by_cases hj : j = k
      · subst hj
        have hrest : (j, v) ∉ es := fun hmem => h.1 (List.mem_map.mpr ⟨_, hmem, rfl⟩)
        simp [hrest, eq_comm]
      · simp [hj, Ne.symm hj, ih h.2]

end Entries

namespace OrderedMap

variable {κ α β : Type} [DecidableEq κ]

theorem mem_entries_iff {m : OrderedMap κ α} {k : κ} {v : α} :
    (k, v) ∈ m.entries ↔ m.find? k = some v :=
  (lookupIn_eq_some_iff m.nodup_keys).symm

omit [DecidableEq κ] in
theorem nodup_entries (m : OrderedMap κ α) : m.entries.Nodup := m.nodup_keys.of_map

/-- Maps are the same exactly if they have the same entries in some order. -/
theorem same_iff_perm [DecidableEq α] {m n : OrderedMap κ α} :
    m.same n = true ↔ m.entries.Perm n.entries := by
  rw [same, Bool.and_eq_true, beq_iff_eq, List.all_eq_true]
  constructor
  · rintro ⟨hsize, hfound⟩
    have hsub : m.entries ⊆ n.entries := fun e he =>
      mem_entries_iff.mpr (by simpa using hfound e he)
    exact (List.subperm_of_subset m.nodup_entries hsub).perm_of_length_le hsize.ge
  · intro h
    refine ⟨h.length_eq, fun e he => ?_⟩
    rw [beq_iff_eq, ← mem_entries_iff]
    exact h.mem_iff.mp he

theorem find?_eq_of_perm {m n : OrderedMap κ α} (h : m.entries.Perm n.entries) (k : κ) :
    m.find? k = n.find? k := by
  refine Option.ext fun v => ?_
  rw [← mem_entries_iff, ← mem_entries_iff, h.mem_iff]

/-- What is inserted into maps with the same values leaves them with the same values. -/
theorem find?_insertMany_congr {m n : OrderedMap κ α} (h : ∀ k, m.find? k = n.find? k)
    (es : List (κ × α)) (k : κ) : (m.insertMany es).find? k = (n.insertMany es).find? k := by
  induction es generalizing m n with
  | nil => exact h k
  | cons e es ih =>
      refine ih fun j => ?_
      rw [find?_insert, find?_insert, h]

theorem ofList_append (m : OrderedMap κ α) (es : List (κ × α)) :
    ofList (m.entries ++ es) = m.insertMany es := by
  rw [ofList, insertMany, List.foldl_append]
  exact congrArg (insertMany · es) m.ofList_entries

theorem find?_mapValues (f : κ → α → β) (m : OrderedMap κ α) (k : κ) :
    (m.mapValues f).find? k = (m.find? k).map (f k) := by
  show lookupIn k (m.entries.map fun e => (e.1, f e.1 e.2)) = (lookupIn k m.entries).map (f k)
  induction m.entries with
  | nil => rfl
  | cons e es ih =>
      rw [List.map_cons, lookupIn, lookupIn]
      split
      · next he =>
          subst he
          rfl
      · exact ih

end OrderedMap

/-! ## Collections -/

namespace Attributes

/-- The attributes have the same shape and the same values.  The order of values with keys does not
count. -/
inductive Alike : Attributes → Attributes → Prop where
  | keyed {m n : OrderedMap Key Text} (h : m.entries.Perm n.entries) (values : List Text) :
      Alike (.keyed m values) (.keyed n values)
  | positional (values : List Text) : Alike (.positional values) (.positional values)
  | raw (text : Text) : Alike (.raw text) (.raw text)

theorem beq_iff_alike {a b : Attributes} : (a == b) = true ↔ Alike a b := by
  cases a with
  | keyed m vs =>
      cases b with
      | keyed n ws =>
          show (m.same n && vs == ws) = true ↔ _
          rw [Bool.and_eq_true, OrderedMap.same_iff_perm, beq_iff_eq]
          constructor
          · rintro ⟨h, rfl⟩
            exact .keyed h vs
          · rintro ⟨h⟩
            exact ⟨h, rfl⟩
      | positional => exact ⟨nofun, nofun⟩
      | raw => exact ⟨nofun, nofun⟩
  | positional vs =>
      cases b with
      | keyed => exact ⟨nofun, nofun⟩
      | positional ws =>
          show (vs == ws) = true ↔ _
          rw [beq_iff_eq]
          constructor
          · rintro rfl
            exact .positional vs
          · rintro ⟨⟩
            rfl
      | raw => exact ⟨nofun, nofun⟩
  | raw t =>
      cases b with
      | keyed => exact ⟨nofun, nofun⟩
      | positional => exact ⟨nofun, nofun⟩
      | raw u =>
          show (t == u) = true ↔ _
          rw [beq_iff_eq]
          constructor
          · rintro rfl
            exact .raw t
          · rintro ⟨⟩
            rfl

/-! ### Hashing -/

/-- What a hash is computed from. -/
inductive Hashed where
  /-- The values with keys as a set, and the unnamed ones in order. -/
  | keyed (named : Finset (Key × Text)) (values : List Text)
  | positional (values : List Text)
  | raw (text : Text)

/-- What the hash of the attributes is computed from. -/
def hashed : Attributes → Hashed
  | keyed named values => .keyed named.entries.toFinset values
  | positional values => .positional values
  | raw text => .raw text

/-- The hash that is computed. -/
def Hashed.code : Hashed → UInt64
  | keyed named values => mixHash (∑ e ∈ named, hash e) (hash values)
  | positional values => hash values
  | raw text => hash text

theorem namedHash_eq_sum (es : List (Key × Text)) : namedHash es = (es.map hash).sum := by
  rw [namedHash, List.sum_eq_foldl, List.foldl_map]

/-- The order of values with keys is lost in the hash. -/
theorem hash_eq_code (a : Attributes) : hash a = a.hashed.code := by
  cases a with
  | keyed m values =>
      show mixHash (namedHash m.entries) (hash values) = _
      rw [hashed, Hashed.code, List.sum_toFinset _ m.nodup_entries, namedHash_eq_sum]
  | positional values => rfl
  | raw text => rfl

theorem Alike.hashed_eq {a b : Attributes} (h : Alike a b) : a.hashed = b.hashed := by
  cases h with
  | keyed h values => exact congrArg (Hashed.keyed · values) (List.toFinset_eq_of_perm _ _ h)
  | positional => rfl
  | raw => rfl

theorem alike_of_hashed_eq {a b : Attributes} (h : a.hashed = b.hashed) : Alike a b := by
  cases a with
  | keyed m vs =>
      cases b with
      | keyed n ws =>
          obtain ⟨hentries, rfl⟩ := Hashed.keyed.inj h
          exact .keyed (List.perm_of_nodup_nodup_toFinset_eq m.nodup_entries n.nodup_entries
            hentries) vs
      | positional => cases h
      | raw => cases h
  | positional vs =>
      cases b with
      | keyed => cases h
      | positional ws =>
          obtain rfl := Hashed.positional.inj h
          exact .positional vs
      | raw => cases h
  | raw t =>
      cases b with
      | keyed => cases h
      | positional => cases h
      | raw u =>
          obtain rfl := Hashed.raw.inj h
          exact .raw t

/-- Attributes are equal exactly if their hashes are computed from the same. -/
theorem beq_iff_hashed {a b : Attributes} : (a == b) = true ↔ a.hashed = b.hashed :=
  beq_iff_alike.trans ⟨Alike.hashed_eq, alike_of_hashed_eq⟩

theorem equivalence_beq : Equivalence fun a b : Attributes => (a == b) = true where
  refl _ := beq_iff_hashed.mpr rfl
  symm h := beq_iff_hashed.mpr (beq_iff_hashed.mp h).symm
  trans h h' := beq_iff_hashed.mpr ((beq_iff_hashed.mp h).trans (beq_iff_hashed.mp h'))

/-! ### Merging -/

/-- Alike attributes have the same value under each key. -/
theorem Alike.find?_mapping {a b : Attributes} (h : Alike a b) (k : Key) :
    a.mapping.find? k = b.mapping.find? k := by
  cases h with
  | @keyed m n h values =>
      rw [mapping, mapping, entries, entries, OrderedMap.ofList_append, OrderedMap.ofList_append]
      exact OrderedMap.find?_insertMany_congr (OrderedMap.find?_eq_of_perm h) _ k
  | positional => rfl
  | raw => rfl

theorem Alike.mergeDefaults_eq {a b : Attributes} (h : Alike a b)
    (known : OrderedMap Key Value) :
    mergeDefaults known (.attributes (.known a)) =
      mergeDefaults known (.attributes (.known b)) := by
  have hvalues : ∀ k, (a.mapping.mapValues fun _ t => Value.text t).find? k =
      (b.mapping.mapValues fun _ t => Value.text t).find? k := by
    intro k
    rw [OrderedMap.find?_mapValues, OrderedMap.find?_mapValues, h.find?_mapping]
  simp only [mergeDefaults, Supplied.values, Collection.mapping, hvalues]

end Attributes

/-! ## Rearranged text -/

/-- The text lists the items, with blanks between them and any blanks around them. -/
structure Listed (items : List Item) (t : Text) : Prop where
  spaced : (items = [] ∧ t = []) ∨
    ∃ lead u, t = lead ++ u ∧ Token.AllBlank lead ∧ Spaced items u
  /-- No space-like character is made a space. -/
  plain : '\u00a0' ∉ t ∧ '\u200b' ∉ t

/-- The items come in another order, in which those without keys come one after another as
before. -/
structure Rearranges (items items' : List Item) : Prop where
  perm : items.Perm items'
  unnamed : items.filter (fun i => !i.isNamed) = items'.filter fun i => !i.isNamed

section Rearranged

variable {items items' : List Item} {t t' : Text}

theorem Listed.readAll_eq (h : Listed items t) :
    Token.readAll t.plainSpaces = items.map Item.token := by
  have hkept : t.plainSpaces = t := by
    refine Text.plainSpaces_eq_self fun c hc => ?_
    rw [isSpaceLike, Bool.or_eq_false_iff, beq_eq_false_iff_ne, beq_eq_false_iff_ne]
    exact ⟨ne_of_mem_of_not_mem hc h.plain.1, ne_of_mem_of_not_mem hc h.plain.2⟩
  rw [hkept]
  rcases h.spaced with ⟨rfl, rfl⟩ | ⟨lead, u, rfl, hlead, hspaced⟩
  · rfl
  · rw [Token.readAll_blanks hlead, hspaced.readAll_eq]

/-- The attributes are what the items say. -/
theorem Listed.parse_eq (h : Listed items t) :
    Attributes.parse t =
      if items = [] then .raw t.plainSpaces.trimLeft
      else if items.any Item.isNamed then
        .keyed (.ofList (items.filterMap Item.pair?)) (items.filterMap Item.value?)
      else .positional (items.filterMap Item.value?) := by
  rw [Attributes.parse_eq, h.readAll_eq]
  simp only [List.map_eq_nil_iff, List.any_map, List.filterMap_map, Function.comp_def,
    Item.isNamed_token, Item.entry?_token, Item.value?_token]

theorem Listed.eq_nil (h : Listed [] t) : t = [] := by
  rcases h.spaced with ⟨-, rfl⟩ | ⟨lead, u, -, -, hspaced⟩
  · rfl
  · exact absurd rfl hspaced.ne_nil

theorem filterMap_value?_unnamed (items : List Item) :
    (items.filter fun i => !i.isNamed).filterMap Item.value? = items.filterMap Item.value? := by
  rw [List.filterMap_filter]
  refine List.filterMap_congr fun i _ => ?_
  cases i with
  | named => rfl
  | quoted => rfl
  | word => rfl

/-- Rearranged items give the same entries in another order. -/
theorem Rearranges.alike (harrange : Rearranges items items')
    (hkeys : ((items.filterMap Item.pair?).map Prod.fst).Nodup) (h : Listed items t)
    (h' : Listed items' t') : (Attributes.parse t).Alike (Attributes.parse t') := by
  have hpairs := harrange.perm.filterMap Item.pair?
  have hkeys' := (hpairs.map Prod.fst).nodup_iff.mp hkeys
  have hvalues : items.filterMap Item.value? = items'.filterMap Item.value? := by
    rw [← filterMap_value?_unnamed, harrange.unnamed, filterMap_value?_unnamed]
  by_cases hnil : items = []
  · subst hnil
    obtain rfl := harrange.perm.nil_eq
    rw [h.eq_nil, h'.eq_nil]
    exact Attributes.alike_of_hashed_eq rfl
  · have hnil' : items' ≠ [] := fun he => hnil (he ▸ harrange.perm).eq_nil
    rw [h.parse_eq, h'.parse_eq, ← hvalues, ← harrange.perm.any_eq, if_neg hnil, if_neg hnil']
    split
    · refine .keyed ?_ _
      rwa [OrderedMap.entries_ofList hkeys, OrderedMap.entries_ofList hkeys']
    · exact .positional _

/-- The order of named attributes does not matter.  When their keys are different, named items may
stand anywhere among the others: the attributes that are read are equal, and their hashes are
computed from the same.  Equality is an equivalence relation on all attributes, read from a text or
not.  Equal ones have the same hash, and merging them with defaults gives the same. -/
theorem parse_rearranged (h : Listed items t) (h' : Listed items' t')
    (harrange : Rearranges items items')
    (hkeys : ((items.filterMap Item.pair?).map Prod.fst).Nodup) :
    ((Attributes.parse t == Attributes.parse t') = true ∧
      (Attributes.parse t).hashed = (Attributes.parse t').hashed) ∧
    (Equivalence fun a b : Attributes => (a == b) = true) ∧
    (∀ a : Attributes, hash a = a.hashed.code) ∧
    ∀ a b : Attributes, (a == b) = true → a.hashed = b.hashed ∧ hash a = hash b ∧
      ∀ known, mergeDefaults known (.attributes (.known a)) =
        mergeDefaults known (.attributes (.known b)) := by
  have halike := harrange.alike hkeys h h'
  refine ⟨⟨Attributes.beq_iff_alike.mpr halike, halike.hashed_eq⟩, Attributes.equivalence_beq,
    Attributes.hash_eq_code, fun a b hab => ?_⟩
  have hhashed := Attributes.beq_iff_hashed.mp hab
  refine ⟨hhashed, ?_, (Attributes.beq_iff_alike.mp hab).mergeDefaults_eq⟩
  rw [Attributes.hash_eq_code, Attributes.hash_eq_code, hhashed]

end Rearranged

/-- Items of all kinds, where the keys differ in more than their case. -/
def namedFirst : List Item :=
  [.named .double "B".toList [] [' '] "x]\\n".toList, .word ['w'],
    .named .bare ['a'] [] [] ['1'], .quoted "y z".toList, .named .single ['c'] [] [] []]

/-- The same items, where those without keys come first. -/
def unnamedFirst : List Item :=
  [.word ['w'], .quoted "y z".toList, .named .bare ['a'] [] [] ['1'],
    .named .single ['c'] [] [] [], .named .double "B".toList [] [' '] "x]\\n".toList]

theorem parse_rearranged_unnamedFirst :
    Listed namedFirst "B= \"x]\\n\" w a=1 \"y z\" c=''".toList ∧
    Listed unnamedFirst " w\n\"y z\" a=1 c=''\tB= \"x]\\n\" ".toList ∧
    Rearranges namedFirst unnamedFirst ∧
    (Attributes.parse "B= \"x]\\n\" w a=1 \"y z\" c=''".toList ==
      Attributes.parse " w\n\"y z\" a=1 c=''\tB= \"x]\\n\" ".toList) = true := by
  have h : Listed namedFirst "B= \"x]\\n\" w a=1 \"y z\" c=''".toList :=
    ⟨.inr ⟨[], _, rfl, by decide,
      .cons (b := [' ']) (by decide +kernel) (by decide +kernel) (by decide) <|
      .cons (b := [' ']) (by decide +kernel) (by decide +kernel) (by decide) <|
      .cons (b := [' ']) (by decide +kernel) (by decide +kernel) (by decide) <|
      .cons (b := [' ']) (by decide +kernel) (by decide +kernel) (by decide) <|
      .last (b := []) (by decide +kernel) (by decide +kernel)⟩, by decide⟩
  have h' : Listed unnamedFirst " w\n\"y z\" a=1 c=''\tB= \"x]\\n\" ".toList :=
    ⟨.inr ⟨[' '], _, rfl, by decide +kernel,
      .cons (b := ['\n']) (by decide +kernel) (by decide +kernel) (by decide) <|
      .cons (b := [' ']) (by decide +kernel) (by decide +kernel) (by decide) <|
      .cons (b := [' ']) (by decide +kernel) (by decide +kernel) (by decide) <|
      .cons (b := ['\t']) (by decide +kernel) (by decide +kernel) (by decide) <|
      .last (b := [' ']) (by decide +kernel) (by decide +kernel)⟩, by decide⟩
  have harrange : Rearranges namedFirst unnamedFirst :=
    ⟨(@List.perm_append_comm _ [_] _).trans (.cons _ (.swap _ _ _)), rfl⟩
  obtain ⟨⟨hequal, -⟩, -⟩ := parse_rearranged h h' harrange (by decide +kernel)
  exact ⟨h, h', harrange, hequal⟩

end BracketTags
