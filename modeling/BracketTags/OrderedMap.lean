/-!
# Ordered maps

A map that remembers the order in which its keys came.  A key that is inserted
again keeps its place and takes the new value.  A key that is erased and
inserted again goes to the end.

Each operation is described by what it does to `find?` and to `keys`.
-/

namespace BracketTags

/-! ## Association lists -/

section Entries

variable {κ α : Type} [DecidableEq κ]

/-- The entries with `v` as the value of `k`, in the place of `k` or at the end. -/
def upsert (k : κ) (v : α) : List (κ × α) → List (κ × α)
  | [] => [(k, v)]
  | e :: es => if e.1 = k then (k, v) :: es else e :: upsert k v es

/-- The value of the first entry with the key `k`. -/
def lookupIn (k : κ) : List (κ × α) → Option α
  | [] => none
  | e :: es => if e.1 = k then some e.2 else lookupIn k es

theorem mem_map_fst_upsert (k : κ) (v : α) (es : List (κ × α)) (j : κ) :
    j ∈ (upsert k v es).map Prod.fst ↔ j = k ∨ j ∈ es.map Prod.fst := by
  induction es with
  | nil => simp [upsert]
  | cons e es ih =>
      by_cases h : e.1 = k
      · subst h
        simp [upsert]
      · rw [upsert, if_neg h, List.map_cons, List.mem_cons, ih, List.map_cons, List.mem_cons]
        exact or_left_comm

theorem map_fst_upsert_of_mem {k : κ} {es : List (κ × α)} (v : α) (h : k ∈ es.map Prod.fst) :
    (upsert k v es).map Prod.fst = es.map Prod.fst := by
  induction es with
  | nil => simp at h
  | cons e es ih =>
      by_cases he : e.1 = k
      · simp [upsert, he]
      · have : k ∈ es.map Prod.fst := by
          cases List.mem_cons.mp h with
          | inl h => exact absurd h.symm he
          | inr h => exact h
        simp [upsert, he, ih this]

theorem map_fst_upsert_of_notMem {k : κ} {es : List (κ × α)} (v : α)
    (h : k ∉ es.map Prod.fst) : (upsert k v es).map Prod.fst = es.map Prod.fst ++ [k] := by
  induction es with
  | nil => rfl
  | cons e es ih =>
      rw [List.map_cons, List.mem_cons, not_or] at h
      simp [upsert, Ne.symm h.1, ih h.2]

theorem upsert_of_notMem {k : κ} {es : List (κ × α)} (v : α) (h : k ∉ es.map Prod.fst) :
    upsert k v es = es ++ [(k, v)] := by
  induction es with
  | nil => rfl
  | cons e es ih =>
      rw [List.map_cons, List.mem_cons, not_or] at h
      rw [upsert, if_neg (Ne.symm h.1), ih h.2, List.cons_append]

theorem nodup_map_fst_upsert (k : κ) (v : α) {es : List (κ × α)}
    (h : (es.map Prod.fst).Nodup) : ((upsert k v es).map Prod.fst).Nodup := by
  induction es with
  | nil => simp [upsert]
  | cons e es ih =>
      rw [List.map_cons, List.nodup_cons] at h
      by_cases he : e.1 = k
      · subst he
        simpa [upsert] using h
      · rw [upsert, if_neg he, List.map_cons, List.nodup_cons, mem_map_fst_upsert, not_or]
        exact ⟨⟨he, h.1⟩, ih h.2⟩

theorem lookupIn_upsert (k : κ) (v : α) (es : List (κ × α)) (j : κ) :
    lookupIn j (upsert k v es) = if j = k then some v else lookupIn j es := by
  induction es with
  | nil => simp [upsert, lookupIn, eq_comm]
  | cons e es ih =>
      by_cases he : e.1 = k
      · by_cases h : j = k
        · simp [upsert, lookupIn, he, h]
        · simp [upsert, lookupIn, he, h, Ne.symm h]
      · by_cases h : e.1 = j
        · subst h
          simp [upsert, lookupIn, he]
        · simp [upsert, lookupIn, he, h, ih]

theorem lookupIn_filter_ne (k : κ) (es : List (κ × α)) (j : κ) :
    lookupIn j (es.filter fun e => e.1 ≠ k) = if j = k then none else lookupIn j es := by
  induction es with
  | nil => simp [lookupIn]
  | cons e es ih =>
      by_cases he : e.1 = k
      · by_cases hj : j = k
        · simpa [List.filter_cons, lookupIn, he, hj] using ih
        · simpa [List.filter_cons, lookupIn, he, hj, Ne.symm hj] using ih
      · by_cases hj : e.1 = j
        · subst hj
          simp [lookupIn, he]
        · simpa [List.filter_cons, lookupIn, he, hj] using ih

theorem lookupIn_eq_none_iff {k : κ} {es : List (κ × α)} :
    lookupIn k es = none ↔ k ∉ es.map Prod.fst := by
  induction es with
  | nil => simp [lookupIn]
  | cons e es ih =>
      by_cases h : e.1 = k
      · simp [lookupIn, h]
      · simp only [lookupIn, h, if_false, ih, List.map_cons, List.mem_cons, Ne.symm h, false_or]

end Entries

/-! ## Maps -/

/-- A map whose keys stand in the order of their insertion. -/
structure OrderedMap (κ α : Type) where
  /-- The entries, first inserted first. -/
  entries : List (κ × α)
  /-- No key has two entries. -/
  nodup_keys : (entries.map Prod.fst).Nodup

namespace OrderedMap

variable {κ α β : Type}

def empty : OrderedMap κ α := ⟨[], by simp⟩

instance : Inhabited (OrderedMap κ α) := ⟨empty⟩

/-- The keys, first inserted first. -/
def keys (m : OrderedMap κ α) : List κ := m.entries.map Prod.fst

def size (m : OrderedMap κ α) : Nat := m.entries.length

def isEmpty (m : OrderedMap κ α) : Bool := m.entries.isEmpty

/-- The map with a function applied to every key and value. -/
def mapValues (f : κ → α → β) (m : OrderedMap κ α) : OrderedMap κ β :=
  ⟨m.entries.map fun e => (e.1, f e.1 e.2), by
    simpa [List.map_map, Function.comp_def] using m.nodup_keys⟩

variable [DecidableEq κ]

/-- The value of a key, if it has one. -/
def find? (m : OrderedMap κ α) (k : κ) : Option α := lookupIn k m.entries

def contains (m : OrderedMap κ α) (k : κ) : Bool := (m.find? k).isSome

/-- The map with `v` as the value of `k`.  A new key goes to the end. -/
def insert (m : OrderedMap κ α) (k : κ) (v : α) : OrderedMap κ α :=
  ⟨upsert k v m.entries, nodup_map_fst_upsert k v m.nodup_keys⟩

def erase (m : OrderedMap κ α) (k : κ) : OrderedMap κ α :=
  ⟨m.entries.filter fun e => e.1 ≠ k,
    List.Sublist.nodup (List.filter_sublist.map _) m.nodup_keys⟩

/-- The map with entries inserted one after another. -/
def insertMany (m : OrderedMap κ α) (es : List (κ × α)) : OrderedMap κ α :=
  es.foldl (fun m e => m.insert e.1 e.2) m

/-- The map of a list of entries.  A repeated key keeps its first place and its last value. -/
def ofList (es : List (κ × α)) : OrderedMap κ α := empty.insertMany es

example : (ofList [(1, 'a'), (2, 'b'), (1, 'c')]).entries = [(1, 'c'), (2, 'b')] := by decide

/-- Whether two maps have the same keys with the same values, in any order. -/
def same [DecidableEq α] (m n : OrderedMap κ α) : Bool :=
  m.size == n.size && m.entries.all fun e => n.find? e.1 == some e.2

/-! ## Laws -/

omit [DecidableEq κ] in
@[simp] theorem keys_empty : (empty : OrderedMap κ α).keys = [] := rfl

omit [DecidableEq κ] in
@[simp] theorem length_keys (m : OrderedMap κ α) : m.keys.length = m.size := by
  simp [keys, size]

theorem find?_insert (m : OrderedMap κ α) (k : κ) (v : α) (j : κ) :
    (m.insert k v).find? j = if j = k then some v else m.find? j :=
  lookupIn_upsert k v m.entries j

theorem find?_eq_none_iff {m : OrderedMap κ α} {k : κ} : m.find? k = none ↔ k ∉ m.keys :=
  lookupIn_eq_none_iff

theorem contains_iff_mem_keys {m : OrderedMap κ α} {k : κ} : m.contains k = true ↔ k ∈ m.keys := by
  rw [contains, Option.isSome_iff_ne_none, ne_eq, find?_eq_none_iff, Classical.not_not]

/-- A key that is inserted again keeps its place. -/
theorem keys_insert_of_mem {m : OrderedMap κ α} {k : κ} (v : α) (h : k ∈ m.keys) :
    (m.insert k v).keys = m.keys :=
  map_fst_upsert_of_mem v h

/-- A new key goes to the end. -/
theorem keys_insert_of_notMem {m : OrderedMap κ α} {k : κ} (v : α) (h : k ∉ m.keys) :
    (m.insert k v).keys = m.keys ++ [k] :=
  map_fst_upsert_of_notMem v h

theorem mem_keys_insert {m : OrderedMap κ α} {k j : κ} {v : α} :
    j ∈ (m.insert k v).keys ↔ j = k ∨ j ∈ m.keys :=
  mem_map_fst_upsert k v m.entries j

theorem keys_erase (m : OrderedMap κ α) (k : κ) :
    (m.erase k).keys = m.keys.filter fun j => j ≠ k := by
  rw [keys, erase, keys, List.filter_map]
  rfl

theorem mem_keys_of_mem_keys_erase {m : OrderedMap κ α} {k j : κ} (h : j ∈ (m.erase k).keys) :
    j ∈ m.keys := by
  rw [keys_erase] at h
  exact (List.mem_filter.mp h).1

theorem find?_erase (m : OrderedMap κ α) (k j : κ) :
    (m.erase k).find? j = if j = k then none else m.find? j :=
  lookupIn_filter_ne k m.entries j

theorem entries_insertMany {m : OrderedMap κ α} {es : List (κ × α)}
    (h : ((m.entries ++ es).map Prod.fst).Nodup) : (m.insertMany es).entries = m.entries ++ es := by
  induction es generalizing m with
  | nil => exact (List.append_nil _).symm
  | cons e es ih =>
      have hnew : e.1 ∉ m.entries.map Prod.fst := by
        rw [List.map_append, List.map_cons] at h
        exact fun hmem => (List.nodup_append.mp h).2.2 e.1 hmem e.1 List.mem_cons_self rfl
      have hinsert : (m.insert e.1 e.2).entries = m.entries ++ [e] := upsert_of_notMem e.2 hnew
      have hrest : m.entries ++ e :: es = (m.insert e.1 e.2).entries ++ es := by
        rw [hinsert, List.append_assoc, List.singleton_append]
      rw [hrest] at h ⊢
      exact ih h

/-- Entries with different keys are all kept, in order. -/
theorem entries_ofList {es : List (κ × α)} (h : (es.map Prod.fst).Nodup) :
    (ofList es).entries = es :=
  entries_insertMany h

/-- A map is the map of its entries. -/
theorem ofList_entries (m : OrderedMap κ α) : ofList m.entries = m := by
  obtain ⟨es, hes⟩ := m
  have h := entries_ofList hes
  cases hm : ofList es with
  | mk es' hes' =>
      rw [hm] at h
      dsimp only at h
      subst h
      rfl

end OrderedMap

end BracketTags
