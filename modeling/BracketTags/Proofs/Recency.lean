import BracketTags.Cache
import Mathlib.Data.List.Dedup
import Mathlib.Data.List.DropRight
import Mathlib.Data.List.Induction

/-!
# Caches and their history

What a cache keeps is told here by the arguments that were requested, in order.

*Recency.*  The arguments that were requested stand in the order of their last
requests (`recent`).  A request brings its argument to the front
(`recent_concat`).  A cache that was empty at first keeps the beginning of this
order that fits into it (`Cache.keys_after`).

*Absence.*  An argument is not kept if it was never requested, or if too many
others were requested since (`Unkept`).  For the others requested since stand
before it in the order of recency (`mem_take_recent_iff`).  So the requests that
are computed are known from the history (`Cache.computed_request_after`).

The induction goes along the requests from the first to the last.
-/

namespace BracketTags

variable {κ ν : Type}

/-! ## Recency -/

/-- A history with `k` is split at the last request for `k`. -/
theorem exists_eq_append_cons {k : κ} {ks : List κ} (h : k ∈ ks) :
    ∃ earlier later, ks = earlier ++ k :: later ∧ k ∉ later := by
  obtain ⟨later, earlier, hks, hlater⟩ := List.eq_append_cons_of_mem (List.mem_reverse.mpr h)
  refine ⟨earlier.reverse, later.reverse, ?_, by rwa [List.mem_reverse]⟩
  simpa using congrArg List.reverse hks

variable [DecidableEq κ]

/-- The arguments that were requested, the one that was requested last first. -/
def recent (ks : List κ) : List κ := ks.dedup.reverse

/-- The requests after the last one for `k`. -/
def since (k : κ) (ks : List κ) : List κ := ks.rtakeWhile (· ≠ k)

/-- None of the requests `ks` is for `k`, or `n` different others or more were requested since the
last one that is. -/
def Unkept (n : Nat) (ks : List κ) (k : κ) : Prop := k ∉ ks ∨ n ≤ (since k ks).dedup.length

instance (n : Nat) (ks : List κ) (k : κ) : Decidable (Unkept n ks k) :=
  inferInstanceAs (Decidable (_ ∨ _))

/-- Of the requests `ks` that follow the requests `past`, those whose arguments are not among the
`n` latest when they are made. -/
def misses (n : Nat) (past : List κ) : List κ → List κ
  | [] => []
  | k :: ks => (if Unkept n past k then [k] else []) ++ misses n (past ++ [k]) ks

section Recency

variable {k : κ} {ks later : List κ}

theorem nodup_recent (ks : List κ) : (recent ks).Nodup :=
  List.nodup_reverse.mpr (List.nodup_dedup ks)

@[simp] theorem mem_recent : k ∈ recent ks ↔ k ∈ ks := by
  rw [recent, List.mem_reverse, List.mem_dedup]

theorem dedup_concat (ks : List κ) (k : κ) :
    (ks ++ [k]).dedup = ks.dedup.filter (· ≠ k) ++ [k] := by
  induction ks with
  | nil => simp
  | cons a ks ih =>
      by_cases hk : a = k
      · subst hk
        by_cases ha : a ∈ ks <;> simp [ih, ha]
      · by_cases ha : a ∈ ks <;> simp [ih, ha, hk]

/-- A request brings its argument to the front. -/
theorem recent_concat (ks : List κ) (k : κ) :
    recent (ks ++ [k]) = k :: (recent ks).filter (· ≠ k) := by
  simp [recent, dedup_concat, List.filter_reverse]

theorem since_append_cons (earlier : List κ) (h : k ∉ later) :
    since k (earlier ++ k :: later) = later := by
  have hlater : ∀ a ∈ later.reverse, decide (a ≠ k) = true := fun a ha =>
    decide_eq_true fun hak => h (hak ▸ List.mem_reverse.mp ha)
  rw [since, List.rtakeWhile, List.reverse_append, List.reverse_cons, List.append_assoc,
    List.takeWhile_append_of_pos hlater]
  simp

/-- It counts how many different others follow the last request for `k`. -/
theorem unkept_append_cons_iff {n : Nat} (earlier : List κ) (h : k ∉ later) :
    Unkept n (earlier ++ k :: later) k ↔ n ≤ later.dedup.length := by
  simp [Unkept, since_append_cons earlier h]

/-- Those that were requested after the last request for `k` stand before it, and no others do. -/
theorem exists_recent_append_cons (earlier : List κ) (h : k ∉ later) :
    ∃ rest, recent (earlier ++ k :: later) = recent later ++ k :: rest := by
  obtain ⟨first, hfirst⟩ := List.suffix_union_right earlier (k :: later).dedup
  refine ⟨first.reverse, ?_⟩
  rw [recent, List.dedup_append, ← hfirst, List.dedup_cons_of_notMem h]
  simp [recent]

/-- `k` is among the `n` latest unless `n` others were requested since. -/
theorem mem_take_recent_iff (n : Nat) (ks : List κ) (k : κ) :
    k ∈ (recent ks).take n ↔ ¬ Unkept n ks k := by
  by_cases h : k ∈ ks
  · obtain ⟨earlier, later, rfl, hlater⟩ := exists_eq_append_cons h
    obtain ⟨rest, hrest⟩ := exists_recent_append_cons earlier hlater
    have hplace : (recent (earlier ++ k :: later)).idxOf k = later.dedup.length := by
      rw [hrest, List.idxOf_append_of_notMem (mt mem_recent.mp hlater)]
      simp [recent]
    rw [List.mem_take_iff_idxOf_lt (mem_recent.mpr h), hplace,
      unkept_append_cons_iff earlier hlater, not_le]
  · have hrecent : k ∉ recent ks := mt mem_recent.mp h
    simp [Unkept, h, mt List.mem_of_mem_take hrecent]

/-- The second request for 1 keeps it in the place of 2. -/
example : ¬ Unkept 2 [1, 2, 1, 3] 1 ∧ Unkept 2 [1, 2, 1, 3] 2 := by decide

/-- To bring a member to the front makes a list no longer. -/
theorem length_cons_filter_ne {l : List κ} (hl : l.Nodup) (hk : k ∈ l) :
    (k :: l.filter (· ≠ k)).length = l.length := by
  have herase : l.filter (· ≠ k) = l.erase k := by
    rw [hl.erase_eq_filter]
    exact List.filter_congr fun a _ => by simp [bne, beq_eq_decide]
  rw [herase, List.length_cons, List.length_erase_add_one hk]

/-- To bring `k` to the front, the first `n` of a list are enough, since what comes after them is
cut off. -/
theorem take_cons_filter {l : List κ} (hl : l.Nodup) (n : Nat) (k : κ) :
    (k :: l.filter (· ≠ k)).take n =
      if k ∈ l.take n then k :: (l.take n).filter (· ≠ k) else (k :: l.take n).take n := by
  have hfull : n ≤ (l.take n).length ∨ l.drop n = [] := by
    rw [List.length_take, List.drop_eq_nil_iff]
    omega
  have hsplit : l.filter (· ≠ k) =
      (l.take n).filter (· ≠ k) ++ (l.drop n).filter (· ≠ k) := by
    rw [← List.filter_append, List.take_append_drop]
  have hrest (u : List κ) (hu : (l.take n).length ≤ (k :: u).length) :
      (k :: (u ++ (l.drop n).filter (· ≠ k))).take n = (k :: u).take n := by
    rw [← List.cons_append, List.take_append]
    rcases hfull with hle | hnil
    · rw [Nat.sub_eq_zero_of_le (hle.trans hu), List.take_zero, List.append_nil]
    · rw [hnil, List.filter_nil, List.take_nil, List.append_nil]
  rw [hsplit]
  split
  · next hk =>
      have hlength := length_cons_filter_ne (hl.sublist (List.take_sublist n l)) hk
      rw [hrest _ hlength.ge, List.take_of_length_le]
      rw [hlength]
      exact List.length_take_le n l
  · next hk =>
      have hsame : (l.take n).filter (· ≠ k) = l.take n :=
        List.filter_eq_self.mpr fun a ha => decide_eq_true fun hak => hk (hak ▸ ha)
      rw [hsame, hrest _ (by simp)]

theorem misses_concat (n : Nat) (past ks : List κ) (k : κ) :
    misses n past (ks ++ [k]) =
      misses n past ks ++ if Unkept n (past ++ ks) k then [k] else [] := by
  induction ks generalizing past with
  | nil => simp [misses]
  | cons a ks ih => simp [misses, ih]

end Recency

/-! ## Caches -/

namespace Cache

variable {capacity : Nat} {f : κ → ν} {c : Cache capacity f} {k : κ}

/-- The cache after some requests, one after another. -/
def after (c : Cache capacity f) (ks : List κ) : Cache capacity f :=
  ks.foldl (fun c k => (c.request k).cache) c

@[simp] theorem after_concat (c : Cache capacity f) (ks : List κ) (k : κ) :
    c.after (ks ++ [k]) = ((c.after ks).request k).cache := by
  simp [after]

theorem find?_eq_none_iff : (c.entries.find? fun e => e.key = k) = none ↔ k ∉ c.keys := by
  simp [keys]

/-- A request computes its result unless it is kept. -/
theorem computed_request : (c.request k).computed = true ↔ k ∉ c.keys := by
  rw [← find?_eq_none_iff, request]
  cases c.entries.find? fun e => e.key = k with
  | none => simp
  | some e => simp

/-- A request brings its argument to the front, and if there are too many, the last one goes. -/
theorem keys_request (c : Cache capacity f) (k : κ) :
    (c.request k).cache.keys =
      if k ∈ c.keys then k :: c.keys.filter (· ≠ k) else (k :: c.keys).take capacity := by
  rw [request]
  cases h : c.entries.find? fun e => e.key = k with
  | none =>
      rw [if_neg (find?_eq_none_iff.mp h)]
      simp [keys, List.map_take]
  | some e =>
      have hk : e.key = k := by simpa using List.find?_some h
      rw [if_pos (by simpa [h] using (find?_eq_none_iff (c := c) (k := k)))]
      simp [keys, hk, List.filter_map, Function.comp_def]

/-- A cache keeps those that were requested last. -/
theorem keys_after (ks : List κ) :
    (({} : Cache capacity f).after ks).keys = (recent ks).take capacity := by
  induction ks using List.reverseRecOn with
  | nil => simp [after, keys, recent]
  | append_singleton ks k ih =>
      rw [after_concat, keys_request, ih, recent_concat, take_cons_filter (nodup_recent ks)]

theorem nodup_keys_after (ks : List κ) : (({} : Cache capacity f).after ks).keys.Nodup := by
  rw [keys_after]
  exact (nodup_recent ks).sublist (List.take_sublist _ _)

theorem length_keys_after_le (ks : List κ) :
    (({} : Cache capacity f).after ks).keys.length ≤ capacity := by
  rw [keys_after]
  exact List.length_take_le _ _

/-- The next result is computed if its argument was never requested, or if too many others were
requested since. -/
theorem computed_request_after (ks : List κ) (k : κ) :
    ((({} : Cache capacity f).after ks).request k).computed = decide (Unkept capacity ks k) := by
  rw [Bool.eq_iff_iff, computed_request, keys_after, mem_take_recent_iff, not_not,
    decide_eq_true_iff]

end Cache

end BracketTags
