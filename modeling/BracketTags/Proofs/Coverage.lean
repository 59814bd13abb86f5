import BracketTags.Proofs.Choices
import BracketTags.Proofs.Grammar

/-!
# Coverage of attribute text

However malformed attribute text is, nothing of it is lost but blanks.

*One token.*  Only a readable item can be taken for a token, with the blank that
ends it or with the end of the text behind it (`Token.exists_item_of_canTake`).  An
item is *readable* if it is written by the grammar, where any text without blanks
is a word.  A token is found at each character but a blank, since the last form
takes all characters up to the next blank (`Token.exists_found?`).

*All tokens.*  So between two tokens only blanks are passed over
(`Token.scanned_findAll`), and no search starts in the middle of a token.
`Token.Covers` says what the tokens of a text are to it.

*Attributes.*  Each token is told by its text, so the text settles the shape of the
attributes.  A word and a quoted text that is not empty stay so when their escapes
are decoded (`Text.unescape_ne_nil`).  Nothing is lost in `parse_loses_nothing`.
-/

namespace BracketTags

/-! ## One token -/

namespace Token

/-- The text `e` ends a token before the text `v`: it is a blank, or nothing is left. -/
def IsEnding (e v : Text) : Prop := (∃ c, isBlank c = true ∧ e = [c]) ∨ (e = [] ∧ v = [])

end Token

namespace Item

/-- The item is written by the grammar, but for words, which are any texts without blanks. -/
def Readable : Item → Prop
  | word text => text ≠ [] ∧ ∀ c ∈ text, isBlank c = false
  | i => i.WellFormed

/-- The item with what ends it is the text `u` before the text `v`. -/
def Spans (i : Item) (u v : Text) : Prop := ∃ e, u = i.text ++ e ∧ Token.IsEnding e v

theorem Readable.text_ne_nil {i : Item} (h : i.Readable) : i.text ≠ [] := by
  cases i with
  | named => simp [text]
  | quoted => simp [text]
  | word t => exact h.1

end Item

namespace Token

open Pattern

section CanTake

variable {slot slot' : Slot} {quote : Char} {ps : List (Pattern Slot)} {u v : Text}
  {captures captures' : Slot → Option Capture}

theorem isEnding_of_canTake (h : CanTake ending u v captures captures') :
    IsEnding u v ∧ captures' = captures := by
  cases h with
  | first hblank =>
      cases hblank with
      | one hc => exact ⟨.inl ⟨_, (has_blank _).symm.trans hc, rfl⟩, rfl⟩
  | second hend =>
      cases hend with
      | atEnd => exact ⟨.inr ⟨rfl, rfl⟩, rfl⟩

theorem allBlank_of_canTake (h : CanTake blanks u v captures captures') :
    AllBlank u ∧ captures' = captures := by
  obtain ⟨hu, rfl⟩ := h.of_many
  exact ⟨fun c hc => (has_blank c).symm.trans (hu c hc), rfl⟩

/-- A form with a name takes a name and an equals sign, with blanks around it. -/
theorem exists_of_canTake_nameEquals
    (h : CanTake (sequence (nameEquals slot ++ ps)) u v captures captures') :
    ∃ part before after w, u = part.text ++ (before ++ (['='] ++ (after ++ w))) ∧
      WordName part.text ∧ AllBlank before ∧ AllBlank after ∧
      CanTake (sequence ps) w v (keepPart slot part captures) captures' := by
  obtain ⟨_, _, _, rfl, hname, hspaced⟩ := CanTake.of_sequence_cons h
  obtain ⟨_, part, rfl, hword, rfl⟩ := hname.of_group
  obtain ⟨hne, hchars, rfl⟩ := hword.of_oneOrMore
  obtain ⟨before, _, _, rfl, htake, hequals⟩ := CanTake.of_sequence_cons hspaced
  obtain ⟨hbefore, rfl⟩ := allBlank_of_canTake htake
  obtain ⟨_, _, _, rfl, hequals, hspaced'⟩ := CanTake.of_sequence_cons hequals
  cases hequals with
  | char =>
      obtain ⟨after, w, _, rfl, htake', hvalue⟩ := CanTake.of_sequence_cons hspaced'
      obtain ⟨hafter, rfl⟩ := allBlank_of_canTake htake'
      exact ⟨part, before, after, w, rfl,
        ⟨hne, fun c hc => (has_word c).symm.trans (hchars c hc)⟩, hbefore, hafter, hvalue⟩

/-- A form with quotes takes a text without the quote between two of them. -/
theorem exists_of_canTake_between
    (h : CanTake (sequence (between quote slot ++ [ending])) u v captures captures') :
    ∃ part e, u = [quote] ++ (part.text ++ [quote]) ++ e ∧ quote ∉ part.text ∧ IsEnding e v ∧
      captures' = keepPart slot part captures := by
  obtain ⟨_, _, _, rfl, hopen, hquoted⟩ := CanTake.of_sequence_cons h
  obtain ⟨_, _, _, rfl, hvalue, hclosed⟩ := CanTake.of_sequence_cons hquoted
  obtain ⟨_, part, rfl, hchars, rfl⟩ := hvalue.of_group
  obtain ⟨hunquoted, rfl⟩ := hchars.of_many
  obtain ⟨_, e, _, rfl, hclose, hend⟩ := CanTake.of_sequence_cons hclosed
  cases hopen with
  | char =>
      cases hclose with
      | char =>
          obtain ⟨hending, rfl⟩ := isEnding_of_canTake hend
          refine ⟨part, e, by simp, fun hmem => ?_, hending, rfl⟩
          simpa using hunquoted quote hmem

/-- A form with a name and quotes takes a named item. -/
theorem exists_of_canTake_quotedPair
    (h : CanTake (sequence (nameEquals slot ++ between quote slot' ++ [ending])) u v captures
      captures') :
    ∃ part part' before after e,
      u = part.text ++ (before ++ (['='] ++ (after ++ ([quote] ++ (part'.text ++ [quote]))))) ++ e ∧
      WordName part.text ∧ AllBlank before ∧ AllBlank after ∧ quote ∉ part'.text ∧
      IsEnding e v ∧ captures' = keepPart slot' part' (keepPart slot part captures) := by
  rw [List.append_assoc] at h
  obtain ⟨part, before, after, _, rfl, hname, hbefore, hafter, hquoted⟩ :=
    exists_of_canTake_nameEquals h
  obtain ⟨part', e, rfl, hvalue, hending, rfl⟩ := exists_of_canTake_between hquoted
  exact ⟨part, part', before, after, e, by simp, hname, hbefore, hafter, hvalue, hending, rfl⟩

theorem exists_of_canTake_barePair
    (h : CanTake (sequence (nameEquals slot ++ [.group slot' (oneOrMore bareClass), ending])) u v
      captures captures') :
    ∃ part part' before after e,
      u = part.text ++ (before ++ (['='] ++ (after ++ part'.text))) ++ e ∧
      WordName part.text ∧ AllBlank before ∧ AllBlank after ∧ Quoting.bare.Allows part'.text ∧
      IsEnding e v ∧ captures' = keepPart slot' part' (keepPart slot part captures) := by
  obtain ⟨part, before, after, _, rfl, hname, hbefore, hafter, hrest⟩ :=
    exists_of_canTake_nameEquals h
  obtain ⟨_, e, _, rfl, hvalue, hend⟩ := CanTake.of_sequence_cons hrest
  obtain ⟨_, part', rfl, hchars, rfl⟩ := hvalue.of_group
  obtain ⟨hne, hbare, rfl⟩ := hchars.of_oneOrMore
  obtain ⟨hending, rfl⟩ := isEnding_of_canTake hend
  exact ⟨part, part', before, after, e, by simp, hname, hbefore, hafter,
    ⟨hne, fun c hc => (has_bareClass c).mp (hbare c hc)⟩, hending, rfl⟩

theorem exists_of_canTake_word
    (h : CanTake (sequence [.group slot (oneOrMore (.except [.blank])), ending]) u v captures
      captures') :
    ∃ part e, u = part.text ++ e ∧ (Item.word part.text).Readable ∧ IsEnding e v ∧
      captures' = keepPart slot part captures := by
  obtain ⟨_, e, _, rfl, hword, hend⟩ := CanTake.of_sequence_cons h
  obtain ⟨_, part, rfl, hchars, rfl⟩ := hword.of_group
  obtain ⟨hne, hclass, rfl⟩ := hchars.of_oneOrMore
  obtain ⟨hending, rfl⟩ := isEnding_of_canTake hend
  refine ⟨part, e, rfl, ⟨hne, fun c hc => ?_⟩, hending, rfl⟩
  simpa [CharClass.has, CharClass.except, CharKind.has] using hclass c hc

/-- What can be taken for a token is a readable item and what ends it. -/
theorem exists_item_of_canTake (h : CanTake pattern u v (fun _ => none) captures) :
    ∃ i : Item, i.Readable ∧ i.Spans u v ∧
      ∀ start whole, ofFound ⟨start, whole, captures⟩ = i.token := by
  obtain ⟨p, hp, h⟩ := CanTake.of_choice (List.cons_ne_nil _ _) h
  simp only [List.mem_cons, List.not_mem_nil, or_false] at hp
  rcases hp with rfl | rfl | rfl | rfl | rfl
  · obtain ⟨part, part', before, after, e, rfl, hname, hbefore, hafter, hvalue, hending, rfl⟩ :=
      exists_of_canTake_quotedPair h
    exact ⟨.named .double part.text before after part'.text, ⟨hname, hbefore, hafter, hvalue⟩,
      ⟨e, rfl, hending⟩, fun _ _ => rfl⟩
  · obtain ⟨part, part', before, after, e, rfl, hname, hbefore, hafter, hvalue, hending, rfl⟩ :=
      exists_of_canTake_quotedPair h
    exact ⟨.named .single part.text before after part'.text, ⟨hname, hbefore, hafter, hvalue⟩,
      ⟨e, rfl, hending⟩, fun _ _ => rfl⟩
  · obtain ⟨part, part', before, after, e, rfl, hname, hbefore, hafter, hvalue, hending, rfl⟩ :=
      exists_of_canTake_barePair h
    exact ⟨.named .bare part.text before after part'.text, ⟨hname, hbefore, hafter, hvalue⟩,
      ⟨e, rfl, hending⟩, fun _ _ => rfl⟩
  · obtain ⟨part, e, rfl, hvalue, hending, rfl⟩ := exists_of_canTake_between h
    exact ⟨.quoted part.text, hvalue, ⟨e, rfl, hending⟩, fun _ _ => rfl⟩
  · obtain ⟨part, e, rfl, hword, hending, rfl⟩ := exists_of_canTake_word h
    exact ⟨.word part.text, hword, ⟨e, rfl, hending⟩, fun _ _ => rfl⟩

end CanTake

theorem ne_nil_of_canTake {u v : Text} {captures : Slot → Option Capture}
    (h : CanTake pattern u v (fun _ => none) captures) : u ≠ [] := by
  obtain ⟨i, hi, ⟨e, rfl, -⟩, -⟩ := exists_item_of_canTake h
  exact List.append_ne_nil_of_left_ne_nil hi.text_ne_nil e

/-- The last form takes all characters up to the next blank, with that blank. -/
theorem exists_takes_lastForm {c : Char} (hc : isBlank c = false) (cs : Text) :
    ∃ u v captures, c :: cs = u ++ v ∧
      Takes (sequence [.group .word (oneOrMore (.except [.blank])), ending]) u v (fun _ => none)
        captures := by
  have hchars : ∀ d ∈ cs.takeWhile (fun d => !isBlank d), isBlank d = false := by
    intro d hd
    simpa using List.mem_takeWhile_imp hd
  have hends : EndsToken (cs.dropWhile fun d => !isBlank d) := by
    intro d hd
    have hhead := List.head?_dropWhile_not (fun d => !isBlank d) cs
    rw [hd] at hhead
    simpa using hhead
  obtain ⟨b, v, hrest, -, hb⟩ := exists_takes_ending hends
  obtain ⟨part, -, htakes⟩ := Item.exists_takes_word (List.cons_ne_nil c _)
    (List.forall_mem_cons.mpr ⟨hc, hchars⟩) (hrest ▸ hends) hb
  refine ⟨_, v, _, ?_, htakes⟩
  rw [List.append_nil, List.append_assoc, ← hrest, List.cons_append,
    List.takeWhile_append_dropWhile]

/-- A token is found at each character but a blank, since one of the forms matches if the last one
would. -/
theorem exists_found? {c : Char} (hc : isBlank c = false) (start : Nat) (cs : Text) :
    ∃ m, pattern.found? start (c :: cs) = some m := by
  obtain ⟨u, v, captures, htext, htakes⟩ := exists_takes_lastForm hc cs
  have hsome : (pattern.matchStart? (c :: cs)).isSome = true := by
    rw [matchStart?, pattern, attempt_choice (List.cons_ne_nil _ _), List.findSome?_isSome_iff,
      htext]
    exact ⟨_, by simp, Option.isSome_of_eq_some (htakes 0 some _ rfl)⟩
  obtain ⟨s, hmatch⟩ := Option.isSome_iff_exists.mp hsome
  obtain ⟨u', v', captures', -, htake, -, hend⟩ := exists_canTake Exact.none hmatch
  cases hend
  have htaken : (Progress.start (γ := Slot) (c :: cs)).taken + u'.length ≠ 0 := by
    simp [Progress.start, ne_nil_of_canTake htake]
  rw [found?, hmatch]
  exact ⟨_, if_neg htaken⟩

/-! ## All tokens -/

theorem IsEnding.endsToken {e v : Text} (h : IsEnding e v) : EndsToken (e ++ v) := by
  rcases h with ⟨c, hc, rfl⟩ | ⟨rfl, rfl⟩
  · rintro d ⟨⟩
    exact hc
  · nofun

/-- The offset is that of the whole text, or it is right behind a blank. -/
def BehindBlank (t : Text) (pos : Nat) : Prop :=
  pos = 0 ∨ ∃ i c, pos = i + 1 ∧ t[i]? = some c ∧ isBlank c = true

section Found

variable {t : Text} {m : Found Slot}

/-- The match is what is found where it starts. -/
def Stands (t : Text) (m : Found Slot) : Prop := pattern.found? m.start (t.drop m.start) = some m

theorem Stands.drop_start (h : Stands t m) : t.drop m.start = m.text ++ t.drop m.stop := by
  obtain ⟨-, htext, -⟩ := found?_eq_some h
  rwa [List.drop_drop] at htext

theorem Stands.stop_eq (h : Stands t m) : m.stop = m.start + m.text.length := by
  rw [Found.stop, (found?_eq_some h).1]

theorem Stands.start_lt_stop (h : Stands t m) : m.start < m.stop :=
  Nat.lt_add_of_pos_right (start_of_found? h).2

theorem Stands.stop_le (h : Stands t m) : m.stop ≤ t.length := by
  have hlen := congrArg List.length h.drop_start
  have hstop := h.stop_eq
  have hlt := h.start_lt_stop
  simp only [List.length_drop, List.length_append] at hlen
  omega

theorem Stands.text_eq (h : Stands t m) : m.text = t.slice m.start m.stop := by
  rw [Text.slice, h.drop_start, h.stop_eq, Nat.add_sub_cancel_left, List.take_left]

theorem Stands.exists_item (h : Stands t m) :
    ∃ i : Item, i.Readable ∧ i.Spans m.text (t.drop m.stop) ∧ i.token = ofFound m := by
  obtain ⟨-, -, htake⟩ := found?_eq_some h
  rw [List.drop_drop] at htake
  obtain ⟨i, hi, hspans, htoken⟩ := exists_item_of_canTake htake
  exact ⟨i, hi, hspans, (htoken _ _).symm⟩

/-- A token ends with a blank or at the end. -/
theorem Stands.ends (h : Stands t m) :
    m.stop = t.length ∨ ∃ c, m.text.getLast? = some c ∧ isBlank c = true := by
  obtain ⟨i, -, ⟨e, htext, hending⟩, -⟩ := h.exists_item
  rcases hending with ⟨c, hc, rfl⟩ | ⟨-, hnil⟩
  · exact .inr ⟨c, by rw [htext, List.getLast?_concat], hc⟩
  · exact .inl (Nat.le_antisymm h.stop_le (List.drop_eq_nil_iff.mp hnil))

theorem Stands.behindBlank_stop (h : Stands t m) (hlt : m.stop < t.length) :
    BehindBlank t m.stop := by
  obtain ⟨c, hlast, hc⟩ := h.ends.resolve_left (Nat.ne_of_lt hlt)
  obtain ⟨u, htext⟩ := List.getLast?_eq_some_iff.mp hlast
  refine .inr ⟨m.start + u.length, c, ?_, ?_, hc⟩
  · rw [h.stop_eq, htext, List.length_append, ← Nat.add_assoc]
    rfl
  · rw [← List.getElem?_drop, h.drop_start, htext]
    simp

/-- A token is read as the item whose text it has, unless that item is a word. -/
theorem Stands.eq_token (h : Stands t m) {i : Item} (hi : i.WellFormed) (hword : ∀ u, i ≠ .word u)
    (hspans : i.Spans m.text (t.drop m.stop)) : ofFound m = i.token := by
  obtain ⟨e, htext, hending⟩ := hspans
  have hitem := Item.readAll_append_of_ne_word hi hword hending.endsToken
  have hne : t.drop m.start ≠ [] := by
    rw [Ne, List.drop_eq_nil_iff, Nat.not_le]
    exact Nat.lt_of_lt_of_le h.start_lt_stop h.stop_le
  rw [← List.append_assoc, ← htext, ← h.drop_start, readAll_of_found? hne h] at hitem
  exact (List.cons.inj hitem).1

end Found

/-- The tokens `ms` are met in the text `t` from offset `pos` on, and only blanks are passed
over. -/
inductive Scanned (t : Text) : Nat → List (Found Slot) → Prop where
  | done {pos : Nat} (hblank : ∀ i c, pos ≤ i → t[i]? = some c → isBlank c = true) :
      Scanned t pos []
  | next {pos : Nat} {m : Found Slot} {ms : List (Found Slot)} (hpos : pos ≤ m.start)
      (hblank : ∀ i c, pos ≤ i → i < m.start → t[i]? = some c → isBlank c = true)
      (hstands : Stands t m) (hrest : Scanned t m.stop ms) : Scanned t pos (m :: ms)

section Scanned

variable {t : Text} {pos : Nat} {m : Found Slot} {ms : List (Found Slot)}

/-- A blank is passed over. -/
theorem Scanned.of_blank (h : Scanned t (pos + 1) ms)
    (hblank : ∀ c, t[pos]? = some c → isBlank c = true) : Scanned t pos ms := by
  have hfrom : ∀ i c, pos ≤ i → t[i]? = some c → (pos + 1 ≤ i → isBlank c = true) →
      isBlank c = true := by
    intro i c hi hc hlater
    rcases Nat.eq_or_lt_of_le hi with rfl | hlt
    · exact hblank c hc
    · exact hlater hlt
  cases h with
  | done hrest => exact .done fun i c hi hc => hfrom i c hi hc fun hlt => hrest i c hlt hc
  | next hpos hgap hstands hrest =>
      exact .next (Nat.le_of_succ_le hpos)
        (fun i c hi hlt hc => hfrom i c hi hc fun hi' => hgap i c hi' hlt hc) hstands hrest

/-- A search meets a token wherever it does not stand at a blank. -/
theorem scanned_findFrom {u : Text} (hu : t.drop pos = u) :
    Scanned t pos (pattern.findFrom 0 pos u) := by
  induction hn : u.length using Nat.strong_induction_on generalizing u pos with
  | _ n ih =>
      cases u with
      | nil =>
          have hlen := List.drop_eq_nil_iff.mp hu
          rw [findFrom]
          refine .done fun i c hi hc => ?_
          obtain ⟨hlt, -⟩ := List.getElem?_eq_some_iff.mp hc
          omega
      | cons c cs =>
          rw [List.length_cons] at hn
          cases hc : isBlank c with
          | true =>
              have hcs : t.drop (pos + 1) = cs := by
                rw [← List.drop_drop, hu, List.drop_one, List.tail_cons]
              have hrest := ih cs.length (by omega) hcs rfl
              rw [findFrom, (neverAt_blank hc).found?]
              refine hrest.of_blank fun d hd => ?_
              rw [← List.head?_drop, hu, List.head?_cons] at hd
              rwa [← Option.some.inj hd]
          | false =>
              obtain ⟨m, hm⟩ := exists_found? hc pos cs
              obtain ⟨rfl, hpos⟩ := start_of_found? hm
              have hdrop : t.drop m.stop = (c :: cs).drop m.whole.length := by
                rw [Found.stop, ← List.drop_drop, hu]
              have hstands : Stands t m := by
                rw [Stands, hu, hm]
              rw [findFrom_of_found? (List.cons_ne_nil c cs) hm]
              refine .next (Nat.le_refl _) (fun i d hi hlt => absurd hlt (Nat.not_lt.mpr hi))
                hstands (ih _ ?_ hdrop rfl)
              rw [List.length_drop, List.length_cons]
              omega

theorem scanned_findAll (t : Text) : Scanned t 0 (pattern.findAll t) :=
  scanned_findFrom (List.drop_zero)

theorem Scanned.of_mem (h : Scanned t pos ms) (hm : m ∈ ms) : pos ≤ m.start ∧ Stands t m := by
  induction h with
  | done _ => cases hm
  | next hpos _ hstands _ ih =>
      rcases List.mem_cons.mp hm with rfl | hm
      · exact ⟨hpos, hstands⟩
      · obtain ⟨hle, hm⟩ := ih hm
        exact ⟨Nat.le_trans (Nat.le_trans hpos hstands.start_lt_stop.le) hle, hm⟩

theorem Scanned.apart (h : Scanned t pos ms) : ms.Pairwise fun a b => a.stop ≤ b.start := by
  induction h with
  | done _ => exact .nil
  | next _ _ _ hrest ih => exact .cons (fun b hb => (hrest.of_mem hb).1) ih

/-- A character outside of all tokens is a blank. -/
theorem Scanned.blank (h : Scanned t pos ms) {i : Nat} {c : Char} (hi : pos ≤ i)
    (hc : t[i]? = some c) (hout : ∀ m ∈ ms, ¬ (m.start ≤ i ∧ i < m.stop)) : isBlank c = true := by
  induction h with
  | done hblank => exact hblank i c hi hc
  | @next pos m ms _ hblank _ _ ih =>
      rcases Nat.lt_or_ge i m.start with hlt | hge
      · exact hblank i c hi hlt hc
      · have hstop : m.stop ≤ i :=
          Nat.not_lt.mp fun hlt => hout m List.mem_cons_self ⟨hge, hlt⟩
        exact ih hstop fun m' hm' => hout m' (List.mem_cons_of_mem m hm')

/-- A token starts behind a blank, since the one before it ends with a blank. -/
theorem Scanned.behindBlank (h : Scanned t pos ms) (hpos : pos < t.length → BehindBlank t pos)
    (hm : m ∈ ms) : BehindBlank t m.start := by
  induction h with
  | done _ => cases hm
  | @next pos m' ms hle hblank hstands _ ih =>
      rcases List.mem_cons.mp hm with rfl | hm
      · have hlt : m.start < t.length := Nat.lt_of_lt_of_le hstands.start_lt_stop hstands.stop_le
        rcases Nat.eq_or_lt_of_le hle with rfl | hgap
        · exact hpos hlt
        · obtain ⟨k, hk⟩ := Nat.exists_eq_add_of_lt hgap
          have hbefore : t[pos + k]? = some t[pos + k] := List.getElem?_eq_getElem (by omega)
          exact .inr ⟨pos + k, _, hk, hbefore, hblank _ _ (by omega) (by omega) hbefore⟩
      · exact ih hstands.behindBlank_stop hm

end Scanned

/-- What the tokens of a text are to it. -/
structure Covers (t : Text) (ms : List (Found Slot)) : Prop where
  /-- A token takes at least one character, and it is the slice of the text that it takes. -/
  inside : ∀ m ∈ ms, m.start < m.stop ∧ m.stop ≤ t.length ∧ m.text = t.slice m.start m.stop
  /-- Each token ends before those after it start. -/
  apart : ms.Pairwise fun a b => a.stop ≤ b.start
  /-- All characters outside of the tokens are blanks. -/
  blank : ∀ i c, t[i]? = some c → (∀ m ∈ ms, ¬ (m.start ≤ i ∧ i < m.stop)) → isBlank c = true
  /-- A token starts at the beginning or right behind a blank. -/
  starts : ∀ m ∈ ms, BehindBlank t m.start
  /-- A token ends with a blank or at the end. -/
  ends : ∀ m ∈ ms, m.stop = t.length ∨ ∃ c, m.text.getLast? = some c ∧ isBlank c = true
  /-- A token is written as an item that can be read. -/
  written : ∀ m ∈ ms, ∃ i : Item, i.Readable ∧ i.Spans m.text (t.drop m.stop) ∧
    i.token = ofFound m
  /-- A token that is written with a name or in quotes is read like that. -/
  read : ∀ m ∈ ms, ∀ i : Item, i.WellFormed → (∀ u, i ≠ .word u) →
    i.Spans m.text (t.drop m.stop) → ofFound m = i.token

theorem covers_findAll (t : Text) : Covers t (pattern.findAll t) := by
  have hscanned := scanned_findAll t
  refine ⟨fun m hm => ?_, hscanned.apart, fun i c => hscanned.blank (Nat.zero_le i),
    fun m hm => hscanned.behindBlank (fun _ => .inl rfl) hm, fun m hm => ?_, fun m hm => ?_,
    fun m hm i hi hword => ?_⟩
  · obtain ⟨-, hstands⟩ := hscanned.of_mem hm
    exact ⟨hstands.start_lt_stop, hstands.stop_le, hstands.text_eq⟩
  · exact (hscanned.of_mem hm).2.ends
  · exact (hscanned.of_mem hm).2.exists_item
  · exact (hscanned.of_mem hm).2.eq_token hi hword

/-! ## Attributes -/

/-- The match has a name and a value, written in one of the three forms. -/
def IsPair (t : Text) (m : Found Slot) : Prop :=
  ∃ i : Item, i.WellFormed ∧ i.isNamed = true ∧ i.Spans m.text (t.drop m.stop)

theorem Covers.isPair_iff {t : Text} {ms : List (Found Slot)} (h : Covers t ms) {m : Found Slot}
    (hm : m ∈ ms) : IsPair t m ↔ (ofFound m).isNamed = true := by
  constructor
  · rintro ⟨i, hi, hnamed, hspans⟩
    have hword : ∀ u, i ≠ .word u := by
      rintro u rfl
      cases hnamed
    rw [h.read m hm i hi hword hspans, i.isNamed_token, hnamed]
  · intro hnamed
    obtain ⟨i, hi, hspans, htoken⟩ := h.written m hm
    rw [← htoken, i.isNamed_token] at hnamed
    cases i with
    | named quoting key before after value =>
        exact ⟨.named quoting key before after value, hi, rfl, hspans⟩
    | quoted => cases hnamed
    | word => cases hnamed

theorem any_isNamed_iff (t : Text) :
    (readAll t).any isNamed = true ↔ ∃ m ∈ pattern.findAll t, IsPair t m := by
  rw [readAll, List.any_map, List.any_eq_true]
  have hcovers := covers_findAll t
  constructor
  · rintro ⟨m, hm, hnamed⟩
    exact ⟨m, hm, (hcovers.isPair_iff hm).mpr hnamed⟩
  · rintro ⟨m, hm, hpair⟩
    exact ⟨m, hm, (hcovers.isPair_iff hm).mp hpair⟩

/-- A text has no tokens exactly if it consists of blanks. -/
theorem readAll_eq_nil_iff (t : Text) : readAll t = [] ↔ AllBlank t := by
  constructor
  · intro h c hc
    have hnone : pattern.findAll t = [] := List.map_eq_nil_iff.mp h
    obtain ⟨i, hi⟩ := List.mem_iff_getElem?.mp hc
    exact (covers_findAll t).blank i c hi (by simp [hnone])
  · intro h
    rw [← List.append_nil t, readAll_blanks h]
    rfl

/-- A token has a value of its own, unless it has a name or is an empty pair of quotes. -/
theorem isSome_value? (tok : Token) :
    tok.value?.isSome = (!tok.isNamed && tok != .quoted []) := by
  cases tok with
  | named => rfl
  | quoted value =>
      cases value with
      | nil => rfl
      | cons c cs => rfl
  | word => rfl

end Token

theorem Item.value?_ne_nil {i : Item} (hi : i.Readable) : i.value? ≠ some [] := by
  intro h
  cases i with
  | named => cases h
  | quoted value =>
      rw [value?] at h
      split at h
      · cases h
      · next hne => exact Text.unescape_ne_nil hne (Option.some.inj h)
  | word t => exact Text.unescape_ne_nil hi.1 (Option.some.inj h)

namespace Attributes

/-- The values without keys. -/
def unnamed : Attributes → List Text
  | keyed _ values => values
  | positional values => values
  | raw _ => []

/-- The text settles the shape of the attributes. -/
theorem parse_eq (t : Text) :
    parse t =
      if Token.readAll t.plainSpaces = [] then .raw t.plainSpaces.trimLeft
      else if (Token.readAll t.plainSpaces).any Token.isNamed then
        .keyed (.ofList ((Token.readAll t.plainSpaces).filterMap Token.entry?))
          ((Token.readAll t.plainSpaces).filterMap Token.value?)
      else .positional ((Token.readAll t.plainSpaces).filterMap Token.value?) := by
  rw [parse, ofTokens_eq]
  simp only [List.isEmpty_iff]

theorem unnamed_parse (t : Text) :
    (parse t).unnamed = (Token.readAll t.plainSpaces).filterMap Token.value? := by
  rw [parse_eq]
  split
  · next hnil =>
      rw [hnil]
      rfl
  · split
    · rfl
    · rfl

theorem exists_parse_eq_raw_iff (t : Text) :
    (∃ u, parse t = .raw u) ↔ Token.readAll t.plainSpaces = [] := by
  rw [parse_eq]
  split
  · next hnil => exact ⟨fun _ => hnil, fun _ => ⟨_, rfl⟩⟩
  · next hne =>
      constructor
      · rintro ⟨u, hraw⟩
        split at hraw <;> cases hraw
      · exact fun hnil => absurd hnil hne

theorem exists_parse_eq_keyed_iff (t : Text) :
    (∃ named values, parse t = .keyed named values ∧ named.isEmpty = false) ↔
      (Token.readAll t.plainSpaces).any Token.isNamed = true := by
  rw [parse_eq]
  split
  · next hnil =>
      rw [hnil]
      exact ⟨nofun, nofun⟩
  · split
    · next hnamed =>
        refine ⟨fun _ => hnamed, fun _ => ⟨_, _, rfl, ?_⟩⟩
        rw [OrderedMap.isEmpty_ofList, Token.isEmpty_filterMap_entry?, hnamed]
        rfl
    · next hunnamed => exact ⟨nofun, fun hnamed => absurd hnamed hunnamed⟩

theorem exists_parse_eq_positional_iff (t : Text) :
    (∃ values, parse t = .positional values) ↔
      Token.readAll t.plainSpaces ≠ [] ∧
        ¬ (Token.readAll t.plainSpaces).any Token.isNamed = true := by
  rw [parse_eq]
  split
  · next hnil => exact ⟨nofun, fun h => absurd hnil h.1⟩
  · next hne =>
      split
      · next hnamed => exact ⟨nofun, fun h => absurd hnamed h.2⟩
      · next hunnamed => exact ⟨fun _ => ⟨hne, hunnamed⟩, fun _ => ⟨_, rfl⟩⟩

end Attributes

/-- Nothing but blanks is lost of attribute text, whatever it is.  The tokens cover the text, and
they settle the shape of the attributes.  These are raw if the text consists of blanks, they have
keys if some token is a name with a value in one of the three forms, and else they have positions
only.  No value without a key is empty, and there is one for each token without a name, but for
empty pairs of quotes. -/
theorem parse_loses_nothing (t : Text) :
    Token.Covers t.plainSpaces (Token.pattern.findAll t.plainSpaces) ∧
      ((∃ u, Attributes.parse t = .raw u) ↔ Token.AllBlank t.plainSpaces) ∧
      ((∃ named values, Attributes.parse t = .keyed named values ∧ named.isEmpty = false) ↔
        ∃ m ∈ Token.pattern.findAll t.plainSpaces, Token.IsPair t.plainSpaces m) ∧
      ((∃ values, Attributes.parse t = .positional values) ↔
        ¬ Token.AllBlank t.plainSpaces ∧
          ∀ m ∈ Token.pattern.findAll t.plainSpaces, ¬ Token.IsPair t.plainSpaces m) ∧
      [] ∉ (Attributes.parse t).unnamed ∧
      (Attributes.parse t).unnamed.length =
        (Token.pattern.findAll t.plainSpaces).countP fun m =>
          !(Token.ofFound m).isNamed && Token.ofFound m != .quoted [] := by
  have hcovers := Token.covers_findAll t.plainSpaces
  refine ⟨hcovers, ?_, ?_, ?_, ?_, ?_⟩
  · rw [Attributes.exists_parse_eq_raw_iff, Token.readAll_eq_nil_iff]
  · rw [Attributes.exists_parse_eq_keyed_iff, Token.any_isNamed_iff]
  · rw [Attributes.exists_parse_eq_positional_iff, Ne, Token.readAll_eq_nil_iff,
      Token.any_isNamed_iff]
    simp only [not_exists, not_and]
  · rw [Attributes.unnamed_parse]
    intro hmem
    obtain ⟨tok, htok, hvalue⟩ := List.mem_filterMap.mp hmem
    obtain ⟨m, hm, rfl⟩ := List.mem_map.mp htok
    obtain ⟨i, hi, -, htoken⟩ := hcovers.written m hm
    rw [← htoken, i.value?_token] at hvalue
    exact i.value?_ne_nil hi hvalue
  · rw [Attributes.unnamed_parse, Token.readAll, List.filterMap_map,
      List.length_filterMap_eq_countP]
    simp only [Function.comp_def, Token.isSome_value?]

end BracketTags
