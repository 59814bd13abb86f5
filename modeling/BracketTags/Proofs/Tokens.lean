import BracketTags.Attributes.Parse
import BracketTags.Proofs.Division

/-!
# Tokens of attribute text

A token is read where it stands, and the rest of the text is read in the same
way.

*First choices.*  A pattern *takes* a text before another one if its first
choice is to match all of it, and what follows succeeds (`Pattern.Takes`).  A
sequence takes texts one after another.  A greedy repetition takes a text of its
class before a text that does not begin with the class.

*One token.*  A name, an equals sign and a value in double quotes are taken by
the first of the five forms (`Token.takes_doubleQuoted`).

*The rest.*  A blank before a token belongs to no token (`Token.readAll_cons_blank`).
So the blank at the end of a token makes no difference to what comes after it
(`Token.readAll_named`).
-/

namespace BracketTags

/-! ## First choices -/

namespace Pattern

variable {γ : Type} [DecidableEq γ]

/-- Captures with a part kept under the name `g`. -/
def keepPart (g : γ) (part : Capture) (captures : γ → Option Capture) : γ → Option Capture :=
  fun h => if h = g then some part else captures h

/-- The pattern takes the text `u` before the text `v`, and the captures change.  It goes on like
that if what follows succeeds there. -/
def Takes (p : Pattern γ) (u v : Text) (captures captures' : γ → Option Capture) : Prop :=
  ∀ (n : Nat) (next : Follow γ) (s : Progress γ), next ⟨v, n + u.length, captures'⟩ = some s →
    attempt p next ⟨u ++ v, n, captures⟩ = some s

/-- A text does not begin with a character of the class. -/
def Stops (cls : CharClass) (v : Text) : Prop := ∀ c, v.head? = some c → cls.has c = false

section Takes

variable {p : Pattern γ} {ps : List (Pattern γ)} {cls : CharClass} {u u' v : Text}
  {captures captures' captures'' : γ → Option Capture}

theorem takes_char (c : Char) (v : Text) (captures : γ → Option Capture) :
    Takes (.char c) [c] v captures captures := by
  intro n next s hs
  rw [attempt_char, after, if_pos (List.prefix_append [c] v)]
  exact hs

theorem takes_one {c : Char} (h : cls.has c = true) (v : Text) (captures : γ → Option Capture) :
    Takes (.one cls) [c] v captures captures := by
  intro n next s hs
  rw [List.singleton_append, attempt]
  exact (if_pos h).trans hs

theorem takes_many (h : ∀ c ∈ u, cls.has c = true) (hv : Stops cls v)
    (captures : γ → Option Capture) : Takes (.many .greedy cls) u v captures captures := by
  intro n next s hs
  rw [attempt]
  induction u generalizing n with
  | nil =>
      cases v with
      | nil => exact hs
      | cons d v =>
          rw [List.nil_append, mostChars, if_neg (by simp [hv d rfl])]
          exact hs
  | cons c u ih =>
      have hrest := ih (fun d hd => h d (List.mem_cons_of_mem c hd)) (n + 1)
        (by rw [Nat.add_right_comm, Nat.add_assoc]; exact hs)
      dsimp only at hrest ⊢
      rw [List.cons_append, mostChars, if_pos (h c List.mem_cons_self), hrest]

theorem takes_nil_sequence (v : Text) (captures : γ → Option Capture) :
    Takes (sequence []) [] v captures captures :=
  fun _ _ _ hs => hs

/-- A sequence takes texts one after another. -/
theorem Takes.sequence (h : Takes p u (u' ++ v) captures captures')
    (hs : Takes (sequence ps) u' v captures' captures'') :
    Takes (sequence (p :: ps)) (u ++ u') v captures captures'' := by
  intro n next s hnext
  rw [attempt_sequence_cons, List.append_assoc]
  refine h n _ s (hs (n + u.length) next s ?_)
  rw [Nat.add_assoc, ← List.length_append]
  exact hnext

/-- A group keeps the text that its pattern takes. -/
theorem Takes.group (g : γ) (h : Takes p u v captures captures') :
    Takes (.group g p) u v captures (keepPart g ⟨u ++ v, u.length⟩ captures') := by
  intro n next s hs
  rw [attempt]
  refine h n _ s ?_
  rw [← hs, Progress.keep]
  simp only [Nat.add_sub_cancel_left]
  rfl

theorem takes_oneOrMore (hu : u ≠ []) (h : ∀ c ∈ u, cls.has c = true) (hv : Stops cls v)
    (captures : γ → Option Capture) : Takes (oneOrMore cls) u v captures captures := by
  obtain ⟨c, cs, rfl⟩ := List.exists_cons_of_ne_nil hu
  have hmany : Takes (Pattern.sequence [.many .greedy cls]) cs v captures captures :=
    takes_many (fun d hd => h d (List.mem_cons_of_mem c hd)) hv captures
  exact (takes_one (h c List.mem_cons_self) _ captures).sequence hmany

/-- The first of some patterns is taken before the others. -/
theorem Takes.choice (h : Takes p u v captures captures') (ps : List (Pattern γ)) :
    Takes (choice (p :: ps)) u v captures captures' := by
  intro n next s hs
  rw [attempt_choice (by simp), List.findSome?_cons, h n next s hs]

/-- A pattern is found where it takes a text. -/
theorem Takes.found? (h : Takes p u v (fun _ => none) captures) (hu : u ≠ []) (start : Nat) :
    p.found? start (u ++ v) = some ⟨start, ⟨u ++ v, u.length⟩, captures⟩ := by
  have hmatch : p.matchStart? (u ++ v) = some ⟨v, u.length, captures⟩ :=
    h 0 some _ (by rw [Nat.zero_add])
  rw [Pattern.found?, hmatch]
  simp [hu]

end Takes

/-- The pattern matches no text that begins with the character `c`. -/
def NeverAt (p : Pattern γ) (c : Char) : Prop :=
  ∀ (t : Text) (n : Nat) (captures : γ → Option Capture) (next : Follow γ),
    attempt p next ⟨c :: t, n, captures⟩ = none

section NeverAt

variable {p q : Pattern γ} {ps : List (Pattern γ)} {cls : CharClass} {c d : Char}

theorem neverAt_one (h : cls.has c = false) : NeverAt (.one cls : Pattern γ) c := by
  intro t n captures next
  rw [attempt]
  exact if_neg (by simp [h])

theorem neverAt_char (h : c ≠ d) : NeverAt (.char d : Pattern γ) c := by
  intro t n captures next
  rw [attempt]
  exact if_neg h

theorem NeverAt.seq (h : NeverAt p c) (q : Pattern γ) : NeverAt (.seq p q) c :=
  fun t n captures _ => h t n captures _

theorem NeverAt.group (g : γ) (h : NeverAt p c) : NeverAt (.group g p) c :=
  fun t n captures _ => h t n captures _

theorem NeverAt.sequence (h : NeverAt p c) (ps : List (Pattern γ)) :
    NeverAt (sequence (p :: ps)) c := by
  intro t n captures next
  rw [attempt_sequence_cons]
  exact h t n captures _

theorem neverAt_choice (hps : ps ≠ []) (h : ∀ p ∈ ps, NeverAt p c) : NeverAt (choice ps) c := by
  intro t n captures next
  rw [attempt_choice hps, List.findSome?_eq_none_iff]
  exact fun p hp => h p hp t n captures next

theorem NeverAt.found? (h : NeverAt p c) (start : Nat) (t : Text) :
    p.found? start (c :: t) = none := by
  rw [Pattern.found?, matchStart?, Progress.start, h]

end NeverAt

/-- What matches stand for does not depend on where the text stands, if their offsets do not
count. -/
theorem map_findFrom_congr {α : Type} {p : Pattern γ} {f : Found γ → α}
    (hf : ∀ start start' whole captures, f ⟨start, whole, captures⟩ = f ⟨start', whole, captures⟩)
    (skip start start' : Nat) (t : Text) :
    (p.findFrom skip start t).map f = (p.findFrom skip start' t).map f := by
  induction t generalizing skip start start' with
  | nil => rw [findFrom, findFrom]
  | cons c cs ih =>
      cases skip with
      | succ skip =>
          rw [findFrom, findFrom]
          exact ih skip _ _
      | zero =>
          rw [findFrom, findFrom, Pattern.found?, Pattern.found?]
          cases p.matchStart? (c :: cs) with
          | none => exact ih 0 _ _
          | some s =>
              by_cases hs : s.taken = 0
              · simp only [hs, if_true]
                exact ih 0 _ _
              · simp only [hs, if_false, List.map_cons]
                exact congr (congrArg List.cons (hf _ _ _ _)) (ih _ _ _)

end Pattern

/-! ## Word characters and blanks -/

theorem CodePoints.exists_of_has {cps : CodePoints} {n : Nat} (h : cps.has n = true) :
    ∃ r ∈ cps, r.1 ≤ n ∧ n ≤ r.2 := by
  induction cps with
  | nil => cases h
  | cons r cps ih =>
      rw [has] at h
      split at h
      · cases h
      · split at h
        · exact ⟨r, List.mem_cons_self, by omega, by assumption⟩
        · obtain ⟨r', hr', hn⟩ := ih h
          exact ⟨r', List.mem_cons_of_mem r hr', hn⟩

/-- No character is a word character and a blank. -/
theorem isBlank_of_isWord {c : Char} (h : isWord c = true) : isBlank c = false := by
  have hdisjoint : ∀ r ∈ blankCodePoints, ∀ n ∈ List.range' r.1 (r.2 + 1 - r.1),
      wordCodePoints.has n = false := by decide +kernel
  cases hblank : isBlank c with
  | false => rfl
  | true =>
      obtain ⟨r, hr, hle⟩ := CodePoints.exists_of_has hblank
      have hword := hdisjoint r hr c.toNat (by rw [List.mem_range'_1]; omega)
      exact absurd (hword.symm.trans h) Bool.false_ne_true

theorem isWord_of_isBlank {c : Char} (h : isBlank c = true) : isWord c = false := by
  cases hword : isWord c with
  | false => rfl
  | true => exact absurd ((isBlank_of_isWord hword).symm.trans h) Bool.false_ne_true

theorem ne_of_isWord {c d : Char} (h : isWord c = true) (hd : isWord d = false) : c ≠ d := by
  rintro rfl
  exact absurd (hd.symm.trans h) Bool.false_ne_true

namespace Token

open Pattern

/-! ## One token -/

/-- A text after a token: it is empty or begins with a blank. -/
def EndsToken (v : Text) : Prop := ∀ c, v.head? = some c → isBlank c = true

/-- Blanks. -/
def AllBlank (u : Text) : Prop := ∀ c ∈ u, isBlank c = true

/-- A name of an attribute. -/
structure WordName (k : Text) : Prop where
  ne_nil : k ≠ []
  chars : ∀ c ∈ k, isWord c = true

theorem stops_of_head {cls : CharClass} {c : Char} {v : Text} (hv : v.head? = some c)
    (h : cls.has c = false) : Stops cls v := by
  intro d hd
  rw [← Option.some.inj (hv.symm.trans hd)]
  exact h

@[simp] theorem has_word (c : Char) : (CharClass.of [.word]).has c = isWord c := by
  simp [CharClass.has, CharClass.of, CharKind.has]

@[simp] theorem has_blank (c : Char) : (CharClass.of [.blank]).has c = isBlank c := by
  simp [CharClass.has, CharClass.of, CharKind.has]

@[simp] theorem has_except (c d : Char) : (CharClass.except [.exact d]).has c = !(d == c) := by
  simp [CharClass.has, CharClass.except, CharKind.has]

theorem takes_blanks {u v : Text} (hu : AllBlank u) (hv : Stops (.of [.blank]) v)
    (captures : Slot → Option Capture) : Takes blanks u v captures captures :=
  takes_many (fun c hc => by rw [has_blank]; exact hu c hc) hv captures

/-- Blanks do not go on a name. -/
theorem AllBlank.stops_word {u v : Text} (hu : AllBlank u) (hv : Stops (.of [.word]) v) :
    Stops (.of [.word]) (u ++ v) := by
  cases u with
  | nil => exact hv
  | cons c u =>
      refine stops_of_head rfl ?_
      rw [has_word]
      exact isWord_of_isBlank (hu c List.mem_cons_self)

theorem allBlank_nil : AllBlank [] := fun _ hc => absurd hc List.not_mem_nil

/-- The blank that ends a token is taken with it. -/
theorem exists_takes_ending {rest : Text} (h : EndsToken rest) :
    ∃ b v, rest = b ++ v ∧ AllBlank b ∧ ∀ captures, Takes ending b v captures captures := by
  cases rest with
  | nil =>
      refine ⟨[], [], rfl, allBlank_nil, fun captures n next s hs => ?_⟩
      rw [ending, attempt_alt]
      exact hs
  | cons c v =>
      have hc : (CharClass.of [.blank]).has c = true := by rw [has_blank, h c rfl]
      refine ⟨[c], v, rfl, fun d hd => ?_, fun captures n next s hs => ?_⟩
      · rw [List.mem_singleton.mp hd]
        exact h c rfl
      · rw [ending, attempt_alt, takes_one hc v captures n next s hs, Option.some_or]

theorem takes_name {k v : Text} (hk : WordName k) (hv : Stops (.of [.word]) v)
    (captures : Slot → Option Capture) : Takes (oneOrMore (.of [.word])) k v captures captures :=
  takes_oneOrMore hk.ne_nil (fun c hc => by rw [has_word]; exact hk.chars c hc) hv captures

/-- A text without the quote is taken up to it. -/
theorem takes_unquoted {quote : Char} {value v : Text} (h : quote ∉ value)
    (hv : v.head? = some quote) (captures : Slot → Option Capture) :
    Takes (.many .greedy (.except [.exact quote])) value v captures captures := by
  refine takes_many (fun c hc => ?_) (stops_of_head hv (by simp)) captures
  rw [has_except, Bool.not_eq_true', beq_eq_false_iff_ne]
  rintro rfl
  exact h hc

theorem isWord_equals : isWord '=' = false := by decide +kernel

theorem isBlank_equals : isBlank '=' = false := by decide +kernel

/-- A name and an equals sign with the blanks around it are taken before what follows. -/
theorem takes_nameEquals (slot : Slot) {ps : List (Pattern Slot)} {k b₁ b₂ u v : Text}
    {captures captures' : Slot → Option Capture} (hk : WordName k) (h₁ : AllBlank b₁)
    (h₂ : AllBlank b₂) (hu : Stops (.of [.blank]) (u ++ v))
    (h : Takes (sequence ps) u v
      (keepPart slot ⟨k ++ (b₁ ++ (['='] ++ (b₂ ++ u)) ++ v), k.length⟩ captures) captures') :
    Takes (sequence (nameEquals slot ++ ps)) (k ++ (b₁ ++ (['='] ++ (b₂ ++ u)))) v captures
      captures' := by
  have hname : Stops (.of [.word]) (b₁ ++ (['='] ++ (b₂ ++ u)) ++ v) := by
    rw [List.append_assoc]
    exact h₁.stops_word (stops_of_head rfl (by rw [has_word, isWord_equals]))
  have hequals : Stops (.of [.blank]) (['='] ++ (b₂ ++ u) ++ v) :=
    stops_of_head rfl (by rw [has_blank, isBlank_equals])
  exact ((takes_name hk hname captures).group slot).sequence <|
    (takes_blanks h₁ hequals _).sequence <| (takes_char '=' _ _).sequence <|
    (takes_blanks h₂ hu _).sequence h

/-- A name, an equals sign and a value in quotes are taken together. -/
theorem exists_takes_quotedPair (slot slot' : Slot) {quote : Char} (hquote : isBlank quote = false)
    {k b₁ b₂ value b v : Text} (hk : WordName k) (h₁ : AllBlank b₁) (h₂ : AllBlank b₂)
    (hvalue : quote ∉ value) (hb : ∀ captures, Takes ending b v captures captures) :
    ∃ part part', part.text = k ∧ part'.text = value ∧
      Takes (sequence (nameEquals slot ++ between quote slot' ++ [ending]))
        (k ++ (b₁ ++ (['='] ++ (b₂ ++ ([quote] ++ (value ++ ([quote] ++ (b ++ [])))))))) v
        (fun _ => none) (keepPart slot' part' (keepPart slot part fun _ => none)) := by
  rw [List.append_assoc]
  refine ⟨_, _, ?_, ?_, takes_nameEquals slot hk h₁ h₂ (stops_of_head rfl ?_) <|
    (takes_char quote _ _).sequence <| ((takes_unquoted hvalue rfl _).group slot').sequence <|
    (takes_char quote _ _).sequence <| (hb _).sequence <| takes_nil_sequence _ _⟩
  · simp [Capture.text]
  · simp [Capture.text]
  · rw [has_blank, hquote]

/-! ## The rest of a text -/

/-- The tokens of a text do not depend on where it stands. -/
theorem map_findFrom_eq_readAll (skip start : Nat) (t : Text) :
    (pattern.findFrom skip start t).map ofFound = readAll (t.drop skip) := by
  rw [findFrom_eq_drop]
  exact map_findFrom_congr (fun _ _ _ _ => rfl) _ _ _ _

/-- A token is read where it is found, and the rest is read after it. -/
theorem readAll_of_found? {start : Nat} {t : Text} {m : Found Slot} (ht : t ≠ [])
    (h : pattern.found? start t = some m) :
    readAll t = ofFound m :: readAll (t.drop m.whole.length) := by
  have hread := map_findFrom_eq_readAll 0 start t
  rw [findFrom_of_found? ht h, List.map_cons, map_findFrom_eq_readAll, List.drop_zero] at hread
  exact hread.symm

/-- A token is read where the pattern takes it, and the rest is read after it. -/
theorem readAll_append {u v : Text} {captures : Slot → Option Capture} (hu : u ≠ [])
    (h : Takes pattern u v (fun _ => none) captures) :
    readAll (u ++ v) = ofFound ⟨0, ⟨u ++ v, u.length⟩, captures⟩ :: readAll v := by
  rw [readAll_of_found? (List.append_ne_nil_of_left_ne_nil hu v) (h.found? hu 0), List.drop_left]

/-- No token begins with a blank. -/
theorem neverAt_blank {c : Char} (h : isBlank c = true) : NeverAt pattern c := by
  have hname (slot : Slot) (ps : List (Pattern Slot)) :
      NeverAt (sequence (nameEquals slot ++ ps)) c := by
    exact (((neverAt_one (by rw [has_word, isWord_of_isBlank h])).seq _).group slot).sequence _
  have hquote : c ≠ '"' := by
    rintro rfl
    exact absurd h (by decide +kernel)
  have hword : NeverAt (oneOrMore (.except [.blank]) : Pattern Slot) c :=
    (neverAt_one (by simp [CharClass.has, CharClass.except, CharKind.has, h])).seq _
  refine neverAt_choice (List.cons_ne_nil _ _) ?_
  simp only [List.forall_mem_cons]
  exact ⟨hname _ _, hname _ _, hname _ _, (neverAt_char hquote).sequence _,
    (hword.group Slot.word).sequence _, fun p hp => absurd hp List.not_mem_nil⟩

/-- A blank before a token belongs to no token. -/
theorem readAll_cons_blank {c : Char} (h : isBlank c = true) (t : Text) :
    readAll (c :: t) = readAll t := by
  rw [readAll, findAll, findFrom, (neverAt_blank h).found?]
  exact map_findFrom_eq_readAll 0 1 t

theorem readAll_blanks {u : Text} (h : AllBlank u) (t : Text) : readAll (u ++ t) = readAll t := by
  induction u with
  | nil => rfl
  | cons c u ih =>
      rw [List.cons_append, readAll_cons_blank (h c List.mem_cons_self)]
      exact ih fun d hd => h d (List.mem_cons_of_mem c hd)

/-- A name with a value in double quotes is one token, and the text after it is read on. -/
theorem readAll_named {k b₁ b₂ value rest : Text} (hk : WordName k) (h₁ : AllBlank b₁)
    (h₂ : AllBlank b₂) (hvalue : '"' ∉ value) (hrest : EndsToken rest) :
    readAll (k ++ (b₁ ++ (['='] ++ (b₂ ++ (['"'] ++ (value ++ (['"'] ++ rest))))))) =
      .named k value :: readAll rest := by
  obtain ⟨b, v, rfl, hblank, hb⟩ := exists_takes_ending hrest
  obtain ⟨part, part', rfl, rfl, htakes⟩ :=
    exists_takes_quotedPair .doubleName .doubleValue (show isBlank '"' = false by decide +kernel)
      hk h₁ h₂ hvalue hb
  have hread := readAll_append (by simp) (htakes.choice _)
  rw [readAll_blanks hblank]
  simp only [List.append_assoc, List.append_nil] at hread
  exact hread

end Token

end BracketTags
