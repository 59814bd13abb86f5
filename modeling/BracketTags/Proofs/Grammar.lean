import BracketTags.Proofs.Choices
import BracketTags.Proofs.Dictionaries
import Mathlib.Data.List.Induction

/-!
# The grammar of attribute text

Attribute text that is written by the grammar is read as it was meant.

*Items.*  An item is a key with a value, in double quotes, in single quotes or
bare, or it is an unnamed value in double quotes, or a word (`Item`).  Items are
written one after another with blanks between them (`Spaced`).

*Refusals.*  The five forms of a token are tried in order, and a form may give
back characters in many ways before it fails.  A pattern *refuses* a text if
nothing that follows it helps (`Pattern.Refuses`).  The three forms with a name
agree on what they can reach: the text behind the first equals sign that stands
after word characters and blanks (`Token.valuePart?`).  So a form with a name
refuses every text where this is missing or begins with the wrong quote
(`Token.refuses_pair`).

*One item.*  The form of an item takes all of it, and the forms before it refuse
it (`Item.readAll_append`).  The text after an item begins with a blank, and no
equals sign follows the blanks, so a word is not taken for a name.

*All items.*  The tokens of the text are the items and no others, and the
attributes are what they say (`parse_spaced`).
-/

namespace BracketTags

/-! ## Refusals -/

namespace Pattern

variable {γ : Type} [DecidableEq γ]

/-- The pattern matches no beginning of the text, whatever shall follow. -/
def Refuses (p : Pattern γ) (t : Text) : Prop :=
  ∀ (n : Nat) (captures : γ → Option Capture) (next : Follow γ),
    attempt p next ⟨t, n, captures⟩ = none

section Refuses

variable {p : Pattern γ} {ps : List (Pattern γ)} {cls : CharClass} {t u v : Text}
  {captures captures' : γ → Option Capture}

theorem NeverAt.refuses {c : Char} (h : NeverAt p c) (t : Text) : Refuses p (c :: t) :=
  fun n captures next => h t n captures next

omit [DecidableEq γ] in
/-- A repetition of characters fails if what follows fails behind each number of rounds. -/
theorem mostChars_eq_none {next : Follow γ} (n : Nat)
    (h : ∀ u v, t = u ++ v → (∀ c ∈ u, cls.has c = true) → ∀ m, next ⟨v, m, captures⟩ = none) :
    mostChars cls next captures t n = none := by
  refine Option.eq_none_iff_forall_ne_some.mpr fun s hs => ?_
  obtain ⟨u, v, ht, hu, hnext⟩ := charsLead_of_mostChars hs
  rw [h u v ht hu] at hnext
  cases hnext

theorem refuses_many
    (h : ∀ u v, t = u ++ v → (∀ c ∈ u, cls.has c = true) → Refuses (sequence ps) v) :
    Refuses (sequence (.many .greedy cls :: ps)) t := by
  intro n captures next
  rw [attempt_sequence_cons, attempt]
  exact mostChars_eq_none n fun u v ht hu m => h u v ht hu m captures next

theorem refuses_group_oneOrMore {g : γ}
    (h : ∀ u v, t = u ++ v → (∀ c ∈ u, cls.has c = true) → Refuses (sequence ps) v) :
    Refuses (sequence (.group g (oneOrMore cls) :: ps)) t := by
  intro n captures next
  rw [attempt_sequence_cons, attempt, oneOrMore, attempt, attempt]
  cases t with
  | nil => rfl
  | cons c cs =>
      dsimp only [Progress.step]
      split
      · next hc =>
          rw [attempt]
          refine mostChars_eq_none _ fun u v hcs hu m => ?_
          exact h (c :: u) v (congrArg (c :: ·) hcs) (List.forall_mem_cons.mpr ⟨hc, hu⟩) m _ next
      · rfl

theorem refuses_char {c : Char} (h : ∀ v, t = c :: v → Refuses (sequence ps) v) :
    Refuses (sequence (.char c :: ps)) t := by
  intro n captures next
  rw [attempt_sequence_cons, attempt]
  cases t with
  | nil => rfl
  | cons d ds =>
      dsimp only [Progress.step]
      split
      · next hd =>
          subst hd
          exact h ds rfl _ captures next
      · rfl

/-- A pattern that is refused leaves the choice to the others. -/
theorem Takes.choice_of_refuses (hp : Refuses p (u ++ v)) (hps : ps ≠ [])
    (h : Takes (Pattern.choice ps) u v captures captures') :
    Takes (Pattern.choice (p :: ps)) u v captures captures' := by
  intro n next s hs
  rw [attempt_choice (List.cons_ne_nil p ps), List.findSome?_cons, hp, ← attempt_choice hps]
  exact h n next s hs

end Refuses

end Pattern

namespace Token

open Pattern

/-! ## Names and equals signs -/

/-- The text behind word characters and blanks. -/
def afterName (t : Text) : Text := (t.dropWhile isWord).dropWhile isBlank

/-- The text from which a form with a name could take its value. -/
def valuePart? (t : Text) : Option Text :=
  match afterName t with
  | '=' :: rest => some (rest.dropWhile isBlank)
  | _ => none

theorem isBlank_doubleQuote : isBlank '"' = false := by decide +kernel

theorem isBlank_singleQuote : isBlank '\'' = false := by decide +kernel

theorem dropWhile_blanks {b : Text} (hb : AllBlank b) (v : Text) :
    (b ++ v).dropWhile isBlank = v.dropWhile isBlank :=
  List.dropWhile_append_of_pos hb

theorem dropWhile_of_head {p : Char → Bool} {v : Text} (h : ∀ c, v.head? = some c → p c = false) :
    v.dropWhile p = v := by
  cases v with
  | nil => rfl
  | cons c v => rw [List.dropWhile_cons_of_neg (by rw [h c rfl]; exact Bool.false_ne_true)]

/-- A name ends at a blank and at a character that is no word character. -/
theorem afterName_append {k b v : Text} (hk : ∀ c ∈ k, isWord c = true) (hb : AllBlank b)
    (hv : ∀ c, v.head? = some c → isWord c = false) :
    afterName (k ++ (b ++ v)) = v.dropWhile isBlank := by
  have hends : ∀ c, (b ++ v).head? = some c → isWord c = false := by
    cases b with
    | nil => exact hv
    | cons d b =>
        intro c hc
        rw [← Option.some.inj hc]
        exact isWord_of_isBlank (hb d List.mem_cons_self)
  rw [afterName, List.dropWhile_append_of_pos hk, dropWhile_of_head hends, dropWhile_blanks hb]

theorem valuePart?_append {k b₁ b₂ v : Text} (hk : ∀ c ∈ k, isWord c = true) (h₁ : AllBlank b₁)
    (h₂ : AllBlank b₂) :
    valuePart? (k ++ (b₁ ++ '=' :: (b₂ ++ v))) = some (v.dropWhile isBlank) := by
  have hname : afterName (k ++ (b₁ ++ '=' :: (b₂ ++ v))) = '=' :: (b₂ ++ v) := by
    have hhead (p : Char → Bool) (hp : p '=' = false) :
        ∀ c, ('=' :: (b₂ ++ v)).head? = some c → p c = false := by
      intro c hc
      rw [← Option.some.inj hc]
      exact hp
    rw [afterName_append hk h₁ (hhead isWord isWord_equals),
      dropWhile_of_head (hhead isBlank isBlank_equals)]
  rw [valuePart?, hname]
  exact congrArg some (dropWhile_blanks h₂ v)

/-- A form with a name refuses a text if its other patterns refuse whatever they can reach. -/
theorem refuses_nameEquals {slot : Slot} {ps : List (Pattern Slot)} {t : Text}
    (h : ∀ v, valuePart? t = some (v.dropWhile isBlank) → Refuses (sequence ps) v) :
    Refuses (sequence (nameEquals slot ++ ps)) t := by
  refine refuses_group_oneOrMore fun k _ ht hk => refuses_many fun b₁ _ hu h₁ =>
    refuses_char fun _ hv => refuses_many fun b₂ v hw h₂ => h v ?_
  subst hw hv hu ht
  simp only [has_word, has_blank] at hk h₁ h₂
  exact valuePart?_append hk h₁ h₂

/-- A form with a quoted value refuses a text where no such quote can be reached. -/
theorem refuses_pair {quote : Char} (hquote : isBlank quote = false) (slot slot' : Slot) {t : Text}
    (h : ∀ v, valuePart? t = some v → v.head? ≠ some quote) :
    Refuses (sequence (nameEquals slot ++ between quote slot' ++ [ending])) t := by
  rw [List.append_assoc]
  refine refuses_nameEquals fun v hv => refuses_char fun w hw => ?_
  have hkept : v.dropWhile isBlank = v := by
    refine dropWhile_of_head fun c hc => ?_
    rw [hw] at hc
    rw [← Option.some.inj hc]
    exact hquote
  rw [hkept] at hv
  exact absurd (by rw [hw]; rfl) (h v hv)

theorem valuePart?_eq_none {t : Text} (h : (afterName t).head? ≠ some '=') :
    valuePart? t = none := by
  unfold valuePart?
  split
  · next hname =>
      rw [hname] at h
      exact absurd rfl h
  · rfl

/-- The forms with a name refuse a text without a name and an equals sign. -/
theorem takes_pattern_of_unnamed {u v : Text} {captures captures' : Slot → Option Capture}
    (hnone : valuePart? (u ++ v) = none)
    (h : Takes (choice [sequence (between '"' .quoted ++ [ending]),
      sequence [.group .word (oneOrMore (.except [.blank])), ending]]) u v captures captures') :
    Takes pattern u v captures captures' := by
  have hrefuses (slot : Slot) (ps : List (Pattern Slot)) :
      Refuses (sequence (nameEquals slot ++ ps)) (u ++ v) :=
    refuses_nameEquals fun w hw => absurd (hnone.symm.trans hw) nofun
  exact ((h.choice_of_refuses (hrefuses _ _) (List.cons_ne_nil _ _)).choice_of_refuses
    (hrefuses _ _) (List.cons_ne_nil _ _)).choice_of_refuses (hrefuses _ _) (List.cons_ne_nil _ _)

end Token

/-! ## Items -/

/-- How the value of a key is written. -/
inductive Quoting where
  | double
  | single
  | bare
deriving DecidableEq

namespace Quoting

/-- A value as it is written. -/
def write : Quoting → Text → Text
  | double, v => ['"'] ++ (v ++ ['"'])
  | single, v => ['\''] ++ (v ++ ['\''])
  | bare, v => v

/-- The value can be written like that. -/
def Allows : Quoting → Text → Prop
  | double, v => '"' ∉ v
  | single, v => '\'' ∉ v
  | bare, v => v ≠ [] ∧ ∀ c ∈ v, isBlank c = false ∧ c ≠ '\'' ∧ c ≠ '"'

instance (v : Text) : (quoting : Quoting) → Decidable (quoting.Allows v)
  | double => inferInstanceAs (Decidable ('"' ∉ v))
  | single => inferInstanceAs (Decidable ('\'' ∉ v))
  | bare =>
      decidable_of_iff (v ≠ [] ∧ v.all (fun c => !isBlank c && c != '\'' && c != '"') = true)
        (by simp [Allows, and_assoc])

end Quoting

/-- An item of attribute text. -/
inductive Item where
  /-- A key and its value, with blanks before and after the equals sign. -/
  | named (quoting : Quoting) (key before after value : Text)
  /-- An unnamed value in double quotes. -/
  | quoted (value : Text)
  | word (text : Text)

namespace Item

def text : Item → Text
  | named quoting key before after value =>
      key ++ (before ++ (['='] ++ (after ++ quoting.write value)))
  | quoted value => ['"'] ++ (value ++ ['"'])
  | word text => text

/-- The item is written by the grammar. -/
def WellFormed : Item → Prop
  | named quoting key before after value =>
      Token.WordName key ∧ Token.AllBlank before ∧ Token.AllBlank after ∧ quoting.Allows value
  | quoted value => '"' ∉ value
  | word text => text ≠ [] ∧ ∀ c ∈ text, isBlank c = false ∧ c ≠ '\'' ∧ c ≠ '"' ∧ c ≠ '='

instance (u : Text) : Decidable (Token.AllBlank u) :=
  decidable_of_iff (u.all isBlank = true) List.all_eq_true

instance (k : Text) : Decidable (Token.WordName k) :=
  decidable_of_iff (k ≠ [] ∧ k.all isWord = true)
    ⟨fun h => ⟨h.1, List.all_eq_true.mp h.2⟩, fun h => ⟨h.ne_nil, List.all_eq_true.mpr h.chars⟩⟩

instance : (i : Item) → Decidable i.WellFormed
  | named quoting key before after value =>
      inferInstanceAs (Decidable (Token.WordName key ∧ Token.AllBlank before ∧
        Token.AllBlank after ∧ quoting.Allows value))
  | quoted value => inferInstanceAs (Decidable ('"' ∉ value))
  | word text =>
      decidable_of_iff (text ≠ [] ∧
          text.all (fun c => !isBlank c && c != '\'' && c != '"' && c != '=') = true)
        (by simp [WellFormed, and_assoc])

def isNamed : Item → Bool
  | named _ _ _ _ _ => true
  | _ => false

/-- The key of a named item in lower case, and its value with the escapes decoded. -/
def pair? : Item → Option (Key × Text)
  | named _ key _ _ value => some (.name key.lowercase, value.unescape)
  | _ => none

/-- The value of an unnamed item with the escapes decoded.  Empty quotes have none. -/
def value? : Item → Option Text
  | named _ _ _ _ _ => none
  | quoted value => if value = [] then none else some value.unescape
  | word text => some text.unescape

/-- The token that the item is meant to be. -/
def token : Item → Token
  | named _ key _ _ value => .named key value
  | quoted value => .quoted value
  | word text => .word text

end Item

/-- The items are written one after another, with blanks between them and any blanks at the end. -/
inductive Spaced : List Item → Text → Prop where
  | last {i : Item} {b : Text} (hi : i.WellFormed) (hb : Token.AllBlank b) :
      Spaced [i] (i.text ++ b)
  | cons {i : Item} {is : List Item} {b t : Text} (hi : i.WellFormed) (hb : Token.AllBlank b)
      (hne : b ≠ []) (rest : Spaced is t) : Spaced (i :: is) (i.text ++ (b ++ t))

/-! ## One item -/

/-- A text after an item: it is empty or begins with a blank, and no equals sign follows the
blanks. -/
structure FollowsItem (rest : Text) : Prop where
  ends : Token.EndsToken rest
  unequal : (rest.dropWhile isBlank).head? ≠ some '='

/-- The characters of a bare value. -/
def bareClass : CharClass := .except [.blank, .exact '\'', .exact '"']

theorem has_bareClass (c : Char) :
    bareClass.has c = true ↔ isBlank c = false ∧ c ≠ '\'' ∧ c ≠ '"' := by
  simp [bareClass, CharClass.has, CharClass.except, CharKind.has, @eq_comm _ c]

namespace Item

open Pattern Token

variable {key before after value rest : Text}

/-- The forms with quotes refuse a pair whose value begins with another character. -/
theorem refuses_pair_append {quote c : Char} (hquote : isBlank quote = false)
    (hc : isBlank c = false) (hne : c ≠ quote) (slot slot' : Slot) (hkey : WordName key)
    (hbefore : AllBlank before) (hafter : AllBlank after) (cs : Text) :
    Refuses (sequence (nameEquals slot ++ between quote slot' ++ [ending]))
      (key ++ (before ++ '=' :: (after ++ c :: cs))) := by
  refine refuses_pair hquote _ _ fun w hw => ?_
  rw [valuePart?_append hkey.chars hbefore hafter,
    dropWhile_of_head (by rintro d ⟨⟩; exact hc)] at hw
  cases hw
  exact fun hhead => hne (Option.some.inj hhead)

/-- A value in single quotes is read in the second form. -/
theorem readAll_single (hkey : WordName key) (hbefore : AllBlank before) (hafter : AllBlank after)
    (hvalue : '\'' ∉ value) (hrest : EndsToken rest) :
    readAll (key ++ (before ++ (['='] ++ (after ++ (['\''] ++ (value ++ (['\''] ++ rest))))))) =
      .named key value :: readAll rest := by
  obtain ⟨b, v, rfl, hblank, hb⟩ := exists_takes_ending hrest
  obtain ⟨part, part', rfl, rfl, htakes⟩ := exists_takes_quotedPair .singleName .singleValue
    isBlank_singleQuote hkey hbefore hafter hvalue hb
  have hdouble := refuses_pair_append isBlank_doubleQuote isBlank_singleQuote (by decide)
    .doubleName .doubleValue hkey hbefore hafter (part'.text ++ (['\''] ++ (b ++ v)))
  have hread := readAll_append (by simp)
    ((htakes.choice _).choice_of_refuses (by simpa using hdouble) (List.cons_ne_nil _ _))
  rw [readAll_blanks hblank]
  simp only [List.append_assoc, List.append_nil] at hread
  exact hread

/-- A name, an equals sign and a bare value are taken together. -/
theorem exists_takes_barePair {b v : Text} (hkey : WordName key) (hbefore : AllBlank before)
    (hafter : AllBlank after) (hvalue : Quoting.bare.Allows value) (hrest : EndsToken (b ++ v))
    (hb : ∀ captures, Takes ending b v captures captures) :
    ∃ part part', part.text = key ∧ part'.text = value ∧
      Takes (sequence (nameEquals .bareName ++ [.group .bareValue (oneOrMore bareClass), ending]))
        (key ++ (before ++ (['='] ++ (after ++ (value ++ (b ++ [])))))) v
        (fun _ => none) (keepPart .bareValue part' (keepPart .bareName part fun _ => none)) := by
  have hstops : Stops bareClass (b ++ [] ++ v) := by
    intro c hc
    rw [List.append_nil] at hc
    rw [← Bool.not_eq_true, has_bareClass, hrest c hc]
    exact fun h => absurd h.1.symm Bool.false_ne_true
  have hclass : ∀ c ∈ value, bareClass.has c = true :=
    fun c hc => (has_bareClass c).mpr (hvalue.2 c hc)
  have hfirst : Stops (.of [.blank]) (value ++ (b ++ []) ++ v) := by
    obtain ⟨c, cs, rfl⟩ := List.exists_cons_of_ne_nil hvalue.1
    exact stops_of_head rfl (by rw [has_blank, (hvalue.2 c List.mem_cons_self).1])
  refine ⟨_, _, ?_, ?_, takes_nameEquals .bareName hkey hbefore hafter hfirst <|
    ((takes_oneOrMore hvalue.1 hclass hstops _).group Slot.bareValue).sequence <|
    (hb _).sequence <| takes_nil_sequence _ _⟩
  · simp [Capture.text]
  · simp [Capture.text]

/-- A bare value is read in the third form. -/
theorem readAll_bare (hkey : WordName key) (hbefore : AllBlank before) (hafter : AllBlank after)
    (hvalue : Quoting.bare.Allows value) (hrest : EndsToken rest) :
    readAll (key ++ (before ++ (['='] ++ (after ++ (value ++ rest))))) =
      .named key value :: readAll rest := by
  obtain ⟨b, v, rfl, hblank, hb⟩ := exists_takes_ending hrest
  obtain ⟨part, part', rfl, hpart, htakes⟩ :=
    exists_takes_barePair hkey hbefore hafter hvalue hrest hb
  obtain ⟨c, cs, hcs⟩ := List.exists_cons_of_ne_nil hvalue.1
  obtain ⟨hc, hsingle, hdouble⟩ := hvalue.2 c (hcs ▸ List.mem_cons_self)
  have hrefused := refuses_pair_append isBlank_doubleQuote hc hdouble
    .doubleName .doubleValue hkey hbefore hafter (cs ++ (b ++ v))
  have hrefused' := refuses_pair_append isBlank_singleQuote hc hsingle
    .singleName .singleValue hkey hbefore hafter (cs ++ (b ++ v))
  have hread := readAll_append (by simp)
    (((htakes.choice _).choice_of_refuses (by simpa [hcs] using hrefused')
      (List.cons_ne_nil _ _)).choice_of_refuses (by simpa [hcs] using hrefused)
        (List.cons_ne_nil _ _))
  rw [readAll_blanks hblank]
  simp only [List.append_assoc, List.append_nil] at hread
  rw [hread, ← hpart]
  rfl

/-- A value in double quotes without a name is read in the fourth form. -/
theorem readAll_quoted (hvalue : '"' ∉ value) (hrest : EndsToken rest) :
    readAll (['"'] ++ (value ++ (['"'] ++ rest))) = .quoted value :: readAll rest := by
  obtain ⟨b, v, rfl, hblank, hb⟩ := exists_takes_ending hrest
  have htakes := (takes_char '"' _ fun _ => none).sequence <|
    ((takes_unquoted hvalue rfl _).group Slot.quoted).sequence <|
    (takes_char '"' _ _).sequence <| (hb _).sequence <| takes_nil_sequence _ _
  have hnone : valuePart? (['"'] ++ (value ++ (['"'] ++ (b ++ []))) ++ v) = none := by
    refine valuePart?_eq_none ?_
    rw [afterName]
    simp only [List.cons_append, List.nil_append]
    rw [List.dropWhile_cons_of_neg (by decide +kernel), List.dropWhile_cons_of_neg
      (by rw [isBlank_doubleQuote]; exact Bool.false_ne_true)]
    exact fun h => absurd (Option.some.inj h) (by decide)
  have hread := readAll_append (by simp) (takes_pattern_of_unnamed hnone (htakes.choice _))
  rw [readAll_blanks hblank]
  simp only [List.append_assoc, List.append_nil] at hread
  rw [hread]
  simp [ofFound, Found.part?, keepPart, Capture.text]

/-- No form with a name begins with a word, since no equals sign comes next. -/
theorem valuePart?_word {t : Text} (ht : ∀ c ∈ t, isBlank c = false ∧ c ≠ '=')
    (hrest : FollowsItem rest) : valuePart? (t ++ rest) = none := by
  refine valuePart?_eq_none ?_
  rw [afterName]
  induction t with
  | nil =>
      have hkept : rest.dropWhile isWord = rest :=
        dropWhile_of_head fun c hc => isWord_of_isBlank (hrest.ends c hc)
      rw [List.nil_append, hkept]
      exact hrest.unequal
  | cons c t ih =>
      obtain ⟨⟨hblank, hne⟩, ht⟩ := List.forall_mem_cons.mp ht
      rw [List.cons_append]
      cases hc : isWord c with
      | true =>
          rw [List.dropWhile_cons_of_pos hc]
          exact ih ht
      | false =>
          rw [List.dropWhile_cons_of_neg (by rw [hc]; exact Bool.false_ne_true),
            List.dropWhile_cons_of_neg (by rw [hblank]; exact Bool.false_ne_true)]
          exact fun h => hne (Option.some.inj h)

/-- A text without blanks is taken by the last form, with the blank that ends it. -/
theorem exists_takes_word {t b v : Text} (hne : t ≠ []) (ht : ∀ c ∈ t, isBlank c = false)
    (hrest : EndsToken (b ++ v)) (hb : ∀ captures, Takes ending b v captures captures) :
    ∃ part, part.text = t ∧
      Takes (sequence [.group .word (oneOrMore (.except [.blank])), ending]) (t ++ (b ++ [])) v
        (fun _ => none) (keepPart .word part fun _ => none) := by
  have hclass (c : Char) : (CharClass.except [.blank]).has c = !isBlank c := by
    simp [CharClass.has, CharClass.except, CharKind.has]
  have hstops : Stops (.except [.blank]) (b ++ [] ++ v) := by
    intro c hc
    rw [List.append_nil] at hc
    rw [hclass, hrest c hc, Bool.not_true]
  refine ⟨_, ?_, ((takes_oneOrMore hne (fun c hc => by rw [hclass, ht c hc]; rfl) hstops
    fun _ => none).group Slot.word).sequence <| (hb _).sequence <| takes_nil_sequence _ _⟩
  simp [Capture.text]

/-- A word is read in the last form. -/
theorem readAll_word {t : Text} (ht : (word t).WellFormed) (hrest : FollowsItem rest) :
    readAll (t ++ rest) = .word t :: readAll rest := by
  obtain ⟨hne, hchars⟩ := ht
  have hnone : valuePart? (t ++ rest) = none :=
    valuePart?_word (fun c hc => ⟨(hchars c hc).1, (hchars c hc).2.2.2⟩) hrest
  obtain ⟨b, v, rfl, hblank, hb⟩ := exists_takes_ending hrest.ends
  obtain ⟨part, rfl, htakes⟩ :=
    exists_takes_word hne (fun c hc => (hchars c hc).1) hrest.ends hb
  have hquote : NeverAt (sequence (between '"' .quoted ++ [ending])) (part.text.head hne) :=
    (neverAt_char (hchars _ (List.head_mem hne)).2.2.1).sequence _
  have hrefuses : Refuses (sequence (between '"' .quoted ++ [ending]))
      (part.text ++ (b ++ []) ++ v) := by
    have htext := hquote.refuses (part.text.tail ++ (b ++ []) ++ v)
    rwa [← List.cons_append, ← List.cons_append, List.cons_head_tail] at htext
  have hread := readAll_append (by simp [hne]) (takes_pattern_of_unnamed (by simpa using hnone)
    ((htakes.choice _).choice_of_refuses hrefuses (List.cons_ne_nil _ _)))
  rw [readAll_blanks hblank]
  simp only [List.append_assoc, List.append_nil] at hread
  exact hread

/-- An item that is no word is one token before any text that can end it. -/
theorem readAll_append_of_ne_word {i : Item} (hi : i.WellFormed) (hword : ∀ t, i ≠ word t)
    (hrest : EndsToken rest) : readAll (i.text ++ rest) = i.token :: readAll rest := by
  cases i with
  | named quoting key before after value =>
      obtain ⟨hkey, hbefore, hafter, hvalue⟩ := hi
      cases quoting with
      | double =>
          rw [token, ← Token.readAll_named hkey hbefore hafter hvalue hrest]
          simp [Item.text, Quoting.write]
      | single =>
          rw [token, ← readAll_single hkey hbefore hafter hvalue hrest]
          simp [Item.text, Quoting.write]
      | bare =>
          rw [token, ← readAll_bare hkey hbefore hafter hvalue hrest]
          simp [Item.text, Quoting.write]
  | quoted value =>
      rw [token, ← readAll_quoted hi hrest]
      simp [Item.text]
  | word t => exact absurd rfl (hword t)

/-- An item is one token, and the text after it is read on. -/
theorem readAll_append {i : Item} (hi : i.WellFormed) (hrest : FollowsItem rest) :
    readAll (i.text ++ rest) = i.token :: readAll rest := by
  cases i with
  | named => exact readAll_append_of_ne_word hi nofun hrest.ends
  | quoted => exact readAll_append_of_ne_word hi nofun hrest.ends
  | word t => exact readAll_word hi hrest

/-- An item begins with a character that is no blank and no equals sign. -/
theorem exists_text_eq {i : Item} (hi : i.WellFormed) :
    ∃ c cs, i.text = c :: cs ∧ isBlank c = false ∧ c ≠ '=' := by
  cases i with
  | named quoting key before after value =>
      obtain ⟨c, cs, rfl⟩ := List.exists_cons_of_ne_nil hi.1.ne_nil
      have hc := hi.1.chars c List.mem_cons_self
      exact ⟨c, _, rfl, isBlank_of_isWord hc, ne_of_isWord hc isWord_equals⟩
  | quoted value => exact ⟨'"', _, rfl, isBlank_doubleQuote, by decide⟩
  | word t =>
      obtain ⟨c, cs, rfl⟩ := List.exists_cons_of_ne_nil hi.1
      have hc := hi.2 c List.mem_cons_self
      exact ⟨c, cs, rfl, hc.1, hc.2.2.2⟩

end Item

/-! ## All items -/

section Spaced

variable {items : List Item} {b t : Text}

theorem followsItem_of_allBlank (hb : Token.AllBlank b) : FollowsItem b where
  ends c hc := hb c (List.mem_of_head? hc)
  unequal := by
    have hnil : b.dropWhile isBlank = [] := by
      rw [← List.append_nil b, Token.dropWhile_blanks hb]
      rfl
    rw [hnil]
    nofun

theorem Spaced.ne_nil (h : Spaced items t) : items ≠ [] := by
  cases h with
  | last => exact List.cons_ne_nil _ _
  | cons => exact List.cons_ne_nil _ _

theorem Spaced.exists_eq_cons (h : Spaced items t) :
    ∃ c cs, t = c :: cs ∧ isBlank c = false ∧ c ≠ '=' := by
  cases h with
  | last hi =>
      obtain ⟨c, cs, hcs, hc⟩ := Item.exists_text_eq hi
      exact ⟨c, _, by rw [hcs, List.cons_append], hc⟩
  | cons hi =>
      obtain ⟨c, cs, hcs, hc⟩ := Item.exists_text_eq hi
      exact ⟨c, _, by rw [hcs, List.cons_append], hc⟩

/-- Blanks and more items can follow an item. -/
theorem Spaced.followsItem (h : Spaced items t) (hb : Token.AllBlank b) (hne : b ≠ []) :
    FollowsItem (b ++ t) := by
  obtain ⟨c, cs, rfl, hblank, hequals⟩ := h.exists_eq_cons
  obtain ⟨d, ds, rfl⟩ := List.exists_cons_of_ne_nil hne
  refine ⟨fun d' hd => ?_, ?_⟩
  · rw [← Option.some.inj hd]
    exact hb d List.mem_cons_self
  · rw [Token.dropWhile_blanks hb, List.dropWhile_cons_of_neg
      (by rw [hblank]; exact Bool.false_ne_true)]
    exact fun h => hequals (Option.some.inj h)

/-- The tokens are the items. -/
theorem Spaced.readAll_eq (h : Spaced items t) : Token.readAll t = items.map Item.token := by
  induction h with
  | @last i b hi hb =>
      have hnone : Token.readAll b = [] := by
        rw [← List.append_nil b, Token.readAll_blanks hb]
        rfl
      rw [Item.readAll_append hi (followsItem_of_allBlank hb), hnone]
      rfl
  | cons hi hb hne hrest ih =>
      rw [Item.readAll_append hi (hrest.followsItem hb hne), Token.readAll_blanks hb, ih]
      rfl

end Spaced

/-! ## Repeated keys -/

namespace OrderedMap

variable {κ α : Type} [DecidableEq κ]

theorem ofList_concat (es : List (κ × α)) (e : κ × α) :
    ofList (es ++ [e]) = (ofList es).insert e.1 e.2 :=
  List.foldl_append

/-- Each key has the place where it came first. -/
theorem keys_ofList (es : List (κ × α)) : (ofList es).keys = (es.map Prod.fst).eraseDups := by
  induction es using List.reverseRecOn with
  | nil => rfl
  | append_singleton es e ih =>
      rw [ofList_concat, List.map_append, List.eraseDups_append, ← ih, List.map_singleton]
      by_cases he : e.1 ∈ (ofList es).keys
      · have hmem : e.1 ∈ es.map Prod.fst := by
          rwa [ih, List.mem_eraseDups] at he
        rw [keys_insert_of_mem _ he]
        simp [List.removeAll, hmem]
      · have hmem : e.1 ∉ es.map Prod.fst := by
          rwa [ih, List.mem_eraseDups] at he
        rw [keys_insert_of_notMem _ he]
        simp [List.removeAll, hmem, List.eraseDups_cons]

/-- Each key has the value that came last. -/
theorem find?_ofList (es : List (κ × α)) (k : κ) :
    (ofList es).find? k = lookupIn k es.reverse := by
  induction es using List.reverseRecOn with
  | nil => rfl
  | append_singleton es e ih =>
      rw [ofList_concat, find?_insert, ih, List.reverse_append, List.reverse_singleton,
        List.singleton_append, lookupIn]
      simp only [eq_comm]

theorem isEmpty_insert (m : OrderedMap κ α) (k : κ) (v : α) : (m.insert k v).isEmpty = false := by
  have hmem : k ∈ (m.insert k v).keys := mem_keys_insert.mpr (.inl rfl)
  rw [keys] at hmem
  rw [isEmpty, List.isEmpty_eq_false_iff]
  intro hnil
  rw [hnil] at hmem
  cases hmem

theorem isEmpty_ofList (es : List (κ × α)) : (ofList es).isEmpty = es.isEmpty := by
  rcases List.eq_nil_or_concat es with rfl | ⟨es, e, rfl⟩
  · rfl
  · rw [List.concat_eq_append, ofList_concat, isEmpty_insert]
    simp

end OrderedMap

/-! ## Attributes -/

theorem Item.entry?_token (i : Item) : i.token.entry? = i.pair? := by
  cases i <;> rfl

theorem Item.value?_token (i : Item) : i.token.value? = i.value? := by
  cases i with
  | named => rfl
  | quoted value => simp [token, value?, Token.value?]
  | word => rfl

def Token.isNamed : Token → Bool
  | named _ _ => true
  | _ => false

theorem Item.isNamed_token (i : Item) : i.token.isNamed = i.isNamed := by
  cases i <;> rfl

theorem Token.isEmpty_filterMap_entry? (tokens : List Token) :
    (tokens.filterMap Token.entry?).isEmpty = !tokens.any Token.isNamed := by
  induction tokens with
  | nil => rfl
  | cons tok tokens ih =>
      cases tok with
      | named => rfl
      | quoted value => exact ih
      | word t => exact ih

/-- Tokens stand for values with keys if one of them has a name. -/
theorem Attributes.ofTokens_eq (tokens : List Token) :
    ofTokens tokens =
      if tokens.any Token.isNamed then
        .keyed (.ofList (tokens.filterMap Token.entry?)) (tokens.filterMap Token.value?)
      else .positional (tokens.filterMap Token.value?) := by
  rw [ofTokens, OrderedMap.isEmpty_ofList, Token.isEmpty_filterMap_entry?]
  cases tokens.any Token.isNamed <;> rfl

/-- Text that is written by the grammar is read as it was meant.  The tokens are the items.  If
some item has a key, then the pairs are inserted from left to right, so that a repeated key keeps
its first place and takes its last value.  The other values stand in their order. -/
theorem parse_spaced {items : List Item} {lead t : Text} (hlead : Token.AllBlank lead)
    (h : Spaced items t) (hspace : '\u00a0' ∉ lead ++ t) (hzero : '\u200b' ∉ lead ++ t) :
    Token.readAll (lead ++ t).plainSpaces = items.map Item.token ∧
      Attributes.parse (lead ++ t) =
        (if items.any Item.isNamed then
          .keyed (.ofList (items.filterMap Item.pair?)) (items.filterMap Item.value?)
        else .positional (items.filterMap Item.value?)) ∧
      (OrderedMap.ofList (items.filterMap Item.pair?)).keys =
        ((items.filterMap Item.pair?).map Prod.fst).eraseDups ∧
      ∀ k, (OrderedMap.ofList (items.filterMap Item.pair?)).find? k =
        lookupIn k (items.filterMap Item.pair?).reverse := by
  have hkept : (lead ++ t).plainSpaces = lead ++ t := by
    refine Text.plainSpaces_eq_self fun c hc => ?_
    rw [isSpaceLike, Bool.or_eq_false_iff, beq_eq_false_iff_ne, beq_eq_false_iff_ne]
    exact ⟨ne_of_mem_of_not_mem hc hspace, ne_of_mem_of_not_mem hc hzero⟩
  have htokens : Token.readAll (lead ++ t).plainSpaces = items.map Item.token := by
    rw [hkept, Token.readAll_blanks hlead, h.readAll_eq]
  refine ⟨htokens, ?_, OrderedMap.keys_ofList _, OrderedMap.find?_ofList _⟩
  have hpairs : (items.map Item.token).filterMap Token.entry? = items.filterMap Item.pair? := by
    rw [List.filterMap_map]
    exact List.filterMap_congr fun i _ => i.entry?_token
  have hvalues : (items.map Item.token).filterMap Token.value? = items.filterMap Item.value? := by
    rw [List.filterMap_map]
    exact List.filterMap_congr fun i _ => i.value?_token
  have hnamed : (items.map Item.token).any Token.isNamed = items.any Item.isNamed := by
    simp only [List.any_map, Function.comp_def, Item.isNamed_token]
  have hsome : (items.map Item.token).isEmpty = false := by
    rw [List.isEmpty_map, List.isEmpty_eq_false_iff]
    exact h.ne_nil
  rw [Attributes.parse]
  simp only [htokens, hsome, Bool.false_eq_true, if_false]
  rw [Attributes.ofTokens_eq, hpairs, hvalues, hnamed]

/-- Items of every form, with a key that comes twice, a value that looks like a pair, and empty
quotes. -/
def mixedItems : List Item :=
  [.named .double "A".toList " ".toList "\t".toList "x='y' ".toList, .quoted [],
   .named .bare "b".toList [] [] "1=2".toList, .quoted "c=3".toList, .word "-d".toList,
   .named .single "a".toList [] [] "\\x41\"".toList]

theorem parse_spaced_mixed :
    Spaced mixedItems "A =\t\"x='y' \" \"\" b=1=2\n\"c=3\"  -d a='\\x41\"' ".toList ∧
    Attributes.parse ([' '] ++ "A =\t\"x='y' \" \"\" b=1=2\n\"c=3\"  -d a='\\x41\"' ".toList) =
      .keyed (.ofList [(.name ['a'], "x='y' ".toList), (.name ['b'], "1=2".toList),
        (.name ['a'], "A\"".toList)]) ["c=3".toList, "-d".toList] ∧
    (OrderedMap.ofList [(Key.name ['a'], "x='y' ".toList), (.name ['b'], "1=2".toList),
        (.name ['a'], "A\"".toList)]).keys = [.name ['a'], .name ['b']] := by
  have hspaced : Spaced mixedItems "A =\t\"x='y' \" \"\" b=1=2\n\"c=3\"  -d a='\\x41\"' ".toList :=
    .cons (b := [' ']) (by decide +kernel) (by decide +kernel) (by decide) <|
    .cons (b := [' ']) (by decide +kernel) (by decide +kernel) (by decide) <|
    .cons (b := ['\n']) (by decide +kernel) (by decide +kernel) (by decide) <|
    .cons (b := "  ".toList) (by decide +kernel) (by decide +kernel) (by decide) <|
    .cons (b := [' ']) (by decide +kernel) (by decide +kernel) (by decide) <|
    .last (b := [' ']) (by decide +kernel) (by decide +kernel)
  have hlead : Token.AllBlank [' '] := by decide +kernel
  obtain ⟨-, hparse, hkeys, -⟩ := parse_spaced hlead hspaced (by decide) (by decide)
  have hpairs : mixedItems.filterMap Item.pair? = [(.name ['a'], "x='y' ".toList),
      (.name ['b'], "1=2".toList), (.name ['a'], "A\"".toList)] := by decide +kernel
  have hvalues : mixedItems.filterMap Item.value? = ["c=3".toList, "-d".toList] := by decide +kernel
  rw [hpairs, hvalues] at hparse
  rw [hpairs] at hkeys
  exact ⟨hspaced, hparse, hkeys.trans (by decide)⟩

end BracketTags
