import BracketTags.Proofs.Coverage

/-!
# Blank attribute text

Attribute text of blanks and zero-width spaces has no token, so its attributes are
raw.

*Two sets.*  The search for tokens passes over all blanks, but only six characters
are trimmed from the left of raw text.  A form feed or an ideographic space is a
blank and is not trimmed.  So the raw text need not be empty
(`Attributes.parse_of_blank`).

*Tags.*  A tag with such a text and a tag without attributes call the handler with
the same attributes exactly if every character is space-like or trimmed
(`parse_blank`).
-/

namespace BracketTags

variable {η σ : Type}

/-! ## Texts of blanks -/

namespace Text

/-- Every character is a blank or a zero-width space. -/
def IsBlankText (t : Text) : Prop := ∀ c ∈ t, isBlank c = true ∨ c = '\u200b'

instance (t : Text) : Decidable (IsBlankText t) :=
  decidable_of_iff (t.all fun c => isBlank c || c == '\u200b') (by simp [IsBlankText])

/-- What holds of a space holds of all plain characters if it holds of those that are kept. -/
theorem forall_mem_plainSpacesAfter {P : Char → Prop} (hspace : P ' ') (after : Bool) (t : Text) :
    (∀ c ∈ plainSpacesAfter after t, P c) ↔ ∀ c ∈ t, isSpaceLike c = true ∨ P c := by
  induction t generalizing after with
  | nil => cases after <;> simp [plainSpacesAfter]
  | cons c cs ih =>
      rw [List.forall_mem_cons]
      cases hc : isSpaceLike c with
      | true =>
          cases after with
          | true => simp [plainSpacesAfter, hc, ih]
          | false => simp [plainSpacesAfter, hc, ih, hspace]
      | false => cases after <;> simp [plainSpacesAfter, hc, ih]

theorem forall_mem_plainSpaces {P : Char → Prop} (hspace : P ' ') {t : Text} :
    (∀ c ∈ t.plainSpaces, P c) ↔ ∀ c ∈ t, isSpaceLike c = true ∨ P c :=
  forall_mem_plainSpacesAfter hspace false t

theorem trimLeft_eq_nil_iff {t : Text} : t.trimLeft = [] ↔ ∀ c ∈ t, isMargin c = true :=
  List.dropWhile_eq_nil_iff

theorem IsBlankText.allBlank {t : Text} (h : t.IsBlankText) : Token.AllBlank t.plainSpaces := by
  refine (forall_mem_plainSpaces (by decide +kernel)).mpr fun c hc => ?_
  rcases h c hc with hblank | rfl
  · exact .inr hblank
  · exact .inl (by decide)

/-- A character that is no blank is not in the text, but for the zero-width space. -/
theorem IsBlankText.notMem {t : Text} (h : t.IsBlankText) {c : Char} (hc : isBlank c = false)
    (hzero : c ≠ '\u200b') : c ∉ t := by
  intro hmem
  rcases h c hmem with hblank | rfl
  · rw [hc] at hblank
    cases hblank
  · exact hzero rfl

end Text

/-! ## Attributes -/

/-- No token is read, and what is left behind the margin is kept. -/
theorem Attributes.parse_of_blank {t : Text} (h : t.IsBlankText) :
    parse t = .raw t.plainSpaces.trimLeft := by
  rw [parse_eq, if_pos ((Token.readAll_eq_nil_iff _).mpr h.allBlank)]

/-- The raw text is empty exactly if each character is made a space or trimmed. -/
theorem Attributes.parse_eq_raw_nil_iff {t : Text} (h : t.IsBlankText) :
    parse t = .raw [] ↔ ∀ c ∈ t, isSpaceLike c = true ∨ isMargin c = true := by
  rw [parse_of_blank h, ← Text.forall_mem_plainSpaces (P := fun c => isMargin c = true) rfl,
    ← Text.trimLeft_eq_nil_iff]
  exact ⟨Attributes.raw.inj, congrArg Attributes.raw⟩

/-! ## Tags -/

/-- A pass over the text is one call of the handler of the name, with the attributes and no
content. -/
def Expander.Delivers (act : Behaviour η σ) (e : Expander η) (w : World η σ) (t name : Text)
    (attributes : Attributes) : Prop :=
  ∃ h, e.source.get? w.registry name = some h ∧
    e.expand act t w = (e.pattern? (some t) >>= fun _ =>
      act.invoke h ⟨attributes, none, name⟩ >>= Reply.text name) w

section Tags

variable {t name : Text}

theorem Text.IsBlankText.nameEnds (h : t.IsBlankText) : nameEnds t = true := by
  cases t with
  | nil => rfl
  | cons c cs =>
      rcases h c List.mem_cons_self with hblank | rfl
      · have hhyphen : c ≠ '-' := by
          rintro rfl
          exact absurd hblank (by decide +kernel)
        simp [BracketTags.nameEnds, isWord_of_isBlank hblank, hhyphen]
      · show (!(isWord '\u200b' || '\u200b' == '-')) = true
        decide +kernel

/-- A tag whose attribute text is blank is read as it is written. -/
theorem Text.IsBlankText.wellFormed (h : t.IsBlankText) (name : Text) :
    (Tag.mk name t .opening false false).WellFormed := by
  refine ⟨h.notMem (by decide +kernel) (by decide), fun _ hslash => ?_, nofun⟩
  exact h.notMem (by decide +kernel) (by decide) (List.mem_of_getLast? hslash)

theorem delivers_of_blank (act : Behaviour η σ) {e : Expander η} {w : World η σ}
    (hnames : ∀ m ∈ e.source.names w.registry, OrdinaryName m)
    (hname : name ∈ e.source.names w.registry) (h : t.IsBlankText) :
    e.Delivers act w (['['] ++ name ++ t ++ [']']) name (.parse t) := by
  have hrender : (Tag.mk name t .opening false false).render = ['['] ++ name ++ t ++ [']'] := by
    simp [Tag.render, Tag.openText, Tag.closeText]
  have htags := Tag.tagsIn_render hnames (g := ⟨name, t, .opening, false, false⟩) hname h.nameEnds
    (h.wellFormed name)
  obtain ⟨handler, hget⟩ :=
    Option.ne_none_iff_exists'.mp (e.source.hasAll_names w.registry name hname)
  refine ⟨handler, hget, ?_⟩
  rw [← hrender]
  exact expand_of_tag act htags rfl (Nat.zero_add _) rfl rfl hget

end Tags

/-- Blank attribute text is raw text from which the margin is trimmed.  It means no attributes
exactly if each of its characters is space-like or belongs to the margin.  Then a tag with that
text and a tag without attributes call the handler with the same attributes, and else they do
not. -/
theorem parse_blank {t : Text} (ht : t.IsBlankText) :
    Attributes.parse t = .raw t.plainSpaces.trimLeft ∧
      (Attributes.parse t = .raw [] ↔ ∀ c ∈ t, isSpaceLike c = true ∨ isMargin c = true) ∧
      ∀ (act : Behaviour η σ) (e : Expander η) (w : World η σ) (name : Text),
        (∀ m ∈ e.source.names w.registry, OrdinaryName m) →
        name ∈ e.source.names w.registry →
        e.Delivers act w (['['] ++ name ++ [']']) name (.raw []) ∧
          e.Delivers act w (['['] ++ name ++ t ++ [']']) name (.parse t) := by
  refine ⟨Attributes.parse_of_blank ht, Attributes.parse_eq_raw_nil_iff ht,
    fun act e w name hnames hname => ⟨?_, delivers_of_blank act hnames hname ht⟩⟩
  have hnil : Text.IsBlankText [] := nofun
  have hempty := delivers_of_blank act hnames hname hnil
  rwa [List.append_nil, Attributes.parse_of_blank hnil] at hempty

/-- A space, both space-like characters and a tab are no attributes. -/
theorem parse_blank_margin :
    Text.IsBlankText " \u00a0\u200b\t".toList ∧
    Attributes.parse " \u00a0\u200b\t".toList = .raw [] ∧
    (Expander.expand (fun _ c => pure (.value (.bool c.attributes.isTrue))) ⟨.live, none⟩
      "[b \u00a0\u200b\t]".toList oneName).outcome = .ok "False".toList := by
  have hblank : Text.IsBlankText " \u00a0\u200b\t".toList := by decide +kernel
  obtain ⟨-, hempty, hdelivers⟩ := @parse_blank Unit Unit _ hblank
  have hparse := hempty.mpr (by simp [isSpaceLike, isMargin])
  obtain ⟨-, h, -, hexpand⟩ := hdelivers
    (fun _ c => pure (.value (.bool c.attributes.isTrue))) ⟨.live, none⟩ oneName ['b']
    ordinaryName_of_mem_oneName List.mem_cons_self
  rw [hparse] at hexpand
  refine ⟨hblank, hparse, ?_⟩
  show (Expander.expand _ _ (['['] ++ ['b'] ++ " \u00a0\u200b\t".toList ++ [']'])
    oneName).outcome = _
  rw [hexpand]
  rfl

/-- A form feed is a blank, and it stays in the raw text. -/
theorem parse_blank_ne :
    Text.IsBlankText ['\x0c'] ∧ Attributes.parse ['\x0c'] = .raw ['\x0c'] ∧
      Attributes.parse ['\x0c'] ≠ .raw [] := by
  have hblank : Text.IsBlankText ['\x0c'] := by decide +kernel
  have hparse : Attributes.parse ['\x0c'] = .raw ['\x0c'] := Attributes.parse_of_blank hblank
  refine ⟨hblank, hparse, ?_⟩
  rw [hparse]
  nofun

end BracketTags
