import BracketTags.Proofs.Building
import BracketTags.Proofs.Encodings
import BracketTags.Proofs.Tokens

/-!
# Dictionaries

Any values can be delivered to a handler as attributes.  A *dictionary* has
values under different names (`Dictionary`).  It is written as attribute text,
each value in double quotes, with four characters escaped.

Each layer that reads the text leaves the others their characters.

* The tag ends at its bracket, since no closing bracket is left in a value
  (`Dictionary.wellFormed_tag`).
* No character is space-like, so none becomes a plain space
  (`Text.plainSpaces_eq_self`).
* A value ends at its quote, since no quote is left in it, and so each pair is
  one token (`Token.readAll_written`).
* The escapes are decoded, and no character after an escape belongs to it
  (`Text.unescape_encoded`).

So a pass over the tag is one call of its handler with the dictionary
(`expand_dictionary`).
-/

namespace BracketTags

variable {η σ : Type}

/-! ## Space-like characters -/

theorem Text.plainSpaces_eq_self {t : Text} (h : ∀ c ∈ t, isSpaceLike c = false) :
    t.plainSpaces = t := by
  rw [plainSpaces]
  induction t with
  | nil => rfl
  | cons c cs ih =>
      rw [plainSpacesAfter, if_neg (by simp [h c List.mem_cons_self]),
        ih fun d hd => h d (List.mem_cons_of_mem c hd)]

/-! ## Values in double quotes -/

/-- A character as it is written in a value in double quotes. -/
def encodeChar : Char → Text
  | '\\' => ['\\', '\\']
  | '"' => ['\\', 'x', '2', '2']
  | ']' => ['\\', 'x', '5', 'd']
  | '\u00a0' => ['\\', 'x', 'a', '0']
  | c => [c]

namespace Text

/-- A value as it is written in double quotes. -/
def encoded (v : Text) : Text := v.flatMap encodeChar

theorem encodes_encodeChar (c : Char) : Encodes c (encodeChar c) := by
  unfold encodeChar
  split
  · exact .backslash (by decide)
  · exact .hexadecimal (m := 2) (n := 2) (by decide) (by decide) rfl
  · exact .hexadecimal (m := 5) (n := 13) (by decide) (by decide) rfl
  · exact .hexadecimal (m := 10) (n := 0) (by decide) (by decide) rfl
  · next hslash _ _ _ => exact .plain hslash

theorem unescape_encoded (v : Text) : unescape v.encoded = v := by
  induction v with
  | nil => rfl
  | cons c v ih =>
      rw [encoded] at ih
      rw [encoded, List.flatMap_cons, (encodes_encodeChar c).unescape_append, ih]

/-- A character that is not one of the four is written as it is, and the others as escapes. -/
theorem encodeChar_eq_or_subset (c : Char) :
    (encodeChar c = [c] ∧ c ≠ '"' ∧ c ≠ ']' ∧ c ≠ '\u00a0') ∨
      encodeChar c ⊆ "\\x25da0".toList := by
  unfold encodeChar
  split
  · exact .inr (by decide)
  · exact .inr (by decide)
  · exact .inr (by decide)
  · exact .inr (by decide)
  · next hquote hbracket hspace => exact .inl ⟨rfl, hquote, hbracket, hspace⟩

theorem mem_encoded {v : Text} {c : Char} (h : c ∈ v.encoded) :
    (c ∈ v ∧ c ≠ '"' ∧ c ≠ ']' ∧ c ≠ '\u00a0') ∨ c ∈ "\\x25da0".toList := by
  obtain ⟨d, hd, hc⟩ := List.mem_flatMap.mp h
  rcases encodeChar_eq_or_subset d with ⟨heq, hne⟩ | hsub
  · rw [heq] at hc
    rw [List.mem_singleton.mp hc]
    exact .inl ⟨hd, hne⟩
  · exact .inr (hsub hc)

theorem quote_notMem_encoded (v : Text) : '"' ∉ v.encoded := by
  intro h
  rcases mem_encoded h with ⟨-, hne, -⟩ | h
  · exact hne rfl
  · exact absurd h (by decide)

theorem closingBracket_notMem_encoded (v : Text) : ']' ∉ v.encoded := by
  intro h
  rcases mem_encoded h with ⟨-, -, hne, -⟩ | h
  · exact hne rfl
  · exact absurd h (by decide)

theorem isSpaceLike_of_mem_encoded {v : Text} (hv : '\u200b' ∉ v) {c : Char}
    (h : c ∈ v.encoded) : isSpaceLike c = false := by
  rcases mem_encoded h with ⟨hc, -, -, hne⟩ | h
  · have hzero : c ≠ '\u200b' := by
      rintro rfl
      exact hv hc
    simp [isSpaceLike, hne, hzero]
  · have hescapes : "\\x25da0".toList.all (fun d => !isSpaceLike d) = true := by decide
    simpa using List.all_eq_true.mp hescapes c h

end Text

/-! ## Dictionaries -/

/-- Values under different names, which can be written as attributes. -/
structure Dictionary where
  entries : List (Text × Text)
  ne_nil : entries ≠ []
  nodup_keys : (entries.map Prod.fst).Nodup
  /-- Names are read in lower case. -/
  keys : ∀ p ∈ entries, Token.WordName p.1 ∧ p.1.lowercase = p.1
  /-- No escape gives the zero-width space. -/
  values : ∀ p ∈ entries, '\u200b' ∉ p.2

/-- A name and a value as attribute text. -/
def writtenPair (p : Text × Text) : Text :=
  [' '] ++ p.1 ++ ['='] ++ ['"'] ++ p.2.encoded ++ ['"']

/-- Names and values as attribute text. -/
def written (ps : List (Text × Text)) : Text := ps.flatMap writtenPair

namespace Dictionary

/-- The entries by their keys. -/
def named (d : Dictionary) : OrderedMap Key Text where
  entries := d.entries.map fun p => (.name p.1, p.2)
  nodup_keys := by
    have hkeys : (d.entries.map fun p => ((.name p.1, p.2) : Key × Text)).map Prod.fst =
        (d.entries.map Prod.fst).map Key.name := by
      simp
    rw [hkeys]
    exact List.Pairwise.map Key.name (fun _ _ hne h => hne (Key.name.inj h)) d.nodup_keys

/-- A tag with the dictionary as its attributes. -/
def tag (d : Dictionary) (name : Text) : Tag where
  name := name
  attributes := written d.entries
  body := .opening
  openMarker := false
  closeMarker := false

end Dictionary

section Written

variable {ps : List (Text × Text)}

theorem endsToken_written (ps : List (Text × Text)) : Token.EndsToken (written ps) := by
  intro c hc
  cases ps with
  | nil => cases hc
  | cons p ps =>
      obtain rfl := Option.some.inj hc
      decide +kernel

/-- Each pair is one token. -/
theorem Token.readAll_written (h : ∀ p ∈ ps, WordName p.1) :
    readAll (written ps) = ps.map fun p => .named p.1 p.2.encoded := by
  induction ps with
  | nil => rfl
  | cons p ps ih =>
      have hpair := readAll_named (h p List.mem_cons_self) allBlank_nil allBlank_nil
        p.2.quote_notMem_encoded (endsToken_written ps)
      have hblank := readAll_cons_blank (show isBlank ' ' = true by decide +kernel)
        (p.1 ++ ([] ++ (['='] ++ ([] ++ (['"'] ++ (p.2.encoded ++ (['"'] ++ written ps)))))))
      rw [List.map_cons, ← ih fun q hq => h q (List.mem_cons_of_mem p hq), ← hpair, ← hblank]
      simp [written, writtenPair]

/-- What holds of word characters, of the three marks of a pair and of the written values holds of
all characters. -/
theorem forall_mem_written {P : Char → Prop} (hkeys : ∀ p ∈ ps, Token.WordName p.1)
    (hword : ∀ c, isWord c = true → P c) (hmarks : P ' ' ∧ P '=' ∧ P '"')
    (hvalues : ∀ p ∈ ps, ∀ c ∈ p.2.encoded, P c) : ∀ c ∈ written ps, P c := by
  intro c hc
  obtain ⟨p, hp, hc⟩ := List.mem_flatMap.mp hc
  simp only [writtenPair, List.mem_append, List.mem_singleton] at hc
  rcases hc with ((((rfl | hc) | rfl) | rfl) | hc) | rfl
  · exact hmarks.1
  · exact hword c ((hkeys p hp).chars c hc)
  · exact hmarks.2.1
  · exact hmarks.2.2
  · exact hvalues p hp c hc
  · exact hmarks.2.2

theorem nameEnds_written (ps : List (Text × Text)) : nameEnds (written ps) = true := by
  cases ps with
  | nil => rfl
  | cons p ps => rfl

theorem getLast?_written (h : ps ≠ []) : (written ps).getLast? = some '"' := by
  rcases List.eq_nil_or_concat ps with hnil | ⟨init, p, rfl⟩
  · exact absurd hnil h
  · rw [List.concat_eq_append, written, List.flatMap_append, List.flatMap_singleton, writtenPair,
      ← List.append_assoc]
    exact List.getLast?_concat

end Written

namespace Dictionary

variable (d : Dictionary)

theorem wordName {p : Text × Text} (hp : p ∈ d.entries) : Token.WordName p.1 := (d.keys p hp).1

/-- The pairs are read back. -/
theorem filterMap_entry? :
    (d.entries.map fun p => Token.named p.1 p.2.encoded).filterMap Token.entry? =
      d.named.entries := by
  show _ = d.entries.map fun p => ((.name p.1, p.2) : Key × Text)
  rw [List.filterMap_map, ← List.filterMap_eq_map]
  refine List.filterMap_congr fun p hp => ?_
  simp [Token.entry?, (d.keys p hp).2, Text.unescape_encoded]

/-- The attribute text of a dictionary is read as the dictionary. -/
theorem parse_written : Attributes.parse (written d.entries) = .keyed d.named [] := by
  have hplain : (written d.entries).plainSpaces = written d.entries := by
    refine Text.plainSpaces_eq_self (forall_mem_written (fun p hp => d.wordName hp)
      (fun c hc => ?_) (by decide) fun p hp c hc => ?_)
    · rw [isSpaceLike, Bool.or_eq_false_iff, beq_eq_false_iff_ne, beq_eq_false_iff_ne]
      exact ⟨ne_of_isWord hc (by decide +kernel), ne_of_isWord hc (by decide +kernel)⟩
    · exact Text.isSpaceLike_of_mem_encoded (d.values p hp) hc
  have htokens := Token.readAll_written fun p hp => d.wordName hp
  have hvalues : (d.entries.map fun p => Token.named p.1 p.2.encoded).filterMap Token.value? =
      [] := by
    rw [List.filterMap_map, List.filterMap_eq_nil_iff]
    exact fun _ _ => rfl
  have hsome : (d.entries.map fun p => Token.named p.1 p.2.encoded).isEmpty = false := by
    simp [d.ne_nil]
  have hnamed : d.named.isEmpty = false := by
    simp [OrderedMap.isEmpty, named, d.ne_nil]
  rw [Attributes.parse, hplain, htokens]
  simp only [hsome, Bool.false_eq_true, if_false, Attributes.ofTokens, d.filterMap_entry?,
    OrderedMap.ofList_entries, hnamed, hvalues]

theorem wellFormed_tag (name : Text) : (d.tag name).WellFormed := by
  refine ⟨fun hmem => ?_, fun _ => ?_, fun content hcontent => ?_⟩
  · refine forall_mem_written (P := (· ≠ ']')) (fun p hp => d.wordName hp)
      (fun c hc => ne_of_isWord hc (by decide +kernel)) (by decide) (fun p hp c hc => ?_) _ hmem rfl
    rintro rfl
    exact p.2.closingBracket_notMem_encoded hc
  · rw [tag, getLast?_written d.ne_nil]
    decide
  · cases hcontent

end Dictionary

/-! ## Passes -/

section Pass

variable {name : Text}

/-- Any dictionary can be delivered.  A tag that has it as attributes calls the handler of its name
once, with the dictionary, no positional values and no content, and the pass does nothing else. -/
theorem expand_dictionary (act : Behaviour η σ) (e : Expander η) (w : World η σ)
    (hnames : ∀ m ∈ e.source.names w.registry, OrdinaryName m)
    (hname : name ∈ e.source.names w.registry) (d : Dictionary) :
    ∃ h, e.source.get? w.registry name = some h ∧
      e.expand act (['['] ++ name ++ written d.entries ++ [']']) w =
        (e.pattern? (some (['['] ++ name ++ written d.entries ++ [']'])) >>= fun _ =>
          act.invoke h ⟨.keyed d.named [], none, name⟩ >>= Reply.text name) w := by
  have hrender : (d.tag name).render = ['['] ++ name ++ written d.entries ++ [']'] := by
    simp [Tag.render, Dictionary.tag, Tag.openText, Tag.closeText]
  have htags := Tag.tagsIn_render hnames hname (nameEnds_written d.entries) (d.wellFormed_tag name)
  have hstop : Occurrence.stop ⟨d.tag name, 0, (d.tag name).render⟩ = (d.tag name).render.length :=
    Nat.zero_add _
  obtain ⟨h, hget⟩ := Option.ne_none_iff_exists'.mp (e.source.hasAll_names w.registry name hname)
  refine ⟨h, hget, ?_⟩
  have hcall : (d.tag name).call = ⟨.keyed d.named [], none, name⟩ := by
    rw [Tag.call, Dictionary.tag, d.parse_written]
    rfl
  rw [← hrender, expand_of_tag act htags rfl hstop rfl rfl hget, hcall]
  rfl

end Pass

/-- Values with every character that could be misread, also a hexadecimal digit after an escape,
and no value at all. -/
def awkwardDictionary : Dictionary where
  entries := [("k".toList, "[/b] \"\\x41\" ]\u00a0a/".toList), ("_2".toList, [])]
  ne_nil := by decide
  nodup_keys := by decide
  keys := by
    intro p hp
    rcases List.mem_cons.mp hp with rfl | hp
    · exact ⟨⟨by decide, List.all_eq_true.mp (by decide +kernel)⟩, by decide +kernel⟩
    · rw [List.mem_singleton.mp hp]
      exact ⟨⟨by decide, List.all_eq_true.mp (by decide +kernel)⟩, by decide +kernel⟩
  values := by decide

theorem expand_dictionary_awkward :
    written awkwardDictionary.entries =
      " k=\"[/b\\x5d \\x22\\\\x41\\x22 \\x5d\\xa0a/\" _2=\"\"".toList ∧
    (Expander.expand (fun _ c => pure (.value (c.attributes.getD (.name ['k']) .nothing)))
      ⟨.live, none⟩ (['['] ++ ['b'] ++ written awkwardDictionary.entries ++ [']'])
      oneName).outcome = .ok "[/b] \"\\x41\" ]\u00a0a/".toList := by
  refine ⟨by decide, ?_⟩
  obtain ⟨h, -, hexpand⟩ := expand_dictionary
    (fun _ c => pure (.value (c.attributes.getD (.name ['k']) .nothing))) ⟨.live, none⟩ oneName
    ordinaryName_of_mem_oneName List.mem_cons_self awkwardDictionary
  rw [hexpand]
  rfl

end BracketTags
