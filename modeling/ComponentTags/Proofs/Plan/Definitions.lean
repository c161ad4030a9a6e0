import ComponentTags.Plan.Definition
import ComponentTags.Proofs.Path.PlainNames

/-!
Which definitions an element may have. The attribute that counts is the first one of the keyword's
name; its text is a literal, or an expression that is one plain string; and the text is a namespace
and a version around its only `@`. Reading accepts just that, and otherwise tells what it found.
-/

namespace ComponentTags

/-- The first of some attributes that has that name. -/
def IsFirstNamed (attributes : List Attribute) (name : String) (attr : Attribute) : Prop :=
  ∃ front back, attributes = front ++ attr :: back ∧ attr.name = name ∧
    ∀ other ∈ front, other.name ≠ name

def stringQuotes : List Char :=
  ['"', '\'', '\x60']

/-- A text that stands between two such quotes for itself. -/
structure StandsForItself (quote : Char) (text : List Char) : Prop where
  noQuote : quote ∉ text
  noEscape : '\\' ∉ text
  noHole : quote = '\x60' → ¬['$', '{'] <:+: text

/-- An expression that is one plain string of that text, perhaps with blanks around it. -/
def IsPlainString (expression text : List Char) : Prop :=
  ∃ front quote back, expression = front ++ (quote :: (text ++ quote :: back)) ∧
    (∀ ch ∈ front, isBlank ch = true) ∧ (∀ ch ∈ back, isBlank ch = true) ∧
      quote ∈ stringQuotes ∧ StandsForItself quote text

/-- The text that the value of an attribute gives for a definition. -/
inductive AttributeValue.Gives : AttributeValue → String → Prop where
  | literal (text : String) : Gives (.literal text) text
  | plain {expression text : String} (h : IsPlainString expression.toList text.toList) :
      Gives (.expression expression) text

/-- A namespace and a version around the only `@` of a text. -/
structure IsDefinition (text space version : List Char) : Prop where
  text_eq : text = space ++ '@' :: version
  space_ne : space ≠ []
  version_ne : version ≠ []
  notMem_space : '@' ∉ space
  notMem_version : '@' ∉ version

/-- The first attribute of the keyword's name gives that text. -/
def Element.Defines (element : Element) (keyword text : String) : Prop :=
  ∃ attr value, IsFirstNamed element.attributes keyword attr ∧ attr.value = some value ∧
    value.Gives text

/-- What is told of an element that has no definition, or one that cannot be used. -/
inductive Element.Misdefines (element : Element) (keyword : String) : DefinitionError → Prop where
  | missing (h : ∀ attr ∈ element.attributes, attr.name ≠ keyword) :
      Misdefines element keyword { tag := element.name, value := "", problem := .missing }
  | noValue {attr : Attribute} (hfirst : IsFirstNamed element.attributes keyword attr)
      (hvalue : attr.value = none) :
      Misdefines element keyword { tag := element.name, value := "", problem := .malformed }
  | noDefinition {text : String} (hdefines : element.Defines keyword text)
      (hno : ∀ space version, ¬IsDefinition text.toList space version) :
      Misdefines element keyword { tag := element.name, value := text, problem := .malformed }
  | noString {attr : Attribute} {expression : String}
      (hfirst : IsFirstNamed element.attributes keyword attr)
      (hvalue : attr.value = some (.expression expression))
      (hno : ∀ text, ¬IsPlainString expression.toList text) :
      Misdefines element keyword
        { tag := element.name, value := "\x7b" ++ expression ++ "\x7d", problem := .malformed }

/-- What an element says by its attribute of that name: a reference, or why there is none. -/
def Element.Says (element : Element) (keyword : String) : Except DefinitionError Reference → Prop
  | .ok reference =>
      reference.tag = element.name ∧ ∃ text, element.Defines keyword text ∧
        IsDefinition text.toList reference.space.toList reference.version.toList
  | .error error => element.Misdefines keyword error

section Definitions

variable {text inner space version front back : List Char} {attributes : List Attribute}
  {name keyword : String} {attr : Attribute} {element : Element} {quote ch : Char}

/-! ### Texts without the blanks at their ends -/

theorem exists_trimFrontChars (text : List Char) :
    ∃ front, text = front ++ trimFrontChars text ∧ ∀ ch ∈ front, isBlank ch = true :=
  ⟨text.takeWhile isBlank, List.takeWhile_append_dropWhile.symm,
    List.all_eq_true.1 List.all_takeWhile⟩

theorem trimChars_eq (text : List Char) :
    trimChars text = (trimFrontChars (trimFrontChars text).reverse).reverse :=
  rfl

theorem exists_trimChars (text : List Char) :
    ∃ front back, text = front ++ (trimChars text ++ back) ∧ (∀ ch ∈ front, isBlank ch = true) ∧
      ∀ ch ∈ back, isBlank ch = true := by
  obtain ⟨front, htext, hfront⟩ := exists_trimFrontChars text
  obtain ⟨back, hrest, hback⟩ := exists_trimFrontChars (trimFrontChars text).reverse
  refine ⟨front, back.reverse, ?_, hfront, fun ch hch => hback ch (List.mem_reverse.1 hch)⟩
  have hkept : trimFrontChars text = trimChars text ++ back.reverse := by
    rw [trimChars_eq, ← List.reverse_append, ← hrest, List.reverse_reverse]
  rw [← hkept]
  exact htext

theorem trimFrontChars_append (hfront : ∀ ch ∈ front, isBlank ch = true)
    (hch : isBlank ch = false) (text : List Char) :
    trimFrontChars (front ++ ch :: text) = ch :: text := by
  rw [trimFrontChars, List.dropWhile_append_of_pos hfront, List.dropWhile_cons_of_neg (by simp [hch])]

theorem isBlank_of_mem_quotes (h : quote ∈ stringQuotes) : isBlank quote = false := by
  simp only [stringQuotes, List.mem_cons, List.not_mem_nil, or_false] at h
  rcases h with rfl | rfl | rfl <;> decide

theorem trimChars_quoted (hfront : ∀ ch ∈ front, isBlank ch = true)
    (hback : ∀ ch ∈ back, isBlank ch = true) (hquote : quote ∈ stringQuotes) :
    trimChars (front ++ (quote :: (inner ++ quote :: back))) = quote :: (inner ++ [quote]) := by
  have hblank := isBlank_of_mem_quotes hquote
  have hreverse : (quote :: (inner ++ quote :: back)).reverse =
      back.reverse ++ quote :: (quote :: inner).reverse := by
    simp
  rw [trimChars_eq, trimFrontChars_append hfront hblank, hreverse,
    trimFrontChars_append (fun ch hch => hback ch (List.mem_reverse.1 hch)) hblank]
  simp

/-! ### Plain strings -/

theorem containsChars_iff (part text : List Char) : containsChars part text = true ↔ part <:+: text := by
  induction text with
  | nil => rw [containsChars, List.isEmpty_iff, List.infix_nil]
  | cons ch text ih =>
      rw [containsChars, Bool.or_eq_true, ih, List.isPrefixOf_iff_prefix, List.infix_cons_iff]

theorem isPlain_iff {rest : List Char} :
    (['"', '\'', '\x60'].contains quote && rest.getLast? = some quote
        && !inner.contains quote && !inner.contains '\\'
        && !(quote = '\x60' && containsChars ['$', '\x7b'] inner)) = true ↔
      quote ∈ stringQuotes ∧ rest.getLast? = some quote ∧ StandsForItself quote inner := by
  rw [Bool.and_eq_true, Bool.and_eq_true, Bool.and_eq_true, Bool.and_eq_true, Bool.not_eq_true',
    Bool.not_eq_true', Bool.not_eq_true', Bool.and_eq_false_imp, List.contains_eq_mem,
    List.contains_eq_mem, List.contains_eq_mem, decide_eq_false_iff_not, decide_eq_false_iff_not,
    decide_eq_true_eq, decide_eq_true_eq, decide_eq_true_eq, ← Bool.not_eq_true, containsChars_iff]
  exact ⟨fun h => ⟨h.1.1.1.1, h.1.1.1.2, h.1.1.2, h.1.2, h.2⟩,
    fun h => ⟨⟨⟨⟨h.1, h.2.1⟩, h.2.2.noQuote⟩, h.2.2.noEscape⟩, h.2.2.noHole⟩⟩

theorem plainString?_eq_some_iff {expression text : String} :
    plainString? expression = some text ↔ IsPlainString expression.toList text.toList := by
  constructor
  · intro h
    obtain ⟨front, back, hexpression, hfront, hback⟩ := exists_trimChars expression.toList
    unfold plainString? at h
    split at h
    · next quote rest htrim =>
        dsimp only at h
        split at h
        · next hplain =>
            obtain ⟨hquote, hlast, hinner⟩ := isPlain_iff.1 hplain
            obtain ⟨inner, rfl⟩ := List.getLast?_eq_some_iff.1 hlast
            rw [List.dropLast_concat] at h hinner
            obtain rfl := Option.some.inj h
            rw [String.toList_ofList]
            refine ⟨front, quote, back, ?_, hfront, hback, hquote, hinner⟩
            rw [hexpression, htrim]
            simp
        · cases h
    · cases h
  · rintro ⟨front, quote, back, hexpression, hfront, hback, hquote, hinner⟩
    unfold plainString?
    rw [hexpression, trimChars_quoted hfront hback hquote]
    dsimp only
    rw [List.dropLast_concat, if_pos (isPlain_iff.2 ⟨hquote, List.getLast?_concat, hinner⟩),
      String.ofList_toList]

/-! ### Definitions -/

theorem notMem_of_splitChars_eq_singleton {part : List Char} (h : splitChars ch text = [part]) :
    text = part ∧ ch ∉ part := by
  by_cases hmem : ch ∈ text
  · obtain ⟨front, back, rfl, hfront⟩ := List.eq_append_cons_of_mem hmem
    rw [splitChars_append, splitChars_of_notMem hfront] at h
    exact absurd (List.cons.inj h).2 (splitChars_ne_nil ch back)
  · rw [splitChars_of_notMem hmem] at h
    obtain rfl := (List.cons.inj h).1
    exact ⟨rfl, hmem⟩

theorem splitChars_eq_pair_iff : splitChars '@' text = [space, version] ↔
    text = space ++ '@' :: version ∧ '@' ∉ space ∧ '@' ∉ version := by
  constructor
  · intro h
    by_cases hmem : '@' ∈ text
    · obtain ⟨front, back, rfl, hfront⟩ := List.eq_append_cons_of_mem hmem
      rw [splitChars_append, splitChars_of_notMem hfront] at h
      obtain ⟨rfl, hback⟩ := List.cons.inj h
      obtain ⟨rfl, hversion⟩ := notMem_of_splitChars_eq_singleton hback
      exact ⟨rfl, hfront, hversion⟩
    · rw [splitChars_of_notMem hmem] at h
      cases h
  · rintro ⟨rfl, hspace, hversion⟩
    rw [splitChars_append, splitChars_of_notMem hspace, splitChars_of_notMem hversion]
    rfl

theorem splitDefinition?_eq_some_iff {definition space version : String} :
    splitDefinition? definition = some (space, version) ↔
      IsDefinition definition.toList space.toList version.toList := by
  unfold splitDefinition?
  constructor
  · intro h
    split at h
    · next front back hsplit =>
        split at h
        · cases h
        · next hne =>
            obtain ⟨rfl, rfl⟩ := Prod.mk.inj (Option.some.inj h)
            obtain ⟨htext, hspace, hversion⟩ := splitChars_eq_pair_iff.1 hsplit
            simp only [Bool.or_eq_true, List.isEmpty_iff, not_or] at hne
            simp only [String.toList_ofList]
            exact ⟨htext, hne.1, hne.2, hspace, hversion⟩
    · cases h
  · intro h
    rw [splitChars_eq_pair_iff.2 ⟨h.text_eq, h.notMem_space, h.notMem_version⟩]
    dsimp only
    rw [if_neg (by simp [h.space_ne, h.version_ne]), String.ofList_toList, String.ofList_toList]

theorem ofDefinition?_eq_some_iff {tag definition : String} {reference : Reference} :
    Reference.ofDefinition? tag definition = some reference ↔ reference.tag = tag ∧
      IsDefinition definition.toList reference.space.toList reference.version.toList := by
  rw [Reference.ofDefinition?, Option.map_eq_some_iff]
  constructor
  · rintro ⟨⟨space, version⟩, hsplit, rfl⟩
    exact ⟨rfl, splitDefinition?_eq_some_iff.1 hsplit⟩
  · rintro ⟨rfl, hdefinition⟩
    exact ⟨(reference.space, reference.version), splitDefinition?_eq_some_iff.2 hdefinition, rfl⟩

theorem ofDefinition?_eq_none_iff {tag definition : String} :
    Reference.ofDefinition? tag definition = none ↔
      ∀ space version, ¬IsDefinition definition.toList space version := by
  rw [Option.eq_none_iff_forall_ne_some]
  constructor
  · intro h space version hdefinition
    refine h ⟨tag, String.ofList space, String.ofList version⟩ (ofDefinition?_eq_some_iff.2 ⟨rfl, ?_⟩)
    simpa only [String.toList_ofList] using hdefinition
  · intro h reference hreference
    exact h _ _ (ofDefinition?_eq_some_iff.1 hreference).2

/-- A reference writes its definition as it was read. -/
theorem IsDefinition.definition_eq {definition : String} {reference : Reference}
    (h : IsDefinition definition.toList reference.space.toList reference.version.toList) :
    reference.definition = definition := by
  apply String.toList_injective
  rw [h.text_eq, Reference.definition]
  simp

/-! ### The attribute that counts -/

theorem attribute?_eq_some_iff :
    element.attribute? keyword = some attr ↔ IsFirstNamed element.attributes keyword attr := by
  rw [Element.attribute?, List.find?_eq_some_iff_append]
  constructor
  · rintro ⟨hname, front, back, hattributes, hfront⟩
    refine ⟨front, back, hattributes, by simpa using hname, fun other hother => ?_⟩
    simpa using hfront other hother
  · rintro ⟨front, back, hattributes, hname, hfront⟩
    refine ⟨by simpa using hname, front, back, hattributes, fun other hother => ?_⟩
    simpa using hfront other hother

theorem attribute?_eq_none_iff : element.attribute? keyword = none ↔
    ∀ attr ∈ element.attributes, attr.name ≠ keyword := by
  simp [Element.attribute?]

theorem definitionText_eq_ok_iff {value : AttributeValue} {text : String} :
    definitionText (some value) = .ok text ↔ value.Gives text := by
  cases value with
  | literal given =>
      refine ⟨fun h => ?_, fun h => ?_⟩
      · obtain rfl := Except.ok.inj h
        exact .literal given
      · cases h
        rfl
  | expression given =>
      rw [definitionText]
      refine ⟨fun h => ?_, fun h => ?_⟩
      · split at h
        · next hplain =>
            obtain rfl := Except.ok.inj h
            exact .plain (plainString?_eq_some_iff.1 hplain)
        · cases h
      · cases h with
        | plain hplain => rw [plainString?_eq_some_iff.2 hplain]

theorem definitionText_eq_error_iff {value : Option AttributeValue} {shown : String} :
    definitionText value = .error shown ↔
      ∃ expression, value = some (.expression expression) ∧
        (∀ text, ¬IsPlainString expression.toList text) ∧ shown = "\x7b" ++ expression ++ "\x7d" := by
  constructor
  · intro h
    unfold definitionText at h
    split at h
    · cases h
    · cases h
    · next expression =>
        split at h
        · cases h
        · next hnone =>
            obtain rfl := Except.error.inj h
            refine ⟨expression, rfl, fun text hplain => ?_, rfl⟩
            rw [← String.toList_ofList (l := text), ← plainString?_eq_some_iff, hnone] at hplain
            cases hplain
  · rintro ⟨expression, rfl, hno, rfl⟩
    have hnone : plainString? expression = none :=
      Option.eq_none_iff_forall_ne_some.2 fun text hplain =>
        hno text.toList (plainString?_eq_some_iff.1 hplain)
    rw [definitionText, hnone]

/-- A value that is missing gives the empty text, which is no definition. -/
theorem isNoDefinition_empty (space version : List Char) : ¬IsDefinition "".toList space version :=
  fun h => absurd h.text_eq (by simp)

theorem says_reference (element : Element) (keyword : String) :
    element.Says keyword (element.reference keyword) := by
  unfold Element.reference
  cases hattr : element.attribute? keyword with
  | none => exact .missing (attribute?_eq_none_iff.1 hattr)
  | some attr =>
      have hfirst := attribute?_eq_some_iff.1 hattr
      dsimp only
      cases htext : definitionText attr.value with
      | error shown =>
          obtain ⟨expression, hvalue, hno, rfl⟩ := definitionText_eq_error_iff.1 htext
          exact Element.Misdefines.noString hfirst hvalue hno
      | ok text =>
          dsimp only
          cases hreference : Reference.ofDefinition? element.name text with
          | none =>
              have hno := ofDefinition?_eq_none_iff.1 hreference
              cases hvalue : attr.value with
              | none =>
                  rw [hvalue] at htext
                  obtain rfl := Except.ok.inj htext
                  exact Element.Misdefines.noValue hfirst hvalue
              | some value =>
                  rw [hvalue, definitionText_eq_ok_iff] at htext
                  exact Element.Misdefines.noDefinition ⟨attr, value, hfirst, hvalue, htext⟩ hno
          | some reference =>
              obtain ⟨htag, hdefinition⟩ := ofDefinition?_eq_some_iff.1 hreference
              cases hvalue : attr.value with
              | none =>
                  rw [hvalue] at htext
                  obtain rfl := Except.ok.inj htext
                  exact absurd hdefinition (isNoDefinition_empty _ _)
              | some value =>
                  rw [hvalue, definitionText_eq_ok_iff] at htext
                  exact ⟨htag, text, ⟨attr, value, hfirst, hvalue, htext⟩, hdefinition⟩

theorem Element.Defines.reference_eq {text : String} (h : element.Defines keyword text) :
    element.reference keyword =
      match Reference.ofDefinition? element.name text with
      | some reference => .ok reference
      | none => .error { tag := element.name, value := text, problem := .malformed } := by
  obtain ⟨attr, value, hfirst, hvalue, hgives⟩ := h
  cases hread : Reference.ofDefinition? element.name text <;>
    simp only [Element.reference, attribute?_eq_some_iff.2 hfirst, hvalue,
      definitionText_eq_ok_iff.2 hgives, hread]

theorem Element.Misdefines.reference_eq {error : DefinitionError}
    (h : element.Misdefines keyword error) : element.reference keyword = .error error := by
  cases h with
  | missing hnone => rw [Element.reference, attribute?_eq_none_iff.2 hnone]
  | noValue hfirst hvalue =>
      rw [Element.reference, attribute?_eq_some_iff.2 hfirst]
      dsimp only
      rw [hvalue, definitionText]
      dsimp only
      rw [ofDefinition?_eq_none_iff.2 isNoDefinition_empty]
  | noDefinition hdefines hno => rw [hdefines.reference_eq, ofDefinition?_eq_none_iff.2 hno]
  | noString hfirst hvalue hno =>
      rw [Element.reference, attribute?_eq_some_iff.2 hfirst]
      dsimp only
      rw [definitionText_eq_error_iff.2 ⟨_, hvalue, hno, rfl⟩]

theorem reference_eq_iff {result : Except DefinitionError Reference} :
    element.reference keyword = result ↔ element.Says keyword result := by
  refine ⟨fun h => h ▸ says_reference element keyword, fun h => ?_⟩
  cases result with
  | ok reference =>
      obtain ⟨htag, text, hdefines, hdefinition⟩ := h
      rw [hdefines.reference_eq, ofDefinition?_eq_some_iff.2 ⟨htag, hdefinition⟩]
  | error error => exact Element.Misdefines.reference_eq h

/--
**Which definitions are accepted.** An element has a reference just when the first attribute of the
keyword's name gives a text that is a definition, and the reference writes that text again; and it
is told of the others just what `Misdefines` says.
-/
theorem definitions_accepted (element : Element) (keyword : String) :
    (∀ reference, element.reference keyword = .ok reference ↔
      reference.tag = element.name ∧ ∃ text, element.Defines keyword text ∧
        IsDefinition text.toList reference.space.toList reference.version.toList ∧
          reference.definition = text) ∧
      ∀ error, element.reference keyword = .error error ↔ element.Misdefines keyword error := by
  refine ⟨fun reference => reference_eq_iff.trans ?_, fun error => reference_eq_iff⟩
  refine and_congr_right fun _ => exists_congr fun text => and_congr_right fun _ => ?_
  exact ⟨fun h => ⟨h, h.definition_eq⟩, fun h => h.1⟩

end Definitions

end ComponentTags
