import ComponentTags.Plan.Scan
import ComponentTags.Plan.Splice
import ComponentTags.Proofs.Component.ModuleNames
import ComponentTags.Proofs.Element.MarkupTrees
import ComponentTags.Proofs.Plan.Rewording
import ComponentTags.Proofs.Text.Entities

/-!
The tags that configured elements get. A tag takes the identifier that its definition gives or, if
it cannot be used, the name of the fallback and two attributes that tell of the tag; both are such
names and attributes as tags are read with.
-/

namespace ComponentTags

/-- A text that is read as the name of a tag. -/
def IsTagName : List Char → Prop
  | [] => False
  | first :: others =>
      Lexical.isNameStart first = true ∧ ∀ ch ∈ others, Lexical.isNameChar ch = true

instance (text : List Char) : Decidable (IsTagName text) :=
  match text with
  | [] => isFalse id
  | first :: others =>
      decidable_of_iff (Lexical.isNameStart first = true ∧ others.all Lexical.isNameChar = true)
        (and_congr_right fun _ => List.all_eq_true)

def TagName.of : (text : List Char) → IsTagName text → TagName
  | first :: others, h => ⟨first, h.1, ⟨others, h.2⟩⟩

def templateName : TagName :=
  .of "template".toList (by decide)

/-- A naming whose names may be those of tags. -/
structure Naming.NamesTags (naming : Naming) : Prop where
  start_chars : ∀ ch ∈ naming.start.toList, isIdentifierChar ch = true
  start_first : naming.start.toList.head?.any (!·.isDigit) = true

/-! ### Definitions -/

/-- The values of attributes under their names. -/
def Element.values (element : Element) : List (String × Option AttributeValue) :=
  element.attributes.map fun attr => (attr.name, attr.value)

/-- The reference that the attributes of a tag define, or else the raw definition. -/
def definitionOf (tag keyword : String) (values : List (String × Option AttributeValue)) :
    Except String Reference :=
  match values.find? (·.1 == keyword) with
  | none => .error ""
  | some (_, value) =>
      match definitionText value with
      | .error shown => .error shown
      | .ok text => (Reference.ofDefinition? tag text).elim (.error text) .ok

section Names

variable {naming : Naming} {text : List Char} {name : TagName} {ch : Char}

theorem TagName.chars_of (h : IsTagName text) : (TagName.of text h).chars = text := by
  cases text with
  | nil => exact h.elim
  | cons first others => rfl

theorem isNameChar_of_isIdentifierChar (h : isIdentifierChar ch = true) :
    Lexical.isNameChar ch = true := by
  simp only [isIdentifierChar, Char.isAlphanum, Bool.or_eq_true] at h
  rcases h with ((h | h) | h) | h <;> simp [Lexical.isNameChar, Lexical.isNameStart, h]

theorem isNameStart_of_isIdentifierChar (h : isIdentifierChar ch = true) (hdigit : ch.isDigit = false) :
    Lexical.isNameStart ch = true := by
  simp only [isIdentifierChar, Char.isAlphanum, Bool.or_eq_true, hdigit, Bool.false_eq_true,
    or_false] at h
  rcases h with (h | h) | h <;> simp [Lexical.isNameStart, h]

theorem Naming.NamesTags.of (directory : Path) (extension start : String) :
    (Naming.of directory extension start).NamesTags where
  start_chars := (Naming.isProper_of directory .jsx start).start_chars
  start_first := by
    simp only [Naming.of]
    split
    · assumption
    · rw [String.toList_append]
      rfl

namespace Naming.NamesTags

theorem identifier_eq (naming : Naming) (reference : Reference) :
    (naming.identity reference).identifier.toList =
      naming.start.toList ++
        ((identifierText (reference.tag ++ reference.space ++ reference.version)).toList ++
          '_' :: reference.digest.toList) := by
  simp [identity]

theorem isIdentifierChar_identifier (h : naming.NamesTags) (reference : Reference) :
    ∀ ch ∈ (naming.identity reference).identifier.toList, isIdentifierChar ch = true := by
  rw [identifier_eq, List.forall_mem_append, List.forall_mem_append, List.forall_mem_cons]
  refine ⟨h.start_chars, fun ch hch => isIdentifierChar_of_mem_identifierText hch, by decide, ?_⟩
  exact fun ch hch => isIdentifierChar_of_mem_hex hch

theorem isTagName (h : naming.NamesTags) (reference : Reference) :
    IsTagName (naming.identity reference).identifier.toList := by
  have hchars := h.isIdentifierChar_identifier reference
  have hfirst := h.start_first
  rw [identifier_eq] at hchars ⊢
  cases hstart : naming.start.toList with
  | nil =>
      rw [hstart] at hfirst
      cases hfirst
  | cons first others =>
      rw [hstart] at hfirst hchars
      obtain ⟨hch, hothers⟩ := List.forall_mem_cons.1 hchars
      exact ⟨isNameStart_of_isIdentifierChar hch (by simpa using hfirst),
        fun ch hch => isNameChar_of_isIdentifierChar (hothers ch hch)⟩

/-- An identifier is not the name of the tag, all characters of which it keeps. -/
theorem identifier_ne_tag (h : naming.NamesTags) (reference : Reference) :
    (naming.identity reference).identifier.toList ≠ reference.tag.toList := by
  intro heq
  have hchars := h.isIdentifierChar_identifier reference
  have hlength := congrArg List.length (heq.symm.trans (identifier_eq naming reference))
  rw [heq] at hchars
  have hkept : reference.tag.toList.filter isIdentifierChar = reference.tag.toList :=
    List.filter_eq_self.2 hchars
  simp only [identifierText, String.toList_ofList, String.toList_append, List.filter_append, hkept,
    List.length_append, List.length_cons] at hlength
  omega

end Naming.NamesTags

/-- An underscore is in no name of an element without a closing tag, or with raw text. -/
theorem not_special_of_underscore (h : '_' ∈ name.chars) : ¬name.IsVoid ∧ ¬name.IsRaw := by
  have hlower : '_' ∈ (String.ofList name.lowered).toList := by
    rw [String.toList_ofList, TagName.lowered]
    exact List.mem_map.2 ⟨'_', h, rfl⟩
  have hvoid : ∀ special ∈ voidElementNames, '_' ∉ special.toList := by decide
  have hraw : ∀ special ∈ rawTextElementNames, '_' ∉ special.toList := by decide
  exact ⟨fun hmem => hvoid _ hmem hlower, fun hmem => hraw _ hmem hlower⟩

theorem Naming.NamesTags.not_special (h : naming.NamesTags) (reference : Reference) :
    ¬(TagName.of _ (h.isTagName reference)).IsVoid ∧
      ¬(TagName.of _ (h.isTagName reference)).IsRaw := by
  refine not_special_of_underscore ?_
  rw [TagName.chars_of, identifier_eq]
  simp

end Names

/-! ### New tags -/

/-- What an element becomes: its new name, and the tag and the definition that it is to tell of. -/
structure NewTag where
  name : TagName
  notVoid : ¬name.IsVoid
  notRaw : ¬name.IsRaw
  told : Option (String × String)

namespace NewTag

/-- The tag of a component. -/
def component (naming : Naming) (names : naming.NamesTags) (reference : Reference) : NewTag where
  name := .of _ (names.isTagName reference)
  notVoid := (names.not_special reference).1
  notRaw := (names.not_special reference).2
  told := none

/-- The tag of the fallback, for a definition that cannot be used. -/
def fallback (tag value : String) : NewTag where
  name := .of fallbackName.toList (by decide)
  notVoid := by decide
  notRaw := by decide
  told := some (tag, value)

/-- An attribute with a text, in which entities stand for what would end it. -/
def textAttribute (name : AttributeName) (text : String) : PlainAttribute :=
  .quoted name .double ⟨(Entity.attributeText text).toList, Entity.ne_quote_of_mem_attributeText⟩

def tagAttribute : AttributeName :=
  ⟨⟨"tagName".toList, List.all_eq_true.1 rfl⟩, by decide⟩

def definitionAttribute : AttributeName :=
  ⟨⟨"defValue".toList, List.all_eq_true.1 rfl⟩, by decide⟩

/-- The attributes that tell of a tag and its definition. -/
def attributes (new : NewTag) : List PlainAttribute :=
  match new.told with
  | none => []
  | some (tag, value) => [textAttribute tagAttribute tag, textAttribute definitionAttribute value]

def attributesText (new : NewTag) : List Char :=
  match new.told with
  | none => []
  | some (tag, value) => (fallbackAttributes tag value).toList

/-- The splices in the opening tag of an element. -/
def openingSplices (new : NewTag) (element : Element) : List Splice :=
  match new.told with
  | none => [{ span := element.nameSpan, text := new.name.chars }]
  | some _ =>
      [{ span := element.nameSpan, text := new.name.chars },
        { span := ⟨element.attrsEnd, element.attrsEnd⟩, text := new.attributesText }]

def splices (new : NewTag) (element : Element) : List Splice :=
  new.openingSplices element
    ++ element.close.toList.map fun tag => { span := tag.nameSpan, text := new.name.chars }

end NewTag

/-- What planning goes by with the names that are derived in a directory. -/
def Setting.of (registry : TagRegistry) (directory : Path) (extension start : String)
    (fallbackSpecifier : String) : Setting where
  registry := registry
  naming := .of directory extension start
  fallbackSpecifier := fallbackSpecifier

theorem Setting.namesTags_of (registry : TagRegistry) (directory : Path)
    (extension start fallbackSpecifier : String) :
    (Setting.of registry directory extension start fallbackSpecifier).naming.NamesTags :=
  .of directory extension start

/-- What an element with that name and those attributes becomes, if its tag is configured. -/
def Setting.newTag? (setting : Setting) (names : setting.naming.NamesTags) (name : TagName)
    (values : List (String × Option AttributeValue)) : Option NewTag :=
  (setting.registry.find? (String.ofList name.chars)).map fun rule =>
    match definitionOf (String.ofList name.chars) rule.keyword values with
    | .ok reference => .component setting.naming names reference
    | .error value => .fallback (String.ofList name.chars) value

/-- The splices that are staged for an element. -/
def Setting.splicesOf (setting : Setting) (element : Element) : List Splice :=
  (Sighting.of? setting.registry element).toList.flatMap fun sighting =>
    (sighting.edit setting.naming).splices

/-- The new tags of elements, by their names and the values of their attributes. -/
abbrev Renaming :=
  TagName → List (String × Option AttributeValue) → Option NewTag

/-- Imports on lines of their own. -/
def importLines (imports : List Import) : List Char :=
  (joinTexts "\n" (imports.map Import.text)).toList

/-- The references that elements define, in the order of their first use, and nothing for the fallback. -/
def Setting.usedBy (setting : Setting) (elements : List Element) : List (Option Reference) :=
  ((elements.filterMap (Sighting.of? setting.registry)).map Sighting.reference?).eraseDups

/-- The imports that elements need: one for each component, and one for the fallback. -/
def Setting.importsOf (setting : Setting) (elements : List Element) : List Import :=
  (setting.usedBy elements).map setting.importOf

section Tags

variable {setting : Setting} {element : Element} {keyword : String} {name : TagName} {new : NewTag}
  {site : ImportSite} {elements : List Element}

theorem definitionOf_values (element : Element) (keyword : String) :
    definitionOf element.name keyword element.values =
      (element.reference keyword).mapError DefinitionError.value := by
  unfold definitionOf Element.values Element.reference Element.attribute?
  rw [List.find?_map]
  cases hfound : element.attributes.find? fun attr => attr.name == keyword with
  | none =>
      have hnone : element.attributes.find? ((fun value => value.1 == keyword) ∘
          fun attr => (attr.name, attr.value)) = none := hfound
      rw [hnone]
      rfl
  | some attr =>
      have hsome : element.attributes.find? ((fun value => value.1 == keyword) ∘
          fun attr => (attr.name, attr.value)) = some attr := hfound
      rw [hsome]
      simp only [Option.map_some]
      cases definitionText attr.value with
      | error shown => rfl
      | ok text =>
          dsimp only
          cases Reference.ofDefinition? element.name text <;> rfl

theorem tag_of_reference {error : DefinitionError} (h : element.reference keyword = .error error) :
    error.tag = element.name := by
  unfold Element.reference at h
  split at h
  · cases h
    rfl
  · split at h
    · cases h
      rfl
    · split at h
      · cases h
      · cases h
        rfl

theorem NewTag.chars_component {naming : Naming} (names : naming.NamesTags) (reference : Reference) :
    (NewTag.component naming names reference).name.chars =
      (naming.identity reference).identifier.toList := by
  rw [NewTag.component, TagName.chars_of]

theorem NewTag.chars_fallback (tag value : String) :
    (NewTag.fallback tag value).name.chars = fallbackName.toList := by
  rw [NewTag.fallback, TagName.chars_of]

theorem chars_textAttribute (name : AttributeName) (text : String) :
    (NewTag.textAttribute name text).chars =
      name.chars ++ '=' :: '"' :: ((Entity.attributeText text).toList ++ ['"']) := by
  simp only [NewTag.textAttribute, PlainAttribute.chars, PlainAttribute.name,
    PlainAttribute.valueChars, Quote.around, Quote.char]

theorem attributes_chars (new : NewTag) :
    new.attributes.flatMap (fun attr => ' ' :: attr.chars) = new.attributesText := by
  have htag : NewTag.tagAttribute.chars = "tagName".toList := rfl
  have hdefinition : NewTag.definitionAttribute.chars = "defValue".toList := rfl
  unfold NewTag.attributes NewTag.attributesText
  cases new.told with
  | none => rfl
  | some told =>
      simp only [List.flatMap_cons, List.flatMap_nil, chars_textAttribute, htag, hdefinition,
        fallbackAttributes, String.toList_append]
      simp

/-- **The splices of an element are those of the tag that it gets.** -/
theorem splicesOf_eq (names : setting.naming.NamesTags)
    (hname : element.name = String.ofList name.chars) :
    setting.splicesOf element =
      (setting.newTag? names name element.values).toList.flatMap (·.splices element) := by
  have hclose : ∀ text : List Char,
      ((element.close.map ClosingTag.nameSpan).toList.map fun span => ({ span, text } : Splice)) =
        element.close.toList.map fun tag => { span := tag.nameSpan, text } := by
    intro text
    cases element.close <;> rfl
  unfold Setting.splicesOf Setting.newTag? Sighting.of?
  rw [← hname]
  cases setting.registry.find? element.name with
  | none => rfl
  | some rule =>
      simp only [Option.map_some, Option.toList_some, List.flatMap_singleton]
      rw [definitionOf_values, Sighting.edit, Edit.splices]
      cases hreference : element.reference rule.keyword with
      | ok reference =>
          simp [Except.mapError, NewTag.splices, NewTag.openingSplices, NewTag.component,
            TagName.chars_of, hclose]
      | error error =>
          simp [Except.mapError, NewTag.splices, NewTag.openingSplices, NewTag.fallback,
            NewTag.attributesText, TagName.chars_of, tag_of_reference hreference, hclose]

theorem splices_plan (setting : Setting) (site : ImportSite) (elements : List Element) :
    (setting.plan site elements).1.plan.edits.flatMap Edit.splices =
      elements.flatMap setting.splicesOf := by
  simp only [Setting.plan]
  induction elements with
  | nil => rfl
  | cons element elements ih =>
      rw [List.flatMap_cons, ← ih]
      cases hsighting : Sighting.of? setting.registry element with
      | none => simp [List.filterMap_cons_none hsighting, Setting.splicesOf, hsighting]
      | some sighting => simp [List.filterMap_cons_some hsighting, Setting.splicesOf, hsighting]

theorem imports_plan (setting : Setting) (site : ImportSite) (elements : List Element) :
    (setting.plan site elements).1.plan.imports = setting.importsOf elements :=
  rfl

/-- Imports are needed for elements with splices only. -/
theorem importsOf_eq_nil (h : elements.flatMap setting.splicesOf = []) :
    setting.importsOf elements = [] := by
  have hsightings : elements.filterMap (Sighting.of? setting.registry) = [] := by
    refine List.filterMap_eq_nil_iff.2 fun element helement => ?_
    have hnone := List.flatMap_eq_nil_iff.1 h element helement
    cases hsighting : Sighting.of? setting.registry element with
    | none => rfl
    | some sighting =>
        rw [Setting.splicesOf, hsighting, Option.toList_some, List.flatMap_singleton] at hnone
        unfold Edit.splices at hnone
        cases hchange : (sighting.edit setting.naming).change <;> simp [hchange] at hnone
  rw [Setting.importsOf, Setting.usedBy, hsightings]
  rfl

theorem nodup_eraseDups {α : Type} [BEq α] [LawfulBEq α] (items : List α) :
    items.eraseDups.Nodup := by
  match items with
  | [] => exact List.nodup_nil
  | item :: items =>
      rw [List.eraseDups_cons, List.nodup_cons]
      exact ⟨by simp [List.mem_eraseDups], nodup_eraseDups _⟩
termination_by items.length
decreasing_by exact Nat.lt_succ_of_le (List.length_filter_le _ _)

/-- What is used once at least is what configured elements define. -/
theorem mem_usedBy_iff {reference? : Option Reference} : reference? ∈ setting.usedBy elements ↔
    ∃ element ∈ elements, ∃ rule, setting.registry.find? element.name = some rule ∧
      (definitionOf element.name rule.keyword element.values).toOption = reference? := by
  have hdefinition : ∀ (element : Element) keyword,
      (definitionOf element.name keyword element.values).toOption =
        (element.reference keyword).toOption := by
    intro element keyword
    rw [definitionOf_values]
    cases element.reference keyword <;> rfl
  simp only [Setting.usedBy, List.mem_eraseDups, List.mem_map, List.mem_filterMap, Sighting.of?,
    Option.map_eq_some_iff, Sighting.reference?, hdefinition]
  constructor
  · rintro ⟨_, ⟨element, helement, rule, hrule, rfl⟩, rfl⟩
    exact ⟨element, helement, rule, hrule, rfl⟩
  · rintro ⟨element, helement, rule, hrule, rfl⟩
    exact ⟨_, ⟨element, helement, rule, hrule, rfl⟩, rfl⟩

/-! ### Tags in another form -/

/-- The name of a tag, changed or not. -/
def TagName.changed (name : TagName) (new? : Option NewTag) : TagName :=
  new?.elim name NewTag.name

/-- The attributes that a tag gets, of which there are none unless it is the fallback's. -/
def toldAttributes (new? : Option NewTag) : List PlainAttribute :=
  new?.elim [] NewTag.attributes

def toldChars (new? : Option NewTag) : List Char :=
  (toldAttributes new?).flatMap fun attr => ' ' :: attr.chars

variable {new? : Option NewTag} {start depth : Nat} {attributes : List Attribute}
  {attributeChars attributeChars' contentChars contentChars' : List Char} {selfClosing : Bool}
  {close : Option ClosingTag} {inner content : List Splice}

/-- An opening tag from behind its `<` on. -/
theorem rewords_opening (new? : Option NewTag) (name : TagName) (attributes : List Attribute)
    (selfClosing : Bool) (depth start : Nat) (close : Option ClosingTag)
    (hinner : Rewords (start + 1 + utf8Length name.chars) inner attributeChars attributeChars') :
    Rewords (start + 1)
      (new?.toList.flatMap (·.openingSplices
        (name.placed attributeChars attributes selfClosing depth start close)) ++ inner)
      (name.chars ++ (attributeChars ++ tagEnd selfClosing))
      ((name.changed new?).chars ++
        (attributeChars' ++ toldChars new? ++ tagEnd selfClosing)) := by
  cases new? with
  | none =>
      have hkept := (hinner.followed (tagEnd selfClosing)).behind _ name.chars
      simpa [TagName.changed, toldChars, toldAttributes] using hkept
  | some new =>
      have hname : Rewords (start + 1)
          [{ span := ⟨start + 1, start + 1 + utf8Length name.chars⟩, text := new.name.chars }]
          name.chars new.name.chars := .replace _ (List.cons_ne_nil _ _) _
      have htold : toldChars (some new) = new.attributesText := attributes_chars new
      rw [htold]
      cases hnew : new.told with
      | none =>
          have hall := hname.append (hinner.followed (tagEnd selfClosing))
          simpa [NewTag.openingSplices, NewTag.attributesText, hnew, TagName.changed, TagName.placed]
            using hall
      | some told =>
          have hend : tagEnd selfClosing ≠ [] := by cases selfClosing <;> decide
          have hinsert := Rewords.insert new.attributesText (.keep
            (start + 1 + utf8Length name.chars + utf8Length attributeChars) _) hend (by simp)
          have hall := (hname.append (hinner.append hinsert)).perm
            (.append_left _ (List.perm_append_comm))
          simpa [NewTag.openingSplices, hnew, TagName.changed, TagName.placed, utf8Length_append,
            Nat.add_assoc] using hall

theorem rewords_closing (new? : Option NewTag) (name : TagName) (start : Nat) :
    Rewords start
      (new?.toList.map fun new => { span := (name.placedClosing start).nameSpan, text := new.name.chars })
      name.closingChars (name.changed new?).closingChars := by
  cases new? with
  | none => exact .keep start _
  | some new =>
      have hname : Rewords (start + 2)
          [{ span := ⟨start + 2, start + 2 + utf8Length name.chars⟩, text := new.name.chars }]
          name.chars new.name.chars := .replace _ (List.cons_ne_nil _ _) _
      exact (hname.followed ['>']).behind start ['<', '/']

/-- An element without a closing tag, from behind its `<` on. -/
theorem rewords_single (new? : Option NewTag) (name : TagName) (attributes : List Attribute)
    (selfClosing : Bool) (depth start : Nat)
    (hinner : Rewords (start + 1 + utf8Length name.chars) inner attributeChars attributeChars') :
    Rewords (start + 1)
      (new?.toList.flatMap (·.splices
        (name.placed attributeChars attributes selfClosing depth start none)) ++ inner)
      (name.chars ++ (attributeChars ++ tagEnd selfClosing))
      ((name.changed new?).chars ++
        (attributeChars' ++ toldChars new? ++ tagEnd selfClosing)) := by
  have hopening := rewords_opening new? name attributes selfClosing depth start none hinner
  simpa [NewTag.splices, TagName.placed] using hopening

/-- An element whose two tags get the same new name, from behind its `<` on. -/
theorem rewords_pair (new? : Option NewTag) (name : TagName) (attributes : List Attribute)
    (depth start : Nat)
    (hinner : Rewords (start + 1 + utf8Length name.chars) inner attributeChars attributeChars')
    (hcontent : Rewords
      (start + 1 + utf8Length (name.chars ++ (attributeChars ++ tagEnd false))) content
      contentChars contentChars') :
    Rewords (start + 1)
      (new?.toList.flatMap (·.splices (name.placed attributeChars attributes false depth start
        (some (name.placedClosing (start + 1
          + utf8Length (name.chars ++ (attributeChars ++ tagEnd false))
          + utf8Length contentChars))))) ++ (inner ++ content))
      (name.chars ++ (attributeChars ++ tagEnd false) ++ (contentChars ++ name.closingChars))
      ((name.changed new?).chars ++ (attributeChars' ++ toldChars new? ++ tagEnd false)
        ++ (contentChars' ++ (name.changed new?).closingChars)) := by
  let closing := name.placedClosing
    (start + 1 + utf8Length (name.chars ++ (attributeChars ++ tagEnd false))
      + utf8Length contentChars)
  have hopening := rewords_opening new? name attributes false depth start (some closing) hinner
  have hclosing := hcontent.append (rewords_closing new? name _)
  refine (hopening.append hclosing).perm ?_
  cases new? with
  | none => simp
  | some new =>
      simp only [Option.toList_some, List.flatMap_singleton, List.map_singleton, NewTag.splices,
        List.append_assoc]
      refine .append_left _ ?_
      rw [← List.append_assoc]
      exact List.perm_append_comm

end Tags

end ComponentTags
