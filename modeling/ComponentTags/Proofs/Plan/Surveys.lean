import ComponentTags.Plan.Scan
import ComponentTags.Proofs.Plan.Definitions
import Mathlib.Data.List.Induction
import Mathlib.Data.List.Nodup

/-!
What a plan is made of. A source can be planned in one pass over its elements that remembers which
references it has met. The plan has one edit for each configured element, and one import for each
thing that the edits name; all of it in the order in which it is first met.
-/

namespace ComponentTags

/-- The members of a list without their repetitions, in the order in which each is first met. -/
structure AreFirsts {α : Type} [BEq α] (all firsts : List α) : Prop where
  mem_iff : ∀ a, a ∈ firsts ↔ a ∈ all
  nodup : firsts.Nodup
  inOrder : firsts.Pairwise fun a b => all.idxOf a < all.idxOf b

namespace Setting

def configures (setting : Setting) (element : Element) : Bool :=
  (setting.registry.find? element.name).isSome

/-- What the definition of a configured element says; an element that is not has none. -/
def definition? (setting : Setting) (element : Element) :
    Option (Except DefinitionError Reference) :=
  (setting.registry.find? element.name).map fun rule => element.reference rule.keyword

/-- The references of elements with a usable definition. -/
def referencesIn (setting : Setting) (elements : List Element) : List Reference :=
  elements.filterMap fun element => (setting.definition? element).bind Except.toOption

/-- What the configured elements are to show: a component, or the fallback. -/
def usesIn (setting : Setting) (elements : List Element) : List (Option Reference) :=
  elements.filterMap fun element => (setting.definition? element).map Except.toOption

/-- The edit of an element: it is for the element's own names and tells what its definition says. -/
structure IsEdit (setting : Setting) (element : Element) (edit : Edit) : Prop where
  nameSpan : edit.nameSpan = element.nameSpan
  closeNameSpan : edit.closeNameSpan = element.close.map (·.nameSpan)
  change : match setting.definition? element with
    | some (.ok reference) =>
        edit.change = .rename (setting.naming.identity reference).identifier
    | some (.error error) =>
        edit.change = .fallback element.attrsEnd element.name error.value
    | none => False

end Setting

/-- The tag and the definition that a change to the fallback tells of. -/
def Change.told? : Change → Option (String × String)
  | .rename _ => none
  | .fallback _ tag value => some (tag, value)

/--
What planning promises: an edit for each configured element and no other, each reference once, and
an import for each reference and, if some definition cannot be used, one for the fallback.
-/
structure Setting.Plans (setting : Setting) (elements : List Element) (findings : Findings) :
    Prop where
  edits : List.Forall₂ setting.IsEdit (elements.filter setting.configures) findings.plan.edits
  references : AreFirsts (setting.referencesIn elements)
    (findings.references.map NamedReference.reference)
  identities : ∀ named ∈ findings.references,
    named.identity = setting.naming.identity named.reference
  imports : ∃ uses, AreFirsts (setting.usesIn elements) uses ∧
    findings.plan.imports = uses.map setting.importOf ∧
      uses.filterMap id = findings.references.map NamedReference.reference ∧
        (none ∈ uses ↔ ∃ edit ∈ findings.plan.edits, edit.change.told?.isSome = true)
  errors : findings.errors.map (fun error => (error.tag, error.value)) =
    findings.plan.edits.filterMap (·.change.told?)
  matched : findings.matched = false ↔ findings.plan.isEmpty = true

/-! ### One pass -/

/-- What a pass over the elements has noted so far. -/
structure Survey where
  identifiers : List (Reference × String)
  references : List NamedReference
  errors : List DefinitionError
  imports : List Import
  edits : List Edit
  importsFallback : Bool

namespace Survey

def blank : Survey :=
  { identifiers := [], references := [], errors := [], imports := [], edits := []
    importsFallback := false }

/-- The identifier of a reference, which is named and imported when it is met first. -/
def identify (survey : Survey) (reference : Reference) (identity : Identity) : Survey × String :=
  match survey.identifiers.lookup reference with
  | some identifier => (survey, identifier)
  | none =>
      ({ survey with
          identifiers := (reference, identity.identifier) :: survey.identifiers
          references := survey.references ++ [{ reference, identity }]
          imports := survey.imports ++
            [{ name := identity.identifier, specifier := identity.specifier }] },
        identity.identifier)

/-- The fallback is imported when the first definition is met that cannot be used. -/
def importFallback (setting : Setting) (survey : Survey) : Survey :=
  if survey.importsFallback then survey
  else
    { survey with
      importsFallback := true
      imports := survey.imports ++
        [{ name := fallbackName, specifier := setting.fallbackSpecifier }] }

def addEdit (survey : Survey) (element : Element) (change : Change) : Survey :=
  { survey with
    edits := survey.edits ++
      [{ nameSpan := element.nameSpan
         closeNameSpan := element.close.map (·.nameSpan)
         change }] }

/-- One more component. -/
def addComponent (survey : Survey) (element : Element) (reference : Reference)
    (identity : Identity) : Survey :=
  let (survey, identifier) := survey.identify reference identity
  survey.addEdit element (.rename identifier)

/-- One more definition that cannot be used. -/
def addError (setting : Setting) (survey : Survey) (element : Element) (error : DefinitionError) :
    Survey :=
  let survey := survey.importFallback setting
  let survey := survey.addEdit element (.fallback element.attrsEnd error.tag error.value)
  { survey with errors := survey.errors ++ [error] }

/-- One more element. -/
def note (setting : Setting) (survey : Survey) (element : Element) : Survey :=
  match setting.definition? element with
  | none => survey
  | some (.ok reference) =>
      survey.addComponent element reference (setting.naming.identity reference)
  | some (.error error) => survey.addError setting element error

def findings (survey : Survey) (site : ImportSite) : Findings :=
  { references := survey.references
    errors := survey.errors
    plan := { imports := survey.imports, edits := survey.edits, site } }

end Survey

/-- The findings of elements, noted in one pass. -/
def Setting.surveyed (setting : Setting) (site : ImportSite) (elements : List Element) : Findings :=
  (elements.foldl (Survey.note setting) .blank).findings site

section Firsts

variable {α : Type} [BEq α] [LawfulBEq α] {all firsts : List α} {a : α}

theorem eraseDups_concat (all : List α) (a : α) :
    (all ++ [a]).eraseDups = if a ∈ all then all.eraseDups else all.eraseDups ++ [a] := by
  rw [List.eraseDups_append]
  split
  · next hmem => simp [List.removeAll, hmem]
  · next hmem => simp [List.removeAll, hmem, List.eraseDups_cons]

theorem areFirsts_concat (h : AreFirsts all firsts) (hnew : a ∉ all) :
    AreFirsts (all ++ [a]) (firsts ++ [a]) where
  mem_iff b := by rw [List.mem_append, List.mem_append, h.mem_iff]
  nodup := by
    refine List.nodup_append.2 ⟨h.nodup, List.nodup_singleton a, ?_⟩
    rintro b hb _ hmem rfl
    obtain rfl := List.mem_singleton.1 hmem
    exact hnew ((h.mem_iff b).1 hb)
  inOrder := by
    have hkept : ∀ b ∈ firsts, (all ++ [a]).idxOf b = all.idxOf b := fun b hb =>
      List.idxOf_append_of_mem ((h.mem_iff b).1 hb)
    refine List.pairwise_append.2 ⟨h.inOrder.imp_of_mem ?_, List.pairwise_singleton _ a, ?_⟩
    · intro b c hb hc hlt
      rwa [hkept b hb, hkept c hc]
    · intro b hb c hc
      obtain rfl := List.mem_singleton.1 hc
      rw [hkept b hb, List.idxOf_append_of_notMem hnew]
      exact Nat.lt_of_lt_of_le (List.idxOf_lt_length_iff.2 ((h.mem_iff b).1 hb)) (Nat.le_add_right _ _)

theorem areFirsts_repeated (h : AreFirsts all firsts) (hmem : a ∈ all) :
    AreFirsts (all ++ [a]) firsts where
  mem_iff b := by
    rw [List.mem_append, List.mem_singleton, h.mem_iff]
    exact ⟨.inl, fun hb => hb.elim id fun heq => heq ▸ hmem⟩
  nodup := h.nodup
  inOrder := by
    refine h.inOrder.imp_of_mem fun {b c} hb hc hlt => ?_
    rwa [List.idxOf_append_of_mem ((h.mem_iff b).1 hb), List.idxOf_append_of_mem ((h.mem_iff c).1 hc)]

theorem areFirsts_eraseDups (all : List α) : AreFirsts all all.eraseDups := by
  induction all using List.reverseRecOn with
  | nil => exact ⟨fun a => Iff.rfl, .nil, .nil⟩
  | append_singleton all a ih =>
      rw [eraseDups_concat]
      split
      · next hmem => exact areFirsts_repeated ih hmem
      · next hnew => exact areFirsts_concat ih hnew

end Firsts

/-! ### What a pass keeps -/

namespace Setting

/-- The change that a definition asks for. -/
def changeOf (setting : Setting) (element : Element) : Except DefinitionError Reference → Change
  | .ok reference => .rename (setting.naming.identity reference).identifier
  | .error error => .fallback element.attrsEnd error.tag error.value

def edit? (setting : Setting) (element : Element) : Option Edit :=
  (setting.definition? element).map fun definition =>
    { nameSpan := element.nameSpan
      closeNameSpan := element.close.map (·.nameSpan)
      change := setting.changeOf element definition }

def error? (setting : Setting) (element : Element) : Option DefinitionError :=
  (setting.definition? element).bind fun definition =>
    match definition with
    | .ok _ => none
    | .error error => some error

def named? (setting : Setting) (use : Option Reference) : Option NamedReference :=
  use.map fun reference => { reference, identity := setting.naming.identity reference }

end Setting

/-- A survey that has met just those uses, the repeated ones included. -/
structure Survey.HasMet (survey : Survey) (setting : Setting) (uses : List (Option Reference)) :
    Prop where
  identifiers : ∀ reference, survey.identifiers.lookup reference =
    if some reference ∈ uses then some (setting.naming.identity reference).identifier else none
  importsFallback : survey.importsFallback = true ↔ none ∈ uses
  references : survey.references = uses.eraseDups.filterMap setting.named?
  imports : survey.imports = uses.eraseDups.map setting.importOf

/-- A survey of those elements. -/
structure Survey.IsOf (survey : Survey) (setting : Setting) (elements : List Element) : Prop where
  hasMet : survey.HasMet setting (setting.usesIn elements)
  errors : survey.errors = elements.filterMap setting.error?
  edits : survey.edits = elements.filterMap setting.edit?

section Surveys

variable {setting : Setting} {survey : Survey} {uses : List (Option Reference)}
  {use : Option Reference} {elements : List Element} {element : Element} {reference : Reference}
  {error : DefinitionError}

theorem filterMap_concat {α β : Type} (f : α → Option β) (items : List α) (item : α) :
    (items ++ [item]).filterMap f = items.filterMap f ++ (f item).toList := by
  rw [List.filterMap_append, List.filterMap_cons, List.filterMap_nil]
  cases f item <;> rfl

namespace Survey.HasMet

/-- What was met before is not met anew. -/
theorem again (h : survey.HasMet setting uses) (hmem : use ∈ uses) :
    survey.HasMet setting (uses ++ [use]) := by
  have hsame : ∀ other, other ∈ uses ++ [use] ↔ other ∈ uses := by
    intro other
    rw [List.mem_append, List.mem_singleton]
    exact ⟨fun hor => hor.elim id fun heq => heq ▸ hmem, .inl⟩
  have hfirsts : (uses ++ [use]).eraseDups = uses.eraseDups := by
    rw [eraseDups_concat, if_pos hmem]
  constructor
  · intro reference
    exact (h.identifiers reference).trans (if_congr (hsame _).symm rfl rfl)
  · exact h.importsFallback.trans (hsame none).symm
  · rw [hfirsts]
    exact h.references
  · rw [hfirsts]
    exact h.imports

theorem identify (h : survey.HasMet setting uses) (reference : Reference) :
    (survey.identify reference (setting.naming.identity reference)).1.HasMet setting
        (uses ++ [some reference]) ∧
      (survey.identify reference (setting.naming.identity reference)).2 =
        (setting.naming.identity reference).identifier := by
  rw [Survey.identify, h.identifiers]
  by_cases hmem : some reference ∈ uses
  · rw [if_pos hmem]
    exact ⟨h.again hmem, rfl⟩
  · rw [if_neg hmem]
    refine ⟨?_, rfl⟩
    have hfirsts : (uses ++ [some reference]).eraseDups = uses.eraseDups ++ [some reference] := by
      rw [eraseDups_concat, if_neg hmem]
    constructor
    · intro other
      rw [List.lookup_cons, h.identifiers]
      by_cases hsame : other = reference
      · simp [hsame]
      · simp [hsame, beq_false_of_ne hsame]
    · simpa using h.importsFallback
    · rw [hfirsts, List.filterMap_append, h.references]
      rfl
    · rw [hfirsts, List.map_append, h.imports]
      rfl

theorem importFallback (h : survey.HasMet setting uses) :
    (survey.importFallback setting).HasMet setting (uses ++ [none]) := by
  rw [Survey.importFallback]
  split
  · next hmet => exact h.again (h.importsFallback.1 hmet)
  · next hnew =>
      have hfirsts : (uses ++ [none]).eraseDups = uses.eraseDups ++ [none] := by
        rw [eraseDups_concat, if_neg (mt h.importsFallback.2 hnew)]
      constructor
      · intro reference
        simpa using h.identifiers reference
      · simp
      · rw [hfirsts, List.filterMap_append, h.references]
        simp [Setting.named?]
      · rw [hfirsts, List.map_append, h.imports]
        rfl

end Survey.HasMet

theorem Survey.identify_keeps (survey : Survey) (reference : Reference) (identity : Identity) :
    (survey.identify reference identity).1.edits = survey.edits ∧
      (survey.identify reference identity).1.errors = survey.errors := by
  unfold Survey.identify
  split <;> exact ⟨rfl, rfl⟩

theorem Survey.importFallback_keeps (setting : Setting) (survey : Survey) :
    (survey.importFallback setting).edits = survey.edits ∧
      (survey.importFallback setting).errors = survey.errors := by
  unfold Survey.importFallback
  split <;> exact ⟨rfl, rfl⟩

/-- **One more element.** The survey goes on to be one of all elements so far. -/
theorem Survey.IsOf.note (h : survey.IsOf setting elements) (element : Element) :
    (survey.note setting element).IsOf setting (elements ++ [element]) := by
  have huses : setting.usesIn (elements ++ [element]) = setting.usesIn elements ++
      ((setting.definition? element).map Except.toOption).toList := filterMap_concat _ _ _
  have herrors : (elements ++ [element]).filterMap setting.error? =
      survey.errors ++ (setting.error? element).toList := by
    rw [filterMap_concat, h.errors]
  have hedits : (elements ++ [element]).filterMap setting.edit? =
      survey.edits ++ (setting.edit? element).toList := by
    rw [filterMap_concat, h.edits]
  rw [Survey.note]
  cases hdefinition : setting.definition? element with
  | none =>
      rw [Setting.error?, hdefinition] at herrors
      rw [Setting.edit?, hdefinition] at hedits
      rw [hdefinition] at huses
      refine ⟨?_, ?_, ?_⟩
      · rw [huses]
        simpa using h.hasMet
      · simpa using herrors.symm
      · simpa using hedits.symm
  | some definition =>
      rw [Setting.error?, hdefinition] at herrors
      rw [Setting.edit?, hdefinition] at hedits
      rw [hdefinition] at huses
      cases definition with
      | ok reference =>
          obtain ⟨hmet, hidentifier⟩ := h.hasMet.identify reference
          obtain ⟨hkept, hkept'⟩ :=
            survey.identify_keeps reference (setting.naming.identity reference)
          refine ⟨?_, ?_, ?_⟩
          · rw [huses]
            exact { hmet with }
          · dsimp only [Survey.addComponent, Survey.addEdit]
            rw [herrors, hkept']
            simp
          · dsimp only [Survey.addComponent, Survey.addEdit]
            rw [hedits, hkept, hidentifier]
            rfl
      | error error =>
          have hmet := h.hasMet.importFallback
          obtain ⟨hkept, hkept'⟩ := survey.importFallback_keeps setting
          refine ⟨?_, ?_, ?_⟩
          · rw [huses]
            exact { hmet with }
          · dsimp only [Survey.addError, Survey.addEdit]
            rw [herrors, hkept']
            rfl
          · dsimp only [Survey.addError, Survey.addEdit]
            rw [hedits, hkept]
            rfl

theorem Survey.isOf_blank (setting : Setting) : Survey.blank.IsOf setting [] where
  hasMet :=
    { identifiers := fun _ => rfl
      importsFallback := ⟨nofun, nofun⟩
      references := rfl
      imports := rfl }
  errors := rfl
  edits := rfl

/-- The whole pass. -/
theorem isOf_foldl (setting : Setting) (elements : List Element) :
    (elements.foldl (Survey.note setting) .blank).IsOf setting elements := by
  induction elements using List.reverseRecOn with
  | nil => exact Survey.isOf_blank setting
  | append_singleton elements element ih =>
      rw [List.foldl_concat]
      exact ih.note element

/-! ### The plan -/

theorem plan_eq (setting : Setting) (site : ImportSite) (elements : List Element) :
    (setting.plan site elements).1 =
      { references := (setting.usesIn elements).eraseDups.filterMap setting.named?
        errors := elements.filterMap setting.error?
        plan :=
          { imports := (setting.usesIn elements).eraseDups.map setting.importOf
            edits := elements.filterMap setting.edit?
            site } } := by
  have huses : (elements.filterMap (Sighting.of? setting.registry)).map Sighting.reference? =
      setting.usesIn elements := by
    rw [List.map_filterMap]
    refine List.filterMap_congr fun element _ => ?_
    rw [Setting.definition?, Sighting.of?, Option.map_map, Option.map_map]
    rfl
  have herrors : (elements.filterMap (Sighting.of? setting.registry)).filterMap Sighting.error? =
      elements.filterMap setting.error? := by
    rw [List.filterMap_filterMap]
    refine List.filterMap_congr fun element _ => ?_
    rw [Setting.error?, Setting.definition?, Sighting.of?]
    cases setting.registry.find? element.name <;> rfl
  have hedits : (elements.filterMap (Sighting.of? setting.registry)).map
      (Sighting.edit setting.naming) = elements.filterMap setting.edit? := by
    rw [List.map_filterMap]
    refine List.filterMap_congr fun element _ => ?_
    rw [Setting.edit?, Setting.definition?, Sighting.of?, Option.map_map, Option.map_map]
    refine Option.map_congr fun rule _ => ?_
    cases hreference : element.reference rule.keyword <;>
      simp [Sighting.edit, Setting.changeOf, hreference]
  rw [Setting.plan, huses, herrors, hedits]
  rfl

/-- One pass finds what the plan says. -/
theorem surveyed_eq (setting : Setting) (site : ImportSite) (elements : List Element) :
    setting.surveyed site elements = (setting.plan site elements).1 := by
  have h := isOf_foldl setting elements
  rw [plan_eq, Setting.surveyed, Survey.findings, h.hasMet.references, h.errors, h.hasMet.imports,
    h.edits]

theorem forall₂_filterMap {α β : Type} {relates : α → β → Prop} {keeps : α → Bool} {f : α → Option β}
    (hkeeps : ∀ a, keeps a = (f a).isSome) (h : ∀ a b, f a = some b → relates a b) (items : List α) :
    List.Forall₂ relates (items.filter keeps) (items.filterMap f) := by
  induction items with
  | nil => exact .nil
  | cons item items ih =>
      rw [List.filter_cons, List.filterMap_cons, hkeeps]
      cases hitem : f item with
      | none => exact ih
      | some b => exact .cons (h item b hitem) ih

theorem eraseDups_filterMap_id {α : Type} [BEq α] [LawfulBEq α] (items : List (Option α)) :
    items.eraseDups.filterMap id = (items.filterMap id).eraseDups := by
  induction items using List.reverseRecOn with
  | nil => rfl
  | append_singleton items item ih =>
      rw [eraseDups_concat, filterMap_concat]
      cases item with
      | none =>
          rw [← List.append_nil (List.filterMap id items)] at ih
          split
          · exact ih
          · rw [List.filterMap_append]
            simpa using ih
      | some a =>
          have hmem : some a ∈ items ↔ a ∈ items.filterMap id := by simp
          change _ = (items.filterMap id ++ [a]).eraseDups
          rw [eraseDups_concat, ← ih, if_congr hmem rfl rfl]
          split
          · rfl
          · rw [List.filterMap_append]
            rfl

theorem tag_of_misdefines {keyword : String} (h : element.Misdefines keyword error) :
    error.tag = element.name := by
  cases h <;> rfl

theorem isEdit_of_edit? {edit : Edit} (h : setting.edit? element = some edit) :
    setting.IsEdit element edit := by
  obtain ⟨definition, hdefinition, rfl⟩ := Option.map_eq_some_iff.1 h
  refine ⟨rfl, rfl, ?_⟩
  rw [hdefinition]
  cases definition with
  | ok reference => rfl
  | error error =>
      obtain ⟨rule, -, hreference⟩ := Option.map_eq_some_iff.1 hdefinition
      rw [reference_eq_iff] at hreference
      rw [Setting.changeOf, tag_of_misdefines hreference]

theorem told_edits (setting : Setting) (elements : List Element) :
    (elements.filterMap setting.error?).map (fun error => (error.tag, error.value)) =
      (elements.filterMap setting.edit?).filterMap (·.change.told?) := by
  rw [List.map_filterMap, List.filterMap_filterMap]
  refine List.filterMap_congr fun element _ => ?_
  rw [Setting.error?, Setting.edit?]
  rcases setting.definition? element with _ | ⟨_ | _⟩ <;> rfl

theorem none_mem_usesIn_iff (setting : Setting) (elements : List Element) :
    none ∈ setting.usesIn elements ↔
      ∃ edit ∈ elements.filterMap setting.edit?, edit.change.told?.isSome = true := by
  simp only [Setting.usesIn, List.mem_filterMap, Setting.edit?, Option.map_eq_some_iff]
  constructor
  · rintro ⟨element, hmem, definition, hdefinition, hnone⟩
    refine ⟨_, ⟨element, hmem, definition, hdefinition, rfl⟩, ?_⟩
    cases definition with
    | ok reference => cases hnone
    | error error => rfl
  · rintro ⟨_, ⟨element, hmem, definition, hdefinition, rfl⟩, htold⟩
    refine ⟨element, hmem, definition, hdefinition, ?_⟩
    cases definition with
    | ok reference => cases htold
    | error error => rfl

theorem usesIn_eq_nil_iff (setting : Setting) (elements : List Element) :
    setting.usesIn elements = [] ↔ elements.filterMap setting.edit? = [] := by
  simp [Setting.usesIn, Setting.edit?, List.filterMap_eq_nil_iff]

theorem referencesIn_eq (setting : Setting) (elements : List Element) :
    setting.referencesIn elements = (setting.usesIn elements).filterMap id := by
  rw [Setting.usesIn, List.filterMap_filterMap]
  refine List.filterMap_congr fun element _ => ?_
  cases setting.definition? element <;> rfl

theorem named?_filterMap (setting : Setting) (uses : List (Option Reference)) :
    (uses.filterMap setting.named?).map NamedReference.reference = uses.filterMap id := by
  rw [List.map_filterMap]
  refine List.filterMap_congr fun use _ => ?_
  cases use <;> rfl

/--
**What a plan is made of.** Planning keeps its promises for all elements, tags and names; and it
finds what one pass finds that notes each element as it comes.
-/
theorem planning_sound (setting : Setting) (site : ImportSite) (elements : List Element) :
    setting.Plans elements (setting.plan site elements).1 ∧
      setting.surveyed site elements = (setting.plan site elements).1 := by
  refine ⟨?_, surveyed_eq setting site elements⟩
  rw [plan_eq]
  have hreferences : ((setting.usesIn elements).eraseDups.filterMap setting.named?).map
      NamedReference.reference = (setting.usesIn elements).eraseDups.filterMap id :=
    named?_filterMap setting _
  have hfirsts := areFirsts_eraseDups (setting.usesIn elements)
  refine
    { edits := forall₂_filterMap ?_ (fun _ _ => isEdit_of_edit?) elements
      references := ?_
      identities := ?_
      imports := ⟨_, hfirsts, rfl, hreferences.symm, ?_⟩
      errors := told_edits setting elements
      matched := ?_ }
  · intro element
    simp [Setting.configures, Setting.edit?, Setting.definition?]
  · dsimp only
    rw [hreferences, eraseDups_filterMap_id, ← referencesIn_eq]
    exact areFirsts_eraseDups _
  · intro named hnamed
    obtain ⟨use, -, huse⟩ := List.mem_filterMap.1 hnamed
    obtain ⟨reference, -, rfl⟩ := Option.map_eq_some_iff.1 huse
    rfl
  · rw [hfirsts.mem_iff]
    exact none_mem_usesIn_iff setting elements
  · have hnone := usesIn_eq_nil_iff setting elements
    simp only [Findings.matched, Plan.isEmpty, Bool.not_eq_false', List.isEmpty_iff,
      Bool.and_eq_true]
    refine ⟨fun hedits => ⟨hedits, ?_⟩, And.left⟩
    rw [hnone.2 hedits]
    rfl

end Surveys

end ComponentTags
