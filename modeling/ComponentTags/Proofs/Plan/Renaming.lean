import ComponentTags.Proofs.Plan.CodeRenaming
import ComponentTags.Proofs.Plan.MarkupRenaming

/-!
Rewriting is renaming on the tree. Sources that are written from trees are rewritten to the trees with
new tags, and every new tag is told by the definition of its element.
-/

namespace ComponentTags

/--
What a tag with that name and those attributes becomes: it is kept unless it is configured, and else
takes the identifier of its reference or, for a definition that cannot be used, the name of the fallback
with two attributes behind its own, which are decoded to the tag and the definition.
-/
inductive TagChange (setting : Setting) (name : TagName)
    (values : List (String × Option AttributeValue)) : Option NewTag → Prop
  | kept (h : setting.registry.find? (String.ofList name.chars) = none) :
      TagChange setting name values none
  | component {rule : TagRule} {reference : Reference} {new : NewTag}
      (hrule : setting.registry.find? (String.ofList name.chars) = some rule)
      (hdefinition : definitionOf (String.ofList name.chars) rule.keyword values = .ok reference)
      (hname : new.name.chars = (setting.naming.identity reference).identifier.toList)
      (hattributes : new.attributes = []) :
      TagChange setting name values (some new)
  | fallback {rule : TagRule} {value : String} {new : NewTag} {tagText valueText : Run (· != '"')}
      (hrule : setting.registry.find? (String.ofList name.chars) = some rule)
      (hdefinition : definitionOf (String.ofList name.chars) rule.keyword values = .error value)
      (hname : new.name.chars = fallbackName.toList)
      (hattributes : new.attributes = [.quoted NewTag.tagAttribute .double tagText,
        .quoted NewTag.definitionAttribute .double valueText])
      (htag : Entity.decode tagText.chars = name.chars)
      (hvalue : Entity.decode valueText.chars = value.toList) :
      TagChange setting name values (some new)

section Renaming

variable {setting : Setting}

theorem tagChange_newTag? (names : setting.naming.NamesTags) (name : TagName)
    (values : List (String × Option AttributeValue)) :
    TagChange setting name values (setting.newTag? names name values) := by
  unfold Setting.newTag?
  cases hrule : setting.registry.find? (String.ofList name.chars) with
  | none => exact .kept hrule
  | some rule =>
      rw [Option.map_some]
      cases hdefinition : definitionOf (String.ofList name.chars) rule.keyword values with
      | ok reference =>
          exact .component hrule hdefinition (NewTag.chars_component names reference) rfl
      | error value =>
          refine .fallback hrule hdefinition (NewTag.chars_fallback _ value) rfl ?_ ?_
          · rw [Entity.decode_attributeText, String.toList_ofList]
          · rw [Entity.decode_attributeText]

/--
**Rewriting is renaming on the tree.** A program is rewritten to its renamed tree with imports behind
its directives, and a single-file component to the one with the renamed trees in its template and
imports in its setup script, if no configured tag is that of an element without a closing tag or with
raw text; the imports are one for each reference that configured elements define and one for the
fallback if any of them has no reference.
-/
theorem rewriting_renames_trees (registry : TagRegistry) (directory : Path)
    (extension start fallbackSpecifier : String) :
    let setting := Setting.of registry directory extension start fallbackSpecifier
    let change := setting.newTag?
      (Setting.namesTags_of registry directory extension start fallbackSpecifier)
    (∀ program : CodeProgram, ∃ findings warnings,
      setting.scan .jsx program.text = .ok (findings, warnings) ∧
      findings.plan.apply program.text = String.ofList
        ((program.renamed change).importing (setting.importsOf program.elements))) ∧
    (registry.NamesPairs → ∀ (file : ComponentFile) (children : List MarkupNode),
      ∃ findings warnings,
        setting.scan .vue (file.text (forestChars children)) = .ok (findings, warnings) ∧
        findings.plan.apply (file.text (forestChars children)) = String.ofList
          (file.importing (setting.importsOf (forestElements 1 file.inside children))
            (forestChars (forestRenamed change children)))) ∧
    (∀ elements : List Element, ∃ used : List (Option Reference),
      setting.importsOf elements = used.map setting.importOf ∧ used.Nodup ∧
      ∀ reference?, reference? ∈ used ↔
        ∃ element ∈ elements, ∃ rule, registry.find? element.name = some rule ∧
          (definitionOf element.name rule.keyword element.values).toOption = reference?) ∧
    ∀ name values, TagChange setting name values (change name values) := by
  have names := Setting.namesTags_of registry directory extension start fallbackSpecifier
  refine ⟨fun program => apply_program names program,
    fun hpairs file children => apply_forest names hpairs file children,
    fun elements => ⟨_, rfl, nodup_eraseDups _, fun _ => mem_usedBy_iff⟩,
    fun name values => tagChange_newTag? names name values⟩

/-- A file with a setup script. -/
def scriptedFile : ComponentFile where
  before := [.raw (.of ['s', 'c', 'r', 'i', 'p', 't'] (by decide)) (by decide)
    [.plain (.flag ⟨⟨['s', 'e', 't', 'u', 'p'], List.all_eq_true.1 rfl⟩, by decide⟩)] ⟨[], by decide⟩]
  attributes := []
  after := []
  isFirst := by decide

theorem namesPairs_widget : widgetSetting.registry.NamesPairs := by
  intro tag hfound
  have htag : tag = "Widget" := by
    refine Classical.byContradiction fun hne => hfound ?_
    rw [TagRegistry.find?, widgetSetting, Std.ExtTreeMap.getElem?_insert, if_neg,
      Std.ExtTreeMap.getElem?_empty]
    rw [Std.LawfulEqCmp.compare_eq_iff_eq]
    exact fun heq => hne heq.symm
  subst htag
  decide +kernel

/-- A widget with a definition, and one without. -/
def widgetForest : List MarkupNode :=
  [.full widgetName (by decide) (by decide)
      [.plain (.quoted ⟨⟨['d', 'e', 'f'], List.all_eq_true.1 rfl⟩, by decide⟩ .double
        ⟨['a', 'p', 'p', '@', '1'], List.all_eq_true.1 rfl⟩)] [],
    .full widgetName (by decide) (by decide) [] []]

set_option maxRecDepth 100000 in
theorem rewriting_renames_widget : widgetSetting.registry.NamesPairs ∧
    ∃ findings warnings,
      (Setting.of widgetSetting.registry ⟨"/w"⟩ "vue" "c" "/w/fallback").scan .vue
        (scriptedFile.text (forestChars widgetForest)) = .ok (findings, warnings) ∧
      (findings.plan.apply (scriptedFile.text (forestChars widgetForest))).toList =
        "<script setup>\nimport cWidgetapp1_31c49605 from \"/w/cWidgetapp1_31c49605.vue\";".toList ++
          ("\nimport CloudComponentDefError from \"/w/fallback\";</script>".toList ++
            ("<template><cWidgetapp1_31c49605 def=\"app@1\"></cWidgetapp1_31c49605>".toList ++
              ("<CloudComponentDefError tagName=\"Widget\" defValue=\"\">".toList ++
                "</CloudComponentDefError></template>".toList))) := by
  refine ⟨namesPairs_widget, ?_⟩
  obtain ⟨findings, warnings, hscan, happly⟩ :=
    (rewriting_renames_trees widgetSetting.registry ⟨"/w"⟩ "vue" "c" "/w/fallback").2.1
      namesPairs_widget scriptedFile widgetForest
  refine ⟨findings, warnings, hscan, ?_⟩
  rw [happly, String.toList_ofList]
  decide +kernel

end Renaming

end ComponentTags
