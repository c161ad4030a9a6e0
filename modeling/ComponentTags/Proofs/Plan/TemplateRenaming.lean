import ComponentTags.Proofs.Plan.MarkupRenaming

/-!
Renaming the elements of a template. Both tags of a pair are renamed, and the whole tree with them,
exactly if no configured pair has a name of elements without a closing tag and no configured element
stands where raw text is read.
-/

namespace ComponentTags

/-! ### Renamed trees -/

mutual

def TemplateNode.renamed (change : Renaming) : TemplateNode → TemplateNode
  | .inert node => .inert node
  | .empty name attributes =>
      let new? := change name (attributes.map MarkupAttribute.value)
      .empty (name.changed new?) (attributes ++ toldMarkup new?)
  | .paired name attributes children =>
      let new? := change name (attributes.map MarkupAttribute.value)
      .paired (name.changed new?) (attributes ++ toldMarkup new?) (templatesRenamed change children)

def templatesRenamed (change : Renaming) : List TemplateNode → List TemplateNode
  | [] => []
  | node :: nodes => node.renamed change :: templatesRenamed change nodes

end

mutual

/--
What a tree is rewritten to. The closing tag of a pair stays if no element has it, and what stands in
raw text stays.
-/
def TemplateNode.rewritten (change : Renaming) : TemplateNode → List Char
  | .inert node => node.chars
  | .empty name attributes =>
      let new? := change name (attributes.map MarkupAttribute.value)
      (name.changed new?).openingChars (attributes ++ toldMarkup new?) true
  | .paired name attributes children =>
      let new? := change name (attributes.map MarkupAttribute.value)
      let opening := (name.changed new?).openingChars (attributes ++ toldMarkup new?) false
      if name.IsVoid then opening ++ (templatesRewritten change children ++ name.closingChars)
      else if name.IsRaw then
        opening ++ (templateChars children ++ (name.changed new?).closingChars)
      else opening ++ (templatesRewritten change children ++ (name.changed new?).closingChars)

def templatesRewritten (change : Renaming) : List TemplateNode → List Char
  | [] => []
  | node :: nodes => node.rewritten change ++ templatesRewritten change nodes

end

section Conditions

variable (registry : TagRegistry)

mutual

/-- The parts that are left as they are hold no configured element. -/
def TemplateNode.LeavesInert : TemplateNode → Prop
  | .inert node =>
      ∀ depth start, ∀ element ∈ node.elements depth start, registry.find? element.name = none
  | .empty _ _ => True
  | .paired _ _ children => TemplatesLeaveInert children

def TemplatesLeaveInert : List TemplateNode → Prop
  | [] => True
  | node :: nodes => node.LeavesInert ∧ TemplatesLeaveInert nodes

end

mutual

/-- No pair and no element that closes itself is configured. -/
def TemplateNode.IsPlain : TemplateNode → Prop
  | .inert _ => True
  | .empty name _ => registry.find? (String.ofList name.chars) = none
  | .paired name _ children =>
      registry.find? (String.ofList name.chars) = none ∧ TemplatesPlain children

def TemplatesPlain : List TemplateNode → Prop
  | [] => True
  | node :: nodes => node.IsPlain ∧ TemplatesPlain nodes

end

mutual

/--
Every configured pair can have a closing tag, and no configured element stands in a pair with raw
text.
-/
def TemplateNode.KeepsPairs : TemplateNode → Prop
  | .inert _ | .empty _ _ => True
  | .paired name _ children =>
      (name.IsVoid → registry.find? (String.ofList name.chars) = none) ∧
        if name.IsRaw then TemplatesPlain registry children else TemplatesKeepPairs children

def TemplatesKeepPairs : List TemplateNode → Prop
  | [] => True
  | node :: nodes => node.KeepsPairs ∧ TemplatesKeepPairs nodes

end

end Conditions

section Rewording

variable {setting : Setting} {name : TagName}

/-! ### Rewording trees -/

-- By induction on the tree, along the cases in which its elements are found.
mutual

/-- **The splices of a tree reword it to what it is rewritten to.** -/
theorem rewords_template (names : setting.naming.NamesTags) (node : TemplateNode)
    (hinert : node.LeavesInert setting.registry) (depth start : Nat) :
    Rewords start ((node.elements depth start).flatMap setting.splicesOf) node.chars
      (node.rewritten (setting.newTag? names)) := by
  match node with
  | .inert node =>
      have hnone : (node.elements depth start).flatMap setting.splicesOf = [] :=
        List.flatMap_eq_nil_iff.2 fun element helement =>
          splicesOf_of_find? (hinert depth start element helement)
      rw [TemplateNode.elements, hnone]
      exact .keep start _
  | .empty name attributes =>
      rw [TemplateNode.elements, List.flatMap_singleton, splicesOf_markup names,
        TemplateNode.rewritten]
      exact rewords_openingChars _ name attributes true depth start
  | .paired name attributes children =>
      have hchildren := fun depth start => rewords_templates names children hinert depth start
      let new? := setting.newTag? names name (attributes.map MarkupAttribute.value)
      rw [TemplateNode.elements, TemplateNode.chars, TemplateNode.rewritten]
      by_cases isVoid : name.IsVoid
      · have hopening := rewords_openingChars new? name attributes false depth start
        rw [if_pos isVoid, if_pos isVoid, List.flatMap_cons, splicesOf_markup names]
        exact hopening.append ((hchildren depth _).followed _)
      · rw [if_neg isVoid, if_neg isVoid]
        by_cases isRaw : name.IsRaw
        · have hraw := rewords_between new? name attributes depth start
            (.keep _ (templateChars children))
          rw [List.append_nil] at hraw
          rw [if_pos isRaw, if_pos isRaw, List.flatMap_singleton, splicesOf_markup names]
          exact hraw
        · rw [if_neg isRaw, if_neg isRaw, List.flatMap_cons, splicesOf_markup names]
          exact rewords_between new? name attributes depth start (hchildren (depth + 1) _)

theorem rewords_templates (names : setting.naming.NamesTags) (nodes : List TemplateNode)
    (hinert : TemplatesLeaveInert setting.registry nodes) (depth start : Nat) :
    Rewords start ((templateElements depth start nodes).flatMap setting.splicesOf)
      (templateChars nodes) (templatesRewritten (setting.newTag? names) nodes) := by
  match nodes with
  | [] => exact .keep start []
  | node :: nodes =>
      rw [templateElements, List.flatMap_append]
      exact (rewords_template names node hinert.1 depth start).append
        (rewords_templates names nodes hinert.2 depth _)

end

/-! ### Trees that are rewritten as a whole -/

mutual

theorem chars_renamed_of_isPlain (names : setting.naming.NamesTags) (node : TemplateNode)
    (h : node.IsPlain setting.registry) :
    (node.renamed (setting.newTag? names)).chars = node.chars := by
  match node with
  | .inert node => rfl
  | .empty name attributes =>
      rw [TemplateNode.renamed, (newTag?_eq_none_iff names).2 h]
      exact openingChars_none attributes true
  | .paired name attributes children =>
      rw [TemplateNode.renamed, (newTag?_eq_none_iff names).2 h.1, TemplateNode.chars,
        TemplateNode.chars, openingChars_none, templateChars_renamed_of_plain names children h.2]
      rfl

theorem templateChars_renamed_of_plain (names : setting.naming.NamesTags)
    (nodes : List TemplateNode) (h : TemplatesPlain setting.registry nodes) :
    templateChars (templatesRenamed (setting.newTag? names) nodes) = templateChars nodes := by
  match nodes with
  | [] => rfl
  | node :: nodes =>
      rw [templatesRenamed, templateChars, templateChars, chars_renamed_of_isPlain names node h.1,
        templateChars_renamed_of_plain names nodes h.2]

end

mutual

theorem rewritten_of_keepsPairs (names : setting.naming.NamesTags) (node : TemplateNode)
    (h : node.KeepsPairs setting.registry) :
    node.rewritten (setting.newTag? names) = (node.renamed (setting.newTag? names)).chars := by
  match node with
  | .inert node => rfl
  | .empty name attributes => rfl
  | .paired name attributes children =>
      obtain ⟨hvoid, hchildren⟩ := h
      rw [TemplateNode.rewritten, TemplateNode.renamed, TemplateNode.chars]
      by_cases isRaw : name.IsRaw
      · rw [if_pos isRaw] at hchildren
        rw [if_neg isRaw.not_isVoid, if_pos isRaw,
          templateChars_renamed_of_plain names children hchildren]
      · rw [if_neg isRaw] at hchildren
        rw [if_neg isRaw, templatesRewritten_of_keepPairs names children hchildren]
        split
        · next isVoid =>
            rw [(newTag?_eq_none_iff names).2 (hvoid isVoid)]
            rfl
        · rfl

theorem templatesRewritten_of_keepPairs (names : setting.naming.NamesTags)
    (nodes : List TemplateNode) (h : TemplatesKeepPairs setting.registry nodes) :
    templatesRewritten (setting.newTag? names) nodes =
      templateChars (templatesRenamed (setting.newTag? names) nodes) := by
  match nodes with
  | [] => rfl
  | node :: nodes =>
      rw [templatesRewritten, templatesRenamed, templateChars, rewritten_of_keepsPairs names node h.1,
        templatesRewritten_of_keepPairs names nodes h.2]

end

/-! ### Trees that are not -/

/-- A new tag that cannot be taken for the old one. -/
def NewTag.Differs (new : NewTag) (name : TagName) : Prop :=
  new.name.chars ≠ name.chars ∨ new.told ≠ none

theorem tag_of_definitionOf {tag keyword : String} {values : List (String × Option AttributeValue)}
    {reference : Reference} (h : definitionOf tag keyword values = .ok reference) :
    reference.tag = tag := by
  unfold definitionOf at h
  split at h
  · cases h
  · split at h
    · cases h
    · next text _ =>
        cases hreference : Reference.ofDefinition? tag text with
        | none =>
            rw [hreference] at h
            cases h
        | some found =>
            rw [hreference] at h
            obtain rfl := Except.ok.inj h
            obtain ⟨parts, -, rfl⟩ := Option.map_eq_some_iff.1 hreference
            rfl

theorem differs_of_newTag? {names : setting.naming.NamesTags}
    {values : List (String × Option AttributeValue)} {new : NewTag}
    (h : setting.newTag? names name values = some new) : new.Differs name := by
  obtain ⟨rule, -, hnew⟩ := Option.map_eq_some_iff.1 h
  split at hnew
  · next reference hreference =>
      subst hnew
      refine .inl ?_
      have htag := tag_of_definitionOf hreference
      have hne := names.identifier_ne_tag reference
      rw [htag, String.toList_ofList] at hne
      rwa [NewTag.chars_component]
  · subst hnew
    exact .inr (by simp [NewTag.fallback])

theorem chars_eq_of_append {name' : TagName} {rest rest' : List Char}
    (h : name.chars ++ rest = name'.chars ++ rest') (hrest : StopsAt Lexical.isNameChar rest)
    (hrest' : StopsAt Lexical.isNameChar rest') : name.chars = name'.chars ∧ rest = rest' := by
  have hname : name.chars = name'.chars := by
    rw [← takeWhile_append_of_stopsAt name.isNameChar hrest, h,
      takeWhile_append_of_stopsAt name'.isNameChar hrest']
  rw [hname] at h
  exact ⟨hname, List.append_cancel_left h⟩

theorem openingChars_append (name : TagName) (attributes : List MarkupAttribute)
    (selfClosing : Bool) (rest : List Char) :
    name.openingChars attributes selfClosing ++ rest =
      '<' :: (name.chars ++ (MarkupAttribute.allChars attributes ++ (tagEnd selfClosing ++ rest))) := by
  simp [TagName.openingChars]

theorem openingChars_ne {new : NewTag} (h : new.Differs name) (attributes : List MarkupAttribute)
    (selfClosing : Bool) (rest rest' : List Char) :
    name.openingChars attributes selfClosing ++ rest ≠
      (name.changed (some new)).openingChars (attributes ++ toldMarkup (some new)) selfClosing
        ++ rest' := by
  intro heq
  rw [openingChars_append, openingChars_append] at heq
  obtain ⟨hname, hbehind⟩ := chars_eq_of_append (List.cons.inj heq).2
    (MarkupAttribute.endsAttribute _ _ _).stopsAt_tagName
    (MarkupAttribute.endsAttribute _ _ _).stopsAt_tagName
  rcases h with hdiffers | htold
  · exact hdiffers hname.symm
  · obtain ⟨told, hnew⟩ := Option.ne_none_iff_exists'.1 htold
    have htext : toldChars (some new) = ' ' :: (toldChars (some new)).tail := by
      simp [toldChars, toldAttributes, NewTag.attributes, hnew]
    rw [allChars_told, List.append_assoc] at hbehind
    have hend := List.append_cancel_left hbehind
    rw [htext] at hend
    cases selfClosing <;> cases hend

mutual

theorem isPlain_of_chars_eq (names : setting.naming.NamesTags) (node : TemplateNode)
    {rest rest' : List Char}
    (h : node.chars ++ rest = (node.renamed (setting.newTag? names)).chars ++ rest') :
    node.IsPlain setting.registry ∧ rest = rest' := by
  match node with
  | .inert node => exact ⟨trivial, List.append_cancel_left h⟩
  | .empty name attributes =>
      rw [TemplateNode.renamed, TemplateNode.chars, TemplateNode.chars] at h
      cases hnew : setting.newTag? names name (attributes.map MarkupAttribute.value) with
      | none =>
          rw [hnew, openingChars_none] at h
          exact ⟨(newTag?_eq_none_iff names).1 hnew, List.append_cancel_left h⟩
      | some new =>
          rw [hnew] at h
          exact absurd h (openingChars_ne (differs_of_newTag? hnew) attributes true rest rest')
  | .paired name attributes children =>
      rw [TemplateNode.renamed, TemplateNode.chars, TemplateNode.chars] at h
      simp only [List.append_assoc] at h
      cases hnew : setting.newTag? names name (attributes.map MarkupAttribute.value) with
      | none =>
          rw [hnew, openingChars_none] at h
          obtain ⟨hchildren, hclosing⟩ :=
            templatesPlain_of_chars_eq names children (List.append_cancel_left h)
          exact ⟨⟨(newTag?_eq_none_iff names).1 hnew, hchildren⟩, List.append_cancel_left hclosing⟩
      | some new =>
          rw [hnew] at h
          exact absurd h (openingChars_ne (differs_of_newTag? hnew) attributes false _ _)

theorem templatesPlain_of_chars_eq (names : setting.naming.NamesTags) (nodes : List TemplateNode)
    {rest rest' : List Char} (h : templateChars nodes ++ rest =
      templateChars (templatesRenamed (setting.newTag? names) nodes) ++ rest') :
    TemplatesPlain setting.registry nodes ∧ rest = rest' := by
  match nodes with
  | [] => exact ⟨trivial, h⟩
  | node :: nodes =>
      rw [templatesRenamed, templateChars, templateChars, List.append_assoc, List.append_assoc] at h
      obtain ⟨hnode, hbehind⟩ := isPlain_of_chars_eq names node h
      obtain ⟨hnodes, hrest⟩ := templatesPlain_of_chars_eq names nodes hbehind
      exact ⟨⟨hnode, hnodes⟩, hrest⟩

end

/-- A closing tag that stays is that of the renamed pair for names that are not renamed only. -/
theorem not_configured_of_closingChars (names : setting.naming.NamesTags) (isVoid : name.IsVoid)
    {values : List (String × Option AttributeValue)} {rest rest' : List Char}
    (h : name.closingChars ++ rest =
      (name.changed (setting.newTag? names name values)).closingChars ++ rest') :
    setting.registry.find? (String.ofList name.chars) = none ∧ rest = rest' := by
  cases hnew : setting.newTag? names name values with
  | none =>
      rw [hnew] at h
      exact ⟨(newTag?_eq_none_iff names).1 hnew, List.append_cancel_left h⟩
  | some new =>
      rw [hnew] at h
      have hbehind : name.chars ++ '>' :: rest = new.name.chars ++ '>' :: rest' := by
        simpa [TagName.closingChars, TagName.changed] using h
      obtain ⟨hname, -⟩ := chars_eq_of_append hbehind (stopsAt_cons (by decide))
        (stopsAt_cons (by decide))
      refine absurd ?_ new.notVoid
      rwa [TagName.IsVoid, TagName.lowered, ← hname]

mutual

theorem keepsPairs_of_rewritten_eq (names : setting.naming.NamesTags) (node : TemplateNode)
    {rest rest' : List Char}
    (h : node.rewritten (setting.newTag? names) ++ rest =
      (node.renamed (setting.newTag? names)).chars ++ rest') :
    node.KeepsPairs setting.registry ∧ rest = rest' := by
  match node with
  | .inert node => exact ⟨trivial, List.append_cancel_left h⟩
  | .empty name attributes => exact ⟨trivial, List.append_cancel_left h⟩
  | .paired name attributes children =>
      rw [TemplateNode.renamed, TemplateNode.chars, TemplateNode.rewritten] at h
      by_cases isVoid : name.IsVoid
      · simp only [if_pos isVoid, List.append_assoc] at h
        obtain ⟨hchildren, hclosing⟩ :=
          templatesKeepPairs_of_rewritten_eq names children (List.append_cancel_left h)
        obtain ⟨hnone, hrest⟩ := not_configured_of_closingChars names isVoid hclosing
        have notRaw : ¬name.IsRaw := fun isRaw => isRaw.not_isVoid isVoid
        exact ⟨⟨fun _ => hnone, by rwa [if_neg notRaw]⟩, hrest⟩
      · rw [if_neg isVoid] at h
        by_cases isRaw : name.IsRaw
        · simp only [if_pos isRaw, List.append_assoc] at h
          obtain ⟨hplain, hclosing⟩ :=
            templatesPlain_of_chars_eq names children (List.append_cancel_left h)
          exact ⟨⟨fun isVoid' => absurd isVoid' isVoid, by rwa [if_pos isRaw]⟩,
            List.append_cancel_left hclosing⟩
        · simp only [if_neg isRaw, List.append_assoc] at h
          obtain ⟨hchildren, hclosing⟩ :=
            templatesKeepPairs_of_rewritten_eq names children (List.append_cancel_left h)
          exact ⟨⟨fun isVoid' => absurd isVoid' isVoid, by rwa [if_neg isRaw]⟩,
            List.append_cancel_left hclosing⟩

theorem templatesKeepPairs_of_rewritten_eq (names : setting.naming.NamesTags)
    (nodes : List TemplateNode) {rest rest' : List Char}
    (h : templatesRewritten (setting.newTag? names) nodes ++ rest =
      templateChars (templatesRenamed (setting.newTag? names) nodes) ++ rest') :
    TemplatesKeepPairs setting.registry nodes ∧ rest = rest' := by
  match nodes with
  | [] => exact ⟨trivial, h⟩
  | node :: nodes =>
      rw [templatesRewritten, templatesRenamed, templateChars, List.append_assoc,
        List.append_assoc] at h
      obtain ⟨hnode, hbehind⟩ := keepsPairs_of_rewritten_eq names node h
      obtain ⟨hnodes, hrest⟩ := templatesKeepPairs_of_rewritten_eq names nodes hbehind
      exact ⟨⟨hnode, hnodes⟩, hrest⟩

end

/-! ### Files with such a template -/

theorem apply_template (names : setting.naming.NamesTags) (file : ComponentFile)
    {nodes : List TemplateNode} (hinert : TemplatesLeaveInert setting.registry nodes)
    (hraw : TemplatesEndRaw nodes) :
    ∃ findings warnings, setting.scan .vue (file.text (templateChars nodes)) =
        .ok (findings, warnings) ∧
      findings.plan.imports = setting.importsOf (templateElements 1 file.inside nodes) ∧
      findings.plan.apply (file.text (templateChars nodes)) = String.ofList
        (file.importing (setting.importsOf (templateElements 1 file.inside nodes))
          (templatesRewritten (setting.newTag? names) nodes)) :=
  file.apply_text (pairsTo_templates nodes hraw) (startsIn_templates nodes 1 file.inside)
    (rewords_templates names nodes hinert 1 file.inside)

/--
**Pairs of tags are renamed together** in the template of a single-file component exactly if every
configured pair can have a closing tag and nothing configured stands in a pair with raw text.
-/
theorem template_renamed_iff (registry : TagRegistry) (directory : Path)
    (extension start fallbackSpecifier : String) (file : ComponentFile) (nodes : List TemplateNode)
    (hinert : TemplatesLeaveInert registry nodes) (hraw : TemplatesEndRaw nodes) :
    ∃ findings warnings,
      (Setting.of registry directory extension start fallbackSpecifier).scan .vue
          (file.text (templateChars nodes)) = .ok (findings, warnings) ∧
        (findings.plan.apply (file.text (templateChars nodes)) = String.ofList
            (file.importing findings.plan.imports (templateChars (templatesRenamed
              ((Setting.of registry directory extension start fallbackSpecifier).newTag?
                (Setting.namesTags_of registry directory extension start fallbackSpecifier))
              nodes))) ↔
          TemplatesKeepPairs registry nodes) := by
  have names := Setting.namesTags_of registry directory extension start fallbackSpecifier
  obtain ⟨findings, warnings, hscan, himports, happly⟩ := apply_template names file hinert hraw
  refine ⟨findings, warnings, hscan, ?_⟩
  rw [happly, himports]
  constructor
  · intro heq
    have hsame := file.importing_inj _ (String.ofList_injective heq)
    exact (templatesKeepPairs_of_rewritten_eq names nodes (congrArg (· ++ []) hsame)).1
  · intro hkeep
    rw [templatesRewritten_of_keepPairs names nodes hkeep]

/-- A file with a template alone. -/
def templateFile : ComponentFile where
  before := []
  attributes := []
  after := []
  isFirst := by simp

/-- A widget around a pair that reads as one without a closing tag, and around one with raw text. -/
def widgetTree : List TemplateNode :=
  [.paired widgetName []
    [.paired (.of ['I', 'n', 'p', 'u', 't'] (by decide)) [] [],
      .paired (.of ['S', 't', 'y', 'l', 'e'] (by decide)) []
        [.inert (.text ⟨['x'], List.all_eq_true.1 rfl⟩)]]]

set_option maxRecDepth 100000 in
theorem template_renamed_of_widgets :
    TemplatesLeaveInert widgetSetting.registry widgetTree ∧ TemplatesEndRaw widgetTree ∧
    ∃ findings warnings,
      (Setting.of widgetSetting.registry ⟨"/w"⟩ "vue" "c" "/w/fallback").scan .vue
        (templateFile.text (templateChars widgetTree)) = .ok (findings, warnings) ∧
      findings.plan.apply (templateFile.text (templateChars widgetTree)) = String.ofList
        (templateFile.importing findings.plan.imports (templateChars (templatesRenamed
          ((Setting.of widgetSetting.registry ⟨"/w"⟩ "vue" "c" "/w/fallback").newTag?
            (Setting.namesTags_of widgetSetting.registry ⟨"/w"⟩ "vue" "c" "/w/fallback"))
          widgetTree))) := by
  have hinert : TemplatesLeaveInert widgetSetting.registry widgetTree := by
    simp [widgetTree, TemplatesLeaveInert, TemplateNode.LeavesInert, MarkupNode.elements]
  have hraw : TemplatesEndRaw widgetTree := by
    simp only [widgetTree, TemplatesEndRaw, TemplateNode.EndsRaw, and_true]
    decide +kernel
  have hkeep : TemplatesKeepPairs widgetSetting.registry widgetTree := by
    simp only [widgetTree, TemplatesKeepPairs, TemplateNode.KeepsPairs, TemplatesPlain,
      TemplateNode.IsPlain]
    decide +kernel
  obtain ⟨findings, warnings, hscan, hiff⟩ := template_renamed_iff widgetSetting.registry ⟨"/w"⟩
    "vue" "c" "/w/fallback" templateFile widgetTree hinert hraw
  exact ⟨hinert, hraw, findings, warnings, hscan, hiff.2 hkeep⟩

/-- A tag that reads, in lower case, as one without a closing tag. -/
def linkSetting : Setting where
  registry := { rules := (∅ : TextMap TagRule).insert "Link" { keyword := "def", api := default } }
  naming := .of ⟨"/w"⟩ "vue" "c"
  fallbackSpecifier := "/w/fallback"

/-- A pair of that tag. -/
def linkSource : String :=
  "<template><Link>x</Link></template>"

set_option maxRecDepth 100000 in
/-- The opening tag is renamed and the closing tag is not. -/
theorem closing_tag_of_link_stays :
    ∃ findings warnings, linkSetting.scan .vue linkSource = .ok (findings, warnings) ∧
      (findings.plan.apply linkSource).toList =
        "<script setup>\nimport CloudComponentDefError from \"/w/fallback\";\n</script>\n\n".toList ++
          ("<template><CloudComponentDefError tagName=\"Link\" defValue=\"\">x".toList ++
            "</Link></template>".toList) := by
  have hcomputed : (linkSetting.scan .vue linkSource).toOption.any (fun found =>
      let splices := found.1.plan.splices linkSource.toList
      splices.Pairwise (fun first second => first.before second = true) ∧
      Splice.applyFrom linkSource.toList 0 splices =
        "<script setup>\nimport CloudComponentDefError from \"/w/fallback\";\n</script>\n\n".toList ++
          ("<template><CloudComponentDefError tagName=\"Link\" defValue=\"\">x".toList ++
            "</Link></template>".toList)) = true := by
    decide +kernel
  obtain ⟨findings, warnings, hscan, hcheck⟩ := exists_scan_of_any hcomputed
  obtain ⟨hsorted, houtput⟩ := of_decide_eq_true hcheck
  exact ⟨findings, warnings, hscan, (toList_apply_of_pairwise hsorted).trans houtput⟩

end Rewording

end ComponentTags
