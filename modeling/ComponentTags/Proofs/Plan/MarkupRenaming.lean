import ComponentTags.Proofs.Plan.ComponentFiles

/-!
Renaming the elements of markup. What the plan for a single-file component makes of it is the file in
which every configured element of the template has its new tag, with the imports in its setup script.
-/

namespace ComponentTags

/-- No configured tag is, in lower case, one of an element without a closing tag or with raw text. -/
def TagRegistry.NamesPairs (registry : TagRegistry) : Prop :=
  ∀ tag, registry.find? tag ≠ none →
    Ascii.lower tag ∉ voidElementNames ∧ Ascii.lower tag ∉ rawTextElementNames

/-! ### Renamed trees -/

/-- The attributes that a tag in markup gets. -/
def toldMarkup (new? : Option NewTag) : List MarkupAttribute :=
  (toldAttributes new?).map MarkupAttribute.plain

theorem TagName.not_isVoid_changed {name : TagName} (h : ¬name.IsVoid) (new? : Option NewTag) :
    ¬(name.changed new?).IsVoid := by
  cases new? with
  | none => exact h
  | some new => exact new.notVoid

theorem TagName.not_isRaw_changed {name : TagName} (h : ¬name.IsRaw) (new? : Option NewTag) :
    ¬(name.changed new?).IsRaw := by
  cases new? with
  | none => exact h
  | some new => exact new.notRaw

mutual

def MarkupNode.renamed (change : Renaming) : MarkupNode → MarkupNode
  | .empty name attributes =>
      let new? := change name (attributes.map MarkupAttribute.value)
      .empty (name.changed new?) (attributes ++ toldMarkup new?)
  | .full name notVoid notRaw attributes children =>
      let new? := change name (attributes.map MarkupAttribute.value)
      .full (name.changed new?) (TagName.not_isVoid_changed notVoid new?)
        (TagName.not_isRaw_changed notRaw new?) (attributes ++ toldMarkup new?)
        (forestRenamed change children)
  | .text text => .text text
  | .comment text => .comment text
  | .interpolation code => .interpolation code
  | .void name isVoid attributes => .void name isVoid attributes
  | .raw name isRaw attributes text => .raw name isRaw attributes text

def forestRenamed (change : Renaming) : List MarkupNode → List MarkupNode
  | [] => []
  | node :: nodes => node.renamed change :: forestRenamed change nodes

end

section Rewording

variable {setting : Setting} {name : TagName} {element : Element}

/-! ### Splices -/

theorem allChars_told (attributes : List MarkupAttribute) (new? : Option NewTag) :
    MarkupAttribute.allChars (attributes ++ toldMarkup new?) =
      MarkupAttribute.allChars attributes ++ toldChars new? := by
  simp [MarkupAttribute.allChars, toldMarkup, toldChars, List.flatMap_map, MarkupAttribute.chars]

theorem splicesOf_of_find? (h : setting.registry.find? element.name = none) :
    setting.splicesOf element = [] := by
  rw [Setting.splicesOf, Sighting.of?, h]
  rfl

/-- The splices of an element in markup are those of the tag that its name and attributes give. -/
theorem splicesOf_markup (names : setting.naming.NamesTags) (name : TagName)
    (attributes : List MarkupAttribute) (selfClosing : Bool) (depth start : Nat)
    (close : Option ClosingTag) :
    setting.splicesOf (name.opened attributes selfClosing depth start close) =
      (setting.newTag? names name (attributes.map MarkupAttribute.value)).toList.flatMap
        (·.splices (name.opened attributes selfClosing depth start close)) := by
  rw [splicesOf_eq names rfl, Element.values, ← values_opened (start + 1 + utf8Length name.chars)]
  rfl

theorem rewords_openingChars (new? : Option NewTag) (name : TagName)
    (attributes : List MarkupAttribute) (selfClosing : Bool) (depth start : Nat) :
    Rewords start
      (new?.toList.flatMap (·.splices (name.opened attributes selfClosing depth start none)))
      (name.openingChars attributes selfClosing)
      ((name.changed new?).openingChars (attributes ++ toldMarkup new?) selfClosing) := by
  have hsingle := rewords_single new? name
    (MarkupAttribute.allPlaced (start + 1 + utf8Length name.chars) attributes) selfClosing depth
    start (.keep _ (MarkupAttribute.allChars attributes))
  rw [List.append_nil] at hsingle
  rw [TagName.openingChars, TagName.openingChars, allChars_told]
  exact hsingle.behind start ['<']

theorem rewords_between (new? : Option NewTag) (name : TagName)
    (attributes : List MarkupAttribute) (depth start : Nat) {content content' : List Char}
    {splices : List Splice}
    (h : Rewords (start + utf8Length (name.openingChars attributes false)) splices content content') :
    Rewords start
      (new?.toList.flatMap (·.splices (name.opened attributes false depth start
        (some (name.placedClosing (start + utf8Length (name.openingChars attributes false)
          + utf8Length content))))) ++ splices)
      (name.openingChars attributes false ++ (content ++ name.closingChars))
      ((name.changed new?).openingChars (attributes ++ toldMarkup new?) false
        ++ (content' ++ (name.changed new?).closingChars)) := by
  have hstart : start + utf8Length (name.openingChars attributes false) = start + 1 +
      utf8Length (name.chars ++ (MarkupAttribute.allChars attributes ++ tagEnd false)) := by
    have hsize : Char.utf8Size '<' = 1 := rfl
    rw [TagName.openingChars, utf8Length, hsize, Nat.add_assoc start]
  rw [hstart] at h ⊢
  have hpair := rewords_pair new? name
    (MarkupAttribute.allPlaced (start + 1 + utf8Length name.chars) attributes) depth start
    (.keep _ (MarkupAttribute.allChars attributes)) h
  rw [List.nil_append] at hpair
  rw [TagName.openingChars, TagName.openingChars, allChars_told]
  exact hpair.behind start ['<']

theorem newTag?_eq_none_iff (names : setting.naming.NamesTags)
    {values : List (String × Option AttributeValue)} :
    setting.newTag? names name values = none ↔
      setting.registry.find? (String.ofList name.chars) = none :=
  Option.map_eq_none_iff

theorem openingChars_none (attributes : List MarkupAttribute) (selfClosing : Bool) :
    (name.changed none).openingChars (attributes ++ toldMarkup none) selfClosing =
      name.openingChars attributes selfClosing := by
  rw [toldMarkup, toldAttributes, Option.elim_none, List.map_nil, List.append_nil]
  rfl

theorem TagRegistry.NamesPairs.find?_eq_none {registry : TagRegistry} (h : registry.NamesPairs)
    (hname : name.IsVoid ∨ name.IsRaw) : registry.find? (String.ofList name.chars) = none := by
  refine Classical.byContradiction fun hfound => ?_
  obtain ⟨hvoid, hraw⟩ := h _ hfound
  rw [name.lower_eq] at hvoid hraw
  exact hname.elim hvoid hraw

-- By induction on the tree.
mutual

/-- **The splices of a tree in markup reword it to the renamed tree.** -/
theorem rewords_node (names : setting.naming.NamesTags) (hpairs : setting.registry.NamesPairs)
    (node : MarkupNode) (depth start : Nat) :
    Rewords start ((node.elements depth start).flatMap setting.splicesOf) node.chars
      (node.renamed (setting.newTag? names)).chars := by
  match node with
  | .text _ | .comment _ | .interpolation _ => exact .keep start _
  | .empty name attributes =>
      rw [MarkupNode.elements, List.flatMap_singleton, splicesOf_markup names, MarkupNode.renamed]
      exact rewords_openingChars _ name attributes true depth start
  | .void name isVoid attributes =>
      have hnone := hpairs.find?_eq_none (.inl isVoid)
      rw [MarkupNode.elements, List.flatMap_singleton, splicesOf_of_find? hnone, MarkupNode.renamed]
      exact .keep start _
  | .raw name isRaw attributes text =>
      have hnone := hpairs.find?_eq_none (.inr isRaw)
      rw [MarkupNode.elements, List.flatMap_singleton, splicesOf_of_find? hnone, MarkupNode.renamed]
      exact .keep start _
  | .full name _ _ attributes children =>
      rw [MarkupNode.elements, List.flatMap_cons, splicesOf_markup names, MarkupNode.renamed]
      exact rewords_between _ name attributes depth start
        (rewords_forest names hpairs children (depth + 1) _)

theorem rewords_forest (names : setting.naming.NamesTags) (hpairs : setting.registry.NamesPairs)
    (nodes : List MarkupNode) (depth start : Nat) :
    Rewords start ((forestElements depth start nodes).flatMap setting.splicesOf) (forestChars nodes)
      (forestChars (forestRenamed (setting.newTag? names) nodes)) := by
  match nodes with
  | [] => exact .keep start []
  | node :: nodes =>
      rw [forestElements, List.flatMap_append, forestRenamed, forestChars, forestChars]
      exact (rewords_node names hpairs node depth start).append
        (rewords_forest names hpairs nodes depth _)

end

/-- **A single-file component is rewritten to one with the renamed trees in its template.** -/
theorem apply_forest (names : setting.naming.NamesTags) (hpairs : setting.registry.NamesPairs)
    (file : ComponentFile) (children : List MarkupNode) :
    ∃ findings warnings, setting.scan .vue (file.text (forestChars children)) =
        .ok (findings, warnings) ∧
      findings.plan.apply (file.text (forestChars children)) = String.ofList
        (file.importing (setting.importsOf (forestElements 1 file.inside children))
          (forestChars (forestRenamed (setting.newTag? names) children))) := by
  obtain ⟨findings, warnings, hscan, -, happly⟩ := file.apply_text (pairsTo_forest children)
    (startsIn_forest children 1 file.inside) (rewords_forest names hpairs children 1 file.inside)
  exact ⟨findings, warnings, hscan, happly⟩

end Rewording

def widgetName : TagName :=
  .of ['W', 'i', 'd', 'g', 'e', 't'] (by decide)

end ComponentTags
