import ComponentTags.Proofs.Element.Nesting
import ComponentTags.Proofs.Plan.Rewriting

/-!
Edits inside the template. In a single-file component every change of a tag is made inside the first
template block, unless that block closes itself and there are configured elements behind it.
-/

namespace ComponentTags

/--
What is inside a block: it lies behind the opening tag and before the closing tag or, if there is
none, the end of the source. A block that closes itself has nothing inside.
-/
structure Element.HasInside (block : Element) (size : Nat) (span : Span) : Prop where
  isOpen : block.selfClosing = false
  behind : block.span.stop ≤ span.start
  before : span.stop ≤ block.close.elim size (·.span.start)

section TemplateBlocks

variable {setting : Setting} {source : String} {findings : Findings} {warnings : List Warning}
  {block element : Element} {size : Nat} {site : ImportSite} {elements : List Element}

/-! ### What starts inside a block -/

/-- An element that starts behind another one's opening tag is nested with it. -/
theorem nests_of_stop_le (hblock : block ∈ Element.ofMarkup source)
    (helement : element ∈ Element.ofMarkup source) (hle : block.span.stop ≤ element.span.start) :
    block.Nests element := by
  obtain ⟨hnests, hwithin⟩ := nested_ofMarkup source
  obtain ⟨i, hi, rfl⟩ := List.mem_iff_getElem.1 hblock
  obtain ⟨j, hj, rfl⟩ := List.mem_iff_getElem.1 helement
  have hblockStart := (hwithin _ hblock).1.start_lt
  have helementStart := (hwithin _ helement).1.start_lt
  rcases Nat.lt_trichotomy i j with hlt | heq | hgt
  · exact List.pairwise_iff_getElem.1 hnests i j hi hj hlt
  · subst heq
    omega
  · have hapart := (List.pairwise_iff_getElem.1 hnests j i hj hi hgt).opening
    omega

theorem mem_elementsInside : element ∈ elementsInside block size elements ↔
    element ∈ elements ∧ block.span.stop ≤ element.span.start ∧
      element.span.start < block.close.elim size (·.span.start) := by
  simp [elementsInside]

/-- An element that starts inside a block is over when the block is closed. -/
theorem isOver_of_inside (hblock : block ∈ Element.ofMarkup source)
    (hinside : element ∈ elementsInside block source.utf8ByteSize (Element.ofMarkup source)) :
    element.IsOver (block.close.elim source.utf8ByteSize (·.span.start)) := by
  obtain ⟨helement, hle, hlt⟩ := mem_elementsInside.1 hinside
  obtain ⟨-, hwithin⟩ := nested_ofMarkup source
  cases hclose : block.close with
  | none =>
      obtain ⟨hopening, hclosing, -⟩ := hwithin element helement
      rw [Option.elim_none, utf8ByteSize_eq]
      exact ⟨hopening.le_last, fun tag htag => (hclosing tag htag).le_last⟩
  | some tag =>
      rw [hclose, Option.elim_some] at hlt
      have htag := (hwithin block hblock).2.1 tag hclose
      have hbefore := htag.start_lt
      rcases (nests_of_stop_le hblock helement hle).closing tag hclose with hbehind | hover
      · omega
      · exact hover

theorem hasInside_places (hblock : block ∈ Element.ofMarkup source)
    (hopen : block.selfClosing = false)
    (hinside : element ∈ elementsInside block source.utf8ByteSize (Element.ofMarkup source)) :
    ∀ place ∈ element.places, block.HasInside source.utf8ByteSize place := by
  have hover := isOver_of_inside hblock hinside
  obtain ⟨helement, hle, -⟩ := mem_elementsInside.1 hinside
  obtain ⟨hopening, hclosing, -⟩ := (nested_ofMarkup source).2 element helement
  obtain ⟨hname, hname'⟩ := hopening.name
  obtain ⟨hattrs, hattrs'⟩ := hopening.attrsEnd
  have hstop := hover.opening
  intro place hplace
  rw [Element.places, List.mem_cons, List.mem_cons, List.mem_map] at hplace
  rcases hplace with rfl | rfl | ⟨tag, htag, rfl⟩
  · exact ⟨hopen, Nat.le_trans hle hname, Nat.le_trans hname' hstop⟩
  · exact ⟨hopen, Nat.le_trans hle hattrs, Nat.le_trans hattrs' hstop⟩
  · have htag' := hclosing tag (Option.mem_toList.1 htag)
    have hstart := htag'.first_le
    have hstart' := hopening.start_lt
    have hend := hover.closing tag (Option.mem_toList.1 htag)
    obtain ⟨hcloseName, hcloseName'⟩ := htag'.name
    exact ⟨hopen, by omega, by omega⟩

/-! ### The edits of a plan -/

/-- An edit of a plan is one of an element that is configured, and touches its places only. -/
theorem exists_element_of_edit {edit : Edit} (h : edit ∈ (setting.plan site elements).1.plan.edits) :
    ∃ element ∈ elements, setting.registry.find? element.name ≠ none ∧
      ∀ splice ∈ edit.splices, splice.span ∈ element.places := by
  obtain ⟨sighting, hsighting, rfl⟩ := List.mem_map.1 h
  obtain ⟨element, hmem, hof⟩ := List.mem_filterMap.1 hsighting
  obtain ⟨rule, hrule, rfl⟩ := Option.map_eq_some_iff.1 hof
  refine ⟨element, hmem, by simp [hrule], ?_⟩
  intro splice hsplice
  exact (spans_edit_sublist setting.naming _).mem (List.mem_map_of_mem hsplice)

/-- Of every configured element the name is edited. -/
theorem exists_edit_of_element (hmem : element ∈ elements)
    (hfound : setting.registry.find? element.name ≠ none) :
    ∃ edit ∈ (setting.plan site elements).1.plan.edits, ∃ splice ∈ edit.splices,
      splice.span = element.nameSpan := by
  obtain ⟨rule, hrule⟩ := Option.ne_none_iff_exists'.1 hfound
  obtain ⟨sighting, hof, helement⟩ : ∃ sighting, Sighting.of? setting.registry element =
      some sighting ∧ sighting.element = element := by
    rw [Sighting.of?, hrule]
    exact ⟨_, rfl, rfl⟩
  refine ⟨sighting.edit setting.naming, List.mem_map_of_mem (List.mem_filterMap.2 ⟨_, hmem, hof⟩), ?_⟩
  unfold Sighting.edit Edit.splices
  cases sighting.definition <;> exact ⟨_, List.mem_cons_self, by rw [helement]⟩

/-- A block that closes itself has no closing tag, so all that is behind it counts as inside. -/
theorem mem_inside_of_selfClosing (hblock : block ∈ Element.ofMarkup source)
    (hself : block.selfClosing = true) (helement : element ∈ Element.ofMarkup source)
    (hle : block.span.stop ≤ element.span.start) :
    element ∈ elementsInside block source.utf8ByteSize (Element.ofMarkup source) := by
  have hwithin := (nested_ofMarkup source).2
  have hopen : block.close = none := (hwithin block hblock).2.2 (by simp [Element.isEmpty, hself])
  have helement' := (hwithin element helement).1
  refine mem_elementsInside.2 ⟨helement, hle, ?_⟩
  rw [hopen, Option.elim_none, utf8ByteSize_eq]
  exact Nat.lt_of_lt_of_le helement'.start_lt helement'.le_last

theorem edits_inside_block_iff (site : ImportSite) (hblock : block ∈ Element.ofMarkup source) :
    (∀ edit ∈ (setting.plan site
        (elementsInside block source.utf8ByteSize (Element.ofMarkup source))).1.plan.edits,
      ∀ splice ∈ edit.splices, block.HasInside source.utf8ByteSize splice.span) ↔
    (block.selfClosing = true → ∀ element ∈ Element.ofMarkup source,
      block.span.stop ≤ element.span.start → setting.registry.find? element.name = none) := by
  constructor
  · intro hinside hself element helement hle
    refine Classical.byContradiction fun hconfigured => ?_
    obtain ⟨edit, hedit, splice, hsplice, -⟩ :=
      exists_edit_of_element (mem_inside_of_selfClosing hblock hself helement hle) hconfigured
    have hopen := (hinside edit hedit splice hsplice).isOpen
    rw [hself] at hopen
    cases hopen
  · intro hclean edit hedit splice hsplice
    obtain ⟨element, hmem, hconfigured, hplaces⟩ := exists_element_of_edit hedit
    cases hself : block.selfClosing with
    | true =>
        obtain ⟨helement, hle, -⟩ := mem_elementsInside.1 hmem
        exact absurd (hclean hself element helement hle) hconfigured
    | false => exact hasInside_places hblock hself hmem _ (hplaces splice hsplice)

/--
**Edits stay inside the template.** All that a plan for a single-file component edits lies inside
its first template block exactly if that block does not close itself or no element behind it is
configured.
-/
theorem edits_inside_template_iff
    (hscan : setting.scan .vue source = .ok (findings, warnings)) :
    (∀ edit ∈ findings.plan.edits, ∀ splice ∈ edit.splices,
      ∃ block, templateBlock? (Element.ofMarkup source) = some block ∧
        block.HasInside source.utf8ByteSize splice.span) ↔
    ∀ block, templateBlock? (Element.ofMarkup source) = some block → block.selfClosing = true →
      ∀ element ∈ Element.ofMarkup source, block.span.stop ≤ element.span.start →
        setting.registry.find? element.name = none := by
  unfold Setting.scan at hscan
  split at hscan
  · next hempty =>
      cases hscan
      exact iff_of_true nofun fun _ _ _ element _ _ => find?_of_isEmpty hempty element.name
  · dsimp only at hscan
    cases hfound : templateBlock? (Element.ofMarkup source) with
    | none =>
        rw [hfound] at hscan
        cases hscan
        exact iff_of_true nofun nofun
    | some block =>
        rw [hfound] at hscan
        obtain rfl : _ = findings := congrArg Prod.fst (Except.ok.inj hscan)
        simp only [Option.some.injEq, exists_eq_left', forall_eq']
        exact edits_inside_block_iff _ (List.mem_of_find?_eq_some hfound)

/-- A widget inside the template and one behind it. -/
def templateSource : String :=
  "<template><Widget>x</Widget></template><Widget/>"

set_option maxRecDepth 100000 in
theorem edits_inside_template_of_widgets :
    ∃ findings warnings, widgetSetting.scan .vue templateSource = .ok (findings, warnings) ∧
      findings.plan.edits.length = 1 ∧
      ∀ edit ∈ findings.plan.edits, ∀ splice ∈ edit.splices,
        ∃ block, templateBlock? (Element.ofMarkup templateSource) = some block ∧
          block.HasInside templateSource.utf8ByteSize splice.span := by
  have hcomputed : (widgetSetting.scan .vue templateSource).toOption.any
      (fun found => found.1.plan.edits.length = 1) = true := by
    decide +kernel
  have hopen : (templateBlock? (Element.ofMarkup templateSource)).all (!·.selfClosing) = true := by
    decide +kernel
  obtain ⟨findings, warnings, hscan, hcheck⟩ := exists_scan_of_any hcomputed
  refine ⟨findings, warnings, hscan, of_decide_eq_true hcheck,
    (edits_inside_template_iff hscan).2 fun block hblock hself => ?_⟩
  rw [hblock, Option.all_some, hself] at hopen
  cases hopen

/-- A template that closes itself, and a widget in another block. -/
def closedTemplateSource : String :=
  "<template/><docs><Widget/></docs>"

set_option maxRecDepth 100000 in
/-- The widget is renamed. -/
theorem edit_outside_template :
    ∃ findings warnings, widgetSetting.scan .vue closedTemplateSource = .ok (findings, warnings) ∧
      ∃ edit ∈ findings.plan.edits, ∃ splice ∈ edit.splices,
        ∀ block, templateBlock? (Element.ofMarkup closedTemplateSource) = some block →
          ¬block.HasInside closedTemplateSource.utf8ByteSize splice.span := by
  have hcomputed : (widgetSetting.scan .vue closedTemplateSource).toOption.any
      (fun found => found.1.plan.edits.any fun edit => edit.splices.any fun splice =>
        splice.span = ⟨18, 24⟩) = true := by
    decide +kernel
  have hself : (templateBlock? (Element.ofMarkup closedTemplateSource)).all (·.selfClosing) = true := by
    decide +kernel
  obtain ⟨findings, warnings, hscan, hcheck⟩ := exists_scan_of_any hcomputed
  obtain ⟨edit, hedit, hsplices⟩ := List.any_eq_true.1 hcheck
  obtain ⟨splice, hsplice, -⟩ := List.any_eq_true.1 hsplices
  refine ⟨findings, warnings, hscan, edit, hedit, splice, hsplice, fun block hblock hinside => ?_⟩
  rw [hblock, Option.all_some, hinside.isOpen] at hself
  cases hself

end TemplateBlocks

end ComponentTags
