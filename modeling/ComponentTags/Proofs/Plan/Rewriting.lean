import ComponentTags.Proofs.Plan.ImportSites
import ComponentTags.Proofs.Plan.Patches
import Mathlib.Data.List.Flatten

/-!
Rewriting a source that was scanned. All that its plan stages is carried out, nothing else changes,
and what was changed can be taken back.
-/

namespace ComponentTags

/-- A plan whose splices are for words of the source that are apart from each other. -/
structure Plan.IsApart (plan : Plan) (source : List Char) : Prop where
  words : ∀ splice ∈ plan.splices source, IsWord source splice.span
  apart : ((plan.splices source).map Splice.span).Pairwise Span.Apart

/-- The splices of a plan in the order of the source. -/
def Plan.ordered (plan : Plan) (source : String) : List Splice :=
  (plan.splices source.toList).mergeSort Splice.before

/--
How a plan rewrites a source: the imports and the edits are each carried out once, in the order of
the source and apart from each other; nothing but characters of names is replaced, nothing else
changes, and the patches that take the others back give the source again.
-/
structure Plan.Rewrites (plan : Plan) (source : String) (patches : List Patch)
    (tail : List Char) : Prop where
  staged : (plan.ordered source).Perm
    ((plan.importSplice? source.toList).toList ++ plan.edits.flatMap Edit.splices)
  disjoint : (plan.ordered source).Pairwise fun first second =>
    first.span.stop ≤ second.span.start
  taken : Splice.taken source.toList 0 (plan.ordered source) = plan.ordered source
  splices : Patch.splices 0 patches = plan.ordered source
  source_eq : source = String.ofList (Patch.textBefore patches tail)
  output_eq : plan.apply source = String.ofList (Patch.textAfter patches tail)
  names : ∀ patch ∈ patches, ∀ ch ∈ patch.old, Lexical.isNameChar ch = true
  restored : String.ofList (Splice.applyAll (plan.apply source).toList
    (Patch.splices 0 (patches.map Patch.inverse))) = source

section Rewriting

variable {setting : Setting} {dialect : Dialect} {source : String} {text : List Char}
  {findings : Findings} {warnings : List Warning} {elements : List Element} {site : ImportSite}
  {plan : Plan} {first last : Nat}

/-! ### The splices of a plan -/

theorem spans_edit_sublist (naming : Naming) (sighting : Sighting) :
    ((sighting.edit naming).splices.map Splice.span).Sublist sighting.element.places := by
  have hclose : ∀ name : String,
      (((sighting.element.close.map ClosingTag.nameSpan).toList.map fun span =>
        ({ span, text := name.toList } : Splice)).map Splice.span).Sublist
        (sighting.element.close.toList.map ClosingTag.nameSpan) := by
    intro name
    cases sighting.element.close <;> exact .refl _
  unfold Sighting.edit Edit.splices Element.places
  cases sighting.definition with
  | ok reference => exact .cons_cons _ ((hclose _).trans (List.sublist_cons_self _ _))
  | error error => exact .cons_cons _ (.cons_cons _ (hclose _))

theorem spans_edits_sublist (registry : TagRegistry) (naming : Naming) (elements : List Element) :
    ((((elements.filterMap (Sighting.of? registry)).map (Sighting.edit naming)).flatMap
      Edit.splices).map Splice.span).Sublist (elements.flatMap Element.places) := by
  induction elements with
  | nil => exact .slnil
  | cons element elements ih =>
      rw [List.flatMap_cons]
      cases hsighting : Sighting.of? registry element with
      | none =>
          rw [List.filterMap_cons_none hsighting]
          exact ih.trans (List.sublist_append_right _ _)
      | some sighting =>
          rw [List.filterMap_cons_some hsighting, List.map_cons, List.flatMap_cons, List.map_append]
          have helement : sighting.element = element := by
            obtain ⟨rule, -, rfl⟩ := Option.map_eq_some_iff.1 hsighting
            rfl
          have hfirst := spans_edit_sublist naming sighting
          rw [helement] at hfirst
          exact hfirst.append ih

theorem span_importSplice? {splice : Splice} (h : plan.importSplice? text = some splice) :
    splice.span = ⟨plan.site.place, plan.site.place⟩ := by
  unfold Plan.importSplice? at h
  dsimp only at h
  split at h
  · cases h
  · obtain rfl := Option.some.inj h
    unfold ImportSite.place
    cases plan.site with
    | offset offset =>
        dsimp only
        split <;> rfl
    | setupScript offset => rfl
    | newSetupScript => rfl

theorem plan_isApart (setting : Setting)
    (hlaid : Laid text first last (elements.flatMap Element.places))
    (hsite : IsSite text site.place) :
    (setting.plan site elements).1.plan.IsApart text := by
  have hedits := hlaid.sublist (spans_edits_sublist setting.registry setting.naming elements)
  have hwords : ∀ splice ∈ (setting.plan site elements).1.plan.edits.flatMap Edit.splices,
      IsWord text splice.span := by
    intro splice hsplice
    exact hedits.words _ (List.mem_map_of_mem hsplice)
  cases himport : (setting.plan site elements).1.plan.importSplice? text with
  | none =>
      have hsplices : (setting.plan site elements).1.plan.splices text =
          (setting.plan site elements).1.plan.edits.flatMap Edit.splices := by
        rw [Plan.splices, himport]
        rfl
      refine ⟨?_, ?_⟩ <;> rw [hsplices]
      · exact hwords
      · exact hedits.apart
  | some imports =>
      have hspan : imports.span = ⟨site.place, site.place⟩ := span_importSplice? himport
      have hsplices : (setting.plan site elements).1.plan.splices text =
          imports :: (setting.plan site elements).1.plan.edits.flatMap Edit.splices := by
        rw [Plan.splices, himport]
        rfl
      refine ⟨?_, ?_⟩ <;> rw [hsplices]
      · intro splice hsplice
        rcases List.mem_cons.1 hsplice with rfl | hsplice
        · rw [hspan]
          exact hsite.isWord
        · exact hwords splice hsplice
      · rw [List.map_cons, hspan]
        refine .cons ?_ hedits.apart
        intro span hmem
        exact hsite.apart (hedits.words span hmem)

theorem find?_of_isEmpty {registry : TagRegistry} (h : registry.isEmpty = true) (tag : String) :
    registry.find? tag = none := by
  rw [TagRegistry.isEmpty, Std.ExtTreeMap.isEmpty_iff] at h
  rw [TagRegistry.find?, h, Std.ExtTreeMap.getElem?_empty]

theorem sightings_of_isEmpty (h : setting.registry.isEmpty = true) (elements : List Element) :
    elements.filterMap (Sighting.of? setting.registry) = [] := by
  refine List.filterMap_eq_nil_iff.2 fun element _ => ?_
  rw [Sighting.of?, find?_of_isEmpty h, Option.map_none]

/-- Without configured tags nothing is staged. -/
theorem splices_of_isEmpty (h : setting.registry.isEmpty = true) (site : ImportSite)
    (elements : List Element) (text : List Char) :
    (setting.plan site elements).1.plan.splices text = [] := by
  simp [Setting.plan, sightings_of_isEmpty h, Plan.splices, Plan.importSplice?]

theorem laid_ofCode (hcode : Element.ofCode source = .ok elements) :
    ∃ last, Laid source.toList 0 last (elements.flatMap Element.places) := by
  unfold Element.ofCode at hcode
  dsimp only at hcode
  split at hcode
  · cases hcode
  · obtain rfl := Except.ok.inj hcode
    exact ⟨_, (reads_readCode false 0 0 _).lays (Cursor.isIn_start source.toList)⟩

theorem isApart_empty (text : List Char) : Plan.empty.IsApart text :=
  ⟨by simp [Plan.splices, Plan.importSplice?, Plan.empty], .nil⟩

/-- The plan of a source stages splices that are apart from each other. -/
theorem scan_isApart (hscan : setting.scan dialect source = .ok (findings, warnings)) :
    findings.plan.IsApart source.toList := by
  unfold Setting.scan at hscan
  split at hscan
  · cases hscan
    exact isApart_empty _
  · cases dialect with
    | jsx =>
        dsimp only at hscan
        cases hcode : Element.ofCode source with
        | error severed =>
            rw [hcode] at hscan
            cases hscan
        | ok elements =>
            rw [hcode] at hscan
            obtain ⟨last, hlaid⟩ := laid_ofCode hcode
            have hsite : IsSite source.toList (ImportSite.offset (importOffset source)).place :=
              isSite_importOffset source
            have hplan := plan_isApart setting hlaid hsite
            cases hscan
            exact hplan
    | vue =>
        dsimp only at hscan
        obtain ⟨hlaid, hends⟩ := laid_ofMarkup source
        split at hscan
        · cases hscan
          exact isApart_empty _
        · next block _ =>
            have hinside : Laid source.toList 0 (utf8Length source.toList)
                ((elementsInside block source.utf8ByteSize (Element.ofMarkup source)).flatMap
                  Element.places) :=
              hlaid.sublist (List.filter_sublist.flatMap _)
            have hplan := plan_isApart setting hinside (isSite_setupScriptSite hends)
            cases hscan
            exact hplan

/-! ### What a plan makes of a source -/

theorem apply_eq (plan : Plan) (source : String) : plan.apply source =
    String.ofList (Splice.applyFrom source.toList 0 (plan.ordered source)) := by
  unfold Plan.apply
  split
  · next hempty =>
      have hplan : plan.edits = [] ∧ plan.imports = [] := by
        simpa [Plan.isEmpty] using hempty
      have hsplices : plan.splices source.toList = [] := by
        simp [Plan.splices, Plan.importSplice?, hplan]
      have hkept : dropBytes 0 source.toList = source.toList := dropBytes_append [] _
      rw [Plan.ordered, hsplices, List.mergeSort_nil, Splice.applyFrom, hkept, String.ofList_toList]
  · rfl

/-- Splices that are in order already are carried out as they are. -/
theorem toList_apply_of_pairwise (h : (plan.splices source.toList).Pairwise fun first second =>
    first.before second = true) :
    (plan.apply source).toList =
      Splice.applyFrom source.toList 0 (plan.splices source.toList) := by
  rw [apply_eq, Plan.ordered, List.mergeSort_of_pairwise h, String.toList_ofList]

theorem Plan.IsApart.rewrites (h : plan.IsApart source.toList) :
    ∃ patches tail, plan.Rewrites source patches tail := by
  have hperm := List.mergeSort_perm (plan.splices source.toList) Splice.before
  have hsorted : (plan.ordered source).Pairwise fun first second => first.before second = true :=
    @List.pairwise_mergeSort _ Splice.before (fun _ _ _ => Splice.before_trans)
      Splice.before_total _
  have hwords : ∀ splice ∈ plan.ordered source, IsWord source.toList splice.span := by
    intro splice hsplice
    exact h.words splice (hperm.mem_iff.1 hsplice)
  have hapart : ((plan.ordered source).map Splice.span).Pairwise Span.Apart :=
    ((hperm.map _).pairwise_iff Span.Apart.symm).2 h.apart
  have hordered := pairwise_stop_le hwords hapart hsorted
  obtain ⟨patches, tail, hsplices, htext, hnames⟩ :=
    exists_patches (fun splice hsplice => (hwords splice hsplice).split) hordered
      (List.nil_append source.toList).symm fun _ _ => Nat.zero_le _
  have houtput : plan.apply source = String.ofList (Patch.textAfter patches tail) := by
    rw [apply_eq, ← hsplices, htext]
    exact congrArg String.ofList (applyFrom_splices [] patches tail)
  have hsource : source = String.ofList (Patch.textBefore patches tail) := by
    rw [← htext, String.ofList_toList]
  refine ⟨patches, tail, hperm, hordered, ?_, hsplices, hsource, houtput, hnames, ?_⟩
  · rw [← hsplices, htext]
    exact taken_splices [] patches tail
  · rw [houtput, String.toList_ofList, applyAll_inverse, ← hsource]

/--
**Rewriting.** The source that a scan planned for is rewritten by all that its plan stages and by
nothing else, and the rewriting can be taken back.
-/
theorem scan_rewrites (hscan : setting.scan dialect source = .ok (findings, warnings)) :
    ∃ patches tail, findings.plan.Rewrites source patches tail :=
  (scan_isApart hscan).rewrites

/-- What a check of a scan says if it comes out well. -/
theorem exists_scan_of_any {check : Findings × List Warning → Bool}
    (h : (setting.scan dialect source).toOption.any check = true) :
    ∃ findings warnings, setting.scan dialect source = .ok (findings, warnings) ∧
      check (findings, warnings) = true := by
  cases hscan : setting.scan dialect source with
  | error severed =>
      rw [hscan] at h
      cases h
  | ok found =>
      rw [hscan] at h
      exact ⟨found.1, found.2, rfl, h⟩

/-- A setting with the one tag `Widget`. -/
def widgetSetting : Setting where
  registry := { rules := (∅ : TextMap TagRule).insert "Widget" { keyword := "def", api := default } }
  naming := .of ⟨"/w"⟩ "jsx" "c"
  fallbackSpecifier := "/w/fallback"

/-- A module with a widget in an attribute and one without a definition around another one. -/
def widgetSource : String :=
  "'use client';x = <Widget><p a=\x7b<Widget def=\"menu@1\"/>\x7d/></Widget>"

set_option maxRecDepth 100000 in
theorem scan_rewrites_of_widget :
    ∃ findings warnings, widgetSetting.scan .jsx widgetSource = .ok (findings, warnings) ∧
      (findings.plan.splices widgetSource.toList).length = 5 ∧
      ∃ patches tail, findings.plan.Rewrites widgetSource patches tail := by
  have hcomputed : (widgetSetting.scan .jsx widgetSource).toOption.map (fun found =>
      (found.1.plan.splices widgetSource.toList).length) = some 5 := by
    decide +kernel
  cases hscan : widgetSetting.scan .jsx widgetSource with
  | error severed =>
      rw [hscan] at hcomputed
      cases hcomputed
  | ok found =>
      rw [hscan] at hcomputed
      exact ⟨found.1, found.2, rfl, Option.some.inj hcomputed, scan_rewrites hscan⟩

end Rewriting

end ComponentTags
