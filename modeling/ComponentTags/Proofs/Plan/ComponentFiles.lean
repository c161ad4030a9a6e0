import ComponentTags.Proofs.Element.TemplateTrees
import ComponentTags.Proofs.Plan.NewTags

/-!
Single-file components. What stands around the template stays, but for the imports: they go into the
first setup script, and into a new one at the front where there is none.
-/

namespace ComponentTags

/-- The name of the element that a part of markup is. -/
def MarkupNode.tag? : MarkupNode → Option String
  | .text _ | .comment _ | .interpolation _ => none
  | .empty name _ | .void name _ _ | .raw name _ _ _ | .full name _ _ _ _ =>
      some (String.ofList name.chars)

/-- A single-file component around the content of its template, the first one at top level. -/
structure ComponentFile where
  before : List MarkupNode
  attributes : List MarkupAttribute
  after : List MarkupNode
  isFirst : ∀ node ∈ before, node.tag? ≠ some "template"

/-! ### Texts -/

namespace ComponentFile

/-- The template with its content. -/
def block (file : ComponentFile) (content : List Char) : List Char :=
  templateName.openingChars file.attributes false ++ (content ++ templateName.closingChars)

def chars (file : ComponentFile) (content : List Char) : List Char :=
  forestChars file.before ++ (file.block content ++ forestChars file.after)

def text (file : ComponentFile) (content : List Char) : String :=
  String.ofList (file.chars content)

/-- The offset of the content. -/
def inside (file : ComponentFile) : Nat :=
  utf8Length (forestChars file.before ++ templateName.openingChars file.attributes false)

end ComponentFile

/-- A new setup script. -/
def newScript (imports : List Import) : List Char :=
  "<script setup>\n".toList ++ importLines imports ++ "\n</script>\n\n".toList

/-- The name and the value of an attribute. -/
def MarkupAttribute.value : MarkupAttribute → String × Option AttributeValue
  | .plain attr => (String.ofList attr.name.chars, attr.value)
  | .bare name value =>
      (String.ofList name.chars, some (.literal (String.ofList value.chars)))

/-- A setup script with a text behind its opening tag. -/
def MarkupNode.withSetup? (lines : List Char) : MarkupNode → Option (List Char)
  | .raw name _ attributes content =>
      if String.ofList name.chars = "script" ∧ attributes.any (·.value.1 == "setup") then
        some (name.openingChars attributes false ++ (lines ++ (content.chars ++ name.closingChars)))
      else none
  | _ => none

/-- A forest with a text behind the opening tag of its first setup script. -/
def forestWithSetup? (lines : List Char) : List MarkupNode → Option (List Char)
  | [] => none
  | node :: nodes =>
      match node.withSetup? lines with
      | some chars => some (chars ++ forestChars nodes)
      | none => (forestWithSetup? lines nodes).map (node.chars ++ ·)

/-- A single-file component with imports in its setup script. -/
def ComponentFile.importing (file : ComponentFile) (imports : List Import) (content : List Char) :
    List Char :=
  let lines := '\n' :: importLines imports
  if imports.isEmpty then file.chars content
  else
    match forestWithSetup? lines file.before, forestWithSetup? lines file.after with
    | some before, _ => before ++ (file.block content ++ forestChars file.after)
    | none, some after => forestChars file.before ++ (file.block content ++ after)
    | none, none => newScript imports ++ file.chars content

/-! ### Blocks -/

def Element.isSetup (element : Element) : Bool :=
  element.depth == 0 && element.name == "script" && (element.attribute? "setup").isSome
    && !element.selfClosing

/--
What becomes of a text in which setup scripts are looked for: there is none, or its splice rewords
the text.
-/
inductive TakesSetup (lines : List Char) (start : Nat) (text : List Char) :
    Option Element → Option (List Char) → Prop
  | none : TakesSetup lines start text none none
  | some {script : Element} {text' : List Char}
      (h : Rewords start [{ span := ⟨script.span.stop, script.span.stop⟩, text := lines }] text text') :
      TakesSetup lines start text (some script) (some text')

section Files

variable {setting : Setting} {lines content content' : List Char} {start depth : Nat}
  {elements : Nat → Nat → List Element}

/-! ### The template -/

theorem tag?_of_depth {node : MarkupNode} {element : Element}
    (h : element ∈ node.elements depth start) (hdepth : element.depth = depth) :
    node.tag? = some element.name := by
  match node with
  | .text _ | .comment _ | .interpolation _ => cases h
  | .empty name attributes | .void name _ attributes | .raw name _ attributes text =>
      obtain rfl := List.mem_singleton.1 h
      rfl
  | .full name _ _ attributes children =>
      rcases List.mem_cons.1 h with rfl | h
      · rfl
      · have hdeep := (startsIn_forest children _ _ element h).deep
        omega

theorem exists_node_of_depth {nodes : List MarkupNode} {element : Element}
    (h : element ∈ forestElements depth start nodes) (hdepth : element.depth = depth) :
    ∃ node ∈ nodes, node.tag? = some element.name := by
  induction nodes generalizing start with
  | nil => cases h
  | cons node nodes ih =>
      rcases List.mem_append.1 h with h | h
      · exact ⟨node, List.mem_cons_self, tag?_of_depth h hdepth⟩
      · obtain ⟨node', hnode, htag⟩ := ih h
        exact ⟨node', List.mem_cons_of_mem _ hnode, htag⟩

/-! ### Setup scripts -/

theorem values_opened (start : Nat) (attributes : List MarkupAttribute) :
    (MarkupAttribute.allPlaced start attributes).map (fun attr => (attr.name, attr.value)) =
      attributes.map MarkupAttribute.value := by
  induction attributes generalizing start with
  | nil => rfl
  | cons attr attributes ih =>
      rw [MarkupAttribute.allPlaced, List.map_cons, List.map_cons, ih]
      cases attr <;> rfl

theorem isSetup_opened (name : TagName) (attributes : List MarkupAttribute)
    (selfClosing : Bool) (depth start : Nat) (close : Option ClosingTag) :
    (name.opened attributes selfClosing depth start close).isSetup =
      (depth == 0 && String.ofList name.chars == "script"
        && attributes.any (·.value.1 == "setup") && !selfClosing) := by
  have hvalues := congrArg (fun values => values.any (·.1 == "setup"))
    (values_opened (start + 1 + utf8Length name.chars) attributes)
  simp only [List.any_map, Function.comp_def] at hvalues
  rw [Element.isSetup, Element.attribute?, List.isSome_find?, ← hvalues]
  rfl

theorem isSetup_of_depth {element : Element} (h : 0 < element.depth) : element.isSetup = false := by
  have hdepth : (element.depth == 0) = false := by simp; omega
  rw [Element.isSetup, hdepth]
  rfl

theorem TagName.isRaw_of_script {name : TagName} (h : String.ofList name.chars = "script") :
    name.IsRaw := by
  have hlower := name.lower_eq
  rw [h] at hlower
  rw [TagName.IsRaw, ← hlower]
  decide +kernel

theorem span_stop_opened (name : TagName) (attributes : List MarkupAttribute)
    (selfClosing : Bool) (depth start : Nat) (close : Option ClosingTag) :
    (name.opened attributes selfClosing depth start close).span.stop =
      start + utf8Length (name.openingChars attributes selfClosing) := by
  have hsize : Char.utf8Size '<' = 1 := rfl
  rw [TagName.openingChars, utf8Length, hsize, ← Nat.add_assoc]
  rfl

theorem takesSetup_node (lines : List Char) (node : MarkupNode) (start : Nat) :
    TakesSetup lines start node.chars ((node.elements 0 start).find? Element.isSetup)
      (node.withSetup? lines) := by
  cases node with
  | text | comment | interpolation => exact .none
  | empty name attributes =>
      rw [MarkupNode.elements, List.find?_cons, isSetup_opened]
      simpa using .none
  | void name isVoid attributes =>
      have hname : (String.ofList name.chars == "script") = false :=
        beq_false_of_ne fun heq => (TagName.isRaw_of_script heq).not_isVoid isVoid
      rw [MarkupNode.elements, List.find?_cons, isSetup_opened, hname]
      simpa using .none
  | raw name isRaw attributes text =>
      rw [MarkupNode.elements, List.find?_cons, isSetup_opened, MarkupNode.withSetup?,
        MarkupNode.chars]
      by_cases hsetup : String.ofList name.chars = "script" ∧
          attributes.any (·.value.1 == "setup") = true
      · have hclosing : text.chars ++ name.closingChars ≠ [] := by simp [TagName.closingChars]
        have hinsert := (Rewords.insert lines (.keep
          (start + utf8Length (name.openingChars attributes false)) _) hclosing (by simp)).behind start
          (name.openingChars attributes false)
        rw [if_pos hsetup]
        simp only [hsetup.1, hsetup.2, beq_self_eq_true, Bool.and_self, Bool.not_false]
        exact .some (by rwa [span_stop_opened])
      · rw [if_neg hsetup]
        have hnot : ((0 : Nat) == 0 && String.ofList name.chars == "script"
            && attributes.any (·.value.1 == "setup") && !false) = false := by
          simpa using hsetup
        rw [hnot]
        exact .none
  | full name notVoid notRaw attributes children =>
      have hname : (String.ofList name.chars == "script") = false :=
        beq_false_of_ne fun heq => notRaw (TagName.isRaw_of_script heq)
      have hchildren : (forestElements 1 (start + utf8Length (name.openingChars attributes false))
          children).find? Element.isSetup = none := by
        refine List.find?_eq_none.2 fun element helement => ?_
        rw [isSetup_of_depth (startsIn_forest children _ _ element helement).deep]
        exact Bool.false_ne_true
      rw [MarkupNode.elements, List.find?_cons, isSetup_opened, hname, hchildren]
      simpa using .none

theorem takesSetup_forest (lines : List Char) (nodes : List MarkupNode) (start : Nat) :
    TakesSetup lines start (forestChars nodes)
      ((forestElements 0 start nodes).find? Element.isSetup) (forestWithSetup? lines nodes) := by
  induction nodes generalizing start with
  | nil => exact .none
  | cons node nodes ih =>
      have hnode := takesSetup_node lines node start
      have hnodes := ih (start + utf8Length node.chars)
      rw [forestElements, List.find?_append, forestWithSetup?, forestChars]
      revert hnode
      generalize (node.elements 0 start).find? Element.isSetup = script?
      generalize node.withSetup? lines = text?
      intro hnode
      cases hnode with
      | some h => exact .some (h.followed _)
      | none =>
          revert hnodes
          generalize (forestElements 0 (start + utf8Length node.chars) nodes).find?
            Element.isSetup = script?
          generalize forestWithSetup? lines nodes = text?
          intro hnodes
          cases hnodes with
          | some h => exact .some (h.behind start _)
          | none => exact .none

/-! ### What a file is planned by -/

variable {file : ComponentFile} {splices : List Splice}

namespace ComponentFile

theorem inside_eq (file : ComponentFile) : file.inside =
    utf8Length (forestChars file.before)
      + utf8Length (templateName.openingChars file.attributes false) :=
  utf8Length_append _ _

/-- The element that the template is. -/
def element (file : ComponentFile) (content : List Char) : Element :=
  templateName.opened file.attributes false 0 (utf8Length (forestChars file.before))
    (some (templateName.placedClosing (file.inside + utf8Length content)))

/-- The offset of what is behind the template. -/
def behind (file : ComponentFile) (content : List Char) : Nat :=
  utf8Length (forestChars file.before) + utf8Length (file.block content)

theorem ofMarkup_text (file : ComponentFile) (h : PairsTo content elements) :
    Element.ofMarkup (file.text content) = forestElements 0 0 file.before ++
      (file.element content :: (elements 1 file.inside
        ++ forestElements 0 (file.behind content) file.after)) := by
  have hblock := h.between templateName (by decide) (by decide) file.attributes
  have hall := (pairsTo_forest file.before).append (hblock.append (pairsTo_forest file.after))
  have hfound := ofMarkup_of_pairsTo hall
  rw [text, chars, block, hfound]
  simp [element, behind, block, inside_eq]

theorem span_element (file : ComponentFile) (content : List Char) :
    (file.element content).span = ⟨utf8Length (forestChars file.before), file.inside⟩ := by
  have hstop : (file.element content).span.stop = file.inside := by
    rw [element, span_stop_opened, inside_eq]
  rw [← hstop]
  rfl

theorem templateBlock?_eq (file : ComponentFile) (content : List Char) (others : List Element) :
    templateBlock? (forestElements 0 0 file.before ++ (file.element content :: others)) =
      some (file.element content) := by
  have hnone : (forestElements 0 0 file.before).find?
      (fun element => element.depth == 0 && element.name == "template") = none := by
    refine List.find?_eq_none.2 fun element helement htemplate => ?_
    simp only [Bool.and_eq_true, beq_iff_eq] at htemplate
    obtain ⟨node, hnode, htag⟩ := exists_node_of_depth helement htemplate.1
    exact file.isFirst node hnode (htemplate.2 ▸ htag)
  rw [templateBlock?, List.find?_append, hnone, Option.none_or]
  rfl

/-- What counts as inside the template is what is found in its content. -/
theorem elementsInside_eq (file : ComponentFile) (size : Nat)
    (hinside : ∀ element ∈ elements 1 file.inside,
      element.StartsIn 1 file.inside (utf8Length content)) :
    elementsInside (file.element content) size (forestElements 0 0 file.before ++
      (file.element content :: (elements 1 file.inside
        ++ forestElements 0 (file.behind content) file.after))) = elements 1 file.inside := by
  have hopening : 0 < utf8Length (templateName.openingChars file.attributes false) :=
    utf8Length_pos (List.cons_ne_nil _ _)
  have heq := file.inside_eq
  have hbehind : file.inside + utf8Length content ≤ file.behind content := by
    simp only [behind, block, utf8Length_append]
    omega
  have hbefore := startsIn_forest file.before 0 0
  have hafter := startsIn_forest file.after 0 (file.behind content)
  have hclose : (file.element content).close.elim size (·.span.start) =
      file.inside + utf8Length content := rfl
  rw [elementsInside, hclose, span_element, List.filter_append, List.filter_cons, List.filter_append]
  rw [List.filter_eq_nil_iff.2, List.filter_eq_self.2, List.filter_eq_nil_iff.2]
  · have hself : ¬file.inside ≤ utf8Length (forestChars file.before) := by omega
    simp [span_element, hself]
  · intro element helement
    have hstart := (hafter element helement).start_le
    simp only [Bool.and_eq_true, decide_eq_true_eq]
    omega
  · intro element helement
    have hstart := hinside element helement
    have hle := hstart.start_le
    have hlt := hstart.lt_stop
    simp only [Bool.and_eq_true, decide_eq_true_eq]
    omega
  · intro element helement
    have hlt := (hbefore element helement).lt_stop
    simp only [Bool.and_eq_true, decide_eq_true_eq]
    omega

theorem setupScriptSite_eq (found : List Element) :
    setupScriptSite found =
      (found.find? Element.isSetup).elim .newSetupScript fun script => .setupScript script.span.stop := by
  unfold setupScriptSite
  dsimp only
  split
  · next script hscript =>
      have hfound : found.find? Element.isSetup = some script := hscript
      rw [hfound, Option.elim_some]
  · next hnone =>
      have hfound : found.find? Element.isSetup = none := hnone
      rw [hfound, Option.elim_none]

theorem find?_isSetup (file : ComponentFile) (content : List Char) (others : List Element)
    (hinside : ∀ element ∈ elements 1 file.inside,
      element.StartsIn 1 file.inside (utf8Length content)) :
    (forestElements 0 0 file.before ++
      (file.element content :: (elements 1 file.inside ++ others))).find? Element.isSetup =
        ((forestElements 0 0 file.before).find? Element.isSetup).or
          (others.find? Element.isSetup) := by
  have hblock : (file.element content).isSetup = false := by
    rw [element, isSetup_opened]
    rfl
  have hnone : (elements 1 file.inside).find? Element.isSetup = none := by
    refine List.find?_eq_none.2 fun element helement => ?_
    rw [isSetup_of_depth (hinside element helement).deep]
    exact Bool.false_ne_true
  rw [List.find?_append, List.find?_cons, hblock, List.find?_append, hnone, Option.none_or]

theorem importSplice?_eq {plan : Plan} (hsome : plan.imports ≠ [])
    {script? : Option Element} (hsite : plan.site =
      script?.elim .newSetupScript fun script => .setupScript script.span.stop)
    (source : List Char) :
    plan.importSplice? source = some (script?.elim
      { span := ⟨0, 0⟩, text := newScript plan.imports } fun script =>
        { span := ⟨script.span.stop, script.span.stop⟩
          text := '\n' :: importLines plan.imports }) := by
  have hnew : newScript plan.imports = ("<script setup>\n" ++ joinTexts "\n"
      (plan.imports.map Import.text) ++ "\n</script>\n\n").toList :=
    ((String.toList_append ..).trans (congrArg (· ++ _) (String.toList_append ..))).symm
  have hlines : '\n' :: importLines plan.imports =
      ("\n" ++ joinTexts "\n" (plan.imports.map Import.text)).toList := by
    rw [importLines, String.toList_append]
    rfl
  rw [Plan.importSplice?, hsite, if_neg (by simpa using hsome), hnew, hlines]
  cases script? <;> rfl

/-- The imports reword what is around the template, and the splices inside it its content. -/
theorem rewords_importing (file : ComponentFile) (plan : Plan)
    (hinside : ∀ element ∈ elements 1 file.inside,
      element.StartsIn 1 file.inside (utf8Length content))
    (hsite : plan.site = setupScriptSite (forestElements 0 0 file.before ++
      (file.element content :: (elements 1 file.inside
        ++ forestElements 0 (file.behind content) file.after))))
    (h : Rewords file.inside splices content content') (source : List Char) :
    Rewords 0 ((plan.importSplice? source).toList ++ splices) (file.chars content)
      (file.importing plan.imports content') := by
  have hblock : Rewords (0 + utf8Length (forestChars file.before)) splices (file.block content)
      (file.block content') := by
    rw [inside_eq] at h
    rw [Nat.zero_add]
    exact (h.followed _).behind _ (templateName.openingChars file.attributes false)
  have hall := (hblock.followed (forestChars file.after)).behind 0 (forestChars file.before)
  by_cases hnone : plan.imports = []
  · have himport : plan.importSplice? source = none := by simp [Plan.importSplice?, hnone]
    simpa [himport, importing, hnone, chars] using hall
  · have hbefore := takesSetup_forest ('\n' :: importLines plan.imports) file.before 0
    have hafter := takesSetup_forest ('\n' :: importLines plan.imports) file.after
      (file.behind content)
    rw [setupScriptSite_eq, find?_isSetup file content _ hinside] at hsite
    rw [importSplice?_eq hnone hsite, importing, if_neg (by simpa using hnone)]
    revert hbefore hafter
    generalize (forestElements 0 0 file.before).find? Element.isSetup = first?
    generalize (forestElements 0 (file.behind content) file.after).find? Element.isSetup = last?
    generalize forestWithSetup? ('\n' :: importLines plan.imports) file.before = before?
    generalize forestWithSetup? ('\n' :: importLines plan.imports) file.after = after?
    intro hbefore hafter
    cases hbefore with
    | some hscript => exact hscript.append (hblock.followed _)
    | none =>
        cases hafter with
        | some hscript =>
            have hbehind : 0 + utf8Length (forestChars file.before) + utf8Length (file.block content) =
                file.behind content := by
              rw [Nat.zero_add, behind]
            exact (((hblock.append (hbehind ▸ hscript)).behind 0 (forestChars file.before)).perm
              List.perm_append_comm)
        | none =>
            refine hall.insert _ (by simp [block, TagName.openingChars]) fun splice hsplice => ?_
            have hstart := (h.start_mem splice hsplice).1
            have hopening : 0 < utf8Length (templateName.openingChars file.attributes false) :=
              utf8Length_pos (List.cons_ne_nil _ _)
            have hle := file.inside_eq
            omega

theorem scan_text (setting : Setting) (file : ComponentFile) (h : PairsTo content elements)
    (hinside : ∀ element ∈ elements 1 file.inside,
      element.StartsIn 1 file.inside (utf8Length content)) :
    ∃ findings warnings site, setting.scan .vue (file.text content) = .ok (findings, warnings) ∧
      findings.plan.imports = setting.importsOf (elements 1 file.inside) ∧
      findings.plan.splices (file.chars content) =
        (setting.plan site (elements 1 file.inside)).1.plan.splices (file.chars content) ∧
      site = setupScriptSite (forestElements 0 0 file.before ++
        (file.element content :: (elements 1 file.inside
          ++ forestElements 0 (file.behind content) file.after))) := by
  unfold Setting.scan
  split
  · next hempty =>
      refine ⟨.none, [], _, rfl, ?_, (splices_of_isEmpty hempty _ _ _).symm, rfl⟩
      rw [Setting.importsOf, Setting.usedBy, sightings_of_isEmpty hempty]
      rfl
  · dsimp only
    rw [file.ofMarkup_text h, templateBlock?_eq]
    dsimp only
    rw [file.elementsInside_eq _ hinside]
    exact ⟨_, _, _, rfl, rfl, rfl, rfl⟩

/-- **A single-file component is rewritten to one whose template has the reworded content.** -/
theorem apply_text (file : ComponentFile) (h : PairsTo content elements)
    (hinside : ∀ element ∈ elements 1 file.inside,
      element.StartsIn 1 file.inside (utf8Length content))
    (hrewords : Rewords file.inside ((elements 1 file.inside).flatMap setting.splicesOf)
      content content') :
    ∃ findings warnings, setting.scan .vue (file.text content) = .ok (findings, warnings) ∧
      findings.plan.imports = setting.importsOf (elements 1 file.inside) ∧
      findings.plan.apply (file.text content) = String.ofList
        (file.importing (setting.importsOf (elements 1 file.inside)) content') := by
  obtain ⟨findings, warnings, site, hscan, himports, hsplices, hsite⟩ :=
    file.scan_text setting h hinside
  refine ⟨findings, warnings, hscan, himports, apply_of_rewords ?_⟩
  rw [text, String.toList_ofList, hsplices, Plan.splices, splices_plan]
  exact file.rewords_importing (setting.plan site _).1.plan hinside hsite hrewords _

theorem importing_inj (file : ComponentFile) (imports : List Import)
    (h : file.importing imports content = file.importing imports content') : content = content' := by
  have hchars : file.chars content = file.chars content' → content = content' := by
    simp [chars, block]
  unfold importing at h
  dsimp only at h
  split at h
  · exact hchars h
  · split at h
    · exact hchars (by simpa [chars] using h)
    · simpa [block] using h
    · exact hchars (List.append_cancel_left h)

end ComponentFile

end Files

end ComponentTags
