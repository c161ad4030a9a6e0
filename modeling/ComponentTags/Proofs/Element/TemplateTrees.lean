import ComponentTags.Proofs.Element.MarkupTrees
import Mathlib.Data.List.TakeWhile

/-!
Trees of templates. Any element may be written with a closing tag in them, also one whose name in lower
case is that of an element without one, or of one with raw text; which elements reading finds then
tells what becomes of such a pair.
-/

namespace ComponentTags

/-- A part of a template: markup that is left as it is, or an element with or without content. -/
inductive TemplateNode where
  | inert (node : MarkupNode)
  | empty (name : TagName) (attributes : List MarkupAttribute)
  | paired (name : TagName) (attributes : List MarkupAttribute) (children : List TemplateNode)

/-! ### Texts and elements -/

mutual

def TemplateNode.chars : TemplateNode → List Char
  | .inert node => node.chars
  | .empty name attributes => name.openingChars attributes true
  | .paired name attributes children =>
      name.openingChars attributes false ++ (templateChars children ++ name.closingChars)

def templateChars : List TemplateNode → List Char
  | [] => []
  | node :: nodes => node.chars ++ templateChars nodes

end

mutual

/--
The elements that reading finds in a tree. Of a pair without a closing tag of its own the content
counts as what is behind it, and in one with raw text nothing is found.
-/
def TemplateNode.elements (depth start : Nat) : TemplateNode → List Element
  | .inert node => node.elements depth start
  | .empty name attributes => [name.opened attributes true depth start none]
  | .paired name attributes children =>
      let content := start + utf8Length (name.openingChars attributes false)
      let close := name.placedClosing (content + utf8Length (templateChars children))
      if name.IsVoid then
        name.opened attributes false depth start none :: templateElements depth content children
      else if name.IsRaw then
        [name.opened attributes false depth start (some close)]
      else
        name.opened attributes false depth start (some close)
          :: templateElements (depth + 1) content children

def templateElements (depth start : Nat) : List TemplateNode → List Element
  | [] => []
  | node :: nodes =>
      node.elements depth start ++ templateElements depth (start + utf8Length node.chars) nodes

end

mutual

/-- Raw text ends at the closing tag of its pair and not before. -/
def TemplateNode.EndsRaw : TemplateNode → Prop
  | .inert _ | .empty _ _ => True
  | .paired name _ children =>
      (name.IsRaw → ¬name.rawEnd <:+: (templateChars children).map Char.toLower) ∧
        TemplatesEndRaw children

def TemplatesEndRaw : List TemplateNode → Prop
  | [] => True
  | node :: nodes => node.EndsRaw ∧ TemplatesEndRaw nodes

end

/-- No element that is open has a name of elements without a closing tag. -/
def OpenElements.NoVoid (state : OpenElements) : Prop :=
  ∀ entry ∈ state.openNames, Ascii.lower entry.2 ∉ voidElementNames

/-- An element that is as deep as that or deeper, and whose opening tag starts in a stretch. -/
structure Element.StartsIn (element : Element) (depth start length : Nat) : Prop where
  deep : depth ≤ element.depth
  start_le : start ≤ element.span.start
  lt_stop : element.span.start < start + length

/-- Reading a text adds those elements and leaves open what was open. -/
structure PairsTo (text : List Char) (elements : Nat → Nat → List Element) : Prop where
  read : ∀ {c : Cursor} {rest : List Char} {state : OpenElements}, c.rest = text ++ rest →
    state.NoVoid → (markupTags c).foldl OpenElements.step state =
      (markupTags (c.past text)).foldl OpenElements.step
        (state.extended (elements state.openNames.length c.offset))

section Templates

variable {state : OpenElements} {name : TagName} {attributes : List MarkupAttribute}
  {selfClosing : Bool} {start depth : Nat} {text : List Char}

/-! ### Open elements -/

theorem not_isVoid_iff : Ascii.lower (String.ofList name.chars) ∉ voidElementNames ↔ ¬name.IsVoid := by
  rw [name.lower_eq]
  rfl

theorem OpenElements.NoVoid.opened (h : state.NoVoid) (hvoid : ¬name.IsVoid) :
    (state.opened (name.opened attributes false 0 start none)).NoVoid := by
  intro entry hentry
  rw [openNames_opened hvoid] at hentry
  rcases List.mem_cons.1 hentry with rfl | hentry
  · exact not_isVoid_iff.2 hvoid
  · exact h entry hentry

/-- A closing tag that no open element has changes nothing. -/
theorem OpenElements.NoVoid.closed (h : state.NoVoid) (hvoid : name.IsVoid) (tag : ClosingTag) :
    state.closed (String.ofList name.chars) tag = state := by
  have hnone : state.openNames.dropWhile (·.2 != String.ofList name.chars) = [] := by
    rw [List.dropWhile_eq_nil_iff]
    intro entry hentry
    rw [bne_iff_ne]
    intro heq
    have hname := h entry hentry
    rw [heq] at hname
    exact not_isVoid_iff.1 hname hvoid
  rw [OpenElements.closed, hnone]

/-! ### Reading -/

theorem pairsTo_node (node : MarkupNode) : PairsTo node.chars (node.elements · ·) where
  read := by
    intro c rest state h _
    rw [markupTags_node node h, List.foldl_append, foldl_step_node]

theorem pairsTo_forest (nodes : List MarkupNode) :
    PairsTo (forestChars nodes) (forestElements · · nodes) where
  read := by
    intro c rest state h _
    rw [markupTags_forest nodes h, List.foldl_append, foldl_step_forest]

namespace PairsTo

theorem nil : PairsTo [] fun _ _ => [] where
  read := by
    intro c rest state _ _
    simp [OpenElements.extended, Cursor.past, Cursor.drop]

theorem append {text' : List Char} {elements elements' : Nat → Nat → List Element}
    (h : PairsTo text elements) (h' : PairsTo text' elements') :
    PairsTo (text ++ text') fun depth start =>
      elements depth start ++ elements' depth (start + utf8Length text) where
  read := by
    intro c rest state hrest hstate
    have hfirst : c.rest = text ++ (text' ++ rest) := by rw [hrest, List.append_assoc]
    have hstate' : (state.extended (elements state.openNames.length c.offset)).NoVoid := hstate
    rw [h.read hfirst hstate, h'.read (Cursor.rest_past _ hfirst) hstate', Cursor.past_append,
      Cursor.offset_past _ hfirst, extended_append]
    rfl

/-- A pair around what is read one deeper. -/
theorem between {elements : Nat → Nat → List Element} (h : PairsTo text elements)
    (name : TagName) (notVoid : ¬name.IsVoid) (notRaw : ¬name.IsRaw) (attributes : List MarkupAttribute) :
    PairsTo (name.openingChars attributes false ++ (text ++ name.closingChars)) fun depth start =>
      let content := start + utf8Length (name.openingChars attributes false)
      name.opened attributes false depth start
          (some (name.placedClosing (content + utf8Length text)))
        :: elements (depth + 1) content where
  read := by
    intro c rest state hrest hstate
    have hopening : c.rest = name.openingChars attributes false ++
        (text ++ (name.closingChars ++ rest)) := by
      simp only [hrest, List.append_assoc]
    have hcontent := Cursor.rest_past _ hopening
    have hclosing := Cursor.rest_past _ hcontent
    have hdepth : (state.opened (name.opened attributes false 0 c.offset none)).openNames.length =
        state.openNames.length + 1 := by
      rw [openNames_opened notVoid, List.length_cons]
    rw [markupTags_pastOpening hopening, skipRawText_of_not_isRaw notRaw, List.foldl_cons,
      OpenElements.step, h.read hcontent (hstate.opened notVoid), markupTags_pastClosing hclosing,
      List.foldl_cons, TagName.markupClosing, OpenElements.step, closed_extended notVoid, hdepth,
      Cursor.offset_past _ hcontent, Cursor.offset_past _ hopening, Cursor.past_append,
      Cursor.past_append]

/-- A closing tag that no element has. -/
theorem closing (isVoid : name.IsVoid) : PairsTo name.closingChars fun _ _ => [] where
  read := by
    intro c rest state h hstate
    rw [markupTags_pastClosing h, List.foldl_cons, TagName.markupClosing, OpenElements.step,
      hstate.closed isVoid]
    simp [OpenElements.extended]

end PairsTo

-- By induction on the tree; without open void names the closing tags of such names close nothing.
mutual

theorem pairsTo_template (node : TemplateNode) (hraw : node.EndsRaw) :
    PairsTo node.chars (node.elements · ·) := by
  match node with
  | .inert node => exact pairsTo_node node
  | .empty name attributes => exact pairsTo_node (.empty name attributes)
  | .paired name attributes children =>
      obtain ⟨hend, hchildren⟩ := hraw
      have hinside := pairsTo_templates children hchildren
      by_cases isVoid : name.IsVoid
      · have hread := (pairsTo_node (.void name isVoid attributes)).append
          (hinside.append (.closing isVoid))
        simpa [TemplateNode.chars, TemplateNode.elements, isVoid, MarkupNode.chars,
          MarkupNode.elements] using hread
      · by_cases isRaw : name.IsRaw
        · have hread := pairsTo_node (.raw name isRaw attributes ⟨_, hend isRaw⟩)
          simpa [TemplateNode.chars, TemplateNode.elements, isVoid, isRaw, MarkupNode.chars,
            MarkupNode.elements, utf8Length_append, Nat.add_assoc] using hread
        · have hread := hinside.between name isVoid isRaw attributes
          simpa [TemplateNode.chars, TemplateNode.elements, isVoid, isRaw] using hread

theorem pairsTo_templates (nodes : List TemplateNode) (hraw : TemplatesEndRaw nodes) :
    PairsTo (templateChars nodes) (templateElements · · nodes) := by
  match nodes with
  | [] => exact .nil
  | node :: nodes => exact (pairsTo_template node hraw.1).append (pairsTo_templates nodes hraw.2)

end

/-- What is found in a text by itself. -/
theorem ofMarkup_of_pairsTo {elements : Nat → Nat → List Element} (h : PairsTo text elements) :
    Element.ofMarkup (String.ofList text) = elements 0 0 := by
  have hstart : (Cursor.start text).rest = text ++ [] := by simp [Cursor.start]
  have hend := markupTags_end (Cursor.rest_past _ hstart)
  have hstate : OpenElements.NoVoid ⟨#[], []⟩ := by simp [OpenElements.NoVoid]
  rw [Element.ofMarkup, String.toList_ofList, h.read hstart hstate, hend]
  simp [OpenElements.extended, Cursor.start]

/-! ### Where elements start -/

theorem Element.StartsIn.within {element : Element} {depth' start' length length' : Nat}
    (h : element.StartsIn depth' start' length) (hdepth : depth ≤ depth') (hstart : start ≤ start')
    (hstop : start' + length ≤ start + length') : element.StartsIn depth start length' :=
  ⟨Nat.le_trans hdepth h.deep, Nat.le_trans hstart h.start_le, Nat.lt_of_lt_of_le h.lt_stop hstop⟩

theorem startsIn_append {first second : List Element} {length length' : Nat}
    (h : ∀ element ∈ first, element.StartsIn depth start length)
    (h' : ∀ element ∈ second, element.StartsIn depth (start + length) length') :
    ∀ element ∈ first ++ second, element.StartsIn depth start (length + length') := by
  rw [List.forall_mem_append]
  constructor
  · exact fun element helement =>
      (h element helement).within (Nat.le_refl _) (Nat.le_refl _) (by omega)
  · exact fun element helement =>
      (h' element helement).within (Nat.le_refl _) (Nat.le_add_right _ _) (by omega)

theorem startsIn_opened (name : TagName) (attributes : List MarkupAttribute) (selfClosing : Bool)
    (depth start : Nat) (close : Option ClosingTag) (rest : List Char) :
    (name.opened attributes selfClosing depth start close).StartsIn depth start
      (utf8Length (name.openingChars attributes selfClosing ++ rest)) where
  deep := Nat.le_refl _
  start_le := Nat.le_refl _
  lt_stop := by
    have hsize := Char.utf8Size_pos '<'
    rw [TagName.openingChars, List.cons_append, utf8Length]
    exact Nat.lt_add_of_pos_right (by omega)

-- Of a pair the content starts behind the opening tag, and of a list the rest behind the first.
mutual

theorem startsIn_node (node : MarkupNode) (depth start : Nat) :
    ∀ element ∈ node.elements depth start, element.StartsIn depth start (utf8Length node.chars) := by
  match node with
  | .text _ | .comment _ | .interpolation _ => nofun
  | .empty name attributes | .void name _ attributes =>
      rw [MarkupNode.elements, List.forall_mem_singleton]
      simpa [MarkupNode.chars] using startsIn_opened name attributes _ depth start none []
  | .raw name isRaw attributes text =>
      rw [MarkupNode.elements, List.forall_mem_singleton]
      exact startsIn_opened name attributes false depth start _ _
  | .full name _ _ attributes children =>
      have hchildren := startsIn_forest children (depth + 1)
        (start + utf8Length (name.openingChars attributes false))
      rw [MarkupNode.elements, List.forall_mem_cons]
      refine ⟨startsIn_opened name attributes false depth start _ _, fun element helement => ?_⟩
      refine (hchildren element helement).within (Nat.le_succ _) (Nat.le_add_right _ _) ?_
      simp only [MarkupNode.chars, utf8Length_append]
      omega

theorem startsIn_forest (nodes : List MarkupNode) (depth start : Nat) :
    ∀ element ∈ forestElements depth start nodes,
      element.StartsIn depth start (utf8Length (forestChars nodes)) := by
  match nodes with
  | [] => nofun
  | node :: nodes =>
      rw [forestElements, forestChars, utf8Length_append]
      exact startsIn_append (startsIn_node node depth start) (startsIn_forest nodes depth _)

end

mutual

theorem startsIn_template (node : TemplateNode) (depth start : Nat) :
    ∀ element ∈ node.elements depth start, element.StartsIn depth start (utf8Length node.chars) := by
  match node with
  | .inert node => exact startsIn_node node depth start
  | .empty name attributes => exact startsIn_node (.empty name attributes) depth start
  | .paired name attributes children =>
      have hchildren : ∀ depth', depth ≤ depth' → ∀ element ∈ templateElements depth'
          (start + utf8Length (name.openingChars attributes false)) children, element.StartsIn depth
            start (utf8Length (TemplateNode.paired name attributes children).chars) := by
        intro depth' hdepth element helement
        refine (startsIn_templates children _ _ element helement).within hdepth
          (Nat.le_add_right _ _) ?_
        simp only [TemplateNode.chars, utf8Length_append]
        omega
      have hopened : ∀ close, (name.opened attributes false depth start close).StartsIn depth start
          (utf8Length (TemplateNode.paired name attributes children).chars) :=
        fun close => startsIn_opened name attributes false depth start close _
      rw [TemplateNode.elements]
      split
      · exact List.forall_mem_cons.2 ⟨hopened _, hchildren depth (Nat.le_refl _)⟩
      · split
        · exact List.forall_mem_singleton.2 (hopened _)
        · exact List.forall_mem_cons.2 ⟨hopened _, hchildren (depth + 1) (Nat.le_succ _)⟩

theorem startsIn_templates (nodes : List TemplateNode) (depth start : Nat) :
    ∀ element ∈ templateElements depth start nodes,
      element.StartsIn depth start (utf8Length (templateChars nodes)) := by
  match nodes with
  | [] => nofun
  | node :: nodes =>
      rw [templateElements, templateChars, utf8Length_append]
      exact startsIn_append (startsIn_template node depth start)
        (startsIn_templates nodes depth _)

end

end Templates

end ComponentTags
