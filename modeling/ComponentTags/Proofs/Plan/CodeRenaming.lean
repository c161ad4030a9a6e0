import ComponentTags.Proofs.Element.CodePrograms
import ComponentTags.Proofs.Plan.Directives
import ComponentTags.Proofs.Plan.NewTags

/-!
Renaming the elements of a program. What the plan for a program makes of it is the program in which
every configured element has its new tag, with the imports behind its directives.
-/

namespace ComponentTags

/-! ### Renamed trees -/

/-- The name and the value of an attribute; a spread has none. -/
def CodeAttribute.value? : CodeAttribute → Option (String × Option AttributeValue)
  | .plain attr _ => some (String.ofList attr.name.chars, attr.value)
  | .text name _ quote value =>
      some (String.ofList name.chars,
        some (.expression (String.ofList (quote.around value.chars))))
  | .tree name _ element =>
      some (String.ofList name.chars, some (.expression (String.ofList ('<' :: element.tail))))
  | .spread _ => none

theorem suitsCode_tagAttribute : NewTag.tagAttribute.SuitsCode :=
  ⟨by decide, by decide⟩

theorem suitsCode_definitionAttribute : NewTag.definitionAttribute.SuitsCode :=
  ⟨by decide, by decide⟩

theorem NewTag.suitsCode {attr : PlainAttribute} {new : NewTag} (h : attr ∈ new.attributes) :
    attr.name.SuitsCode := by
  unfold NewTag.attributes at h
  split at h
  · cases h
  · rcases List.mem_cons.1 h with rfl | h
    · exact suitsCode_tagAttribute
    · obtain rfl := List.mem_singleton.1 h
      exact suitsCode_definitionAttribute

theorem suitsCode_told {attr : PlainAttribute} {new? : Option NewTag}
    (h : attr ∈ toldAttributes new?) : attr.name.SuitsCode := by
  cases new? with
  | none => cases h
  | some new => exact NewTag.suitsCode h

/-- The attributes that a tag in code gets. -/
def toldCode (new? : Option NewTag) : List CodeAttribute :=
  (toldAttributes new?).pmap CodeAttribute.plain fun _ => suitsCode_told

mutual

def CodeElement.renamed (change : Renaming) : CodeElement → CodeElement
  | .empty name attributes =>
      let new? := change name (attributes.filterMap CodeAttribute.value?)
      .empty (name.changed new?) (attributesRenamed change attributes ++ toldCode new?)
  | .full name attributes children =>
      let new? := change name (attributes.filterMap CodeAttribute.value?)
      .full (name.changed new?) (attributesRenamed change attributes ++ toldCode new?)
        (childrenRenamed change children)

def CodeAttribute.renamed (change : Renaming) : CodeAttribute → CodeAttribute
  | .plain attr suits => .plain attr suits
  | .text name suits quote value => .text name suits quote value
  | .tree name suits element => .tree name suits (element.renamed change)
  | .spread code => .spread code

def attributesRenamed (change : Renaming) : List CodeAttribute → List CodeAttribute
  | [] => []
  | attr :: attributes => attr.renamed change :: attributesRenamed change attributes

def CodeChild.renamed (change : Renaming) : CodeChild → CodeChild
  | .text text => .text text
  | .element element => .element (element.renamed change)
  | .hole element => .hole (element.renamed change)

def childrenRenamed (change : Renaming) : List CodeChild → List CodeChild
  | [] => []
  | child :: children => child.renamed change :: childrenRenamed change children

end

def CodeStatement.renamed (change : Renaming) : CodeStatement → CodeStatement
  | .assignment target element => .assignment target (element.renamed change)
  | statement => statement

def CodeProgram.renamed (change : Renaming) (program : CodeProgram) : CodeProgram :=
  { program with statements := program.statements.map (CodeStatement.renamed change) }

/-! ### Imports -/

/-- The statements up to the last directive at the front, and those behind it. -/
def splitDirectives : List CodeStatement → List CodeStatement × List CodeStatement
  | .string quote value :: statements =>
      (.string quote value :: (splitDirectives statements).1, (splitDirectives statements).2)
  | .blanks run :: statements =>
      if (splitDirectives statements).1.isEmpty then ([], .blanks run :: statements)
      else (.blanks run :: (splitDirectives statements).1, (splitDirectives statements).2)
  | statements => ([], statements)

/-- Imports behind directives or, if there are none, at the front of a program. -/
def importsBehind (directives : List CodeStatement) (imports : List Import) : List Char :=
  if imports.isEmpty then []
  else if directives.isEmpty then
    (String.join (imports.map fun declaration => declaration.text ++ "\n")).toList
  else '\n' :: importLines imports

/-- A program with imports behind its directives. -/
def CodeProgram.importing (program : CodeProgram) (imports : List Import) : List Char :=
  let (directives, others) := splitDirectives program.statements
  statementsChars directives
    ++ (importsBehind directives imports
      ++ (statementsChars others ++ lastLineChars program.lastLine))

/-! ### Rewording trees -/

section Trees

variable {setting : Setting} {start depth : Nat}

theorem attributesChars_append (attributes more : List CodeAttribute) :
    attributesChars (attributes ++ more) = attributesChars attributes ++ attributesChars more := by
  induction attributes with
  | nil => simp [attributesChars]
  | cons attr attributes ih => simp [attributesChars, ih]

theorem attributesChars_plain (attributes : List PlainAttribute)
    (suits : ∀ attr ∈ attributes, attr.name.SuitsCode) :
    attributesChars (attributes.pmap CodeAttribute.plain suits) =
      attributes.flatMap fun attr => ' ' :: attr.chars := by
  induction attributes with
  | nil => rfl
  | cons attr attributes ih =>
      rw [List.pmap_cons, attributesChars, List.flatMap_cons, ih]
      simp [CodeAttribute.chars]

theorem attributesChars_told (new? : Option NewTag) :
    attributesChars (toldCode new?) = toldChars new? :=
  attributesChars_plain _ _

theorem values_placed (start : Nat) (attributes : List CodeAttribute) :
    (attributesPlaced start attributes).map (fun attr => (attr.name, attr.value)) =
      attributes.filterMap CodeAttribute.value? := by
  induction attributes generalizing start with
  | nil => rfl
  | cons attr attributes ih =>
      rw [attributesPlaced, List.map_append, ih, List.filterMap_cons]
      cases attr <;> rfl

/-- The splices of an element in code are those of the tag that its name and attributes give. -/
theorem splicesOf_code (names : setting.naming.NamesTags) (name : TagName)
    (attributes : List CodeAttribute) (inside : Nat) (selfClosing : Bool) (depth start : Nat)
    (close : Option ClosingTag) :
    setting.splicesOf (name.placed (attributesChars attributes) (attributesPlaced inside attributes)
        selfClosing depth start close) =
      (setting.newTag? names name (attributes.filterMap CodeAttribute.value?)).toList.flatMap
        (·.splices (name.placed (attributesChars attributes) (attributesPlaced inside attributes)
          selfClosing depth start close)) := by
  rw [splicesOf_eq names rfl, Element.values, TagName.placed, values_placed]

-- By induction on the tree, from behind the `<` of each element on.
mutual

/-- **The splices of a tree in code reword it to the renamed tree.** -/
theorem rewords_codeElement (names : setting.naming.NamesTags) (element : CodeElement)
    (depth start : Nat) :
    Rewords (start + 1) ((element.elements depth start).flatMap setting.splicesOf) element.tail
      (element.renamed (setting.newTag? names)).tail := by
  match element with
  | .empty name attributes =>
      have hattributes := rewords_codeAttributes names attributes (depth + 1)
        (start + 1 + utf8Length name.chars)
      have hsingle := rewords_single
        (setting.newTag? names name (attributes.filterMap CodeAttribute.value?)) name
        (attributesPlaced (start + 1 + utf8Length name.chars) attributes) true depth start
        hattributes
      rw [CodeElement.elements, List.flatMap_cons, splicesOf_code names, CodeElement.renamed,
        CodeElement.tail, CodeElement.tail, attributesChars_append, attributesChars_told]
      exact hsingle
  | .full name attributes children =>
      have hattributes := rewords_codeAttributes names attributes (depth + 1)
        (start + 1 + utf8Length name.chars)
      have hchildren := rewords_codeChildren names children (depth + 1)
        (start + 1 + utf8Length (name.chars ++ (attributesChars attributes ++ tagEnd false)))
      have hpair := rewords_pair
        (setting.newTag? names name (attributes.filterMap CodeAttribute.value?)) name
        (attributesPlaced (start + 1 + utf8Length name.chars) attributes) depth start hattributes
        hchildren
      rw [CodeElement.elements, List.flatMap_cons, List.flatMap_append, splicesOf_code names,
        CodeElement.renamed, CodeElement.tail, CodeElement.tail, attributesChars_append,
        attributesChars_told]
      exact hpair

theorem rewords_codeAttributes (names : setting.naming.NamesTags)
    (attributes : List CodeAttribute) (depth start : Nat) :
    Rewords start ((attributesElements depth start attributes).flatMap setting.splicesOf)
      (attributesChars attributes)
      (attributesChars (attributesRenamed (setting.newTag? names) attributes)) := by
  match attributes with
  | [] => exact .keep start []
  | attr :: attributes =>
      have hattr := (rewords_codeAttribute names attr depth (start + 1)).behind start [' ']
      have hattributes := rewords_codeAttributes names attributes depth
        (start + utf8Length (' ' :: attr.chars))
      rw [attributesElements, List.flatMap_append, attributesRenamed, attributesChars,
        attributesChars]
      exact hattr.append hattributes

theorem rewords_codeAttribute (names : setting.naming.NamesTags) (attr : CodeAttribute)
    (depth start : Nat) :
    Rewords start ((attr.elements depth start).flatMap setting.splicesOf) attr.chars
      (attr.renamed (setting.newTag? names)).chars := by
  match attr with
  | .plain attr suits => exact .keep start _
  | .text name suits quote value => exact .keep start _
  | .tree name suits element =>
      have helement := rewords_codeElement names element depth
        (start + utf8Length (name.chars ++ ['=', '{']))
      have hbraces := ((helement.behind _ ['<']).followed ['}']).behind start
        (name.chars ++ ['=', '{'])
      rw [CodeAttribute.elements, CodeAttribute.renamed, CodeAttribute.chars, CodeAttribute.chars,
        bracesChars, bracesChars]
      simpa using hbraces
  | .spread code => exact .keep start _

theorem rewords_codeChildren (names : setting.naming.NamesTags) (children : List CodeChild)
    (depth start : Nat) :
    Rewords start ((childrenElements depth start children).flatMap setting.splicesOf)
      (childrenChars children)
      (childrenChars (childrenRenamed (setting.newTag? names) children)) := by
  match children with
  | [] => exact .keep start []
  | child :: children =>
      have hchild := rewords_codeChild names child depth start
      have hchildren := rewords_codeChildren names children depth
        (start + utf8Length child.chars)
      rw [childrenElements, List.flatMap_append, childrenRenamed, childrenChars, childrenChars]
      exact hchild.append hchildren

theorem rewords_codeChild (names : setting.naming.NamesTags) (child : CodeChild)
    (depth start : Nat) :
    Rewords start ((child.elements depth start).flatMap setting.splicesOf) child.chars
      (child.renamed (setting.newTag? names)).chars := by
  match child with
  | .text text => exact .keep start _
  | .element element => exact (rewords_codeElement names element depth start).behind start ['<']
  | .hole element =>
      have helement := rewords_codeElement names element depth (start + 1)
      have hhole := ((helement.behind _ ['<']).followed ['}']).behind start ['{']
      rw [CodeChild.elements, CodeChild.renamed, CodeChild.chars, CodeChild.chars]
      exact hhole

end

theorem rewords_statement (names : setting.naming.NamesTags) (statement : CodeStatement)
    (start : Nat) :
    Rewords start ((statement.elements start).flatMap setting.splicesOf) statement.chars
      (statement.renamed (setting.newTag? names)).chars := by
  cases statement with
  | assignment target element =>
      have helement := rewords_codeElement names element 0
        (start + utf8Length (target.chars ++ " = ".toList))
      have hassigned := ((helement.behind _ ['<']).behind start
        (target.chars ++ " = ".toList)).followed [';']
      exact hassigned
  | string | line | block | template | arrow | blanks => exact .keep start _

theorem statementsChars_cons (statement : CodeStatement) (statements : List CodeStatement) :
    statementsChars (statement :: statements) = statement.chars ++ statementsChars statements :=
  List.flatMap_cons

theorem rewords_statements (names : setting.naming.NamesTags) (statements : List CodeStatement)
    (start : Nat) :
    Rewords start ((statementsElements start statements).flatMap setting.splicesOf)
      (statementsChars statements)
      (statementsChars (statements.map (CodeStatement.renamed (setting.newTag? names)))) := by
  induction statements generalizing start with
  | nil => exact .keep start []
  | cons statement statements ih =>
      rw [statementsElements, List.flatMap_append, List.map_cons, statementsChars_cons,
        statementsChars_cons]
      exact (rewords_statement names statement start).append (ih _)

/-- Statements begin with something else than an edited name. -/
theorem start_lt_of_statements (names : setting.naming.NamesTags)
    (statements : List CodeStatement) (start : Nat) :
    ∀ splice ∈ (statementsElements start statements).flatMap setting.splicesOf,
      start < splice.span.start := by
  induction statements generalizing start with
  | nil => simp [statementsElements]
  | cons statement statements ih =>
      rw [statementsElements, List.flatMap_append, List.forall_mem_append]
      refine ⟨?_, fun splice hsplice => Nat.lt_of_le_of_lt (Nat.le_add_right _ _) (ih _ splice hsplice)⟩
      cases statement with
      | assignment target element =>
          intro splice hsplice
          have hmem := (rewords_codeElement names element 0 _).start_mem splice hsplice
          omega
      | string | line | block | template | arrow | blanks => simp [CodeStatement.elements]

/-! ### Where the imports go -/

theorem splitDirectives_append (statements : List CodeStatement) :
    (splitDirectives statements).1 ++ (splitDirectives statements).2 = statements := by
  fun_induction splitDirectives statements with
  | case1 quote value statements ih => rw [List.cons_append, ih]
  | case2 run statements _ _ => rfl
  | case3 run statements _ ih => rw [List.cons_append, ih]
  | case4 statements => rfl

theorem splitDirectives_renamed (change : Renaming) (statements : List CodeStatement) :
    splitDirectives (statements.map (CodeStatement.renamed change)) =
      ((splitDirectives statements).1.map (CodeStatement.renamed change),
        (splitDirectives statements).2.map (CodeStatement.renamed change)) := by
  induction statements with
  | nil => rfl
  | cons statement statements ih =>
      cases statement with
      | string quote value => simp [CodeStatement.renamed, splitDirectives, ih]
      | blanks run =>
          simp only [List.map_cons, CodeStatement.renamed, splitDirectives, ih, List.isEmpty_map]
          split <;> rfl
      | line | block | template | arrow | assignment => rfl

/-- What stands behind the directives is none: neither a quote nor a blank. -/
theorem directiveLength?_statement {statement : CodeStatement}
    (h : ∀ quote value, statement ≠ .string quote value) (h' : ∀ run, statement ≠ .blanks run) (rest : List Char) :
    directiveLength? (statement.chars ++ rest) = none := by
  have hword : ∀ (word : Word) (more : List Char), directiveLength? (word.chars ++ more) = none := by
    intro word more
    obtain ⟨ch, chars, hchars⟩ := List.exists_cons_of_ne_nil word.nonempty
    have hch : isPlainChar ch = true ∧ Lexical.isWordChar ch = true := by
      have hmem : ch ∈ word.chars := by rw [hchars]; exact List.mem_cons_self
      exact ⟨word.isPlain ch hmem, word.all ch hmem⟩
    rw [hchars]
    refine directiveLength?_of_ne ?_ ?_ _
    · refine Bool.eq_false_iff.2 fun hblank => ?_
      simp only [Ascii.isBlank, Bool.or_eq_true, beq_iff_eq] at hblank
      rcases hblank with (((rfl | rfl) | rfl) | rfl) | rfl <;> exact absurd hch.2 (by decide)
    · constructor <;> rintro rfl <;> exact absurd hch.1 (by decide)
  cases statement with
  | string quote value => exact absurd rfl (h quote value)
  | blanks run => exact absurd rfl (h' run)
  | line text => exact directiveLength?_of_ne (by decide) (by decide) _
  | block text noEnd => exact directiveLength?_of_ne (by decide) (by decide) _
  | template text noHole ended => exact directiveLength?_of_ne (by decide) (by decide) _
  | arrow name parameter bound argument =>
      rw [CodeStatement.chars, List.append_assoc, List.append_assoc]
      exact hword name _
  | assignment target element =>
      rw [CodeStatement.chars, List.append_assoc, List.append_assoc, List.append_assoc]
      exact hword target _

theorem directiveLength?_lastLine (lastLine : Option (Run (· != '\n'))) :
    directiveLength? (lastLineChars lastLine) = none := by
  cases lastLine with
  | none => rfl
  | some text => exact directiveLength?_of_ne (by decide) (by decide) _

variable {before : List Char}

theorem directivesLength_of_blanks (hbefore : ∀ ch ∈ before, Ascii.isBlank ch = true)
    {text : List Char} (h : directiveLength? text = none) : directivesLength (before ++ text) = 0 := by
  refine directivesLength_of_none ?_
  rw [directiveLength?_append hbefore, h]
  rfl

/-- **The directives of a program** are the strings at its front, with the blanks between them. -/
theorem directivesLength_statements (before : List Char) (statements : List CodeStatement)
    (lastLine : Option (Run (· != '\n'))) (hbefore : ∀ ch ∈ before, Ascii.isBlank ch = true) :
    directivesLength (before ++ (statementsChars statements ++ lastLineChars lastLine)) =
      if (splitDirectives statements).1.isEmpty then 0
      else (before ++ statementsChars (splitDirectives statements).1).length := by
  induction statements generalizing before with
  | nil => exact directivesLength_of_blanks hbefore (directiveLength?_lastLine lastLine)
  | cons statement statements ih =>
      rw [statementsChars_cons, List.append_assoc]
      cases statement with
      | string quote value =>
          have hstring : directiveLength? (before ++ ((CodeStatement.string quote value).chars ++
              (statementsChars statements ++ lastLineChars lastLine))) =
                some (before ++ (CodeStatement.string quote value).chars).length := by
            have hend : directiveEnd? ([] ++ ';' :: (statementsChars statements
                ++ lastLineChars lastLine)) = some 1 :=
              directiveEnd?_semicolon (by simp) _
            rw [List.nil_append] at hend
            rw [directiveLength?_append hbefore, CodeStatement.chars, List.append_assoc,
              directiveLength?_around, List.singleton_append, hend]
            simp [Quote.around]
          have hthen := ih [] (by simp)
          rw [List.nil_append, List.nil_append] at hthen
          rw [directivesLength_of_some hstring, ← List.append_assoc, List.drop_left, hthen,
            splitDirectives]
          simp only [List.isEmpty_cons, Bool.false_eq_true, if_false, statementsChars_cons]
          split
          · next hnone => simp [List.isEmpty_iff.1 hnone, statementsChars]
          · simp only [List.length_append, Nat.add_assoc]
      | blanks run =>
          have hthen := ih (before ++ run.chars)
            (List.forall_mem_append.2 ⟨hbefore, run.all⟩)
          rw [List.append_assoc] at hthen
          rw [CodeStatement.chars, hthen, splitDirectives]
          split
          · rfl
          · simp only [List.isEmpty_cons, Bool.false_eq_true, if_false, statementsChars_cons,
              CodeStatement.chars, List.append_assoc]
      | line | block | template | arrow | assignment =>
          exact directivesLength_of_blanks hbefore
            (directiveLength?_statement (by simp) (by simp) _)

/-- No program begins as a shebang line does. -/
theorem head_statements (statements : List CodeStatement) (lastLine : Option (Run (· != '\n'))) :
    ∀ ch ∈ (statementsChars statements ++ lastLineChars lastLine).head?, ch ≠ '#' := by
  have hword : ∀ (word : Word) (more : List Char), ∀ ch ∈ (word.chars ++ more).head?, ch ≠ '#' := by
    rintro word more ch hch rfl
    rw [List.head?_append_of_ne_nil _ word.nonempty] at hch
    exact absurd (word.all '#' (List.mem_of_head? hch)) (by decide)
  induction statements with
  | nil =>
      cases lastLine with
      | none => nofun
      | some text =>
          rintro ch ⟨⟩
          decide
  | cons statement statements ih =>
      rw [statementsChars_cons, List.append_assoc]
      cases statement with
      | string quote value =>
          rintro ch ⟨⟩
          cases quote <;> decide
      | line | block | template =>
          rintro ch ⟨⟩
          decide
      | arrow name parameter bound argument =>
          rw [CodeStatement.chars, List.append_assoc, List.append_assoc]
          exact hword name _
      | assignment target element =>
          rw [CodeStatement.chars, List.append_assoc, List.append_assoc, List.append_assoc]
          exact hword target _
      | blanks run =>
          rintro ch hch rfl
          rw [CodeStatement.chars, List.head?_append] at hch
          rcases Option.or_eq_some_iff.1 hch with hrun | ⟨-, hlater⟩
          · exact absurd (run.all '#' (List.mem_of_head? hrun)) (by decide)
          · exact ih '#' hlater rfl

theorem chars_split (program : CodeProgram) :
    program.chars = statementsChars (splitDirectives program.statements).1 ++
      (statementsChars (splitDirectives program.statements).2 ++ lastLineChars program.lastLine) := by
  rw [← List.append_assoc, statementsChars, statementsChars, ← List.flatMap_append,
    splitDirectives_append]
  rfl

theorem importOffset_text (program : CodeProgram) :
    importOffset program.text =
      utf8Length (statementsChars (splitDirectives program.statements).1) := by
  have hshebang : shebangLength program.chars = 0 := by
    rw [shebangLength, if_neg]
    intro hprefix
    obtain ⟨rest, hrest⟩ := List.isPrefixOf_iff_prefix.1 hprefix
    exact head_statements program.statements program.lastLine '#'
      (by rw [← CodeProgram.chars, ← hrest]; rfl) rfl
  have hlength := directivesLength_statements [] program.statements program.lastLine
    (by simp)
  rw [importOffset, CodeProgram.text, String.toList_ofList, hshebang, List.drop_zero, Nat.zero_add]
  rw [List.nil_append, List.nil_append, ← CodeProgram.chars] at hlength
  rw [hlength]
  split
  · next hnone => rw [List.isEmpty_iff.1 hnone, List.take_zero]; rfl
  · rw [chars_split, List.take_left]

theorem getLast?_directives {statements : List CodeStatement}
    (h : (splitDirectives statements).1 ≠ []) :
    (statementsChars (splitDirectives statements).1).getLast? = some ';' := by
  induction statements with
  | nil => exact absurd rfl h
  | cons statement statements ih =>
      have hlater : ∀ first, splitDirectives (statement :: statements) =
          (first :: (splitDirectives statements).1, (splitDirectives statements).2) →
          (splitDirectives statements).1 ≠ [] →
          (statementsChars (splitDirectives (statement :: statements)).1).getLast? = some ';' := by
        intro first heq hsome
        rw [heq, statementsChars_cons, List.getLast?_append, ih hsome]
        rfl
      cases statement with
      | string quote value =>
          by_cases hsome : (splitDirectives statements).1 = []
          · simp [splitDirectives, hsome, statementsChars, CodeStatement.chars]
          · exact hlater _ rfl hsome
      | blanks run =>
          rw [splitDirectives] at h hlater ⊢
          split at h
          · exact absurd rfl h
          · next hsome =>
              rw [if_neg hsome] at hlater ⊢
              exact hlater _ rfl (by simpa using hsome)
      | line | block | template | arrow | assignment => exact absurd rfl h

/-! ### The rewritten program -/

/-- What is read of a program. -/
theorem readCode_program (program : CodeProgram) :
    (readCode false 0 0 (.start program.chars)).val =
      .having () program.elements (((Cursor.start program.chars).past
        (statementsChars program.statements)).past (lastLineChars program.lastLine)) := by
  have hstart : (Cursor.start program.chars).rest =
      statementsChars program.statements ++ lastLineChars program.lastLine := rfl
  have hreads : Reads (.code false 0 0) (.start program.chars) _ :=
    reads_statements program.statements hstart (.lastLine (Cursor.rest_past _ hstart))
  have hread : (readCode false 0 0 (.start program.chars)).val = _ := hreads.read_eq
  rw [hread]
  simp [Reading.found, Reading.having, CodeProgram.elements, Cursor.start]

theorem scan_program (setting : Setting) (program : CodeProgram) :
    ∃ findings warnings, setting.scan .jsx program.text = .ok (findings, warnings) ∧
      findings.plan.splices program.chars =
        (setting.plan (.offset (importOffset program.text)) program.elements).1.plan.splices
          program.chars := by
  unfold Setting.scan
  split
  · next hempty => exact ⟨.none, [], rfl, (splices_of_isEmpty hempty _ _ _).symm⟩
  · have hcode : Element.ofCode program.text = .ok program.elements := by
      rw [Element.ofCode, CodeProgram.text, String.toList_ofList, readCode_program]
      rfl
    rw [hcode]
    exact ⟨_, _, rfl, rfl⟩

theorem statementsElements_append (statements more : List CodeStatement) (start : Nat) :
    statementsElements start (statements ++ more) = statementsElements start statements ++
      statementsElements (start + utf8Length (statementsChars statements)) more := by
  induction statements generalizing start with
  | nil => rfl
  | cons statement statements ih =>
      rw [List.cons_append, statementsElements, statementsElements, ih, statementsChars_cons,
        utf8Length_append, List.append_assoc, Nat.add_assoc]

/-- Directives hold no elements, and are the same in the renamed program. -/
theorem directives_renamed (change : Renaming) (statements : List CodeStatement) (start : Nat) :
    statementsElements start (splitDirectives statements).1 = [] ∧
      (splitDirectives statements).1.map (CodeStatement.renamed change) =
        (splitDirectives statements).1 := by
  fun_induction splitDirectives statements generalizing start with
  | case1 quote value statements ih =>
      obtain ⟨hnone, hsame⟩ := ih (start + utf8Length (CodeStatement.string quote value).chars)
      exact ⟨hnone, congrArg _ hsame⟩
  | case2 run statements _ _ => exact ⟨rfl, rfl⟩
  | case3 run statements _ ih =>
      obtain ⟨hnone, hsame⟩ := ih (start + utf8Length (CodeStatement.blanks run).chars)
      exact ⟨hnone, congrArg _ hsame⟩
  | case4 statements => exact ⟨rfl, rfl⟩

theorem isLineStart_program (program : CodeProgram) :
    isLineStart program.chars (importOffset program.text) =
      (splitDirectives program.statements).1.isEmpty := by
  rw [importOffset_text, isLineStart, chars_split, takeBytes_append]
  cases hfront : (splitDirectives program.statements).1 with
  | nil => rfl
  | cons statement directives =>
      have hsome : (splitDirectives program.statements).1 ≠ [] := by simp [hfront]
      have hlast := getLast?_directives hsome
      rw [hfront] at hlast
      have hlength : utf8Length (statementsChars (statement :: directives)) ≠ 0 := by
        intro hzero
        rw [utf8Length_eq_zero hzero] at hlast
        cases hlast
      simp [hlast, hlength]

theorem importSplice?_program (setting : Setting) (program : CodeProgram) :
    (setting.plan (.offset (importOffset program.text)) program.elements).1.plan.importSplice?
        program.chars =
      if (setting.importsOf program.elements).isEmpty then none
      else some
        { span := ⟨importOffset program.text, importOffset program.text⟩
          text := importsBehind (splitDirectives program.statements).1
            (setting.importsOf program.elements) } := by
  have hsite : (setting.plan (.offset (importOffset program.text)) program.elements).1.plan.site =
      .offset (importOffset program.text) := rfl
  by_cases hnone : (setting.importsOf program.elements).isEmpty = true
  · rw [if_pos hnone, Plan.importSplice?, imports_plan, if_pos hnone]
  · rw [if_neg hnone, Plan.importSplice?, imports_plan, if_neg hnone, hsite, importsBehind,
      if_neg hnone]
    simp only [isLineStart_program]
    split <;> simp [importLines, List.map_map, Function.comp_def]

/-- **The splices of a program reword it to the renamed program with its imports.** -/
theorem rewords_program (names : setting.naming.NamesTags) (program : CodeProgram) :
    Rewords 0
      ((setting.plan (.offset (importOffset program.text)) program.elements).1.plan.splices
        program.chars)
      program.chars
      ((program.renamed (setting.newTag? names)).importing (setting.importsOf program.elements)) := by
  let directives := (splitDirectives program.statements).1
  let others := (splitDirectives program.statements).2
  have hdirectives := directives_renamed (setting.newTag? names) program.statements 0
  have helements : program.elements =
      statementsElements (0 + utf8Length (statementsChars directives)) others := by
    rw [CodeProgram.elements, ← splitDirectives_append program.statements, statementsElements_append,
      hdirectives.1, List.nil_append]
  have hothers := (rewords_statements names others
    (0 + utf8Length (statementsChars directives))).followed (lastLineChars program.lastLine)
  have hrenamed : (program.renamed (setting.newTag? names)).importing
      (setting.importsOf program.elements) = statementsChars directives ++
        (importsBehind directives (setting.importsOf program.elements) ++
          (statementsChars (others.map (CodeStatement.renamed (setting.newTag? names)))
            ++ lastLineChars program.lastLine)) := by
    rw [CodeProgram.importing, CodeProgram.renamed]
    simp only [splitDirectives_renamed, hdirectives.2]
    rfl
  have hplace : importOffset program.text = 0 + utf8Length (statementsChars directives) := by
    rw [importOffset_text, Nat.zero_add]
  rw [← helements] at hothers
  rw [hrenamed, Plan.splices, splices_plan, importSplice?_program, chars_split]
  refine Rewords.behind 0 (statementsChars directives) ?_
  by_cases hnone : setting.importsOf program.elements = []
  · simpa [importsBehind, hnone] using hothers
  · rw [if_neg (by simpa using hnone), hplace]
    refine hothers.insert _ ?_ ?_
    · intro hend
      refine hnone (importsOf_eq_nil (List.eq_nil_iff_forall_not_mem.2 fun splice hsplice => ?_))
      have hmem := hothers.start_mem splice hsplice
      rw [hend, utf8Length] at hmem
      omega
    · rw [helements]
      exact start_lt_of_statements names others _

/-- **A program is rewritten to its renamed tree.** -/
theorem apply_program (names : setting.naming.NamesTags) (program : CodeProgram) :
    ∃ findings warnings, setting.scan .jsx program.text = .ok (findings, warnings) ∧
      findings.plan.apply program.text = String.ofList
        ((program.renamed (setting.newTag? names)).importing
          (setting.importsOf program.elements)) := by
  obtain ⟨findings, warnings, hscan, hsplices⟩ := scan_program setting program
  refine ⟨findings, warnings, hscan, apply_of_rewords ?_⟩
  rw [CodeProgram.text, String.toList_ofList, hsplices]
  exact rewords_program names program

end Trees

end ComponentTags
