import ComponentTags.Element.Code
import ComponentTags.Proofs.Element.CodeTrees

/-!
Programs with elements in them. Statements hide tag-like text in strings, comments, template literals
and type parameters, or assign an element; reading a program finds the elements that it assigns, and
nothing else.
-/

namespace ComponentTags

/-- A statement, or the blanks between two. -/
inductive CodeStatement where
  | string (quote : Quote) (value : Run (isStringChar quote))
  | line (text : Run (· != '\n'))
  | block (text : List Char) (noEnd : ¬['*', '/'] <:+: text)
  | template (text : Run isTemplateChar) (noHole : ¬['$', '{'] <:+: text.chars) (ended : Bool)
  | arrow (name parameter : Word) (bound : Option Word) (argument : Word)
  | assignment (target : Word) (element : CodeElement)
  | blanks (run : Run Ascii.isBlank)

/-- A program, whose last line may be a comment that no line feed ends. -/
structure CodeProgram where
  statements : List CodeStatement
  lastLine : Option (Run (· != '\n'))

/-! ### Texts -/

/-- What stands behind a type parameter, up to the end of the list. -/
def boundChars : Option Word → List Char
  | none => [',']
  | some bound => " extends ".toList ++ bound.chars

namespace CodeStatement

/-- An arrow function from behind the `<` of its type parameter on. -/
def arrowChars (parameter : Word) (bound : Option Word) (argument : Word) : List Char :=
  parameter.chars ++ (boundChars bound ++
    (">(".toList ++ (argument.chars ++ (") => ".toList ++ (argument.chars ++ [';'])))))

/-- The semicolon that may end a template literal. -/
def semicolon (ended : Bool) : List Char :=
  if ended then [';'] else []

def chars : CodeStatement → List Char
  | string quote value => quote.around value.chars ++ [';']
  | line text => '/' :: '/' :: (text.chars ++ ['\n'])
  | block text _ => '/' :: '*' :: (text ++ ['*', '/'])
  | template text _ ended => '\x60' :: (text.chars ++ ['\x60']) ++ semicolon ended
  | arrow name parameter bound argument =>
      name.chars ++ " = ".toList ++ '<' :: arrowChars parameter bound argument
  | assignment target element => target.chars ++ " = ".toList ++ '<' :: element.tail ++ [';']
  | blanks run => run.chars

/-- The elements of a statement that is written from an offset on. -/
def elements (start : Nat) : CodeStatement → List Element
  | assignment target element => element.elements 0 (start + utf8Length (target.chars ++ " = ".toList))
  | string _ _ | line _ | block _ _ | template _ _ _ | arrow _ _ _ _ | blanks _ => []

end CodeStatement

def statementsChars (statements : List CodeStatement) : List Char :=
  statements.flatMap CodeStatement.chars

def statementsElements (start : Nat) : List CodeStatement → List Element
  | [] => []
  | statement :: statements =>
      statement.elements start ++ statementsElements (start + utf8Length statement.chars) statements

def lastLineChars : Option (Run (· != '\n')) → List Char
  | none => []
  | some text => '/' :: '/' :: text.chars

namespace CodeProgram

def chars (program : CodeProgram) : List Char :=
  statementsChars program.statements ++ lastLineChars program.lastLine

def text (program : CodeProgram) : String :=
  String.ofList program.chars

def elements (program : CodeProgram) : List Element :=
  statementsElements 0 program.statements

end CodeProgram

/-! ### Readings -/

section Readings

variable {c : Cursor} {rest : List Char} {inBraces : Bool} {openBraces depth : Nat}
  {code : Reading Unit}

theorem Word.isPlain (word : Word) : ∀ ch ∈ word.chars, isPlainChar ch = true :=
  fun ch hch => isPlainChar_of_isWordChar (word.all ch hch)

theorem isPlainChar_of_isBlank {ch : Char} (h : Ascii.isBlank ch = true) : isPlainChar ch = true := by
  simp only [Ascii.isBlank, Bool.or_eq_true, beq_iff_eq] at h
  rcases h with (((rfl | rfl) | rfl) | rfl) | rfl <;> decide

/-- What stands before the value that is given to a name. -/
theorem Word.assigns (word : Word) :
    (∀ ch ∈ word.chars ++ " = ".toList, isPlainChar ch = true) ∧
      ∀ before, Lexical.operandFollows ((word.chars ++ " = ".toList).reverse ++ before) = true :=
  ⟨List.forall_mem_append.2 ⟨word.isPlain, List.all_eq_true.1 rfl⟩, fun before => by
    rw [List.reverse_append]
    rfl⟩

theorem isPlain_boundChars (bound : Option Word) : ∀ ch ∈ boundChars bound, isPlainChar ch = true := by
  cases bound with
  | none => exact List.all_eq_true.1 rfl
  | some bound => exact List.forall_mem_append.2 ⟨List.all_eq_true.1 rfl, bound.isPlain⟩

theorem isPlain_semicolon (ended : Bool) :
    ∀ ch ∈ CodeStatement.semicolon ended, isPlainChar ch = true := by
  cases ended with
  | false => nofun
  | true => exact List.all_eq_true.1 rfl

/-- The `<` of a type parameter opens no element. -/
theorem opensElement_arrowChars (before : List Char) (parameter : Word) (bound : Option Word)
    (argument : Word) (rest : List Char) :
    opensElement before (CodeStatement.arrowChars parameter bound argument ++ rest) = false := by
  have hparameters : Lexical.typeParametersFollow
      (CodeStatement.arrowChars parameter bound argument ++ rest) = true := by
    rw [CodeStatement.arrowChars, List.append_assoc, List.append_assoc]
    cases bound with
    | none => exact typeParametersFollow_word _ (stopsAt_cons (by decide))
    | some bound => exact typeParametersFollow_word _ (stopsAt_cons (by decide))
  rw [opensElement, hparameters]
  exact Bool.and_false _

theorem CodeStatement.isPlain_arrowChars (parameter : Word) (bound : Option Word) (argument : Word) :
    ∀ ch ∈ arrowChars parameter bound argument, isPlainChar ch = true := by
  simp only [arrowChars, List.forall_mem_append]
  exact ⟨parameter.isPlain, isPlain_boundChars bound, List.all_eq_true.1 rfl, argument.isPlain,
    List.all_eq_true.1 rfl, argument.isPlain, List.all_eq_true.1 rfl⟩

/-- **A statement is read past, and its elements are found.** -/
theorem CodeStatement.reads (statement : CodeStatement) (h : c.rest = statement.chars ++ rest)
    (hcode : Reads (.code inBraces openBraces 0) (c.past statement.chars) code) :
    Reads (.code inBraces openBraces 0) c
      { code with elements := statement.elements c.offset ++ code.elements } := by
  cases statement with
  | string quote value =>
      have hvalue : c.rest = quote.around value.chars ++ ([';'] ++ rest) := by
        rw [h, chars, List.append_assoc]
      rw [chars, Cursor.past_append] at hcode
      exact .pastString hvalue (.pastPlain (List.all_eq_true.1 rfl) (Cursor.rest_past _ hvalue) hcode)
  | line text =>
      have hline : c.rest = '/' :: ('/' :: (text.chars ++ ['\n']) ++ rest) := h
      refine .pastLine (fun hmem => ?_) hline hcode
      simpa using text.all _ hmem
  | block text hend =>
      have hblock : c.rest = '/' :: ('*' :: (text ++ ['*', '/']) ++ rest) := h
      exact .pastBlock hend hblock hcode
  | template text hhole ended =>
      have htext : c.rest = '\x60' :: (text.chars ++ ['\x60']) ++ (semicolon ended ++ rest) := by
        rw [h, chars, List.append_assoc]
      rw [chars, Cursor.past_append] at hcode
      have hopen : c.rest = '\x60' :: (text.chars ++ '\x60' :: (semicolon ended ++ rest)) := by
        simp [htext]
      refine .pastTemplate text.all hhole hopen ?_
      exact .pastPlain (isPlain_semicolon ended) (Cursor.rest_past _ htext) hcode
  | arrow name parameter bound argument =>
      obtain ⟨hplain, -⟩ := name.assigns
      have hname : c.rest = (name.chars ++ " = ".toList) ++
          ('<' :: (arrowChars parameter bound argument ++ rest)) := by
        rw [h, chars, List.append_assoc, List.cons_append]
      have hless := Cursor.rest_past _ hname
      rw [chars, Cursor.past_append] at hcode
      refine .pastPlain hplain hname (.codeLess hless (opensElement_arrowChars _ _ _ _ _) ?_)
      exact .pastPlain (isPlain_arrowChars parameter bound argument)
        (Cursor.rest_past ['<'] hless) hcode
  | assignment target element =>
      obtain ⟨hplain, hoperand⟩ := target.assigns
      have htarget : c.rest = (target.chars ++ " = ".toList) ++
          ('<' :: (element.tail ++ ([';'] ++ rest))) := by
        simp only [h, chars, List.append_assoc, List.cons_append]
      have hless := Cursor.rest_past _ htarget
      have hbefore : Lexical.operandFollows
          (c.past (target.chars ++ " = ".toList)).before = true := by
        rw [Cursor.before_past _ htarget]
        exact hoperand _
      have helement := reads_element element 0
        (Cursor.offset_past ['<'] hless) (Cursor.rest_past ['<'] hless)
      have hend : ((c.past (target.chars ++ " = ".toList)).past ('<' :: element.tail)).rest =
          [';'] ++ rest := Cursor.rest_past ('<' :: element.tail) hless
      rw [chars, Cursor.past_append, Cursor.past_append] at hcode
      have hread := Reads.codeElement hless (element.opensElement hbefore _) helement
        (.pastPlain (List.all_eq_true.1 rfl) hend hcode)
      rw [Reading.having_andThen, Cursor.offset_past _ htarget] at hread
      exact .pastPlain hplain htarget hread
  | blanks run =>
      have hrun : c.rest = run.chars ++ rest := h
      exact .pastPlain (fun ch hch => isPlainChar_of_isBlank (run.all ch hch)) hrun hcode

theorem reads_statements (statements : List CodeStatement)
    (h : c.rest = statementsChars statements ++ rest)
    (hcode : Reads (.code inBraces openBraces 0) (c.past (statementsChars statements)) code) :
    Reads (.code inBraces openBraces 0) c
      { code with elements := statementsElements c.offset statements ++ code.elements } := by
  induction statements generalizing c with
  | nil => exact hcode
  | cons statement statements ih =>
      have hstatement : c.rest = statement.chars ++ (statementsChars statements ++ rest) := by
        rw [h, statementsChars, List.flatMap_cons, List.append_assoc]
        rfl
      rw [statementsChars, List.flatMap_cons, Cursor.past_append] at hcode
      have hread := statement.reads hstatement (ih (Cursor.rest_past _ hstatement) hcode)
      rw [Cursor.offset_past _ hstatement] at hread
      rw [statementsElements, List.append_assoc]
      exact hread

theorem Reads.lastLine {lastLine : Option (Run (· != '\n'))} (h : c.rest = lastLineChars lastLine) :
    Reads (.code inBraces openBraces depth) c (.found () (c.past (lastLineChars lastLine))) := by
  have hend : (c.past (lastLineChars lastLine)).rest = [] := Cursor.rest_past _ (by simpa using h)
  cases lastLine with
  | none => exact .codeEnd hend
  | some text =>
      refine .pastLastLine (fun hmem => ?_) h (.codeEnd hend)
      simpa using text.all _ hmem

end Readings

/-- **What is found in a program are the elements that it assigns.** -/
theorem Element.ofCode_text (program : CodeProgram) :
    Element.ofCode program.text = .ok program.elements := by
  have hstart : (Cursor.start program.chars).rest =
      statementsChars program.statements ++ lastLineChars program.lastLine := rfl
  have hreads : Reads (.code false 0 0) (.start program.chars) _ :=
    reads_statements program.statements hstart (.lastLine (Cursor.rest_past _ hstart))
  have hread : (readCode false 0 0 _).val = _ := hreads.read_eq
  rw [CodeProgram.text, Element.ofCode, String.toList_ofList, hread]
  simp [Reading.found, CodeProgram.elements, Cursor.start]

example :
    (CodeStatement.assignment ⟨⟨['x'], List.all_eq_true.1 rfl⟩, by decide⟩
      (.full ⟨'A', by decide, ⟨[], nofun⟩⟩
        [.plain (.flag ⟨⟨['b'], List.all_eq_true.1 rfl⟩, by decide⟩) ⟨by decide, by decide⟩]
        [.text ⟨['>'], List.all_eq_true.1 rfl⟩,
          .element (.empty ⟨'C', by decide, ⟨['d'], List.all_eq_true.1 rfl⟩⟩ [])])).chars =
        "x = <A b>><Cd/></A>;".toList :=
  rfl

end ComponentTags
