import ComponentTags.Proofs.Artifact.Deeds
import ComponentTags.Proofs.Text.Encodings

/-!
Shapes. The first lines of a module tell whether it is an entry, a dependency or the message for a
component that cannot be had, whatever the component and its code are.
-/

namespace ComponentTags

theorem textLines_cons (line : String) (lines : List String) :
    (textLines (line :: lines)).toList = line.toList ++ '\n' :: (textLines lines).toList := by
  simp [textLines, String.join_cons]

theorem textLines_append (lines others : List String) :
    (textLines (lines ++ others)).toList = (textLines lines).toList ++ (textLines others).toList := by
  induction lines with
  | nil => rfl
  | cons line lines ih =>
      rw [List.cons_append, textLines_cons, textLines_cons, ih, List.append_assoc,
        List.cons_append]

/-- What a component module is. -/
inductive Shape where
  | entry
  | dependency
  | message
deriving DecidableEq, Repr

def Deed.shape : Deed → Shape
  | entry _ _ _ => .entry
  | dependency _ _ _ => .dependency
  | message _ => .message

def startsWith (opening : String) (text : List Char) : Bool :=
  opening.toList.isPrefixOf text

/-- What a module is by its first lines. -/
def shapeOf (text : List Char) : Shape :=
  if startsWith "<template>" text ||
      startsWith "import React from \"react\";\nimport \x7b style" text then .message
  else if startsWith "import React from " text ||
      startsWith "<script>\nimport React from " text then .entry
  else .dependency

theorem isPrefixOf_append {opening text : List Char} (rest : List Char)
    (hlength : opening.length ≤ text.length) :
    opening.isPrefixOf (text ++ rest) = opening.isPrefixOf text := by
  induction opening generalizing text with
  | nil => simp
  | cons ch opening ih =>
      cases text with
      | nil => simp at hlength
      | cons other text =>
          rw [List.cons_append, List.isPrefixOf_cons_cons, List.isPrefixOf_cons_cons,
            ih (Nat.le_of_succ_le_succ hlength)]

theorem shapeOf_append {text : List Char} (rest : List Char) (hlength : 41 ≤ text.length) :
    shapeOf (text ++ rest) = shapeOf text := by
  have hstarts : ∀ opening ∈ ["<template>", "import React from \"react\";\nimport \x7b style",
      "import React from ", "<script>\nimport React from "],
      startsWith opening (text ++ rest) = startsWith opening text := by
    intro opening hopening
    refine isPrefixOf_append rest (Nat.le_trans ?_ hlength)
    have hall : ∀ opening ∈ ["<template>", "import React from \"react\";\nimport \x7b style",
      "import React from ", "<script>\nimport React from "], opening.toList.length ≤ 41 := by
      decide
    exact hall opening hopening
  unfold shapeOf
  rw [hstarts _ (by simp), hstarts _ (by simp), hstarts _ (by simp), hstarts _ (by simp)]

/-! ### Entries and messages -/

theorem exists_rest_line {line opening : String} {rest : String} (lines : List String)
    (h : line = opening ++ rest) :
    ∃ rest, (textLines (line :: lines)).toList = opening.toList ++ rest :=
  ⟨rest.toList ++ '\n' :: (textLines lines).toList, by simp [textLines_cons, h]⟩

theorem exists_rest_cons {lines : List String} {opening : List Char} (line : String)
    (h : ∃ rest, (textLines lines).toList = opening ++ rest) :
    ∃ rest, (textLines (line :: lines)).toList = (line.toList ++ '\n' :: opening) ++ rest := by
  obtain ⟨rest, hrest⟩ := h
  exact ⟨rest, by simp [textLines_cons, hrest]⟩

theorem importLine_eq (name : String) (path : Path) :
    importLine name path =
      ("import " ++ name ++ " from ") ++ (Quoted.encode path.specifier ++ ";") := by
  simp [importLine, Import.text, String.append_assoc]

theorem styleImport_eq (support : Support) :
    support.styleImport = "import \x7b style \x7d from " ++
      (Quoted.encode support.style.specifier ++ ";") :=
  String.append_assoc

theorem shapeOf_jsxEntryText (support : Support) (reference : Reference) (companion : Path)
    (payload : Payload) (registrations : List Registration) :
    shapeOf (jsxEntryText support reference companion payload registrations).toList = .entry := by
  unfold jsxEntryText
  simp only [List.cons_append]
  obtain ⟨rest, hrest⟩ := exists_rest_cons "import React from \"react\";"
    (exists_rest_line _ (importLine_eq "ErrorBoundary" support.errorBoundary))
  rw [hrest, shapeOf_append rest (by decide)]
  decide

theorem shapeOf_vueEntryText (support : Support) (reference : Reference) (companion : Path)
    (payload : Payload) (registrations : List Registration) :
    shapeOf (vueEntryText support reference companion payload registrations).toList = .entry := by
  unfold vueEntryText
  simp only [List.cons_append]
  have hline : "import \x7b applyPureReactInVue \x7d from \"veaury\";" =
      "import \x7b applyPureReactInVue \x7d" ++ " from \"veaury\";" := by
    decide
  obtain ⟨rest, hrest⟩ := exists_rest_cons "<script>"
    (exists_rest_cons "import React from \"react\";" (exists_rest_line _ hline))
  rw [hrest, shapeOf_append rest (by decide)]
  decide

theorem shapeOf_errorText (dialect : Dialect) (support : Support) (reference : Reference) :
    shapeOf (errorText dialect support reference).toList = .message := by
  cases dialect with
  | jsx =>
      unfold errorText
      dsimp only
      obtain ⟨rest, hrest⟩ := exists_rest_cons "import React from \"react\";"
        (exists_rest_line _ (styleImport_eq support))
      rw [hrest, shapeOf_append rest (by decide)]
      decide
  | vue =>
      unfold errorText
      dsimp only
      have hline : "  <div style=\"" ++ messageStyle ++ "\">"
          ++ Entity.contentText (notFoundMessage reference) ++ "</div>" =
          ("  <div style=\"" ++ messageStyle) ++
            ("\">" ++ Entity.contentText (notFoundMessage reference) ++ "</div>") := by
        simp only [String.append_assoc]
      obtain ⟨rest, hrest⟩ := exists_rest_cons "<template>" (exists_rest_line _ hline)
      rw [hrest, shapeOf_append rest (by decide)]
      decide

/-! ### Dependencies -/

/-- How the code of a dependency starts: with a function, or with the import of some other name. -/
structure StartsDependency (code : List Char) : Prop where
  start : (∃ rest, code = "function".toList ++ rest) ∨ ∃ name rest,
    code = "import ".toList ++ (name ++ ' ' :: rest) ∧ ' ' ∉ name ∧ name ≠ "React".toList

theorem append_cons_inj {separator : Char} {first second rest rest' : List Char}
    (hfirst : separator ∉ first) (hsecond : separator ∉ second)
    (h : first ++ separator :: rest = second ++ separator :: rest') : first = second := by
  have hparts := congrArg (splitChars separator) h
  rw [splitChars_append, splitChars_append, splitChars_of_notMem hfirst,
    splitChars_of_notMem hsecond] at hparts
  exact (List.cons.inj hparts).1

theorem StartsDependency.not_importsReact {code : List Char} (h : StartsDependency code) :
    ¬"import React ".toList <+: code := by
  rintro ⟨tail, htail⟩
  rcases h.start with ⟨rest, rfl⟩ | ⟨name, rest, rfl, hname, hne⟩
  · simp at htail
  · have heq : "React".toList ++ ' ' :: tail = name ++ ' ' :: rest := by simpa using htail
    exact hne (append_cons_inj (by decide) hname heq).symm

theorem StartsDependency.append {code : List Char} (h : StartsDependency code) (tail : List Char) :
    StartsDependency (code ++ tail) := by
  rcases h.start with ⟨rest, rfl⟩ | ⟨name, rest, rfl, hname, hne⟩
  · exact ⟨.inl ⟨rest ++ tail, by simp⟩⟩
  · exact ⟨.inr ⟨name, rest ++ tail, by simp, hname, hne⟩⟩

theorem startsWith_eq_false {opening : String} {text : List Char}
    (h : ¬opening.toList <+: text) : startsWith opening text = false := by
  rw [startsWith, Bool.eq_false_iff]
  exact mt List.isPrefixOf_iff_prefix.1 h

theorem shapeOf_dependency {code : List Char} (h : StartsDependency code) :
    shapeOf code = .dependency ∧ shapeOf ("<script>\n".toList ++ code) = .dependency := by
  have hreact : ∀ opening : String, "import React ".toList <+: opening.toList →
      startsWith opening code = false := by
    intro opening hopening
    exact startsWith_eq_false fun hprefix => h.not_importsReact (hopening.trans hprefix)
  have hmarkup : ∀ opening : String, '<' ∈ opening.toList.head? →
      startsWith opening code = false := by
    intro opening hopening
    refine startsWith_eq_false fun hprefix => ?_
    have hhead : code.head? = some '<' := by
      obtain ⟨rest, rfl⟩ := hprefix
      cases hchars : opening.toList with
      | nil => simp [hchars] at hopening
      | cons ch chars =>
          rw [hchars] at hopening
          exact hopening
    rcases h.start with ⟨rest, rfl⟩ | ⟨name, rest, rfl, -, -⟩
    · simp at hhead
    · simp at hhead
  refine ⟨?_, ?_⟩
  · rw [shapeOf, hmarkup _ (by decide), hreact _ (by decide +kernel),
      hreact _ (by decide), hmarkup _ (by decide +kernel)]
    rfl
  · have hscript :
        startsWith "<script>\nimport React from " ("<script>\n".toList ++ code) = false := by
      refine startsWith_eq_false fun hprefix => ?_
      have hsplit : "<script>\nimport React from ".toList =
          "<script>\n".toList ++ "import React from ".toList := by
        decide
      rw [hsplit, List.prefix_append_right_inj] at hprefix
      exact h.not_importsReact
        ((by decide : "import React ".toList <+: "import React from ".toList).trans hprefix)
    have hother : ∀ opening : String, ¬opening.toList.take 2 <+: "<script>\n".toList →
        2 ≤ opening.toList.length →
        startsWith opening ("<script>\n".toList ++ code) = false := by
      intro opening hne hlength
      refine startsWith_eq_false fun hprefix => hne ?_
      refine List.prefix_of_prefix_length_le ((List.take_prefix 2 _).trans hprefix)
        (List.prefix_append _ code) ?_
      rw [List.length_take, Nat.min_eq_left hlength]
      decide
    rw [shapeOf, hscript, hother _ (by decide) (by decide +kernel),
      hother _ (by decide) (by decide +kernel),
      hother _ (by decide) (by decide +kernel)]
    rfl

theorem startsDependency_importLine {name specifier : String} (lines : List String)
    (hspace : ' ' ∉ name.toList) (hname : name ≠ "React") :
    StartsDependency (textLines (Import.text { name, specifier } :: lines)).toList where
  start := by
    refine .inr ⟨name.toList, ("from " ++ Quoted.encode specifier ++ ";").toList ++
      '\n' :: (textLines lines).toList, ?_, hspace, fun h => hname (String.toList_inj.1 h)⟩
    rw [textLines_cons, Import.text]
    simp

/-- The names that a module of a naming may import dependencies under. -/
structure Registration.IsNamed (registration : Registration) : Prop where
  exists_naming : ∃ (naming : Naming) (reference : Reference), naming.IsProper ∧
    registration.identifier = (naming.identity reference).identifier

theorem Registration.IsNamed.name {registration : Registration} (h : registration.IsNamed) :
    ' ' ∉ registration.identifier.toList ∧ registration.identifier ≠ "React" := by
  obtain ⟨naming, reference, hproper, heq⟩ := h.exists_naming
  obtain ⟨front, hidentifier, hfront, hchars⟩ := hproper.exists_identifier reference
  rw [heq]
  refine ⟨?_, ?_⟩
  · rw [hidentifier, List.mem_append, List.mem_cons]
    rintro (hmem | hmem | hmem)
    · exact absurd (hchars ' ' (List.mem_append_left _ hmem)) (by decide)
    · exact absurd hmem (by decide)
    · exact absurd (hchars ' ' (List.mem_append_right _ hmem)) (by decide)
  · intro hreact
    have hlength := congrArg (fun text : String => text.toList.length) hreact
    have hdigest := length_digest reference
    rw [hidentifier, List.length_append, List.length_cons, hdigest] at hlength
    have hfive : "React".toList.length = 5 := by decide
    omega

theorem startsDependency_dependencyCode (companion : Path) (payload : Payload)
    {needed : List Registration} (hneeded : ∀ registration ∈ needed, registration.IsNamed) :
    StartsDependency (dependencyCode companion payload needed).toList := by
  unfold dependencyCode
  cases needed with
  | cons registration needed =>
      obtain ⟨hspace, hname⟩ := (hneeded registration List.mem_cons_self).name
      simp only [List.isEmpty_cons, Bool.false_eq_true, if_false, registryLines, List.map_cons,
        List.cons_append]
      exact startsDependency_importLine _ hspace hname
  | nil =>
      simp only [List.isEmpty_nil, if_true, List.nil_append]
      cases hkind : payload.kind with
      | source =>
          have hfunction : "function".toList <+: payload.trimmedRuntime.toList := by
            unfold Payload.kind at hkind
            split at hkind
            · next hprefix => exact List.isPrefixOf_iff_prefix.1 hprefix
            · cases hkind
          obtain ⟨rest, hrest⟩ := hfunction
          rw [textLines_cons, ← hrest]
          exact ⟨.inl ⟨rest ++ '\n' :: (textLines []).toList, by simp⟩⟩
      | compiled =>
          exact startsDependency_importLine _ (by decide) (by decide +kernel)

theorem shapeOf_dependencyText (dialect : Dialect) (companion : Path) (payload : Payload)
    {needed : List Registration} (hneeded : ∀ registration ∈ needed, registration.IsNamed) :
    shapeOf (dependencyText dialect companion payload needed).toList = .dependency := by
  have hcode := startsDependency_dependencyCode companion payload hneeded
  unfold dependencyText
  cases dialect with
  | jsx =>
      dsimp only
      rw [String.toList_append]
      exact (shapeOf_dependency (hcode.append _)).1
  | vue =>
      dsimp only
      rw [String.toList_append, String.toList_append, List.append_assoc]
      exact (shapeOf_dependency (hcode.append _)).2

/-! ### The shape of a deed -/

/-- A deed whose dependency, if it writes one, imports components of a naming. -/
def Deed.IsNamed : Deed → Prop
  | dependency _ _ needed => ∀ registration ∈ needed, registration.IsNamed
  | _ => True

/-- **The shape of a module is told by its text.** -/
theorem shapeOf_text (workshop : Workshop) {deed : Deed} (hnamed : deed.IsNamed) :
    shapeOf (deed.text workshop).toList = deed.shape := by
  cases deed with
  | entry reference payload closure =>
      unfold Deed.text
      dsimp only
      split
      · exact shapeOf_jsxEntryText _ _ _ _ _
      · exact shapeOf_vueEntryText _ _ _ _ _
  | dependency reference payload needed => exact shapeOf_dependencyText _ _ payload hnamed
  | message reference => exact shapeOf_errorText _ _ reference

theorem shape_eq_of_content {workshop workshop' : Workshop} (deed deed' : Deed)
    (hnamed : deed.IsNamed) (hnamed' : deed'.IsNamed)
    (h : deed.content workshop = deed'.content workshop') : deed.shape = deed'.shape := by
  rw [← shapeOf_text workshop hnamed, ← shapeOf_text workshop' hnamed',
    Utf8.encode_injective h]

end ComponentTags
