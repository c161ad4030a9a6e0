import ComponentTags.Proofs.Artifact.Shapes

/-!
Preambles. A module starts with the lines that import what it is put together from, and with its
registry; nothing of the component's own code stands among them.
-/

namespace ComponentTags

/-- A line that imports something. -/
def isImportLine (line : String) : Bool :=
  startsWith "import " line.toList

theorem isImportLine_text (declaration : Import) : isImportLine declaration.text = true := by
  rw [isImportLine, startsWith, List.isPrefixOf_iff_prefix]
  exact ⟨_, by simp [Import.text, List.append_assoc]; rfl⟩

theorem isImportLine_eq_false {line : String} {ch : Char} (hhead : line.toList.head? = some ch)
    (hne : ch ≠ 'i') : isImportLine line = false := by
  refine startsWith_eq_false ?_
  rintro ⟨rest, hrest⟩
  rw [← hrest] at hhead
  exact hne (Option.some.inj hhead).symm

/-- Lines that import exactly some modules. -/
def Import.AreAll (declarations : List Import) (lines : List String) : Prop :=
  lines.filter isImportLine = declarations.map Import.text

namespace Import.AreAll

variable {declarations others : List Import} {lines more : List String}

theorem append (h : AreAll declarations lines) (h' : AreAll others more) :
    AreAll (declarations ++ others) (lines ++ more) := by
  rw [AreAll, List.filter_append, List.map_append, h, h']

theorem texts (declarations : List Import) : AreAll declarations (declarations.map Import.text) := by
  refine List.filter_eq_self.2 fun line hline => ?_
  obtain ⟨declaration, -, rfl⟩ := List.mem_map.1 hline
  exact isImportLine_text declaration

theorem of_plain (h : ∀ line ∈ lines, isImportLine line = false) : AreAll [] lines := by
  rw [AreAll, List.filter_eq_nil_iff.2 (by simpa using h)]
  rfl

end Import.AreAll

def Registration.declaration (registration : Registration) : Import :=
  { name := registration.identifier, specifier := registration.specifier }

theorem areAll_registryLines (registrations : List Registration) :
    Import.AreAll (registrations.map Registration.declaration) (registryLines registrations) := by
  have hplain : Import.AreAll [] (["", "const comDefs = \x7b\x7d;"] ++
      registrations.flatMap fun r =>
        ["comDefs[" ++ Quoted.encode r.key ++ "] = \x7b", "  runtime: " ++ r.identifier ++ ",",
          "\x7d;"]) := by
    refine .of_plain fun line hline => ?_
    simp only [List.cons_append, List.nil_append, List.mem_cons, List.mem_flatMap,
      List.not_mem_nil, or_false] at hline
    rcases hline with rfl | rfl | ⟨registration, -, rfl | rfl | rfl⟩
    · decide
    · decide
    · exact isImportLine_eq_false (by simp) (show 'c' ≠ 'i' by decide)
    · exact isImportLine_eq_false (by simp) (show ' ' ≠ 'i' by decide)
    · decide
  have hall := (Import.AreAll.texts (registrations.map Registration.declaration)).append hplain
  rwa [List.map_map, List.append_nil, ← List.append_assoc] at hall

/-- The import of code that is compiled already. -/
def companionImports (companion : Path) (payload : Payload) : List Import :=
  match payload.kind with
  | .source => []
  | .compiled => [{ name := "RenderCom", specifier := companion.specifier }]

theorem companionLines_eq (companion : Path) (payload : Payload) :
    companionLines companion payload = (companionImports companion payload).map Import.text := by
  unfold companionLines companionImports
  cases payload.kind <;> rfl

theorem exists_textLines_eq {lines opening : List String} (h : opening <+: lines) :
    ∃ rest, textLines lines = textLines opening ++ rest := by
  obtain ⟨more, rfl⟩ := h
  exact ⟨textLines more, by simp [textLines]⟩

namespace Deed

/-- The components that the module registers. -/
def registrations : Deed → List Registration
  | entry _ _ closure => closure
  | dependency _ _ needed => needed
  | message _ => []

/-- The imports of packages and of shared modules. -/
def sharedImports (workshop : Workshop) : Deed → List Import
  | entry _ _ _ =>
      let react : Import := { name := "React", specifier := "react" }
      let shared : List Import :=
        [{ name := "ErrorBoundary", specifier := workshop.support.errorBoundary.specifier },
          { name := "renderCom", specifier := workshop.support.renderFunction.specifier }]
      match workshop.dialect with
      | .jsx => react :: shared
      | .vue =>
          react :: { name := "\x7b applyPureReactInVue \x7d", specifier := "veaury" } :: shared
  | dependency _ _ _ => []
  | message _ =>
      match workshop.dialect with
      | .jsx =>
          [{ name := "React", specifier := "react" },
            { name := "\x7b style \x7d", specifier := workshop.support.style.specifier }]
      | .vue => []

/-- The imports of the companion. -/
def ownImports (workshop : Workshop) : Deed → List Import
  | entry reference payload _ =>
      companionImports (workshop.naming.companion (workshop.naming.identity reference)) payload
  | dependency reference payload _ =>
      companionImports (workshop.naming.companion (workshop.naming.identity reference)) payload
  | message _ => []

/-- All that the module imports, in the order of its lines. -/
def imports (workshop : Workshop) (deed : Deed) : List Import :=
  let registered := deed.registrations.map Registration.declaration
  match deed with
  | dependency _ _ _ => registered ++ deed.ownImports workshop
  | _ => deed.sharedImports workshop ++ deed.ownImports workshop ++ registered

def openingLines : Dialect → List String
  | .jsx => []
  | .vue => ["<script>"]

/-- The lines of the module before any code of the component's own. -/
def preamble (workshop : Workshop) (deed : Deed) : List String :=
  let shared := (deed.sharedImports workshop).map Import.text
  let own := (deed.ownImports workshop).map Import.text
  match deed with
  | entry _ _ closure => openingLines workshop.dialect ++ shared ++ own ++ registryLines closure
  | dependency _ _ needed =>
      openingLines workshop.dialect
        ++ (if needed.isEmpty then [] else registryLines needed ++ [""]) ++ own
  | message _ => shared

/-- The imports of a preamble are those of its module. -/
theorem areAll_preamble (workshop : Workshop) (deed : Deed) :
    Import.AreAll (deed.imports workshop) (deed.preamble workshop) := by
  have hopening : Import.AreAll [] (openingLines workshop.dialect) := by
    refine .of_plain fun line hline => ?_
    cases hdialect : workshop.dialect <;> simp [hdialect, openingLines] at hline
    subst hline
    decide
  cases deed with
  | entry reference payload closure =>
      exact ((hopening.append (.texts _)).append (.texts _)).append (areAll_registryLines closure)
  | dependency reference payload needed =>
      refine (hopening.append ?_).append (.texts _)
      split
      · next hnone =>
          rw [List.isEmpty_iff.1 hnone]
          exact .of_plain nofun
      · have hempty : Import.AreAll [] [""] := .of_plain (by decide)
        have hall := (areAll_registryLines needed).append hempty
        rwa [List.append_nil] at hall
  | message reference =>
      have hall := Import.AreAll.texts ((message reference).sharedImports workshop)
      simpa [imports, preamble, ownImports, registrations] using hall

theorem exists_dependencyCode_eq (companion : Path) (payload : Payload)
    (needed : List Registration) :
    ∃ rest, dependencyCode companion payload needed = textLines (
      (if needed.isEmpty then [] else registryLines needed ++ [""])
        ++ (companionImports companion payload).map Import.text) ++ rest := by
  apply exists_textLines_eq
  rw [List.prefix_append_right_inj, companionImports]
  cases payload.kind with
  | source => exact List.nil_prefix
  | compiled => exact ⟨_, rfl⟩

/-- **A module starts with its preamble.** -/
theorem exists_text_eq (workshop : Workshop) (deed : Deed) :
    ∃ rest, deed.text workshop = textLines (deed.preamble workshop) ++ rest := by
  cases deed with
  | entry reference payload closure =>
      simp only [text, preamble, ownImports, ← companionLines_eq, sharedImports]
      -- After the registry come an empty line, the runtime and the rest, each appended in turn.
      cases workshop.dialect <;>
        exact exists_textLines_eq (((List.prefix_append _ _).trans (List.prefix_append _ _)).trans
          (List.prefix_append _ _))
  | dependency reference payload needed =>
      obtain ⟨rest, hrest⟩ := exists_dependencyCode_eq
        (workshop.naming.companion (workshop.naming.identity reference)) payload needed
      simp only [text, dependencyText, preamble, ownImports, hrest]
      cases workshop.dialect with
      | jsx => exact ⟨rest ++ "\n", by simp [openingLines, String.append_assoc]⟩
      | vue =>
          refine ⟨rest ++ "</script>\n", ?_⟩
          simp [openingLines, textLines, String.join_cons, String.append_assoc]
  | message reference =>
      simp only [text, errorText, preamble, sharedImports]
      cases workshop.dialect with
      | jsx => exact exists_textLines_eq (List.prefix_append [_, _] _)
      | vue => exact ⟨_, (String.empty_append).symm⟩

end Deed

end ComponentTags
