import Mathlib.Data.List.Nodup
import Mathlib.Logic.Function.Basic
import ComponentTags.Proofs.Artifact.Preambles
import ComponentTags.Proofs.Component.Identifiers
import ComponentTags.Proofs.Json.Texts

/-!
Registries. A module assigns its components to their keys, one after another; what a key leads to in
the end is what was assigned to it last. No name is imported twice.
-/

namespace ComponentTags

/-! ### Assignments -/

/-- The key in the brackets of an assignment that is opened there, as the quoted text reads. -/
def quotedKey? (text : List Char) : Option String :=
  match Json.readText ⟨Utf8.encode text, 0⟩ with
  | .ok ⟨(raw, after), _⟩ =>
      if after.rest = Utf8.encode "] = \x7b".toList then raw.decode.toOption else none
  | .error _ => none

/-- The key of a line that opens an assignment to a registry. -/
def assignedKey? (line : String) : Option String :=
  if startsWith "comDefs[\"" line.toList then quotedKey? (line.toList.drop "comDefs[".toList.length)
  else none

/-- The name in a line that says what is assigned. -/
def assignedName? (line : String) : Option String :=
  if startsWith "  runtime: " line.toList && line.toList.getLast? = some ',' then
    some (String.ofList (line.toList.drop "  runtime: ".toList.length).dropLast)
  else none

/-- Carries out the assignments among some lines, in their order. -/
def execute (registry : String → Option String) : List String → String → Option String
  | opening :: line :: rest =>
      match assignedKey? opening, assignedName? line with
      | some key, some name =>
          execute (Function.update registry key (some name)) rest
      | _, _ => execute registry (line :: rest)
  | _ => registry

/-- What some lines leave in a registry that was empty. -/
def registered (lines : List String) : String → Option String :=
  execute (fun _ => none) lines

/-- The lines that assign a component to its key. -/
def assignmentLines (registration : Registration) : List String :=
  ["comDefs[" ++ Quoted.encode registration.key ++ "] = \x7b",
    "  runtime: " ++ registration.identifier ++ ",", "\x7d;"]

/-- The last of some components that has a key. -/
def lastNamed (registrations : List Registration) (key : String) : Option String :=
  (registrations.reverse.find? (·.key = key)).map (·.identifier)

theorem assignedKey?_eq_none {line : String} (h : ¬"comDefs[".toList <+: line.toList) :
    assignedKey? line = none := by
  have hopening : "comDefs[".toList <+: "comDefs[\"".toList := by decide
  rw [assignedKey?, startsWith_eq_false fun hquoted => h (hopening.trans hquoted)]
  rfl

theorem quotedKey?_encodeChars (key : String) :
    quotedKey? (Quoted.encodeChars key.toList ++ "] = \x7b".toList) = some key := by
  have hplace : (⟨Utf8.encode (Quoted.encodeChars key.toList ++ "] = \x7b".toList), 0⟩ :
      Json.Place).rest = _ := Utf8.encode_append _ _
  obtain ⟨raw, ⟨after, hafter, hread, hrest⟩, hdecode⟩ := Json.readText_encode hplace
  unfold quotedKey?
  simp only [hread, hrest, if_true, hdecode]
  rfl

theorem assignedKey?_opening (key : String) :
    assignedKey? ("comDefs[" ++ Quoted.encode key ++ "] = \x7b") = some key := by
  have hline : ("comDefs[" ++ Quoted.encode key ++ "] = \x7b").toList =
      "comDefs[".toList ++ (Quoted.encodeChars key.toList ++ "] = \x7b".toList) := by
    simp [Quoted.encode]
  have hstart : startsWith "comDefs[\"" ("comDefs[" ++ Quoted.encode key ++ "] = \x7b").toList =
      true := by
    rw [startsWith, List.isPrefixOf_iff_prefix, hline]
    exact ⟨key.toList.flatMap Quoted.encodeChar ++ '"' :: "] = \x7b".toList, by
      simp [Quoted.encodeChars]⟩
  rw [assignedKey?, if_pos hstart, hline, List.drop_left, quotedKey?_encodeChars]

theorem assignedName?_value (name : String) :
    assignedName? ("  runtime: " ++ name ++ ",") = some name := by
  have hline : ("  runtime: " ++ name ++ ",").toList =
      "  runtime: ".toList ++ (name.toList ++ [',']) := by
    simp
  have hstart : startsWith "  runtime: " ("  runtime: " ++ name ++ ",").toList = true := by
    rw [startsWith, List.isPrefixOf_iff_prefix, hline]
    exact List.prefix_append _ _
  have hlast : ("  runtime: " ++ name ++ ",").toList.getLast? = some ',' := by
    rw [hline, ← List.append_assoc, List.getLast?_concat]
  rw [assignedName?, hstart, hlast, hline, List.drop_left, List.dropLast_concat]
  simp

/-! ### Whole registries -/

/-- Lines that open no assignment change nothing. -/
theorem execute_append_of_plain {lines : List String} (h : ∀ line ∈ lines, assignedKey? line = none)
    (registry : String → Option String) (more : List String) :
    execute registry (lines ++ more) = execute registry more := by
  induction lines with
  | nil => rfl
  | cons line lines ih =>
      rw [← ih fun other hother => h other (List.mem_cons_of_mem _ hother), List.cons_append]
      cases lines ++ more with
      | nil => rfl
      | cons next rest => simp only [execute, h line List.mem_cons_self]

theorem execute_of_plain {lines : List String} (h : ∀ line ∈ lines, assignedKey? line = none)
    (registry : String → Option String) : execute registry lines = registry := by
  have hplain := execute_append_of_plain h registry []
  rwa [List.append_nil] at hplain

theorem lastNamed_cons (registration : Registration) (registrations : List Registration)
    (key : String) :
    lastNamed (registration :: registrations) key = (lastNamed registrations key).or
      (if key = registration.key then some registration.identifier else none) := by
  simp only [lastNamed, List.reverse_cons, List.find?_append, List.find?_singleton]
  cases registrations.reverse.find? (·.key = key) with
  | some found => rfl
  | none => by_cases hkey : key = registration.key <;> simp [hkey, eq_comm]

/-- **What was assigned last is found.** -/
theorem execute_assignments (registrations : List Registration) {more : List String}
    (h : ∀ line ∈ more, assignedKey? line = none) (registry : String → Option String)
    (key : String) :
    execute registry (registrations.flatMap assignmentLines ++ more) key =
      (lastNamed registrations key).or (registry key) := by
  induction registrations generalizing registry with
  | nil =>
      rw [List.flatMap_nil, List.nil_append, execute_of_plain h]
      rfl
  | cons registration registrations ih =>
      have hbrace : ∀ line ∈ ["\x7d;"], assignedKey? line = none :=
        List.forall_mem_singleton.2 (assignedKey?_eq_none (by decide))
      let updated := Function.update registry registration.key (some registration.identifier)
      calc
        execute registry ((registration :: registrations).flatMap assignmentLines ++ more) key
            = execute updated
                (["\x7d;"] ++ (registrations.flatMap assignmentLines ++ more)) key := by
              rw [List.flatMap_cons, assignmentLines, List.append_assoc, List.cons_append,
                List.cons_append, execute]
              simp only [assignedKey?_opening, assignedName?_value, updated]
        _ = (lastNamed registrations key).or (updated key) := by
              rw [execute_append_of_plain hbrace, ih]
        _ = (lastNamed (registration :: registrations) key).or (registry key) := by
              rw [lastNamed_cons, Option.or_assoc]
              by_cases hkey : key = registration.key <;> simp [updated, hkey]

theorem assignedKey?_of_head {line : String} (h : line.toList.head? ≠ some 'c') :
    assignedKey? line = none := by
  refine assignedKey?_eq_none fun hopening => h ?_
  obtain ⟨rest, hrest⟩ := hopening
  simp [← hrest]

theorem assignedKey?_texts (declarations : List Import) :
    ∀ line ∈ declarations.map Import.text, assignedKey? line = none := by
  intro line hline
  obtain ⟨declaration, -, rfl⟩ := List.mem_map.1 hline
  exact assignedKey?_of_head (by simp [Import.text])

namespace Deed

theorem assignedKey?_openingLines (dialect : Dialect) :
    ∀ line ∈ openingLines dialect, assignedKey? line = none := by
  cases dialect with
  | jsx => exact nofun
  | vue => exact List.forall_mem_singleton.2 (assignedKey?_of_head (by decide))

theorem execute_registryLines (registrations : List Registration) {before after : List String}
    (hbefore : ∀ line ∈ before, assignedKey? line = none)
    (hafter : ∀ line ∈ after, assignedKey? line = none) (key : String) :
    registered (before ++ registryLines registrations ++ after) key =
      lastNamed registrations key := by
  have hplain : ∀ line ∈ before ++ (registrations.map (·.declaration.text) ++
      ["", "const comDefs = \x7b\x7d;"]), assignedKey? line = none := by
    intro line hline
    rw [List.mem_append, List.mem_append] at hline
    rcases hline with hmem | hmem | hmem
    · exact hbefore line hmem
    · exact assignedKey?_texts (registrations.map Registration.declaration) line
        (by rwa [List.map_map])
    · simp only [List.mem_cons, List.not_mem_nil, or_false] at hmem
      rcases hmem with rfl | rfl
      · exact assignedKey?_of_head (by decide)
      · exact assignedKey?_eq_none (by decide)
  have hlines : before ++ registryLines registrations ++ after =
      (before ++ (registrations.map (·.declaration.text) ++
        ["", "const comDefs = \x7b\x7d;"])) ++
        (registrations.flatMap assignmentLines ++ after) := by
    have hregistry : registryLines registrations = registrations.map (·.declaration.text) ++
        ["", "const comDefs = \x7b\x7d;"] ++ registrations.flatMap assignmentLines := rfl
    simp only [hregistry, List.append_assoc]
  rw [registered, hlines, execute_append_of_plain hplain, execute_assignments _ hafter,
    Option.or_none]

/-- **The registry of a module holds, under each key, the last of its components with that key.** -/
theorem registered_preamble (workshop : Workshop) (deed : Deed) (key : String) :
    registered (deed.preamble workshop) key = lastNamed deed.registrations key := by
  have hopening := assignedKey?_openingLines workshop.dialect
  have hown := assignedKey?_texts (deed.ownImports workshop)
  have hshared := assignedKey?_texts (deed.sharedImports workshop)
  cases deed with
  | entry reference payload closure =>
      have hbefore := List.forall_mem_append.2 ⟨List.forall_mem_append.2 ⟨hopening, hshared⟩, hown⟩
      have hwhole := execute_registryLines closure hbefore (List.forall_mem_nil _) key
      rwa [List.append_nil] at hwhole
  | dependency reference payload needed =>
      cases needed with
      | nil =>
          have hplain := List.forall_mem_append.2 ⟨hopening, hown⟩
          simpa [registered, preamble, registrations, lastNamed] using
            congrFun (execute_of_plain hplain _) key
      | cons registration needed =>
          have hempty : assignedKey? "" = none := assignedKey?_of_head (by decide)
          have hafter : ∀ line ∈ "" :: ((dependency reference payload
              (registration :: needed)).ownImports workshop).map Import.text,
              assignedKey? line = none :=
            List.forall_mem_cons.2 ⟨hempty, hown⟩
          have hwhole := execute_registryLines (registration :: needed) hopening hafter key
          simpa [preamble, registrations] using hwhole
  | message reference => exact congrFun (execute_of_plain hshared _) key

end Deed

/-- Where no name comes up twice, a component is found under its key exactly if none after it has
that key. -/
theorem lastNamed_eq_iff {registration : Registration} {front later : List Registration}
    (hnodup : ((front ++ registration :: later).map (·.identifier)).Nodup) :
    lastNamed (front ++ registration :: later) registration.key = some registration.identifier ↔
      ∀ other ∈ later, other.key ≠ registration.key := by
  have hsplit : (front ++ registration :: later).reverse =
      later.reverse ++ registration :: front.reverse := by
    simp
  rw [lastNamed, hsplit, List.find?_append]
  constructor
  · intro hfound other hother hkey
    obtain ⟨last, hlast⟩ : ∃ last, later.reverse.find? (·.key = registration.key) = some last := by
      refine Option.isSome_iff_exists.1 (List.find?_isSome.2 ⟨other, ?_, by simpa using hkey⟩)
      exact List.mem_reverse.2 hother
    have hmem := List.mem_reverse.1 (List.mem_of_find?_eq_some hlast)
    have hname : last.identifier = registration.identifier := by
      simpa [hlast] using hfound
    rw [List.map_append, List.map_cons] at hnodup
    exact (List.nodup_cons.1 hnodup.of_append_right).1 (hname ▸ List.mem_map_of_mem hmem)
  · intro hall
    have hnone : later.reverse.find? (·.key = registration.key) = none := by
      simpa using hall
    simp [hnone]

/-! ### The names that are bound -/

/-- What an import binds: its name, without braces around it. -/
def Import.localName (declaration : Import) : String :=
  identifierText declaration.name

theorem identifierText_eq_self {text : String}
    (h : ∀ ch ∈ text.toList, isIdentifierChar ch = true) : identifierText text = text := by
  rw [identifierText, List.filter_eq_self.2 h, String.ofList_toList]

theorem Naming.IsProper.localName {naming : Naming} (hproper : naming.IsProper)
    (reference : Reference) (specifier : String) :
    Import.localName { name := (naming.identity reference).identifier, specifier } =
      (naming.identity reference).identifier := by
  obtain ⟨front, hidentifier, -, hchars⟩ := hproper.exists_identifier reference
  refine identifierText_eq_self fun ch hch => ?_
  rw [hidentifier, List.mem_append, List.mem_cons] at hch
  rcases hch with hmem | rfl | hmem
  · exact hchars ch (List.mem_append_left _ hmem)
  · decide
  · exact hchars ch (List.mem_append_right _ hmem)

namespace Deed

/-- What a module imports besides components has names of its own. -/
theorem localNames_shared (workshop : Workshop) (deed : Deed) :
    ((deed.sharedImports workshop ++ deed.ownImports workshop).map Import.localName).Nodup ∧
      ∀ name ∈ (deed.sharedImports workshop ++ deed.ownImports workshop).map Import.localName,
        name ∈ moduleLocals := by
  have hplain : ∀ name ∈ moduleLocals, identifierText name = name := by decide
  have hreact : identifierText "React" = "React" := hplain _ (by decide)
  have hboundary : identifierText "ErrorBoundary" = "ErrorBoundary" := hplain _ (by decide)
  have hfunction : identifierText "renderCom" = "renderCom" := hplain _ (by decide)
  have hrender : identifierText "RenderCom" = "RenderCom" := hplain _ (by decide)
  have hbridge : identifierText "\x7b applyPureReactInVue \x7d" = "applyPureReactInVue" := by
    decide
  have hstyle : identifierText "\x7b style \x7d" = "style" := by decide
  cases deed with
  | entry reference payload closure =>
      cases hdialect : workshop.dialect <;> cases hkind : payload.kind <;>
        simp only [sharedImports, ownImports, companionImports, hdialect, hkind, Import.localName,
          List.map_append, List.map_cons, List.map_nil, hreact, hboundary, hfunction, hrender,
          hbridge] <;> decide
  | dependency reference payload needed =>
      cases hkind : payload.kind <;>
        simp only [sharedImports, ownImports, companionImports, hkind, Import.localName,
          List.map_append, List.map_cons, List.map_nil, hrender] <;> decide
  | message reference =>
      cases hdialect : workshop.dialect <;>
        simp only [sharedImports, ownImports, hdialect, Import.localName, List.map_append,
          List.map_cons, List.map_nil, hreact, hstyle] <;> decide

/-- **No name is imported twice**, if no component is registered twice. -/
theorem nodup_localNames (workshop : Workshop) {deed : Deed}
    (hnodup : (deed.registrations.map (·.identifier)).Nodup)
    (hnamed : ∀ registration ∈ deed.registrations, registration.IsNamed) :
    ((deed.imports workshop).map Import.localName).Nodup := by
  obtain ⟨hshared, hlocals⟩ := localNames_shared workshop deed
  have hregistered : (deed.registrations.map Registration.declaration).map Import.localName =
      deed.registrations.map (·.identifier) := by
    rw [List.map_map]
    refine List.map_congr_left fun registration hregistration => ?_
    obtain ⟨naming, reference, hproper, hidentifier⟩ := (hnamed _ hregistration).exists_naming
    rw [Function.comp_apply, Registration.declaration, hidentifier]
    exact hproper.localName reference registration.specifier
  have hperm : (deed.imports workshop).Perm (deed.sharedImports workshop ++
      deed.ownImports workshop ++ deed.registrations.map Registration.declaration) := by
    cases deed with
    | dependency reference payload needed =>
        simp only [imports, sharedImports, List.nil_append]
        exact List.perm_append_comm
    | _ =>
        simp only [imports]
        exact .refl _
  rw [(hperm.map _).nodup_iff, List.map_append, hregistered, List.nodup_append]
  refine ⟨hshared, hnodup, fun name hname identifier hidentifier heq => ?_⟩
  obtain ⟨registration, hregistration, rfl⟩ := List.mem_map.1 hidentifier
  obtain ⟨naming, reference, hproper, hregistered⟩ := (hnamed _ hregistration).exists_naming
  exact hproper.identifier_ne reference (List.mem_cons_of_mem _ (hlocals name hname))
    (hregistered.symm.trans heq.symm)

end Deed

/-! ### Keys -/

/-- The texts of two references part one key, each at a hyphen of its own. -/
def Reference.PartsOtherwise (reference other : Reference) : Prop :=
  ∃ middle, (reference.space = other.space ++ "-" ++ middle ∧
      other.version = middle ++ "-" ++ reference.version) ∨
    (other.space = reference.space ++ "-" ++ middle ∧
      reference.version = middle ++ "-" ++ other.version)

theorem append_hyphen_eq_iff {space version space' version' : List Char} :
    space ++ '-' :: version = space' ++ '-' :: version' ↔
      (space = space' ∧ version = version') ∨
      ∃ middle, (space = space' ++ '-' :: middle ∧ version' = middle ++ '-' :: version) ∨
        (space' = space ++ '-' :: middle ∧ version = middle ++ '-' :: version') := by
  constructor
  · intro h
    rcases List.append_eq_append_iff.1 h with ⟨more, hspace, hversion⟩ | ⟨more, hspace, hversion⟩
    · cases more with
      | nil => exact .inl (by simp_all)
      | cons ch middle =>
          obtain ⟨rfl, hrest⟩ := List.cons.inj hversion
          exact .inr ⟨middle, .inr ⟨hspace, hrest⟩⟩
    · cases more with
      | nil => exact .inl (by simp_all)
      | cons ch middle =>
          obtain ⟨rfl, hrest⟩ := List.cons.inj hversion
          exact .inr ⟨middle, .inl ⟨hspace, hrest⟩⟩
  · rintro (⟨rfl, rfl⟩ | ⟨middle, ⟨rfl, rfl⟩ | ⟨rfl, rfl⟩⟩)
    · rfl
    · simp
    · simp

theorem Reference.registryKey_eq_iff {reference other : Reference} :
    reference.registryKey = other.registryKey ↔
      (reference.space = other.space ∧ reference.version = other.version) ∨
        reference.PartsOtherwise other := by
  have hexists : reference.PartsOtherwise other ↔ ∃ middle : List Char,
      (reference.space.toList = other.space.toList ++ '-' :: middle ∧
        other.version.toList = middle ++ '-' :: reference.version.toList) ∨
      (other.space.toList = reference.space.toList ++ '-' :: middle ∧
        reference.version.toList = middle ++ '-' :: other.version.toList) := by
    constructor
    · rintro ⟨middle, hmiddle⟩
      refine ⟨middle.toList, ?_⟩
      simpa [← String.toList_inj] using hmiddle
    · rintro ⟨middle, hmiddle⟩
      refine ⟨String.ofList middle, ?_⟩
      simpa [← String.toList_inj] using hmiddle
  rw [hexists, registryKey, registryKey, ← String.toList_inj, ← String.toList_inj,
    ← String.toList_inj, ← append_hyphen_eq_iff]
  simp

end ComponentTags
