import ComponentTags.Proofs.Component.ModuleNames

/-!
The files of components. Whatever texts a reference has, its module and its companion lie directly
in the component directory, and no file is the file of two names or both a module and a companion.
-/

namespace ComponentTags

/-- What stands in the names of files: the characters of identifiers, and the dot. -/
def isFileChar (ch : Char) : Bool :=
  isIdentifierChar ch || ch == '.'

/-- A name that is one step of a path, of a file's characters only. -/
structure IsFileName (name : String) : Prop extends IsPlainName name where
  chars : ∀ ch ∈ name.toList, isFileChar ch = true

/-- A path with the steps of a directory and one file name behind them. -/
def Path.LiesIn (path directory : Path) : Prop :=
  ∃ name, IsFileName name ∧ path.steps = directory.steps ++ [.name name]

theorem isFileChar_of_isIdentifierChar {ch : Char} (h : isIdentifierChar ch = true) :
    isFileChar ch = true := by
  simp [isFileChar, h]

theorem IsModuleName.isFileName {name : String} (h : IsModuleName name) : IsFileName name where
  toIsPlainName := h.isPlainName
  chars := by
    obtain ⟨front, digits, extension, htext, -, -, hextension, hchars⟩ := h.exists_parts
    have hend : extension.all isFileChar = true := by
      rcases hextension with rfl | rfl <;> decide
    intro ch hch
    rw [htext, List.mem_append, List.mem_cons, List.mem_append] at hch
    rcases hch with hfront | rfl | hdigits | hmem
    · exact isFileChar_of_isIdentifierChar (hchars ch (List.mem_append_left _ hfront))
    · exact isFileChar_of_isIdentifierChar (by decide)
    · exact isFileChar_of_isIdentifierChar (hchars ch (List.mem_append_right _ hdigits))
    · exact List.all_eq_true.1 hend ch hmem

theorem IsCompanionName.isFileName {name : String} (h : IsCompanionName name) :
    IsFileName name where
  toIsPlainName := h.isPlainName
  chars := by
    obtain ⟨identifier, htext, -, hchars⟩ := h.exists_identifier
    have hend : "CompiledCode.js".toList.all isFileChar = true := by decide +kernel
    intro ch hch
    rw [htext, List.mem_append] at hch
    rcases hch with hmem | hmem
    · exact isFileChar_of_isIdentifierChar (hchars ch hmem)
    · exact List.all_eq_true.1 hend ch hmem

namespace Naming.IsProper

variable {naming naming' : Naming}

theorem steps_path (hproper : naming.IsProper) (reference : Reference) :
    (naming.identity reference).path.steps =
      naming.directory.steps ++ [.name (naming.moduleName reference)] :=
  naming.directory.steps_join (hproper.isModuleName reference).isPlainName

theorem steps_companion (hproper : naming.IsProper) (reference : Reference) :
    (naming.companion (naming.identity reference)).steps =
      naming.directory.steps ++ [.name (naming.companionName reference)] :=
  naming.directory.steps_join (hproper.isCompanionName reference).isPlainName

/-- The last character of a module's name tells its extension, and what is before that the
identifier. -/
theorem moduleName_eq_iff (hproper : naming.IsProper) (hproper' : naming'.IsProper)
    (reference other : Reference) :
    naming.moduleName reference = naming'.moduleName other ↔
      (naming.identity reference).identifier = (naming'.identity other).identifier ∧
        naming.extension = naming'.extension := by
  constructor
  · intro h
    have hlast := congrArg (fun name : String => name.toList.getLast?) h
    have hextension : naming.extension = naming'.extension := by
      rcases hproper.extension with hfirst | hfirst <;>
        rcases hproper'.extension with hsecond | hsecond <;>
          simp [moduleName, hfirst, hsecond] at hlast ⊢
    refine ⟨?_, hextension⟩
    rw [moduleName, moduleName, ← hextension] at h
    simpa using h
  · rintro ⟨hidentifier, hextension⟩
    rw [moduleName, moduleName, hidentifier, hextension]

theorem companionName_eq_iff (reference other : Reference) :
    naming.companionName reference = naming'.companionName other ↔
      (naming.identity reference).identifier = (naming'.identity other).identifier := by
  simp [companionName]

/-- Two modules in one directory are one file exactly if they have one name and one extension. -/
theorem steps_path_eq_iff (hproper : naming.IsProper) (hproper' : naming'.IsProper)
    (hdirectory : naming.directory = naming'.directory) (reference other : Reference) :
    (naming.identity reference).path.steps = (naming'.identity other).path.steps ↔
      (naming.identity reference).identifier = (naming'.identity other).identifier ∧
        naming.extension = naming'.extension := by
  rw [hproper.steps_path, hproper'.steps_path, hdirectory, List.append_cancel_left_eq,
    ← hproper.moduleName_eq_iff hproper']
  simp

end Naming.IsProper

theorem Dialect.artifactExtension_inj {dialect dialect' : Dialect} :
    dialect.artifactExtension = dialect'.artifactExtension ↔ dialect = dialect' := by
  cases dialect <;> cases dialect' <;> decide

/--
**The files of components never collide and never leave their directory.** This holds for all texts
that a reference may have, and also for modules of both dialects in one directory.
-/
theorem component_files_apart (directory : Path) (dialect dialect' : Dialect)
    (start start' : String) (reference other : Reference) :
    let naming := Naming.of directory dialect.artifactExtension start
    let naming' := Naming.of directory dialect'.artifactExtension start'
    let identity := naming.identity reference
    let identity' := naming'.identity other
    (identity.path.LiesIn directory ∧ (naming.companion identity).LiesIn directory) ∧
      (identity.path.steps = identity'.path.steps ↔
        identity.identifier = identity'.identifier ∧ dialect = dialect') ∧
      ((naming.companion identity).steps = (naming'.companion identity').steps ↔
        identity.identifier = identity'.identifier) ∧
      identity.path.steps ≠ (naming'.companion identity').steps := by
  intro naming naming' identity identity'
  have hproper : naming.IsProper := Naming.isProper_of directory dialect start
  have hproper' : naming'.IsProper := Naming.isProper_of directory dialect' start'
  have hmodule := hproper.isModuleName reference
  have hcompanion := hproper.isCompanionName reference
  refine ⟨⟨?_, ?_⟩, ?_, ?_, ?_⟩
  · exact ⟨_, hmodule.isFileName, hproper.steps_path reference⟩
  · exact ⟨_, hcompanion.isFileName, hproper.steps_companion reference⟩
  · rw [hproper.steps_path_eq_iff hproper' rfl, ← Dialect.artifactExtension_inj]
    rfl
  · rw [hproper.steps_companion, hproper'.steps_companion]
    rw [← Naming.IsProper.companionName_eq_iff]
    simp [naming, naming', Naming.of]
  · rw [hproper.steps_path, hproper'.steps_companion]
    intro h
    have hname : naming.moduleName reference = naming'.companionName other := by
      simpa [naming, naming', Naming.of] using h
    exact hmodule.ne_companionName (hproper'.isCompanionName other) hname

end ComponentTags
