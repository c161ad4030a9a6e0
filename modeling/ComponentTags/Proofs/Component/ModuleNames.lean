import ComponentTags.Component.Dialect
import ComponentTags.Component.Identity
import ComponentTags.Proofs.Disk.Writing

/-!
The file names of components. Modules, their companions and temporary files never get one name,
whatever the references are and whichever dialect the modules are for.
-/

namespace ComponentTags

/-- A name that a component module may get: an identifier that ends in a digest, and an extension. -/
structure IsModuleName (name : String) : Prop where
  exists_parts : ∃ front digits extension : List Char,
    name.toList = front ++ '_' :: (digits ++ extension) ∧ front ≠ [] ∧ digits.length = 8 ∧
      (extension = ['.', 'j', 's'] ∨ extension = ['.', 'v', 'u', 'e']) ∧
      ∀ ch ∈ front ++ digits, isIdentifierChar ch = true

/-- A name that the companion of a component module may get. -/
structure IsCompanionName (name : String) : Prop where
  exists_identifier : ∃ identifier : List Char,
    name.toList = identifier ++ "CompiledCode.js".toList ∧ identifier ≠ [] ∧
      ∀ ch ∈ identifier, isIdentifierChar ch = true

theorem isPlainName_of_toList {name : String} {first : Char} {rest : List Char}
    (htext : name.toList = first :: rest) (hfirst : isIdentifierChar first = true)
    (hrest : '/' ∉ rest) : IsPlainName name where
  notMem := by
    rw [htext, List.mem_cons]
    rintro (rfl | hmem)
    · exact absurd hfirst (by decide)
    · exact hrest hmem
  ne_empty := by
    rintro rfl
    simp at htext
  ne_here := by
    rintro rfl
    simp only [String.reduceToList, List.cons.injEq] at htext
    exact absurd hfirst (by rw [← htext.1]; decide)
  ne_parent := by
    rintro rfl
    simp only [String.reduceToList, List.cons.injEq] at htext
    exact absurd hfirst (by rw [← htext.1]; decide)

theorem separator_notMem_of_identifier {text : List Char}
    (h : ∀ ch ∈ text, isIdentifierChar ch = true) : '/' ∉ text :=
  fun hmem => absurd (h '/' hmem) (by decide)

namespace IsModuleName

variable {name : String}

theorem exists_cons (h : IsModuleName name) :
    ∃ first rest, name.toList = first :: rest ∧ isIdentifierChar first = true ∧ '/' ∉ rest := by
  obtain ⟨front, digits, extension, htext, hfront, -, hextension, hchars⟩ := h.exists_parts
  obtain ⟨first, front, rfl⟩ := List.exists_cons_of_ne_nil hfront
  refine ⟨first, front ++ '_' :: (digits ++ extension), htext, hchars first (by simp), ?_⟩
  have hseparator := separator_notMem_of_identifier hchars
  simp only [List.cons_append, List.mem_cons, List.mem_append, not_or] at hseparator
  have hend : '/' ∉ extension := by
    rcases hextension with rfl | rfl <;> decide
  simp [hseparator.2, hend]

theorem isPlainName (h : IsModuleName name) : IsPlainName name := by
  obtain ⟨first, rest, htext, hfirst, hrest⟩ := h.exists_cons
  exact isPlainName_of_toList htext hfirst hrest

theorem ne_temporaryName (h : IsModuleName name) (mark other : String) :
    name ≠ temporaryName mark other := by
  obtain ⟨first, rest, htext, hfirst, -⟩ := h.exists_cons
  rintro rfl
  have hdot : first = '.' := by simpa [temporaryName] using (congrArg List.head? htext).symm
  rw [hdot] at hfirst
  exact absurd hfirst (by decide)

/-- Nine characters before its extension a module's name has its last underscore, and a companion's
name has a letter there. -/
theorem ne_companionName (h : IsModuleName name) {companion : String}
    (hcompanion : IsCompanionName companion) : name ≠ companion := by
  obtain ⟨front, digits, extension, htext, -, hlength, hextension, -⟩ := h.exists_parts
  obtain ⟨identifier, hidentifier, -, -⟩ := hcompanion.exists_identifier
  rintro rfl
  have hreverse := congrArg List.reverse (htext.symm.trans hidentifier)
  have hdigits : digits.reverse.length = 8 := by simpa using hlength
  rcases hextension with rfl | rfl
  · have hplace := congrArg (fun text => text[11]?) hreverse
    simp [hdigits] at hplace
  · have hplace := congrArg (fun text => text[0]?) hreverse
    simp at hplace

end IsModuleName

namespace IsCompanionName

variable {name : String}

theorem exists_cons (h : IsCompanionName name) :
    ∃ first rest, name.toList = first :: rest ∧ isIdentifierChar first = true ∧ '/' ∉ rest := by
  obtain ⟨identifier, htext, hidentifier, hchars⟩ := h.exists_identifier
  obtain ⟨first, identifier, rfl⟩ := List.exists_cons_of_ne_nil hidentifier
  refine ⟨first, identifier ++ "CompiledCode.js".toList, htext, hchars first (by simp), ?_⟩
  have hseparator := separator_notMem_of_identifier hchars
  simp only [List.mem_cons, not_or] at hseparator
  simp [hseparator.2]

theorem isPlainName (h : IsCompanionName name) : IsPlainName name := by
  obtain ⟨first, rest, htext, hfirst, hrest⟩ := h.exists_cons
  exact isPlainName_of_toList htext hfirst hrest

theorem ne_temporaryName (h : IsCompanionName name) (mark other : String) :
    name ≠ temporaryName mark other := by
  obtain ⟨first, rest, htext, hfirst, -⟩ := h.exists_cons
  rintro rfl
  have hdot : first = '.' := by simpa [temporaryName] using (congrArg List.head? htext).symm
  rw [hdot] at hfirst
  exact absurd hfirst (by decide)

end IsCompanionName

/-! ### The names that a naming gives -/

theorem isIdentifierChar_of_mem_identifierText {text : String} {ch : Char}
    (h : ch ∈ (identifierText text).toList) : isIdentifierChar ch = true := by
  rw [identifierText, String.toList_ofList] at h
  exact (List.mem_filter.1 h).2

theorem isIdentifierChar_digitChar {n : Nat} (h : n < 16) :
    isIdentifierChar (Nat.digitChar n) = true := by
  have hall : ∀ i : Fin 16, isIdentifierChar (Nat.digitChar i) = true := by decide
  exact hall ⟨n, h⟩

theorem isIdentifierChar_of_mem_hex {bytes : List UInt8} {ch : Char}
    (h : ch ∈ (Sha256.hex bytes).toList) : isIdentifierChar ch = true := by
  rw [Sha256.hex, String.toList_ofList, List.mem_flatMap] at h
  obtain ⟨byte, -, hch⟩ := h
  have hbyte := byte.toNat_lt
  simp only [List.mem_cons, List.not_mem_nil, or_false] at hch
  rcases hch with rfl | rfl
  · exact isIdentifierChar_digitChar (by omega)
  · exact isIdentifierChar_digitChar (by omega)

theorem length_hex (bytes : List UInt8) : (Sha256.hex bytes).toList.length = 2 * bytes.length := by
  rw [Sha256.hex, String.toList_ofList]
  induction bytes with
  | nil => rfl
  | cons byte bytes ih =>
      rw [List.flatMap_cons, List.length_append, ih, List.length_cons, List.length_cons]
      simp
      omega

theorem length_hash (message : List UInt8) : (Sha256.hash message).length = 32 := by
  simp [Sha256.hash, Sha256.State.words, Sha256.bytesOfWord]

theorem length_digest (reference : Reference) : reference.digest.toList.length = 8 := by
  rw [Reference.digest, length_hex, List.length_take, length_hash]
  rfl

/-- Where the modules of a naming lie, under which names they do. -/
def Naming.moduleName (naming : Naming) (reference : Reference) : String :=
  (naming.identity reference).identifier ++ "." ++ naming.extension

/-- The name of the companion of a module. -/
def Naming.companionName (naming : Naming) (reference : Reference) : String :=
  (naming.identity reference).identifier ++ "CompiledCode.js"

/-- A naming whose names start like identifiers, for the modules of a dialect. -/
structure Naming.IsProper (naming : Naming) : Prop where
  start_ne : naming.start ≠ ""
  start_chars : ∀ ch ∈ naming.start.toList, isIdentifierChar ch = true
  extension : naming.extension = "js" ∨ naming.extension = "vue"

theorem Naming.isProper_of (directory : Path) (dialect : Dialect) (start : String) :
    (Naming.of directory dialect.artifactExtension start).IsProper where
  start_ne := by
    intro h
    have hempty := congrArg String.toList h
    simp only [Naming.of] at hempty
    split at hempty
    · next hfirst =>
        rw [hempty] at hfirst
        simp at hfirst
    · simp at hempty
  start_chars ch hch := by
    simp only [Naming.of] at hch
    split at hch
    · exact isIdentifierChar_of_mem_identifierText hch
    · rw [String.toList_append, List.mem_append] at hch
      rcases hch with hch | hch
      · obtain rfl : ch = '_' := by simpa using hch
        decide
      · exact isIdentifierChar_of_mem_identifierText hch
  extension := by cases dialect <;> simp [Naming.of, Dialect.artifactExtension]

namespace Naming.IsProper

variable {naming : Naming}

/-- An identifier is some characters of identifiers and, after an underscore, the digest. -/
theorem exists_identifier (hproper : naming.IsProper) (reference : Reference) :
    ∃ front : List Char, (naming.identity reference).identifier.toList =
        front ++ '_' :: reference.digest.toList ∧ front ≠ [] ∧
      ∀ ch ∈ front ++ reference.digest.toList, isIdentifierChar ch = true := by
  refine ⟨naming.start.toList ++
    (identifierText (reference.tag ++ reference.space ++ reference.version)).toList, ?_, ?_, ?_⟩
  · simp [identity]
  · intro h
    exact hproper.start_ne (String.toList_inj.1 (by simpa using (List.append_eq_nil_iff.1 h).1))
  · intro ch hch
    rw [List.mem_append, List.mem_append] at hch
    rcases hch with (hch | hch) | hch
    · exact hproper.start_chars ch hch
    · exact isIdentifierChar_of_mem_identifierText hch
    · exact isIdentifierChar_of_mem_hex hch

theorem isModuleName (hproper : naming.IsProper) (reference : Reference) :
    IsModuleName (naming.moduleName reference) := by
  obtain ⟨front, hidentifier, hfront, hchars⟩ := hproper.exists_identifier reference
  refine ⟨front, reference.digest.toList, '.' :: naming.extension.toList, ?_, hfront,
    length_digest reference, ?_, hchars⟩
  · simp [moduleName, hidentifier]
  · rcases hproper.extension with h | h <;> simp [h]

theorem isCompanionName (hproper : naming.IsProper) (reference : Reference) :
    IsCompanionName (naming.companionName reference) := by
  obtain ⟨front, hidentifier, hfront, hchars⟩ := hproper.exists_identifier reference
  refine ⟨(naming.identity reference).identifier.toList, ?_, ?_, ?_⟩
  · simp [companionName]
  · simp [hidentifier, hfront]
  · intro ch hch
    rw [hidentifier, List.mem_append, List.mem_cons] at hch
    rcases hch with hch | rfl | hch
    · exact hchars ch (List.mem_append_left _ hch)
    · decide
    · exact hchars ch (List.mem_append_right _ hch)

end Naming.IsProper

end ComponentTags
