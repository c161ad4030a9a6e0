import ComponentTags.Plan.Basic
import ComponentTags.Proofs.Component.ModuleNames

/-!
Identifiers of components. Each is a name that a script can bind, none of those that modules bind
anyway; as a tag it stands for the component exactly if the names do not start in lower case.
-/

namespace ComponentTags

/-- A name of ASCII characters that a script can bind, and no digit at its front. -/
structure IsScriptName (name : String) : Prop where
  exists_cons : ∃ first rest, name.toList = first :: rest ∧
    (first.isAlpha = true ∨ first = '_' ∨ first = '$') ∧ ∀ ch ∈ rest, isIdentifierChar ch = true

/-- A tag that stands for what its name is bound to; one in lower case stands for an element. -/
def IsComponentTag (name : String) : Prop :=
  ∀ first ∈ name.toList.head?, first.isLower = false

instance (name : String) : Decidable (IsComponentTag name) :=
  decidable_of_iff (name.toList.head?.all (!·.isLower) = true)
    (by cases hhead : name.toList.head? <;> simp [IsComponentTag, hhead])

/-- The names that modules bind besides those of components. -/
def moduleLocals : List String :=
  ["React", "ErrorBoundary", "renderCom", "RenderCom", "comDefs", "applyPureReactInVue", "style"]

/-- What names that start so have in front: the first character kept, unless it is a digit. -/
def frontChar (start : String) : Char :=
  match (identifierText start).toList with
  | [] => '_'
  | first :: _ => if first.isDigit then '_' else first

theorem frontChar_isScript (start : String) :
    (frontChar start).isAlpha = true ∨ frontChar start = '_' ∨ frontChar start = '$' := by
  unfold frontChar
  split
  · exact .inr (.inl rfl)
  · next first rest htext =>
      split
      · exact .inr (.inl rfl)
      · next hdigit =>
          have hmem : first ∈ (identifierText start).toList := by simp [htext]
          have hchar := isIdentifierChar_of_mem_identifierText hmem
          simpa [isIdentifierChar, Char.isAlphanum, hdigit, or_assoc] using hchar

theorem isLower_eq_false_of_isDigit {ch : Char} (h : ch.isDigit = true) : ch.isLower = false := by
  refine Bool.eq_false_iff.2 fun hlower => ?_
  have hbelow : ch.val ≤ 57 := of_decide_eq_true (Bool.and_eq_true_iff.1 h).2
  have habove : 97 ≤ ch.val := of_decide_eq_true (Bool.and_eq_true_iff.1 hlower).1
  exact absurd (UInt32.le_trans habove hbelow) (by decide)

/-- A digit is not in lower case, and neither is an underscore, whatever it stands in front of. -/
theorem frontChar_isLower_iff (start : String) :
    (frontChar start).isLower = false ↔
      ∀ first ∈ (identifierText start).toList.head?, first.isLower = false := by
  unfold frontChar
  split
  · next htext => simp [htext]
  · next first rest htext =>
      rw [htext]
      split
      · next hdigit => simp [isLower_eq_false_of_isDigit hdigit]
      · simp

theorem Naming.head?_identifier (directory : Path) (extension start : String)
    (reference : Reference) :
    ((Naming.of directory extension start).identity reference).identifier.toList.head? =
      some (frontChar start) := by
  have hstart : (Naming.of directory extension start).start.toList.head? =
      some (frontChar start) := by
    unfold Naming.of frontChar
    cases htext : (identifierText start).toList with
    | nil => simp [htext]
    | cons first rest => cases hdigit : first.isDigit <;> simp [htext, hdigit]
  rw [Naming.identity]
  simp [hstart]

/-- An identifier has an underscore before the eight digits at its end. -/
theorem Naming.IsProper.underscore {naming : Naming} (hproper : naming.IsProper)
    (reference : Reference) :
    (naming.identity reference).identifier.toList.reverse[8]? = some '_' := by
  obtain ⟨front, hidentifier, -, -⟩ := hproper.exists_identifier reference
  have hlength : reference.digest.toList.reverse.length = 8 := by
    rw [List.length_reverse, length_digest]
  rw [hidentifier]
  simp [hlength]

/-- None of the names that are bound anyway has an underscore in that place. -/
theorem Naming.IsProper.identifier_ne {naming : Naming} (hproper : naming.IsProper)
    (reference : Reference) {name : String} (hname : name ∈ fallbackName :: moduleLocals) :
    (naming.identity reference).identifier ≠ name := by
  have hlocals : ∀ name ∈ fallbackName :: moduleLocals, name.toList.reverse[8]? ≠ some '_' := by
    decide +kernel
  rintro rfl
  exact hlocals _ hname (hproper.underscore reference)

theorem Naming.IsProper.isScriptName {naming : Naming} (hproper : naming.IsProper)
    (reference : Reference) {first : Char}
    (hhead : (naming.identity reference).identifier.toList.head? = some first)
    (hfirst : first.isAlpha = true ∨ first = '_' ∨ first = '$') :
    IsScriptName (naming.identity reference).identifier where
  exists_cons := by
    obtain ⟨front, hidentifier, hfront, hchars⟩ := hproper.exists_identifier reference
    obtain ⟨first', front, rfl⟩ := List.exists_cons_of_ne_nil hfront
    obtain rfl : first' = first := by simpa [hidentifier] using hhead
    refine ⟨first', front ++ '_' :: reference.digest.toList, hidentifier, hfirst, ?_⟩
    intro ch hch
    rw [List.mem_append, List.mem_cons] at hch
    rcases hch with hmem | rfl | hmem
    · exact hchars ch (by simp [hmem])
    · decide
    · exact hchars ch (by simp [hmem])

/--
**What an identifier can be used for.** Whatever texts a reference has, its identifier can be bound
in a script and is none of the other names that are bound; as a tag it stands for its component
exactly if the text that names start with does not start in lower case itself.
-/
theorem identifier_usable_iff (directory : Path) (dialect : Dialect) (start : String)
    (reference : Reference) :
    let identifier :=
      ((Naming.of directory dialect.artifactExtension start).identity reference).identifier
    IsScriptName identifier ∧ (∀ name ∈ moduleLocals, identifier ≠ name) ∧
      identifier ≠ fallbackName ∧
      (IsComponentTag identifier ↔
        ∀ first ∈ (identifierText start).toList.head?, first.isLower = false) := by
  intro identifier
  have hproper := Naming.isProper_of directory dialect start
  have hhead := Naming.head?_identifier directory dialect.artifactExtension start reference
  refine ⟨hproper.isScriptName reference hhead (frontChar_isScript start),
    fun name hname => hproper.identifier_ne reference (List.mem_cons_of_mem _ hname),
    hproper.identifier_ne reference List.mem_cons_self, ?_⟩
  rw [← frontChar_isLower_iff, IsComponentTag, hhead]
  simp

/-- With names that start in lower case, the tag of a component stands for a plain element. -/
theorem lower_start_names_element :
    ¬IsComponentTag ((Naming.of ⟨"/w"⟩ Dialect.jsx.artifactExtension "cloud").identity
      ⟨"Widget", "a", "1"⟩).identifier := by
  decide +kernel

end ComponentTags
