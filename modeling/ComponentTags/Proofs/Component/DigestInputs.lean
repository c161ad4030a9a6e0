import Mathlib.Tactic.ByContra
import ComponentTags.Component.Key
import ComponentTags.Proofs.Component.ModuleFiles
import ComponentTags.Proofs.Text.Encodings

/-!
What the digest of a reference is taken of: its three texts with a NUL between them. Other
references are hashed as other bytes exactly if no NUL stands in the texts themselves.
-/

namespace ComponentTags

namespace Reference

variable {reference other : Reference}

/-- The three texts of a reference, a NUL between each two. -/
def joined (reference : Reference) : List Char :=
  reference.tag.toList ++ '\x00' :: (reference.space.toList ++ '\x00' :: reference.version.toList)

theorem digestInput_eq (reference : Reference) :
    reference.digestInput = Utf8.encode reference.joined := by
  have hnul : String.utf8EncodeChar '\x00' = [0] := by decide
  simp [digestInput, joined, Utf8.encode_cons, hnul]

theorem digestInput_eq_iff :
    other.digestInput = reference.digestInput ↔ other.joined = reference.joined := by
  rw [digestInput_eq, digestInput_eq]
  exact ⟨Utf8.encode_injective, congrArg Utf8.encode⟩

/-- A reference none of whose texts holds a NUL. -/
structure IsFreeOfNul (reference : Reference) : Prop where
  tag : '\x00' ∉ reference.tag.toList
  space : '\x00' ∉ reference.space.toList
  version : '\x00' ∉ reference.version.toList

theorem splitChars_joined (reference : Reference) :
    splitChars '\x00' reference.joined = splitChars '\x00' reference.tag.toList ++
      (splitChars '\x00' reference.space.toList ++ splitChars '\x00' reference.version.toList) := by
  rw [joined, splitChars_append, splitChars_append]

/-- Free of NULs, the joined texts have just the two NULs between them, and can be parted again. -/
theorem IsFreeOfNul.eq_of_joined_eq (h : reference.IsFreeOfNul)
    (heq : other.joined = reference.joined) : other = reference := by
  have hcount : other.joined.count '\x00' = reference.joined.count '\x00' := by rw [heq]
  simp only [joined, List.count_append, List.count_cons_self, List.count_eq_zero_of_not_mem h.tag,
    List.count_eq_zero_of_not_mem h.space, List.count_eq_zero_of_not_mem h.version] at hcount
  have hother : other.IsFreeOfNul :=
    ⟨List.count_eq_zero.1 (by omega), List.count_eq_zero.1 (by omega),
      List.count_eq_zero.1 (by omega)⟩
  have hparts := congrArg (splitChars '\x00') heq
  rw [splitChars_joined, splitChars_joined, splitChars_of_notMem hother.tag,
    splitChars_of_notMem hother.space, splitChars_of_notMem hother.version,
    splitChars_of_notMem h.tag, splitChars_of_notMem h.space,
    splitChars_of_notMem h.version] at hparts
  cases reference
  cases other
  simpa [String.toList_inj] using hparts

/-- A NUL in one of the texts can be taken for one between two of them. -/
theorem exists_joined_eq (h : ¬reference.IsFreeOfNul) :
    ∃ other, other ≠ reference ∧ other.joined = reference.joined := by
  obtain ⟨tag, space, version⟩ := reference
  have hnul : '\x00' ∈ tag.toList ∨ '\x00' ∈ space.toList ∨ '\x00' ∈ version.toList := by
    by_contra hnone
    rw [not_or, not_or] at hnone
    exact h ⟨hnone.1, hnone.2.1, hnone.2.2⟩
  have hne : ∀ {text : String} {front back : List Char}, text.toList = front ++ '\x00' :: back →
      text ≠ String.ofList front := by
    rintro text front back htext rfl
    simp at htext
  rcases hnul with hmem | hmem | hmem <;> obtain ⟨front, back, htext⟩ := List.append_of_mem hmem
  · refine ⟨⟨.ofList front, .ofList back, space ++ "\x00" ++ version⟩, ?_, ?_⟩
    · exact fun heq => hne htext (congrArg Reference.tag heq).symm
    · simp [joined, htext]
  · refine ⟨⟨tag, .ofList front, .ofList back ++ "\x00" ++ version⟩, ?_, ?_⟩
    · exact fun heq => hne htext (congrArg Reference.space heq).symm
    · simp [joined, htext]
  · refine ⟨⟨tag, space ++ "\x00" ++ .ofList front, .ofList back⟩, ?_, ?_⟩
    · intro heq
      have hspace := congrArg (fun found : Reference => found.space.toList.length) heq
      simp at hspace
    · simp [joined, htext]

/-- Different bytes with the same first digits of their digests. -/
def Collides (reference other : Reference) : Prop :=
  other.digestInput ≠ reference.digestInput ∧ other.digest = reference.digest

end Reference

namespace Naming

variable {reference other : Reference}

/-- What is kept of the texts of a reference can be told from the joined texts. -/
theorem identifierText_eq (reference : Reference) :
    identifierText (reference.tag ++ reference.space ++ reference.version) =
      String.ofList (reference.joined.filter isIdentifierChar) := by
  have hnul : isIdentifierChar '\x00' = false := by decide
  simp [identifierText, Reference.joined, hnul]

theorem identity_eq_of_joined_eq (naming : Naming) (h : other.joined = reference.joined) :
    naming.identity other = naming.identity reference := by
  have hdigest : other.digest = reference.digest := by
    rw [Reference.digest, Reference.digest, Reference.digestInput_eq_iff.2 h]
  simp only [identity, identifierText_eq, h, hdigest]

theorem IsProper.digest_eq_of_identifier_eq {naming : Naming} (hproper : naming.IsProper)
    (h : (naming.identity other).identifier = (naming.identity reference).identifier) :
    other.digest = reference.digest := by
  obtain ⟨front, hidentifier, -, -⟩ := hproper.exists_identifier reference
  obtain ⟨front', hidentifier', -, -⟩ := hproper.exists_identifier other
  have htexts : (front' ++ ['_']) ++ other.digest.toList =
      (front ++ ['_']) ++ reference.digest.toList := by
    simpa [hidentifier, hidentifier'] using congrArg String.toList h
  have hlength : other.digest.toList.length = reference.digest.toList.length := by
    rw [length_digest, length_digest]
  exact String.toList_inj.1 (List.append_inj_right' htexts hlength)

/-- Two references share what a naming gives them: an identifier, a file or a key. -/
def Confuses (naming : Naming) (reference other : Reference) : Prop :=
  (naming.identity other).identifier = (naming.identity reference).identifier ∨
    (naming.identity other).path.steps = (naming.identity reference).path.steps ∨
    naming.key other = naming.key reference

theorem IsProper.identifier_eq_of_confuses {naming : Naming} (hproper : naming.IsProper)
    (h : naming.Confuses reference other) :
    (naming.identity other).identifier = (naming.identity reference).identifier := by
  rcases h with hidentifier | hpath | hkey
  · exact hidentifier
  · exact ((hproper.steps_path_eq_iff hproper rfl other reference).1 hpath).1
  · exact congrArg ComponentKey.identifier hkey

end Naming

/--
**Which references are hashed as bytes of their own.** Every other reference is hashed as other
bytes, and can be confused with this one by a collision of the shortened digests only, exactly if
this one is free of NULs.
-/
theorem digestInput_unique_iff (reference : Reference) :
    ((∀ other, other ≠ reference → other.digestInput ≠ reference.digestInput) ↔
      reference.IsFreeOfNul) ∧
    ((∀ (other : Reference) (directory : Path) (dialect : Dialect) (start : String),
        other ≠ reference →
        (Naming.of directory dialect.artifactExtension start).Confuses reference other →
        reference.Collides other) ↔
      reference.IsFreeOfNul) := by
  have hunique : reference.IsFreeOfNul →
      ∀ other, other ≠ reference → other.digestInput ≠ reference.digestInput :=
    fun hfree other hne heq => hne (hfree.eq_of_joined_eq (Reference.digestInput_eq_iff.1 heq))
  refine ⟨⟨fun hall => ?_, hunique⟩, fun hall => ?_,
    fun hfree other directory dialect start hne h => ?_⟩
  · by_contra hnul
    obtain ⟨other, hne, hjoined⟩ := Reference.exists_joined_eq hnul
    exact hall other hne (Reference.digestInput_eq_iff.2 hjoined)
  · by_contra hnul
    obtain ⟨other, hne, hjoined⟩ := Reference.exists_joined_eq hnul
    have hidentity :=
      (Naming.of ⟨""⟩ Dialect.jsx.artifactExtension "").identity_eq_of_joined_eq hjoined
    exact (hall other ⟨""⟩ .jsx "" hne (.inl (congrArg Identity.identifier hidentity))).1
      (Reference.digestInput_eq_iff.2 hjoined)
  · have hproper := Naming.isProper_of directory dialect start
    exact ⟨hunique hfree other hne,
      hproper.digest_eq_of_identifier_eq (hproper.identifier_eq_of_confuses h)⟩

/-- Two references with a NUL that are one component to every naming. -/
theorem nul_joins_references :
    (⟨"Widget", "a\x00b", "c"⟩ : Reference) ≠ ⟨"Widget", "a", "b\x00c"⟩ ∧
      (⟨"Widget", "a\x00b", "c"⟩ : Reference).digestInput =
        (⟨"Widget", "a", "b\x00c"⟩ : Reference).digestInput ∧
      ∀ naming : Naming,
        naming.key ⟨"Widget", "a\x00b", "c"⟩ = naming.key ⟨"Widget", "a", "b\x00c"⟩ ∧
        naming.identity ⟨"Widget", "a\x00b", "c"⟩ = naming.identity ⟨"Widget", "a", "b\x00c"⟩ := by
  have hjoined : (⟨"Widget", "a\x00b", "c"⟩ : Reference).joined =
      (⟨"Widget", "a", "b\x00c"⟩ : Reference).joined := by
    decide
  have hidentity := fun naming : Naming => naming.identity_eq_of_joined_eq hjoined
  refine ⟨by decide, Reference.digestInput_eq_iff.2 hjoined, fun naming => ⟨?_, hidentity naming⟩⟩
  rw [Naming.key, Naming.key, hidentity]

end ComponentTags
