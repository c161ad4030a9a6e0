import ComponentTags.Artifact.Module
import ComponentTags.Proofs.Component.ModuleNames

/-!
Deeds: the writing of one component module, whole. A deed touches the module, its companion and their
temporary files, and what it leaves in the module is told by whether the module could be written.
-/

namespace ComponentTags

/-- A module with what it is made of: an entry, a dependency, or the message in place of either. -/
inductive Deed where
  | entry (reference : Reference) (payload : Payload) (closure : List Registration)
  | dependency (reference : Reference) (payload : Payload) (needed : List Registration)
  | message (reference : Reference)
deriving DecidableEq, Repr

namespace Deed

/-- The component that the module is for. -/
def reference : Deed → Reference
  | entry reference _ _ => reference
  | dependency reference _ _ => reference
  | message reference => reference

/-- What the module is made from, unless it is the message. -/
def payload? : Deed → Option Payload
  | entry _ payload _ => some payload
  | dependency _ payload _ => some payload
  | message _ => none

/-- The module and, for compiled code, the companion. -/
def files (workshop : Workshop) : Deed → List OutputFile
  | entry reference payload closure => workshop.entryFiles reference payload closure
  | dependency reference payload needed => workshop.dependencyFiles reference payload needed
  | message reference => [workshop.errorFile reference]

/-- The files as they are handed to the disk. -/
def outputs (workshop : Workshop) (deed : Deed) : List (Path × String) :=
  (deed.files workshop).map fun file => (file.path, file.content)

/-- Where the module goes. -/
def path (workshop : Workshop) (deed : Deed) : Path :=
  (workshop.naming.identity deed.reference).path

/-- The text of the module. -/
def text (workshop : Workshop) : Deed → String
  | entry reference payload closure =>
      let companion := workshop.naming.companion (workshop.naming.identity reference)
      match workshop.dialect with
      | .jsx => jsxEntryText workshop.support reference companion payload closure
      | .vue => vueEntryText workshop.support reference companion payload closure
  | dependency reference payload needed =>
      dependencyText workshop.dialect
        (workshop.naming.companion (workshop.naming.identity reference)) payload needed
  | message reference => errorText workshop.dialect workshop.support reference

/-- The bytes of the module. -/
def content (workshop : Workshop) (deed : Deed) : List UInt8 :=
  Utf8.encode (deed.text workshop).toList

/-- The companion beside the module. -/
def companions (workshop : Workshop) : Deed → List OutputFile
  | entry reference payload _ =>
      workshop.companionFiles (workshop.naming.identity reference) payload
  | dependency reference payload _ =>
      workshop.companionFiles (workshop.naming.identity reference) payload
  | message _ => []

theorem files_eq (workshop : Workshop) (deed : Deed) :
    deed.files workshop = ⟨deed.path workshop, deed.text workshop⟩ :: deed.companions workshop := by
  cases deed <;> rfl

theorem companions_eq (workshop : Workshop) (deed : Deed) :
    deed.companions workshop = [] ∨ ∃ text, deed.companions workshop =
      [⟨workshop.naming.directory / workshop.naming.companionName deed.reference, text⟩] := by
  have hcompanion : ∀ (reference : Reference) (payload : Payload),
      workshop.companionFiles (workshop.naming.identity reference) payload = [] ∨
        ∃ text, workshop.companionFiles (workshop.naming.identity reference) payload =
          [⟨workshop.naming.directory / workshop.naming.companionName reference, text⟩] := by
    intro reference payload
    unfold Workshop.companionFiles
    split
    · exact .inl rfl
    · exact .inr ⟨payload.runtime, rfl⟩
  cases deed with
  | entry reference payload closure => exact hcompanion reference payload
  | dependency reference payload needed => exact hcompanion reference payload
  | message reference => exact .inl rfl

end Deed

/-- The names that writing a module may touch besides its own. -/
def Naming.sideNames (naming : Naming) (reference : Reference) : List String :=
  [temporaryName Disk.plainMark (naming.moduleName reference), naming.companionName reference,
    temporaryName Disk.plainMark (naming.companionName reference)]

theorem Naming.IsProper.notMem_sideNames {naming : Naming} (hproper : naming.IsProper)
    (reference : Reference) {name : String} (hname : IsModuleName name) :
    name ∉ naming.sideNames reference := by
  simp only [sideNames, List.mem_cons, List.not_mem_nil, or_false, not_or]
  exact ⟨hname.ne_temporaryName _ _, hname.ne_companionName (hproper.isCompanionName reference),
    hname.ne_temporaryName _ _⟩

theorem Naming.IsProper.exists_parts {naming : Naming} (hproper : naming.IsProper)
    (reference : Reference) :
    ∃ parts, (naming.identity reference).path.parts = parts ++ [naming.moduleName reference] :=
  naming.directory.exists_parts_join (hproper.isModuleName reference).isPlainName

namespace Disk

/-- Writes the files of a module, if there is one to write. -/
def perform (disk : Disk) (workshop : Workshop) : Option Deed → Disk × Except Failure Nat
  | none => (disk, .ok 0)
  | some deed => disk.writeAll (deed.outputs workshop)

/-- Whether a module could be written; its companion may have failed even so. -/
def takes (disk : Disk) (workshop : Workshop) (deed : Deed) : Bool :=
  (disk.writeChanged (deed.path workshop) (deed.text workshop)).2.isOk

theorem takes_of_perform {disk : Disk} {workshop : Workshop} {deed : Deed}
    (h : (disk.perform workshop (some deed)).2.isOk = true) : disk.takes workshop deed = true := by
  obtain ⟨count, hcount⟩ : ∃ count, (disk.perform workshop (some deed)).2 = .ok count := by
    cases houtcome : (disk.perform workshop (some deed)).2 with
    | error failure =>
        rw [houtcome] at h
        cases h
    | ok count => exact ⟨count, rfl⟩
  rw [perform, Deed.outputs, Deed.files_eq] at hcount
  exact isOk_writeChanged_of_writeAll hcount

/-- **A deed keeps to its module.** It changes the module only if the module could be written, which
then holds the text, and nothing else but the companion and temporary files. -/
theorem attempt_perform {workshop : Workshop} (hproper : workshop.naming.IsProper) (disk : Disk)
    (deed : Deed) :
    Attempt (workshop.naming.moduleName deed.reference)
      (workshop.naming.sideNames deed.reference) (deed.path workshop) (deed.content workshop) disk
      (disk.perform workshop (some deed)).1 (disk.takes workshop deed) := by
  have hmodule := hproper.isModuleName deed.reference
  have hcompanion := hproper.isCompanionName deed.reference
  obtain ⟨parts, hparts⟩ := hproper.exists_parts deed.reference
  rw [perform, Deed.outputs, Deed.files_eq, List.map_cons]
  have hrest : ∀ disk : Disk, disk.AgreesOff
      [workshop.naming.companionName deed.reference,
        temporaryName plainMark (workshop.naming.companionName deed.reference)]
      (disk.writeAll ((deed.companions workshop).map fun file => (file.path, file.content))).1 := by
    intro disk
    rcases deed.companions_eq workshop with h | ⟨text, h⟩
    · rw [h]
      exact .refl _ disk
    · rw [h]
      obtain ⟨parts, hparts⟩ :=
        workshop.naming.directory.exists_parts_join hcompanion.isPlainName
      exact agreesOff_writeAll_singleton hcompanion.isPlainName hparts disk text
  refine attempt_writeAll_cons hmodule.isPlainName hparts hrest ?_ disk (deed.text workshop)
  simp only [List.mem_cons, List.not_mem_nil, or_false, not_or]
  exact ⟨hmodule.ne_companionName hcompanion, hmodule.ne_temporaryName _ _⟩

/-- Modules that are there stay there, whatever is written. -/
theorem holds_perform {workshop : Workshop} (hproper : workshop.naming.IsProper) {disk : Disk}
    (deed : Option Deed) (reference : Reference)
    (hheld : disk.holds (workshop.naming.identity reference).path = true) :
    (disk.perform workshop deed).1.holds (workshop.naming.identity reference).path = true := by
  cases deed with
  | none => exact hheld
  | some deed =>
      obtain ⟨parts, hparts⟩ := hproper.exists_parts reference
      have hmodule := hproper.isModuleName reference
      exact (attempt_perform hproper disk deed).holds hmodule.isPlainName hparts
        (hproper.notMem_sideNames deed.reference hmodule) hheld

end Disk

end ComponentTags
