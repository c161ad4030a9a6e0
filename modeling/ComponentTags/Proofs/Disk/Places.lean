import ComponentTags.Disk.Basic
import ComponentTags.Proofs.Path.PlainNames

/-!
Places on a disk. Where a path leads depends on its text alone; the disk only decides whether it can
be followed. A change that keeps every directory therefore keeps every place that could be reached.
-/

namespace ComponentTags

/-- Where some parts of a path lead to from a place, if nothing is in the way. -/
def Spot.walk (spot : Spot) : List String → Spot
  | [] => spot
  | part :: parts =>
      if part = "" || part = "." then Spot.walk spot parts
      else if part = ".." then Spot.walk spot.tail parts
      else Spot.walk (part :: spot) parts

theorem Spot.walk_append (spot : Spot) (front back : List String) :
    Spot.walk spot (front ++ back) = Spot.walk (Spot.walk spot front) back := by
  induction front generalizing spot with
  | nil => rfl
  | cons part front ih =>
      rw [List.cons_append, walk, walk]
      split
      · exact ih spot
      · split
        · exact ih spot.tail
        · exact ih (part :: spot)

namespace Disk

/-- The place that a path means, whether or not it can be reached. -/
def spotOf (disk : Disk) (path : Path) : Spot :=
  Spot.walk (if path.isAbsolute then [] else disk.workingDirectory) path.parts

theorem spotOf_eq_cons (disk : Disk) {path : Path} {name : String} (hname : IsPlainName name)
    {parts : List String} (hparts : path.parts = parts ++ [name]) :
    ∃ spot, disk.spotOf path = name :: spot := by
  rw [spotOf, hparts, Spot.walk_append]
  simp [Spot.walk, hname.ne_empty, hname.ne_here, hname.ne_parent]

theorem head_spotOf_ne (disk : Disk) {path : Path} {name : String} (hname : IsPlainName name)
    {parts : List String} (hparts : path.parts = parts ++ [name]) {names : List String}
    (hnames : name ∉ names) : ∀ other ∈ names, (disk.spotOf path).head? ≠ some other := by
  obtain ⟨spot, hspot⟩ := disk.spotOf_eq_cons hname hparts
  intro other hother heq
  rw [hspot] at heq
  exact hnames (Option.some.inj heq ▸ hother)

theorem spotOf_congr {disk other : Disk} (h : other.workingDirectory = disk.workingDirectory)
    (path : Path) : other.spotOf path = disk.spotOf path := by
  rw [spotOf, spotOf, h]

theorem follow_eq_walk {disk : Disk} {spot found : Spot} {parts : List String}
    (h : disk.follow spot parts = .ok found) : found = Spot.walk spot parts := by
  induction parts generalizing spot with
  | nil => exact (Except.ok.inj h).symm
  | cons part parts ih =>
      rw [follow] at h
      rw [Spot.walk]
      split at h
      · cases h
      · cases h
      · split at h
        · next hstay =>
            rw [if_pos hstay]
            exact ih h
        · next hstay =>
            rw [if_neg hstay]
            split at h
            · next hup =>
                rw [if_pos hup]
                exact ih h
            · next hup =>
                rw [if_neg hup]
                split at h
                · cases h
                · exact ih h

theorem locate_eq_spotOf {disk : Disk} {path : Path} {spot : Spot}
    (h : disk.locate path = .ok spot) : spot = disk.spotOf path := by
  unfold locate at h
  split at h
  · cases h
  · split at h
    · cases h
    · split at h
      · cases h
      · exact follow_eq_walk h

/-! ### What is at a place -/

theorem entry_put (disk : Disk) (spot other : Spot) (entry : DiskEntry) :
    Disk.entry? (disk.put spot entry) other =
      if other = spot ∧ spot ≠ [] then some entry else disk.entry? other := by
  cases other with
  | nil =>
      have hroot : ¬([] = spot ∧ spot ≠ []) := fun h => h.2 h.1.symm
      rw [if_neg hroot]
      rfl
  | cons name rest =>
      by_cases heq : name :: rest = spot
      · subst heq
        simp [Disk.entry?, put]
      · have hne : spot ≠ name :: rest := Ne.symm heq
        simp [Disk.entry?, put, heq, Std.ExtTreeMap.getElem?_insert, hne]

theorem entry_erase (disk : Disk) (spot other : Spot) :
    Disk.entry? (disk.erase spot) other =
      if other = spot ∧ spot ≠ [] then none else disk.entry? other := by
  cases other with
  | nil =>
      have hroot : ¬([] = spot ∧ spot ≠ []) := fun h => h.2 h.1.symm
      rw [if_neg hroot]
      rfl
  | cons name rest =>
      by_cases heq : name :: rest = spot
      · subst heq
        simp [Disk.entry?, erase]
      · have hne : spot ≠ name :: rest := Ne.symm heq
        simp [Disk.entry?, erase, heq, Std.ExtTreeMap.getElem?_erase, hne]

theorem read_eq_ok_iff {disk : Disk} {path : Path} {content : List UInt8} :
    disk.read path = .ok content ↔
      ∃ spot, disk.locate path = .ok spot ∧ disk.entry? spot = some (.file content) := by
  unfold read lookup
  cases hspot : disk.locate path with
  | error fault => simp
  | ok spot =>
      cases hentry : disk.entry? spot with
      | none => simp [hentry]
      | some entry => cases entry <;> simp [hentry]

theorem holds_iff {disk : Disk} {path : Path} :
    disk.holds path = true ↔
      ∃ spot, disk.locate path = .ok spot ∧ (disk.entry? spot).isSome := by
  unfold holds lookup
  cases hspot : disk.locate path with
  | error fault => simp [Except.toOption]
  | ok spot =>
      cases hentry : disk.entry? spot with
      | none => simp [Except.toOption, hentry]
      | some entry => simp [Except.toOption, hentry]

theorem holds_of_read {disk : Disk} {path : Path} {content : List UInt8}
    (h : disk.read path = .ok content) : disk.holds path = true := by
  obtain ⟨spot, hspot, hentry⟩ := read_eq_ok_iff.1 h
  exact holds_iff.2 ⟨spot, hspot, by simp [hentry]⟩

/-! ### Keeping directories -/

/-- Every directory of one disk is one of the other, too, and relative paths start at one place. -/
structure KeepsDirectories (disk other : Disk) : Prop where
  workingDirectory : other.workingDirectory = disk.workingDirectory
  entry : ∀ spot, disk.entry? spot = some .directory → other.entry? spot = some .directory

theorem KeepsDirectories.follow {disk other : Disk} (hkeeps : disk.KeepsDirectories other)
    {spot found : Spot} {parts : List String} (h : disk.follow spot parts = .ok found) :
    other.follow spot parts = .ok found := by
  induction parts generalizing spot with
  | nil => exact h
  | cons part parts ih =>
      rw [Disk.follow] at h ⊢
      split at h
      · cases h
      · cases h
      · next hentry =>
          rw [hkeeps.entry spot hentry]
          split at h
          · next hstay =>
              rw [if_pos hstay]
              exact ih h
          · next hstay =>
              rw [if_neg hstay]
              split at h
              · next hup =>
                  rw [if_pos hup]
                  exact ih h
              · next hup =>
                  rw [if_neg hup]
                  split at h
                  · cases h
                  · next hlong =>
                      rw [if_neg hlong]
                      exact ih h

theorem KeepsDirectories.locate {disk other : Disk} (hkeeps : disk.KeepsDirectories other)
    {path : Path} {spot : Spot} (h : disk.locate path = .ok spot) : other.locate path = .ok spot := by
  unfold Disk.locate at h ⊢
  split at h
  · cases h
  · next hsevered =>
      rw [if_neg hsevered]
      split at h
      · cases h
      · next hlong =>
          rw [if_neg hlong]
          split at h
          · cases h
          · next hempty =>
              rw [if_neg hempty, hkeeps.workingDirectory]
              exact hkeeps.follow h

/-- A disk that keeps the directories of another one, and what stands at every place whose name is not
one of `names`; new directories may come up. -/
structure AgreesOff (names : List String) (disk other : Disk) : Prop
    extends KeepsDirectories disk other where
  other : ∀ spot, (∀ name ∈ names, spot.head? ≠ some name) →
    other.entry? spot = disk.entry? spot ∨
      disk.entry? spot = none ∧ other.entry? spot = some .directory

namespace AgreesOff

variable {names : List String} {disk next last : Disk}

theorem refl (names : List String) (disk : Disk) : disk.AgreesOff names disk :=
  { workingDirectory := rfl, entry := fun _ h => h, other := fun _ _ => .inl rfl }

theorem trans (h : disk.AgreesOff names next) (h' : next.AgreesOff names last) :
    disk.AgreesOff names last where
  workingDirectory := h'.workingDirectory.trans h.workingDirectory
  entry spot hspot := h'.entry spot (h.entry spot hspot)
  other spot hspot := by
    obtain hsame | ⟨hnone, hnew⟩ := h.other spot hspot
    · rw [← hsame]
      exact h'.other spot hspot
    · exact .inr ⟨hnone, h'.entry spot hnew⟩

theorem mono {more : List String} (h : disk.AgreesOff names next) (hsub : names ⊆ more) :
    disk.AgreesOff more next :=
  { h with other := fun spot hspot => h.other spot fun name hname => hspot name (hsub hname) }

variable {path : Path} {name : String} {parts : List String}

theorem file_iff (h : disk.AgreesOff names next) {spot : Spot}
    (hspot : ∀ name ∈ names, spot.head? ≠ some name) {content : List UInt8} :
    next.entry? spot = some (.file content) ↔ disk.entry? spot = some (.file content) := by
  obtain hsame | ⟨hnone, hnew⟩ := h.other spot hspot
  · rw [hsame]
  · simp [hnone, hnew]

theorem isSome (h : disk.AgreesOff names next) {spot : Spot}
    (hspot : ∀ name ∈ names, spot.head? ≠ some name) (hsome : (disk.entry? spot).isSome) :
    (next.entry? spot).isSome := by
  obtain hsame | ⟨hnone, -⟩ := h.other spot hspot
  · rwa [hsame]
  · simp [hnone] at hsome

theorem read (h : disk.AgreesOff names next) (hname : IsPlainName name)
    (hparts : path.parts = parts ++ [name]) (hnames : name ∉ names) {content : List UInt8}
    (hread : disk.read path = .ok content) : next.read path = .ok content := by
  obtain ⟨spot, hspot, hentry⟩ := read_eq_ok_iff.1 hread
  have hoff := disk.head_spotOf_ne hname hparts hnames
  rw [← locate_eq_spotOf hspot] at hoff
  exact read_eq_ok_iff.2 ⟨spot, h.locate hspot, (h.file_iff hoff).2 hentry⟩

end AgreesOff

end Disk

end ComponentTags
