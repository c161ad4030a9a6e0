import ComponentTags.Proofs.Disk.Writing
import ComponentTags.Proofs.Path.Parents

/-!
Trees. On a disk whose entries all lie in directories, a path without `..` leads through the directories
on its way and nowhere else. Making such a directory adds directories on that way alone, and one that
cannot be made now cannot be made later either.
-/

namespace ComponentTags.Disk

variable {disk other next : Disk} {path parent folder : Path} {spot found : Spot}
  {names parts : List String} {name : String}

/-- Whatever is on the disk lies in a directory. -/
def IsTree (disk : Disk) : Prop :=
  ∀ (name : String) (spot : Spot), (disk.entry? (name :: spot)).isSome →
    disk.entry? spot = some .directory

theorem isTree_empty : Disk.empty.IsTree := by
  intro name spot hsome
  simp [Disk.empty, entry?] at hsome

/-- Something new may be put into a directory. -/
theorem IsTree.put (h : disk.IsTree) (hspot : disk.entry? spot = some .directory)
    (hnone : disk.entry? (name :: spot) = none) (entry : DiskEntry) :
    (disk.put (name :: spot) entry).IsTree := by
  intro other rest hsome
  rw [entry_put] at hsome ⊢
  by_cases hrest : rest = name :: spot
  · subst hrest
    rw [if_neg fun hsame => absurd (congrArg List.length hsame.1) (by simp)] at hsome
    rw [h other _ hsome] at hnone
    cases hnone
  · rw [if_neg fun hsame => hrest hsame.1]
    split at hsome
    · next hsame =>
        obtain ⟨-, rfl⟩ := List.cons.inj hsame.1
        exact hspot
    · exact h other rest hsome

/-- The names lead from one directory to the next, and to one at the end. -/
def Clear (disk : Disk) (spot : Spot) : List String → Prop
  | [] => disk.entry? spot = some .directory
  | name :: names =>
      disk.entry? spot = some .directory ∧ name.utf8ByteSize ≤ maxNameLength ∧
        disk.Clear (name :: spot) names

/-- Where a path starts. -/
def origin (disk : Disk) (path : Path) : Spot :=
  if path.isAbsolute then [] else disk.workingDirectory

/-- Why the system does not take the text of a path, whatever is on the disk. -/
def textFault? (path : Path) : Option IoFault :=
  if path.text.toList.contains '\x00' then some .severedPath
  else if path.text.utf8ByteSize ≥ maxPathLength then some .tooLong
  else if path.text = "" then some .nothing
  else none

/-! ### Following a path -/

theorem locate_of_textFault {fault : IoFault} (h : textFault? path = some fault) :
    disk.locate path = .error fault := by
  unfold textFault? at h
  unfold locate
  split at h
  · next hsevered => rw [if_pos hsevered, Option.some.inj h]
  · next hsevered =>
      rw [if_neg hsevered]
      split at h
      · next hlong => rw [if_pos hlong, Option.some.inj h]
      · next hlong =>
          rw [if_neg hlong]
          split at h
          · next hempty => rw [if_pos hempty, Option.some.inj h]
          · cases h

theorem locate_of_taken (h : textFault? path = none) :
    disk.locate path = disk.follow (disk.origin path) path.parts := by
  unfold textFault? at h
  unfold locate
  split at h
  · cases h
  · next hsevered =>
      rw [if_neg hsevered]
      split at h
      · cases h
      · next hlong =>
          rw [if_neg hlong]
          split at h
          · cases h
          · next hempty => rw [if_neg hempty, origin]

theorem Clear.entry (h : disk.Clear spot names) :
    disk.entry? (names.reverse ++ spot) = some .directory := by
  induction names generalizing spot with
  | nil => exact h
  | cons name names ih =>
      rw [List.reverse_cons, List.append_assoc]
      exact ih h.2.2

theorem Clear.start (h : disk.Clear spot names) : disk.entry? spot = some .directory := by
  cases names with
  | nil => exact h
  | cons name names => exact h.1

theorem clear_append_singleton :
    disk.Clear spot (names ++ [name]) ↔
      disk.Clear spot names ∧ name.utf8ByteSize ≤ maxNameLength ∧
        disk.entry? (name :: (names.reverse ++ spot)) = some .directory := by
  induction names generalizing spot with
  | nil => simp [Clear]
  | cons first names ih =>
      rw [List.cons_append, Clear, Clear, ih, List.reverse_cons, List.append_assoc]
      simp [and_assoc]

theorem follow_of_clear (hdots : ".." ∉ parts)
    (h : disk.Clear spot (parts.filter fun part => !isIdlePart part)) :
    disk.follow spot parts =
      .ok ((parts.filter fun part => !isIdlePart part).reverse ++ spot) := by
  induction parts generalizing spot with
  | nil => rfl
  | cons part parts ih =>
      obtain ⟨hpart, hparts⟩ := not_or.1 (mt List.mem_cons.2 hdots)
      rw [follow, h.start]
      dsimp only
      cases hidle : isIdlePart part with
      | true =>
          rw [List.filter_cons_of_neg (by simp [hidle])] at h ⊢
          rw [if_pos (by simpa [isIdlePart] using hidle)]
          exact ih hparts h
      | false =>
          rw [List.filter_cons_of_pos (by simp [hidle])] at h ⊢
          rw [if_neg (by simpa [isIdlePart] using hidle), if_neg (Ne.symm hpart),
            if_neg (by simpa using h.2.1), ih hparts h.2.2]
          simp

/-- A path that can be followed has directories on its way; what it leads to may be one. -/
theorem clear_of_follow (hdots : ".." ∉ parts) (h : disk.follow spot parts = .ok found) :
    found = (parts.filter fun part => !isIdlePart part).reverse ++ spot ∧
      (disk.entry? found = some .directory →
        disk.Clear spot (parts.filter fun part => !isIdlePart part)) ∧
      (disk.entry? found ≠ some .directory → parts = [] ∨
        ∃ front last, (parts.filter fun part => !isIdlePart part) = front ++ [last] ∧
          disk.Clear spot front ∧ last.utf8ByteSize ≤ maxNameLength) := by
  induction parts generalizing spot with
  | nil =>
      obtain rfl := Except.ok.inj h
      exact ⟨rfl, id, fun _ => .inl rfl⟩
  | cons part parts ih =>
      obtain ⟨hpart, hparts⟩ := not_or.1 (mt List.mem_cons.2 hdots)
      rw [follow] at h
      split at h
      · cases h
      · cases h
      · next hentry =>
          cases hidle : isIdlePart part with
          | true =>
              rw [List.filter_cons_of_neg (by simp [hidle])]
              rw [if_pos (by simpa [isIdlePart] using hidle)] at h
              obtain ⟨hfound, hclear, hother⟩ := ih hparts h
              refine ⟨hfound, hclear, fun hne => .inr ((hother hne).resolve_left ?_)⟩
              rintro rfl
              obtain rfl := Except.ok.inj h
              exact hne hentry
          | false =>
              rw [List.filter_cons_of_pos (by simp [hidle])]
              rw [if_neg (by simpa [isIdlePart] using hidle), if_neg (Ne.symm hpart)] at h
              split at h
              · cases h
              · next hshort =>
                  obtain ⟨hfound, hclear, hother⟩ := ih hparts h
                  refine ⟨by simp [hfound], fun hdirectory => ⟨hentry, by simpa using hshort,
                    hclear hdirectory⟩, fun hne => .inr ?_⟩
                  rcases hother hne with rfl | ⟨front, last, hnames, hfront, hlast⟩
                  · exact ⟨[], part, rfl, hentry, by simpa using hshort⟩
                  · exact ⟨part :: front, last, by rw [hnames]; rfl,
                      ⟨hentry, by simpa using hshort, hfront⟩, hlast⟩

theorem spotOf_eq (hdots : ".." ∉ path.parts) :
    disk.spotOf path = path.names.reverse ++ disk.origin path := by
  rw [spotOf, Path.names, ← origin]
  generalize disk.origin path = spot
  generalize path.parts = parts at hdots ⊢
  induction parts generalizing spot with
  | nil => rfl
  | cons part parts ih =>
      obtain ⟨hpart, hparts⟩ := not_or.1 (mt List.mem_cons.2 hdots)
      rw [Spot.walk]
      cases hidle : isIdlePart part with
      | true =>
          rw [if_pos (by simpa [isIdlePart] using hidle),
            List.filter_cons_of_neg (by simp [hidle])]
          exact ih spot hparts
      | false =>
          rw [if_neg (by simpa [isIdlePart] using hidle), if_neg (Ne.symm hpart),
            List.filter_cons_of_pos (by simp [hidle]), ih _ hparts]
          simp

theorem isDirectory_eq_true_iff :
    disk.isDirectory path = true ↔
      ∃ spot, disk.locate path = .ok spot ∧ disk.entry? spot = some .directory := by
  unfold isDirectory lookup
  cases hspot : disk.locate path with
  | error fault => simp
  | ok spot =>
      cases hentry : disk.entry? spot with
      | none => simp [hentry]
      | some entry => cases entry <;> simp [hentry]

/-- A path leads to a directory exactly if its text is taken and its way is clear. -/
theorem isDirectory_iff (hdots : ".." ∉ path.parts) :
    disk.isDirectory path = true ↔
      textFault? path = none ∧ disk.Clear (disk.origin path) path.names := by
  rw [isDirectory_eq_true_iff]
  constructor
  · rintro ⟨spot, hspot, hentry⟩
    cases hfault : textFault? path with
    | some fault =>
        rw [locate_of_textFault hfault] at hspot
        cases hspot
    | none =>
        rw [locate_of_taken hfault] at hspot
        exact ⟨rfl, (clear_of_follow hdots hspot).2.1 hentry⟩
  · rintro ⟨hfault, hclear⟩
    refine ⟨_, ?_, hclear.entry⟩
    rw [locate_of_taken hfault]
    exact follow_of_clear hdots hclear

theorem isDirectory_mono (hkeeps : disk.KeepsDirectories other)
    (h : disk.isDirectory path = true) : other.isDirectory path = true := by
  obtain ⟨spot, hspot, hentry⟩ := isDirectory_eq_true_iff.1 h
  exact isDirectory_eq_true_iff.2 ⟨spot, hkeeps.locate hspot, hkeeps.entry spot hentry⟩

/-! ### Parents -/

theorem withoutSlashes_eq (h : path.text.toList.getLast? ≠ some '/' ∨ path.text = "/") :
    withoutSlashes path = path := by
  unfold withoutSlashes
  rcases h with hlast | hroot
  · have htrimmed : (path.text.toList.reverse.dropWhile (· = '/')).reverse =
        path.text.toList := by
      cases hreverse : path.text.toList.reverse with
      | nil => simpa using hreverse.symm
      | cons ch chars =>
          have hch : ch ≠ '/' := by
            rintro rfl
            apply hlast
            rw [← List.head?_reverse, hreverse]
            rfl
          rw [List.dropWhile_cons_of_neg (by simpa using hch), ← hreverse, List.reverse_reverse]
    simp only [htrimmed, String.ofList_toList]
    split <;> rfl
  · obtain ⟨text⟩ := path
    subst hroot
    decide

theorem dots_notMem_names : ".." ∈ path.names ↔ ".." ∈ path.parts := by
  simp [Path.names, isIdlePart]

theorem textFault?_of_append {rest : String} (htext : path.text = parent.text ++ rest)
    (hne : parent.text ≠ "") (h : textFault? path = none) : textFault? parent = none := by
  unfold textFault? at h ⊢
  split at h
  · cases h
  · next hsevered =>
      rw [htext, String.toList_append] at hsevered
      rw [if_neg (by simp_all)]
      split at h
      · cases h
      · next hlong =>
          rw [htext, String.utf8ByteSize_append] at hlong
          rw [if_neg (by omega), if_neg hne]

section Parent

variable (hparent : Path.IsParent parent path)

include hparent

theorem parent_dots (hdots : ".." ∉ path.parts) : ".." ∉ parent.parts := by
  rw [← dots_notMem_names] at hdots ⊢
  rw [hparent.names]
  exact fun hmem => hdots (List.dropLast_subset _ hmem)

theorem parent_origin : disk.origin parent = disk.origin path := by
  rw [origin, origin, hparent.isAbsolute]

theorem parent_spotOf (hdots : ".." ∉ path.parts) : disk.spotOf parent <:+ disk.spotOf path := by
  rw [spotOf_eq hdots, spotOf_eq (parent_dots hparent hdots), hparent.names,
    parent_origin hparent]
  obtain ⟨rest, last, hnames⟩ : ∃ rest last, path.names = rest ++ [last] :=
    ⟨_, _, (List.dropLast_append_getLast hparent.names_ne).symm⟩
  exact ⟨[last], by simp [hnames]⟩

/-- What leads to a path leads to its parent. -/
theorem parent_isDirectory (hdots : ".." ∉ path.parts) (htext : parent.text ≠ "")
    (hfault : textFault? path = none)
    (hclear : disk.Clear (disk.origin path) path.names.dropLast) :
    disk.isDirectory parent = true := by
  obtain ⟨rest, hrest⟩ := hparent.text
  refine (isDirectory_iff (parent_dots hparent hdots)).2 ⟨textFault?_of_append hrest htext hfault, ?_⟩
  rw [parent_origin hparent, hparent.names]
  exact hclear

end Parent

theorem clear_dropLast (h : disk.Clear spot names) (hne : names ≠ []) :
    disk.Clear spot names.dropLast := by
  rw [← List.dropLast_append_getLast hne, clear_append_singleton] at h
  exact h.1

/-! ### Making a directory -/

/-- A disk that has more directories on the way to a path, and nothing else that is new. -/
structure GrownAlong (path : Path) (disk other : Disk) : Prop
    extends KeepsDirectories disk other where
  off : ∀ spot, ¬spot <:+ disk.spotOf path → other.entry? spot = disk.entry? spot
  isTree : disk.IsTree → other.IsTree

theorem GrownAlong.refl (path : Path) (disk : Disk) : GrownAlong path disk disk :=
  { workingDirectory := rfl, entry := fun _ h => h, off := fun _ _ => rfl, isTree := id }

theorem GrownAlong.trans (h : GrownAlong path disk next) (h' : GrownAlong path next other) :
    GrownAlong path disk other where
  workingDirectory := h'.workingDirectory.trans h.workingDirectory
  entry spot hspot := h'.entry spot (h.entry spot hspot)
  off spot hspot := by
    have hspot' := hspot
    rw [← spotOf_congr h.workingDirectory] at hspot'
    rw [h'.off spot hspot', h.off spot hspot]
  isTree htree := h'.isTree (h.isTree htree)

theorem GrownAlong.of_parent (hparent : Path.IsParent parent path) (hdots : ".." ∉ path.parts)
    (h : GrownAlong parent disk other) : GrownAlong path disk other :=
  { h with
    off := fun spot hspot =>
      h.off spot fun hsuffix => hspot (hsuffix.trans (parent_spotOf hparent hdots)) }

/-- A path that can be made a directory: all before its last name is clear, and nothing is there. -/
theorem createDirectory_ok (hdots : ".." ∉ path.parts)
    (htrim : withoutSlashes path = path) (h : disk.createDirectory path = .ok other) :
    textFault? path = none ∧ disk.Clear (disk.origin path) path.names.dropLast ∧
      other.isDirectory path = true ∧ GrownAlong path disk other := by
  have hagrees := agreesOff_createDirectory h
  unfold createDirectory at h
  rw [htrim] at h
  split at h
  · cases h
  · next spot hspot =>
      split at h
      · cases h
      · next hentry =>
          obtain rfl := Except.ok.inj h
          have hplace := locate_eq_spotOf hspot
          cases hfault : textFault? path with
          | some fault =>
              rw [locate_of_textFault hfault] at hspot
              cases hspot
          | none =>
              rw [locate_of_taken hfault] at hspot
              obtain ⟨hfound, -, hway⟩ := clear_of_follow hdots hspot
              rcases hway (by simp [hentry]) with hnone | ⟨front, last, hnames, hfront, hlast⟩
              · exact absurd hnone path.parts_ne_nil
              · have hnames' : path.names = front ++ [last] := hnames
                have hat : spot = last :: (front.reverse ++ disk.origin path) := by
                  rw [hfound, hnames]
                  simp
                refine ⟨rfl, by rw [hnames', List.dropLast_concat]; exact hfront, ?_, ?_⟩
                · refine isDirectory_eq_true_iff.2 ⟨spot, hagrees.locate ?_, ?_⟩
                  · rw [locate_of_taken hfault, hspot]
                  · rw [entry_put, if_pos ⟨rfl, by rw [hat]; exact List.cons_ne_nil _ _⟩]
                · refine { hagrees with off := ?_, isTree := ?_ }
                  · intro other hother
                    rw [entry_put, if_neg]
                    rintro ⟨rfl, -⟩
                    exact hother (hplace ▸ List.suffix_refl _)
                  · intro htree
                    rw [hat] at hentry ⊢
                    exact htree.put hfront.entry hentry .directory

theorem createDirectory_of_isDirectory (htrim : withoutSlashes path = path)
    (h : disk.isDirectory path = true) : disk.createDirectory path = .error .taken := by
  obtain ⟨spot, hspot, hentry⟩ := isDirectory_eq_true_iff.1 h
  unfold createDirectory
  rw [htrim, hspot]
  dsimp only
  rw [hentry]

theorem createInside_of_isDirectory (createOuter : Disk → Path → Disk × Except IoFault Unit)
    (htrim : withoutSlashes path = path) (h : disk.isDirectory path = true) :
    createInside createOuter disk path = (disk, .ok ()) := by
  unfold createInside
  split
  · rfl
  · rw [createDirectory_of_isDirectory htrim h]
    simp [IoFault.taken]

theorem createDirectories_of_isDirectory (fuel : Nat) (htrim : withoutSlashes path = path)
    (h : disk.isDirectory path = true) : createDirectories fuel disk path = (disk, .ok ()) := by
  cases fuel with
  | zero => exact createInside_of_isDirectory _ htrim h
  | succ fuel => exact createInside_of_isDirectory _ htrim h

/-- A path that cannot be made a directory: trying changes nothing. -/
structure IsStuck (create : Disk → Path → Disk × Except IoFault Unit) (disk : Disk) (path : Path) :
    Prop where
  text : path.text ≠ ""
  isDirectory : disk.isDirectory path = false
  unchanged : (create disk path).1 = disk
  refused : (create disk path).2.isOk = false

variable {createOuter : Disk → Path → Disk × Except IoFault Unit}

theorem isStuck_createInside (htext : path.text ≠ "") (hnot : disk.isDirectory path = false)
    (hfails : ∀ other, disk.createDirectory path ≠ .ok other)
    (houter : ∀ fault, disk.createDirectory path = .error fault → fault.kind = .missing →
      ∀ parent, path.parent? = some parent → (createOuter disk parent).1 = disk) :
    IsStuck (createInside createOuter) disk path := by
  have hcreate : (createInside createOuter disk path).1 = disk ∧
      (createInside createOuter disk path).2.isOk = false := by
    unfold createInside
    rw [if_neg htext]
    split
    · next other hmade => exact absurd hmade (hfails other)
    · next fault hfault =>
        split
        · next hkind =>
            split
            · exact ⟨rfl, rfl⟩
            · next parent hparent =>
                have hsame := houter fault hfault hkind parent hparent
                split
                · next houtcome =>
                    rw [houtcome] at hsame
                    exact ⟨hsame, rfl⟩
                · next houtcome =>
                    rw [houtcome] at hsame
                    dsimp only at hsame
                    subst hsame
                    rw [hfault]
                    dsimp only
                    rw [if_neg (by simp [hnot])]
                    exact ⟨rfl, rfl⟩
        · rw [if_neg (by simp [hnot])]
          exact ⟨rfl, rfl⟩
  exact ⟨htext, hnot, hcreate.1, hcreate.2⟩

/-- What comes of making a directory: it is there, or it cannot be made. -/
structure IsMade (create : Disk → Path → Disk × Except IoFault Unit) (disk : Disk) (path : Path) :
    Prop where
  grown : GrownAlong path disk (create disk path).1
  made : (create disk path).2.isOk = true →
    path.text = "" ∨ (create disk path).1.isDirectory path = true
  stuck : (create disk path).2.isOk = false → IsStuck create (create disk path).1 path

/-- A try that leaves a disk on which trying again changes nothing. -/
theorem IsMade.of_eq (outcome : Except IoFault Unit) (hgrown : GrownAlong path disk next)
    {create : Disk → Path → Disk × Except IoFault Unit} (h : create disk path = (next, outcome))
    (hmade : outcome.isOk = true → path.text = "" ∨ next.isDirectory path = true)
    (hstuck : outcome.isOk = false → IsStuck create next path) : IsMade create disk path where
  grown := by
    rw [h]
    exact hgrown
  made := by
    rw [h]
    exact hmade
  stuck := by
    rw [h]
    exact hstuck

theorem not_isDirectory_of_createDirectory {fault : IoFault} (htrim : withoutSlashes path = path)
    (h : disk.createDirectory path = .error fault) (hkind : fault.kind = .missing) :
    disk.isDirectory path = false := by
  refine Bool.eq_false_iff.2 fun hdirectory => ?_
  rw [createDirectory_of_isDirectory htrim hdirectory] at h
  obtain rfl := Except.error.inj h
  cases hkind

/-- A path leads nowhere, and cannot be made, while its parent is no directory. -/
theorem nowhere_of_parent (hparent : Path.IsParent parent path) (hdots : ".." ∉ path.parts)
    (htrim : withoutSlashes path = path) (htext : parent.text ≠ "")
    (h : disk.isDirectory parent = false) :
    disk.isDirectory path = false ∧ ∀ other, disk.createDirectory path ≠ .ok other := by
  constructor
  · refine Bool.eq_false_iff.2 fun hdirectory => ?_
    obtain ⟨hfault, hclear⟩ := (isDirectory_iff hdots).1 hdirectory
    rw [parent_isDirectory hparent hdots htext hfault (clear_dropLast hclear hparent.names_ne)] at h
    cases h
  · intro other hmade
    obtain ⟨hfault, hclear, -⟩ := createDirectory_ok hdots htrim hmade
    rw [parent_isDirectory hparent hdots htext hfault hclear] at h
    cases h

/-- A path that could not be made on a disk is a directory there, or it is stuck. -/
theorem IsMade.of_fault {fault : IoFault} (htext : path.text ≠ "")
    (hgrown : GrownAlong path disk next) (hfault : next.createDirectory path = .error fault)
    (houter : fault.kind = .missing → ∀ parent, path.parent? = some parent →
      (createOuter next parent).1 = next)
    (h : createInside createOuter disk path =
      (next, if next.isDirectory path then .ok () else .error fault)) :
    IsMade (createInside createOuter) disk path := by
  cases hdirectory : next.isDirectory path with
  | true =>
      rw [hdirectory] at h
      exact .of_eq (.ok ()) hgrown h (fun _ => .inr hdirectory) nofun
  | false =>
      rw [hdirectory] at h
      refine .of_eq (.error fault) hgrown h nofun fun _ => ?_
      refine isStuck_createInside htext hdirectory (by simp [hfault]) ?_
      intro fault' hfault' hkind
      rw [hfault] at hfault'
      obtain rfl := Except.error.inj hfault'
      exact houter hkind

theorem createInside_of_missing {fault : IoFault} (htext : path.text ≠ "")
    (hmade : disk.createDirectory path = .error fault) (hkind : fault.kind = .missing)
    (hparent : path.parent? = some parent) {middle : Disk} {outcome : Except IoFault Unit} :
    createOuter disk parent = (middle, outcome) →
    createInside createOuter disk path =
      match outcome with
      | .error fault => (middle, .error fault)
      | .ok _ =>
          match middle.createDirectory path with
          | .ok disk => (disk, .ok ())
          | .error fault =>
              (middle, if middle.isDirectory path then .ok () else .error fault) := by
  intro houtcome
  unfold createInside
  rw [if_neg htext, hmade]
  dsimp only
  rw [if_pos hkind, hparent]
  dsimp only
  rw [houtcome]
  cases outcome <;> rfl

/-- A directory whose outer one is missing: that one is made first, or is stuck itself. -/
theorem isMade_of_missing (hdots : ".." ∉ path.parts) (htrim : withoutSlashes path = path)
    (htext : path.text ≠ "") {fault : IoFault}
    (hmade : disk.createDirectory path = .error fault) (hkind : fault.kind = .missing)
    (hparent : path.parent? = some parent)
    (houter : parent.text ≠ "" → Path.IsParent parent path → IsMade createOuter disk parent)
    (hthere : ∀ disk, parent.text = "" ∨
      withoutSlashes parent = parent ∧ disk.isDirectory parent = true →
      createOuter disk parent = (disk, .ok ())) :
    IsMade (createInside createOuter) disk path := by
  have hsame : ∀ parent', path.parent? = some parent' → parent' = parent := by
    intro parent' hsome
    rw [hparent] at hsome
    exact (Option.some.inj hsome).symm
  by_cases hempty : parent.text = ""
  · have hresult := createInside_of_missing htext hmade hkind hparent (hthere disk (.inl hempty))
    dsimp only at hresult
    rw [hmade] at hresult
    refine .of_fault htext (.refl path disk) hmade (fun _ parent' hsome => ?_) hresult
    rw [hsame parent' hsome, hthere disk (.inl hempty)]
  · have his := (Path.parent_cases hparent).resolve_left hempty
    have hmadeOuter := houter hempty his
    have hgrown : GrownAlong path disk (createOuter disk parent).1 :=
      .of_parent his hdots hmadeOuter.grown
    cases houtcome : createOuter disk parent with
    | mk middle outcome =>
        have hresult := createInside_of_missing htext hmade hkind hparent houtcome
        rw [houtcome] at hgrown
        cases outcome with
        | error fault' =>
            refine .of_eq (.error fault') hgrown hresult nofun fun _ => ?_
            have hstuck := hmadeOuter.stuck (by rw [houtcome]; rfl)
            rw [houtcome] at hstuck
            obtain ⟨hnot, hfails⟩ := nowhere_of_parent his hdots htrim hempty hstuck.isDirectory
            refine isStuck_createInside htext hnot hfails fun _ _ _ parent' hsome => ?_
            rw [hsame parent' hsome]
            exact hstuck.unchanged
        | ok done =>
            have hthen := hmadeOuter.made (by rw [houtcome]; rfl)
            rw [houtcome] at hthen
            dsimp only at hresult
            cases hagain : middle.createDirectory path with
            | ok other =>
                obtain ⟨-, -, hdirectory, hmore⟩ := createDirectory_ok hdots htrim hagain
                rw [hagain] at hresult
                exact .of_eq (.ok ()) (hgrown.trans hmore) hresult
                  (fun _ => .inr hdirectory) nofun
            | error fault' =>
                rw [hagain] at hresult
                refine .of_fault htext hgrown hagain (fun _ parent' hsome => ?_) hresult
                rw [hsame parent' hsome, hthere middle (.inr ⟨withoutSlashes_eq his.trimmed,
                  hthen.resolve_left hempty⟩)]

theorem isMade_createInside (hdots : ".." ∉ path.parts) (htrim : withoutSlashes path = path)
    (houter : ∀ parent, parent.text ≠ "" → Path.IsParent parent path →
      IsMade createOuter disk parent)
    (hthere : ∀ disk parent, parent.text = "" ∨
      withoutSlashes parent = parent ∧ disk.isDirectory parent = true →
      createOuter disk parent = (disk, .ok ())) :
    IsMade (createInside createOuter) disk path := by
  by_cases htext : path.text = ""
  · exact .of_eq (.ok ()) (.refl path disk) (if_pos htext)
      (fun _ => .inl htext) nofun
  cases hmade : disk.createDirectory path with
  | ok other =>
      obtain ⟨-, -, hdirectory, hgrown⟩ := createDirectory_ok hdots htrim hmade
      refine .of_eq (.ok ()) hgrown ?_ (fun _ => .inr hdirectory) nofun
      unfold createInside
      rw [if_neg htext, hmade]
  | error fault =>
      by_cases hkind : fault.kind = .missing
      · cases hparent : path.parent? with
        | none =>
            refine .of_eq (.error .noTree) (.refl path disk) ?_ nofun fun _ => ?_
            · unfold createInside
              rw [if_neg htext, hmade]
              dsimp only
              rw [if_pos hkind, hparent]
            · refine isStuck_createInside htext
                (not_isDirectory_of_createDirectory htrim hmade hkind) (by simp [hmade]) ?_
              intro _ _ _ parent hsome
              rw [hparent] at hsome
              cases hsome
        | some parent =>
            exact isMade_of_missing hdots htrim htext hmade hkind hparent (houter parent)
              fun disk => hthere disk parent
      · refine .of_fault htext (.refl path disk) hmade (fun hmissing => absurd hmissing hkind) ?_
        unfold createInside
        rw [if_neg htext, hmade]
        dsimp only
        rw [if_neg hkind]

theorem isMade_createDirectories (fuel : Nat) (hdots : ".." ∉ path.parts)
    (htrim : withoutSlashes path = path) (hfuel : path.names.length < fuel) (disk : Disk) :
    IsMade (createDirectories fuel) disk path := by
  induction fuel generalizing disk path with
  | zero => exact absurd hfuel (Nat.not_lt_zero _)
  | succ fuel ih =>
      refine isMade_createInside hdots htrim ?_ ?_
      · intro parent htext his
        refine ih (parent_dots his hdots) (withoutSlashes_eq his.trimmed) ?_ disk
        have hlength := congrArg List.length his.names
        have hpos := List.length_pos_iff.2 his.names_ne
        rw [List.length_dropLast] at hlength
        omega
      · rintro disk parent (htext | ⟨htrim, hthere⟩)
        · cases fuel <;> exact if_pos htext
        · exact createDirectories_of_isDirectory fuel htrim hthere

/-! ### Making sure of a directory -/

theorem length_names_le (path : Path) : path.names.length ≤ path.steps.length := by
  have hparts : ∀ parts : List String,
      (parts.filter fun part => !isIdlePart part).length ≤
        (parts.filterMap PathStep.ofPart?).length := by
    intro parts
    induction parts with
    | nil => exact Nat.le_refl _
    | cons part parts ih =>
        cases hidle : isIdlePart part with
        | true =>
            rw [List.filter_cons_of_neg (by simp [hidle]),
              List.filterMap_cons_none (Path.ofPart?_eq_none_iff.2 hidle)]
            exact ih
        | false =>
            have hne : PathStep.ofPart? part ≠ none :=
              mt Path.ofPart?_eq_none_iff.1 (by simp [hidle])
            obtain ⟨step, hstep⟩ := Option.ne_none_iff_exists'.1 hne
            rw [List.filter_cons_of_pos (by simp [hidle]), List.filterMap_cons_some hstep]
            exact Nat.succ_le_succ ih
  unfold Path.steps Path.names
  split
  · exact Nat.le_succ_of_le (hparts _)
  · split
    · next parts hhere =>
        rw [hhere, List.filter_cons_of_neg (by decide)]
        exact Nat.le_succ_of_le (hparts _)
    · exact hparts _

theorem holds_of_isDirectory (h : disk.isDirectory path = true) : disk.holds path = true := by
  obtain ⟨spot, hspot, hentry⟩ := isDirectory_eq_true_iff.1 h
  exact holds_iff.2 ⟨spot, hspot, by simp [hentry]⟩

theorem ensureDirectory_of_isDirectory (h : disk.isDirectory folder = true) :
    disk.ensureDirectory folder = (disk, .ok ()) := by
  unfold ensureDirectory
  rw [if_pos (holds_of_isDirectory h), if_pos h]

/-- A folder that is not there and cannot be made sure of: trying changes nothing. -/
structure Refuses (disk : Disk) (folder : Path) : Prop where
  isDirectory : disk.isDirectory folder = false
  unchanged : (disk.ensureDirectory folder).1 = disk
  refused : (disk.ensureDirectory folder).2.isOk = false

theorem refuses_of_isStuck
    (h : IsStuck (createDirectories (folder.steps.length + 1)) disk folder) :
    disk.Refuses folder := by
  have hsame : (disk.createAll folder).1 = disk := h.unchanged
  have houtcome : (disk.createAll folder).2.isOk = false := h.refused
  have hensure : (disk.ensureDirectory folder).1 = disk ∧
      (disk.ensureDirectory folder).2.isOk = false := by
    unfold ensureDirectory
    split
    · rw [if_neg (by simp [h.isDirectory])]
      exact ⟨rfl, rfl⟩
    · split
      · next heq =>
          rw [heq] at houtcome
          cases houtcome
      · next heq =>
          rw [heq] at hsame
          exact ⟨hsame, rfl⟩
  exact ⟨h.isDirectory, hensure.1, hensure.2⟩

/-- **Making sure of a folder.** It is there afterwards, or it cannot be made sure of at all; nothing
comes up but directories on the way to it. -/
theorem ensureDirectory_cases (hfolder : folder.EndsPlain) (hdots : ".." ∉ folder.parts)
    (disk : Disk) :
    GrownAlong folder disk (disk.ensureDirectory folder).1 ∧
      ((disk.ensureDirectory folder).2.isOk = true ∧
          (disk.ensureDirectory folder).1.isDirectory folder = true ∨
        (disk.ensureDirectory folder).2.isOk = false ∧
          (disk.ensureDirectory folder).1.Refuses folder) := by
  cases hdirectory : disk.isDirectory folder with
  | true =>
      rw [ensureDirectory_of_isDirectory hdirectory]
      exact ⟨.refl folder disk, .inl ⟨rfl, hdirectory⟩⟩
  | false =>
      by_cases hholds : disk.holds folder = true
      · obtain ⟨failure, hensure⟩ :
            ∃ failure, disk.ensureDirectory folder = (disk, .error failure) := by
          unfold ensureDirectory
          rw [if_pos hholds, if_neg (by simp [hdirectory])]
          exact ⟨_, rfl⟩
        rw [hensure]
        exact ⟨.refl folder disk, .inr ⟨rfl, hdirectory, by rw [hensure], by rw [hensure]; rfl⟩⟩
      · have hmade := isMade_createDirectories (folder.steps.length + 1) hdots
          (withoutSlashes_eq (.inl hfolder.getLast?_text))
          (Nat.lt_succ_of_le (length_names_le folder)) disk
        cases hall : createDirectories (folder.steps.length + 1) disk folder with
        | mk next outcome =>
            have hgrown := hmade.grown
            rw [hall] at hgrown
            cases outcome with
            | ok done =>
                have hensure : disk.ensureDirectory folder = (next, .ok ()) := by
                  unfold ensureDirectory createAll
                  rw [if_neg hholds, hall]
                have hthere := hmade.made (by rw [hall]; rfl)
                rw [hall] at hthere
                rw [hensure]
                exact ⟨hgrown, .inl ⟨rfl, hthere.resolve_left hfolder.text_ne⟩⟩
            | error fault =>
                obtain ⟨failure, hensure⟩ : ∃ failure,
                    disk.ensureDirectory folder = (next, .error failure) := by
                  unfold ensureDirectory createAll
                  rw [if_neg hholds, hall]
                  exact ⟨_, rfl⟩
                have hstuck := hmade.stuck (by rw [hall]; rfl)
                rw [hall] at hstuck
                rw [hensure]
                exact ⟨hgrown, .inr ⟨rfl, refuses_of_isStuck hstuck⟩⟩

end ComponentTags.Disk
