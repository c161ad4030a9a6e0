import ComponentTags.Proofs.Disk.Folders

/-!
Independent writes. Files of different names in one folder can be written in any order: each write
succeeds or fails as if it were the only one, and the disk ends up the same. The first write may have to
make the folder, so this takes a disk on which a folder that is missing has nothing in it.
-/

namespace ComponentTags.Disk

variable {disk other ready : Disk} {folder : Path} {spot place : Spot} {name first second : String}
  {content : List UInt8}

/-- A disk on which a folder that is missing has nothing in it, whichever way its path takes. -/
structure IsTidy (folder : Path) (disk : Disk) : Prop where
  isTree : disk.IsTree
  way : ".." ∉ folder.parts ∨ disk.isDirectory folder = true

/-- The files of two names and their temporary siblings are different ones. -/
structure Apart (first second : String) : Prop where
  names : first ≠ second
  left : first ≠ temporaryName plainMark second
  right : second ≠ temporaryName plainMark first

theorem temporaryName_inj {mark : String} :
    temporaryName mark first = temporaryName mark second ↔ first = second := by
  refine ⟨fun h => String.toList_inj.1 ?_, congrArg _⟩
  have htext := congrArg String.toList h
  simpa [temporaryName] using htext

/-! ### Putting files -/

theorem entry_replaced :
    Disk.entry? (disk.replaced spot name content) place =
      if place = name :: spot then some (.file content)
      else if place = temporaryName plainMark name :: spot then none
      else disk.entry? place := by
  rw [replaced, entry_put, entry_erase]
  simp

theorem keepsDirectories_replaced (hname : disk.entry? (name :: spot) ≠ some .directory)
    (htemporary : disk.entry? (temporaryName plainMark name :: spot) ≠ some .directory) :
    disk.KeepsDirectories (disk.replaced spot name content) where
  workingDirectory := rfl
  entry place hplace := by
    have hne : place ≠ name :: spot := fun heq => hname (heq ▸ hplace)
    have hne' : place ≠ temporaryName plainMark name :: spot :=
      fun heq => htemporary (heq ▸ hplace)
    rw [entry_replaced, if_neg hne, if_neg hne', hplace]

/-- What becomes of a file depends on what stands in its place and in that of its temporary sibling. -/
theorem putFile_alike (name : String) (content : List UInt8)
    (hspot : other.spotOf folder = disk.spotOf folder)
    (hname : other.entry? (name :: disk.spotOf folder) = disk.entry? (name :: disk.spotOf folder))
    (htemporary : other.entry? (temporaryName plainMark name :: disk.spotOf folder) =
      disk.entry? (temporaryName plainMark name :: disk.spotOf folder)) :
    (∃ done, disk.putFile folder name content = (disk, done) ∧
        other.putFile folder name content = (other, done)) ∨
      disk.putFile folder name content = (disk.replaced (disk.spotOf folder) name content, true) ∧
        other.putFile folder name content =
          (other.replaced (disk.spotOf folder) name content, true) ∧
        disk.entry? (name :: disk.spotOf folder) ≠ some .directory ∧
        disk.entry? (temporaryName plainMark name :: disk.spotOf folder) ≠ some .directory := by
  unfold putFile
  dsimp only
  rw [hspot, hname, htemporary]
  by_cases hrefused : ((nameFault? folder name).isSome ||
      disk.entry? (name :: disk.spotOf folder) = some .directory) = true
  · simp only [if_pos hrefused]
    exact .inl ⟨false, rfl, rfl⟩
  · simp only [if_neg hrefused]
    by_cases hsame : disk.entry? (name :: disk.spotOf folder) = some (.file content)
    · simp only [if_pos hsame]
      exact .inl ⟨true, rfl, rfl⟩
    · simp only [if_neg hsame]
      by_cases hbusy : ((nameFault? folder (temporaryName plainMark name)).isSome ||
          disk.entry? (temporaryName plainMark name :: disk.spotOf folder) = some .directory) = true
      · simp only [if_pos hbusy]
        exact .inl ⟨false, rfl, rfl⟩
      · simp only [if_neg hbusy]
        refine .inr ⟨trivial, trivial, fun h => ?_, fun h => ?_⟩
        · simp [h] at hrefused
        · simp [h] at hbusy

theorem putFile_cases (disk : Disk) (folder : Path) (name : String) (content : List UInt8) :
    (∃ done, disk.putFile folder name content = (disk, done)) ∨
      disk.putFile folder name content = (disk.replaced (disk.spotOf folder) name content, true) ∧
        disk.entry? (name :: disk.spotOf folder) ≠ some .directory ∧
        disk.entry? (temporaryName plainMark name :: disk.spotOf folder) ≠ some .directory := by
  have hspot : disk.spotOf folder = disk.spotOf folder := rfl
  rcases putFile_alike name content hspot rfl rfl with
    ⟨done, hput, -⟩ | ⟨hput, -, hname, htemporary⟩
  · exact .inl ⟨done, hput⟩
  · exact .inr ⟨hput, hname, htemporary⟩

theorem keepsDirectories_putFile (disk : Disk) (folder : Path) (name : String)
    (content : List UInt8) :
    disk.KeepsDirectories (disk.putFile folder name content).1 := by
  rcases disk.putFile_cases folder name content with ⟨done, hput⟩ | ⟨hput, hname, htemporary⟩
  · rw [hput]
    exact ⟨rfl, fun _ h => h⟩
  · rw [hput]
    exact keepsDirectories_replaced hname htemporary

theorem spotOf_putFile (disk : Disk) (folder path : Path) (name : String) (content : List UInt8) :
    (disk.putFile folder name content).1.spotOf path = disk.spotOf path :=
  spotOf_congr (disk.keepsDirectories_putFile folder name content).workingDirectory path

theorem entry_putFile_of_ne (hname : place ≠ name :: disk.spotOf folder)
    (htemporary : place ≠ temporaryName plainMark name :: disk.spotOf folder) :
    Disk.entry? (disk.putFile folder name content).1 place = disk.entry? place := by
  rcases disk.putFile_cases folder name content with ⟨done, hput⟩ | ⟨hput, -⟩
  · rw [hput]
  · rw [hput, entry_replaced, if_neg hname, if_neg htemporary]

theorem isTree_putFile (htree : disk.IsTree) (hthere : disk.isDirectory folder = true) :
    (disk.putFile folder name content).1.IsTree := by
  have hkeeps := disk.keepsDirectories_putFile folder name content
  rcases disk.putFile_cases folder name content with ⟨done, hput⟩ | ⟨hput, -⟩
  · rw [hput]
    exact htree
  · intro step rest hsome
    rw [hput] at hkeeps hsome ⊢
    obtain ⟨found, hfound, hentry⟩ := isDirectory_eq_true_iff.1 hthere
    obtain rfl := locate_eq_spotOf hfound
    rw [entry_replaced] at hsome
    split at hsome
    · next heq =>
        obtain ⟨-, rfl⟩ := List.cons.inj heq
        exact hkeeps.entry _ hentry
    · split at hsome
      · cases hsome
      · exact hkeeps.entry _ (htree step rest hsome)

theorem replaced_comm (h : Apart first second) (spot : Spot) (content content' : List UInt8) :
    (disk.replaced spot first content).replaced spot second content' =
      (disk.replaced spot second content').replaced spot first content := by
  have hnames := h.names
  have hleft := h.left
  have hright := h.right
  have hentries : ((((disk.entries.erase (temporaryName plainMark first :: spot)).insert
        (first :: spot) (.file content)).erase (temporaryName plainMark second :: spot)).insert
          (second :: spot) (.file content')) =
      ((((disk.entries.erase (temporaryName plainMark second :: spot)).insert
        (second :: spot) (.file content')).erase (temporaryName plainMark first :: spot)).insert
          (first :: spot) (.file content)) := by
    refine Std.ExtTreeMap.ext_getElem? fun place => ?_
    simp only [Std.ExtTreeMap.getElem?_insert, Std.ExtTreeMap.getElem?_erase,
      Std.LawfulEqOrd.compare_eq_iff_eq]
    by_cases hfirst : first :: spot = place
    · subst hfirst
      simp [hnames.symm, hleft.symm]
    · by_cases hsecond : second :: spot = place
      · subst hsecond
        simp [hnames, hright.symm]
      · simp only [if_neg hfirst, if_neg hsecond]
        split <;> split <;> rfl
  simp only [replaced, put, erase, hentries]

/-! ### Changes that do not depend on their order -/

/-- Two changes of a disk lead to one disk in either order, and neither affects the other's outcome. -/
structure CommuteAt (disk : Disk) (change change' : Disk → Disk × Bool) : Prop where
  same : (change' (change disk).1).1 = (change (change' disk).1).1
  left : (change (change' disk).1).2 = (change disk).2
  right : (change' (change disk).1).2 = (change' disk).2

/-- Two changes commute wherever a folder is or can be told to be missing. -/
def Commute (folder : Path) (change change' : Disk → Disk × Bool) : Prop :=
  ∀ disk : Disk, disk.IsTidy folder → disk.CommuteAt change change'

theorem Commute.symm {change change' : Disk → Disk × Bool} (h : Commute folder change change') :
    Commute folder change' change := fun disk htidy =>
  ⟨(h disk htidy).same.symm, (h disk htidy).right, (h disk htidy).left⟩

theorem CommuteAt.of_eq {change change' : Disk → Disk × Bool} {next next' last last' : Disk}
    {done done' : Bool} (hfirst : change disk = (next, done)) (hsecond : change' disk = (next', done'))
    (hafter : change next' = (last, done)) (hafter' : change' next = (last', done'))
    (heq : last' = last) : disk.CommuteAt change change' where
  same := by rw [hfirst, hafter', hsecond, hafter, heq]
  left := by rw [hsecond, hafter, hfirst]
  right := by rw [hfirst, hafter', hsecond]

theorem putFile_comm (h : Apart first second) (disk : Disk) (folder : Path)
    (content content' : List UInt8) :
    disk.CommuteAt (·.putFile folder first content) (·.putFile folder second content') := by
  have hne := h.names
  have htemporary : temporaryName plainMark first ≠ temporaryName plainMark second :=
    mt temporaryName_inj.1 h.names
  have hfirst := putFile_alike first content
    (disk.spotOf_putFile folder folder second content')
    (entry_putFile_of_ne (by simp [hne]) (by simp [h.left]))
    (entry_putFile_of_ne (by simp [h.right.symm]) (by simp [htemporary]))
  have hsecond := putFile_alike second content'
    (disk.spotOf_putFile folder folder first content)
    (entry_putFile_of_ne (by simp [hne.symm]) (by simp [h.right]))
    (entry_putFile_of_ne (by simp [h.left.symm]) (by simp [htemporary.symm]))
  rcases hfirst with ⟨done, hput, hafter⟩ | ⟨hput, hafter, -⟩ <;>
    rcases hsecond with ⟨done', hput', hafter'⟩ | ⟨hput', hafter', -⟩ <;>
    rw [hput'] at hafter <;> rw [hput] at hafter'
  · exact .of_eq hput hput' hafter hafter' rfl
  · exact .of_eq hput hput' hafter hafter' rfl
  · exact .of_eq hput hput' hafter hafter' rfl
  · exact .of_eq hput hput' hafter hafter' (replaced_comm h _ _ _)

/-! ### Folders that are missing -/

/-- On a disk with fewer directories, a path that is clear on the other one may end too early. -/
theorem follow_of_agreesOff {parts : List String} (hagrees : disk.AgreesOff [] other)
    (hdots : ".." ∉ parts)
    (hclear : other.Clear spot (parts.filter fun part => !isIdlePart part)) :
    (∃ found, disk.follow spot parts = .ok found) ∨ disk.follow spot parts = .error .nothing := by
  induction parts generalizing spot with
  | nil => exact .inl ⟨spot, rfl⟩
  | cons part parts ih =>
      obtain ⟨hpart, hparts⟩ := not_or.1 (mt List.mem_cons.2 hdots)
      rw [follow]
      rcases hagrees.other spot (fun _ hmem => absurd hmem List.not_mem_nil) with hsame | ⟨hnone, -⟩
      · rw [← hsame, hclear.start]
        dsimp only
        cases hidle : isIdlePart part with
        | true =>
            rw [List.filter_cons_of_neg (by simp [hidle])] at hclear
            rw [if_pos (by simpa [isIdlePart] using hidle)]
            exact ih hparts hclear
        | false =>
            rw [List.filter_cons_of_pos (by simp [hidle])] at hclear
            rw [if_neg (by simpa [isIdlePart] using hidle), if_neg (Ne.symm hpart),
              if_neg (by simpa using hclear.2.1)]
            exact ih hparts hclear.2.2
      · rw [hnone]
        exact .inr rfl

theorem clear_of_isTree {names : List String} (htree : disk.IsTree) (hclear : other.Clear spot names)
    (hentry : disk.entry? (names.reverse ++ spot) = some .directory) : disk.Clear spot names := by
  induction names using List.reverseRecOn with
  | nil => exact hentry
  | append_singleton names name ih =>
      rw [clear_append_singleton] at hclear ⊢
      rw [List.reverse_concat, List.cons_append] at hentry
      exact ⟨ih hclear.1 (htree name _ (by simp [hentry])), hclear.2.1, hentry⟩

section Missing

variable (hdots : ".." ∉ folder.parts) (habsent : disk.isDirectory folder = false)

include hdots habsent

/-- The place of a missing folder is empty, if it can be made. -/
theorem entry_ne_directory (htree : disk.IsTree) (hthere : ready.isDirectory folder = true)
    (hagrees : disk.AgreesOff [] ready) : disk.entry? (disk.spotOf folder) ≠ some .directory := by
  intro hentry
  obtain ⟨hfault, hclear⟩ := (isDirectory_iff hdots).1 hthere
  rw [origin, hagrees.workingDirectory, ← origin] at hclear
  rw [spotOf_eq hdots] at hentry
  have hdirectory := (isDirectory_iff hdots).2 ⟨hfault, clear_of_isTree htree hclear hentry⟩
  rw [habsent] at hdirectory
  cases hdirectory

/-- There is nothing in a folder that was just made. -/
theorem entry_of_made (htree : disk.IsTree) (hthere : ready.isDirectory folder = true)
    (hgrown : GrownAlong folder disk ready) (hagrees : disk.AgreesOff [] ready) (name : String) :
    ready.entry? (name :: ready.spotOf folder) = none := by
  have hoff : ¬name :: disk.spotOf folder <:+ disk.spotOf folder := by
    intro hsuffix
    exact absurd hsuffix.length_le (by simp)
  rw [spotOf_congr hgrown.workingDirectory, hgrown.off _ hoff]
  refine Option.eq_none_iff_forall_ne_some.2 fun entry hentry => ?_
  exact entry_ne_directory hdots habsent htree hthere hagrees (htree name _ (by simp [hentry]))

variable (hfolder : folder.EndsPlain) (hname : IsPlainName name)

include hfolder hname

/-- A name in a missing folder that can be made is missing, unless the text is not taken at all. -/
theorem locate_join_of_made (htree : disk.IsTree) (hthere : ready.isDirectory folder = true)
    (hagrees : disk.AgreesOff [] ready) (hfault : textFault? (folder / name) = none) :
    disk.locate (folder / name) = .error .nothing := by
  obtain ⟨-, hclear⟩ := (isDirectory_iff hdots).1 hthere
  rw [origin, hagrees.workingDirectory, ← origin] at hclear
  rw [locate_of_taken hfault, ← parent_origin (isParent_join hfolder hname),
    (hfolder.isAbsolute_join hname).2, follow_append]
  rcases follow_of_agreesOff hagrees hdots hclear with ⟨found, hfound⟩ | hmissing
  · obtain rfl : found = disk.spotOf folder := follow_eq_walk hfound
    have hentry := entry_ne_directory hdots habsent htree hthere hagrees
    rcases hagrees.other (disk.spotOf folder) (fun _ hmem => absurd hmem List.not_mem_nil) with
      hsame | ⟨hnone, -⟩
    · rw [← hsame, spotOf_eq hdots] at hentry
      exact absurd hclear.entry hentry
    · rw [hfound]
      dsimp only
      rw [follow, hnone]
  · rw [hmissing]

end Missing

/-- A folder that is refused takes no file. -/
theorem save_of_refuses (hfolder : folder.EndsPlain) (hname : IsPlainName name)
    (hdots : ".." ∉ folder.parts) (hrefuses : disk.Refuses folder) (text : String) :
    disk.save folder name text = (disk, false) := by
  obtain ⟨fault, hfault⟩ := locate_join_of_absent hfolder hname hdots hrefuses.isDirectory
  have hread : disk.read (folder / name) = .error fault := by
    unfold read lookup
    rw [hfault]
  rw [save_eq, hread]
  dsimp only
  split
  · rw [write_join hfolder hname, hrefuses.refused, hrefuses.unchanged]
    rfl
  · rfl

/-- What comes of the writes into a folder can be read off another disk, where all is done that can be
done to have the folder. -/
structure Prepared (folder : Path) (disk ready : Disk) : Prop where
  isTidy : ready.IsTidy folder
  regime : ready.isDirectory folder = true ∨ ready.Refuses folder ∧ ".." ∉ folder.parts
  save : ∀ name, IsPlainName name → ∀ text,
    disk.save folder name text = ready.save folder name text ∨
      disk.save folder name text = (disk, false) ∧ ready.save folder name text = (ready, false)
  holds : ∀ name, IsPlainName name → ready.holds (folder / name) = disk.holds (folder / name)
  entry : ready.isDirectory folder = true → ∀ name,
    ready.entry? (name :: ready.spotOf folder) = disk.entry? (name :: disk.spotOf folder)

/-- A write into a missing folder that can be made comes to making it and writing then. -/
theorem save_of_made (hfolder : folder.EndsPlain) (hname : IsPlainName name)
    (hdots : ".." ∉ folder.parts) (habsent : disk.isDirectory folder = false)
    (htree : disk.IsTree) (hok : (disk.ensureDirectory folder).2.isOk = true)
    (hthere : (disk.ensureDirectory folder).1.isDirectory folder = true)
    (hgrown : GrownAlong folder disk (disk.ensureDirectory folder).1) (text : String) :
    disk.save folder name text = (disk.ensureDirectory folder).1.save folder name text ∨
      disk.save folder name text = (disk, false) ∧
        (disk.ensureDirectory folder).1.save folder name text =
          ((disk.ensureDirectory folder).1, false) := by
  have hagrees := disk.agreesOff_ensureDirectory folder
  have hentry := entry_of_made hdots habsent htree hthere hgrown hagrees name
  have hwrite := write_join hfolder hname disk (Utf8.encode text.toList)
  rw [if_pos hok] at hwrite
  generalize (disk.ensureDirectory folder).1 = ready at hthere hgrown hagrees hentry hwrite ⊢
  rw [save_of_isDirectory hfolder hname hthere, save_eq]
  unfold putFile read lookup
  cases hfault : textFault? (folder / name) with
  | some fault =>
      rw [locate_of_textFault hfault]
      dsimp only
      rw [if_neg (kind_ne_missing_of_textFault hname hfault),
        if_pos (by simp [nameFault?_of_textFault hfault])]
      exact .inr ⟨rfl, rfl⟩
  | none =>
      rw [locate_join_of_made hdots habsent hfolder hname htree hthere hagrees hfault]
      dsimp only
      rw [if_pos (by decide), hwrite, hentry]
      refine .inl ?_
      cases hlong : nameFault? folder name with
      | some fault =>
          rw [replaceBeside_of_temporary hfolder hname hthere]
          · rfl
          · simp [isSome_nameFault_temporaryName hfault (by simp [hlong])]
      | none =>
          rw [replaceBeside_join hfolder hname _ hthere hlong (by simp [hentry])]
          simp

theorem prepared_ensureDirectory (hfolder : folder.EndsPlain) (htidy : disk.IsTidy folder) :
    Prepared folder disk (disk.ensureDirectory folder).1 := by
  cases habsent : disk.isDirectory folder with
  | true =>
      rw [ensureDirectory_of_isDirectory habsent]
      exact ⟨htidy, .inl habsent, fun _ _ _ => .inl rfl, fun _ _ => rfl, fun _ _ => rfl⟩
  | false =>
      have hdots := htidy.way.resolve_right (by simp [habsent])
      obtain ⟨hgrown, hcases⟩ := ensureDirectory_cases hfolder hdots disk
      have htidy' : (disk.ensureDirectory folder).1.IsTidy folder :=
        ⟨hgrown.isTree htidy.isTree, .inl hdots⟩
      rcases hcases with ⟨hok, hthere⟩ | ⟨herror, hrefuses⟩
      · refine ⟨htidy', .inl hthere, fun name hname text => ?_, fun name hname => ?_, fun _ name => ?_⟩
        · exact save_of_made hfolder hname hdots habsent htidy.isTree hok hthere hgrown text
        · have hentry := entry_of_made hdots habsent htidy.isTree hthere hgrown
            (disk.agreesOff_ensureDirectory folder) name
          rw [holds_join_of_absent hfolder hname hdots habsent, Bool.eq_false_iff,
            ne_eq, holds_join hfolder hname hthere, hentry]
          simp
        · have hagrees := disk.agreesOff_ensureDirectory folder
          have hplace := entry_ne_directory hdots habsent htidy.isTree hthere hagrees
          rw [entry_of_made hdots habsent htidy.isTree hthere hgrown hagrees name, eq_comm]
          exact Option.eq_none_iff_forall_ne_some.2 fun entry hentry =>
            hplace (htidy.isTree name _ (by simp [hentry]))
      · refine ⟨htidy', .inr ⟨hrefuses, hdots⟩, fun name hname text => ?_, fun name hname => ?_,
          fun hthere => absurd hthere (by simp [hrefuses.isDirectory])⟩
        · obtain ⟨fault, hfault⟩ := locate_join_of_absent hfolder hname hdots habsent
          rw [save_of_refuses hfolder hname hdots hrefuses, save_eq]
          unfold read lookup
          rw [hfault]
          dsimp only
          split
          · rw [write_join hfolder hname, herror]
            exact .inl rfl
          · exact .inr ⟨rfl, rfl⟩
        · rw [holds_join_of_absent hfolder hname hdots habsent,
            holds_join_of_absent hfolder hname hdots hrefuses.isDirectory]

theorem exists_prepared (hfolder : folder.EndsPlain) (htidy : disk.IsTidy folder) :
    ∃ ready, Prepared folder disk ready :=
  ⟨_, prepared_ensureDirectory hfolder htidy⟩

/-! ### Writes into one folder -/

section Folder

variable (hfolder : folder.EndsPlain)

include hfolder

/-- A write into a folder that is there or refused puts the file into its place or changes nothing. -/
theorem Prepared.save_cases (h : Prepared folder disk ready) (hname : IsPlainName name)
    (text : String) :
    ready.isDirectory folder = true ∧
        ready.save folder name text = ready.putFile folder name (Utf8.encode text.toList) ∨
      ready.save folder name text = (ready, false) := by
  rcases h.regime with hthere | ⟨hrefuses, hdots⟩
  · exact .inl ⟨hthere, save_of_isDirectory hfolder hname hthere text⟩
  · exact .inr (save_of_refuses hfolder hname hdots hrefuses text)

/-- Saving a file that can be saved is putting it into a folder that is there and has the same in it. -/
theorem exists_ready_of_save {text : String} (htidy : disk.IsTidy folder) (hname : IsPlainName name)
    (hok : (disk.save folder name text).2 = true) :
    ∃ ready : Disk, ready.isDirectory folder = true ∧ ready.IsTidy folder ∧
      (∀ other, ready.entry? (other :: ready.spotOf folder) =
        disk.entry? (other :: disk.spotOf folder)) ∧
      disk.save folder name text = ready.putFile folder name (Utf8.encode text.toList) := by
  obtain ⟨ready, hready⟩ := exists_prepared hfolder htidy
  have hsave : disk.save folder name text = ready.save folder name text :=
    (hready.save name hname text).resolve_right fun hrefused => by simp [hrefused.1] at hok
  rcases hready.save_cases hfolder hname text with ⟨hthere, hput⟩ | hrefused
  · exact ⟨ready, hthere, hready.isTidy, hready.entry hthere, hsave.trans hput⟩
  · rw [hsave, hrefused] at hok
    cases hok

theorem IsTidy.save (htidy : disk.IsTidy folder) (hname : IsPlainName name) (text : String) :
    (disk.save folder name text).1.IsTidy folder := by
  obtain ⟨ready, hready⟩ := exists_prepared hfolder htidy
  rcases hready.save name hname text with hsame | ⟨hrefused, -⟩
  · rw [hsame]
    rcases hready.save_cases hfolder hname text with ⟨hthere, hput⟩ | hput
    · rw [hput]
      exact ⟨isTree_putFile hready.isTidy.isTree hthere,
        .inr (isDirectory_mono (ready.keepsDirectories_putFile _ _ _) hthere)⟩
    · rw [hput]
      exact hready.isTidy
  · rw [hrefused]
    exact htidy

/-- Whether a file is there does not depend on what is written to other ones. -/
theorem holds_save (htidy : disk.IsTidy folder) (hfirst : IsPlainName first)
    (hsecond : IsPlainName second) (hapart : Apart first second) (text : String) :
    (disk.save folder first text).1.holds (folder / second) = disk.holds (folder / second) := by
  obtain ⟨ready, hready⟩ := exists_prepared hfolder htidy
  rcases hready.save first hfirst text with hsame | ⟨hrefused, -⟩
  · rw [hsame, ← hready.holds second hsecond]
    rcases hready.save_cases hfolder hfirst text with ⟨hthere, hput⟩ | hput
    · rw [hput]
      have hthere' := isDirectory_mono
        (ready.keepsDirectories_putFile folder first (Utf8.encode text.toList)) hthere
      rw [Bool.eq_iff_iff, holds_join hfolder hsecond hthere', holds_join hfolder hsecond hthere,
        spotOf_putFile, entry_putFile_of_ne (by simp [hapart.names.symm]) (by simp [hapart.right])]
    · rw [hput]
  · rw [hrefused]

/-- **Writes of different names commute.** -/
theorem save_comm (hfirst : IsPlainName first) (hsecond : IsPlainName second)
    (hapart : Apart first second) (text text' : String) :
    Commute folder (save folder first text) (save folder second text') := by
  have hready : ∀ disk ready : Disk, Prepared folder disk ready →
      ready.CommuteAt (save folder first text) (save folder second text') := by
    intro disk ready hready
    rcases hready.regime with hthere | ⟨hrefuses, hdots⟩
    · have hput := putFile_comm hapart ready folder (Utf8.encode text.toList)
        (Utf8.encode text'.toList)
      have hafter := save_of_isDirectory hfolder hfirst (isDirectory_mono
        (ready.keepsDirectories_putFile folder second (Utf8.encode text'.toList)) hthere) text
      have hafter' := save_of_isDirectory hfolder hsecond (isDirectory_mono
        (ready.keepsDirectories_putFile folder first (Utf8.encode text.toList)) hthere) text'
      have hbefore := save_of_isDirectory hfolder hfirst hthere text
      have hbefore' := save_of_isDirectory hfolder hsecond hthere text'
      refine ⟨?_, ?_, ?_⟩
      · rw [hbefore, hbefore', hafter, hafter']
        exact hput.same
      · rw [hbefore, hbefore', hafter]
        exact hput.left
      · rw [hbefore, hbefore', hafter']
        exact hput.right
    · have hrefused := save_of_refuses hfolder hfirst hdots hrefuses text
      have hrefused' := save_of_refuses hfolder hsecond hdots hrefuses text'
      exact .of_eq hrefused hrefused' hrefused hrefused' rfl
  intro disk htidy
  obtain ⟨ready, hprepared⟩ := exists_prepared hfolder htidy
  have hcomm := hready disk ready hprepared
  rcases hprepared.save first hfirst text with hsame | ⟨hrefused, hrefusedReady⟩ <;>
    rcases hprepared.save second hsecond text' with hsame' | ⟨hrefused', hrefusedReady'⟩
  · exact ⟨by rw [hsame, hsame']; exact hcomm.same, by rw [hsame, hsame']; exact hcomm.left,
      by rw [hsame, hsame']; exact hcomm.right⟩
  · have hnext := hcomm.same
    have houtcome := hcomm.right
    rw [hrefusedReady'] at hnext houtcome
    refine ⟨?_, ?_, ?_⟩
    · rw [hrefused', hsame, hnext]
    · rw [hrefused']
    · rw [hsame, houtcome, hrefused']
  · have hnext := hcomm.same
    have houtcome := hcomm.left
    rw [hrefusedReady] at hnext houtcome
    refine ⟨?_, ?_, ?_⟩
    · rw [hrefused, hsame', ← hnext]
    · rw [hsame', houtcome, hrefused]
    · rw [hrefused]
  · exact .of_eq hrefused hrefused' hrefused hrefused' rfl

end Folder

/-! ### Several files -/

/-- A change after which a folder is still there, or can still be told to be missing. -/
def Keeps (folder : Path) (change : Disk → Disk × Bool) : Prop :=
  ∀ disk : Disk, disk.IsTidy folder → (change disk).1.IsTidy folder

/-- One change after another one, which succeed if both do. -/
def andThen (change change' : Disk → Disk × Bool) (disk : Disk) : Disk × Bool :=
  ((change' (change disk).1).1, (change disk).2 && (change' (change disk).1).2)

/-- Writes some files of a folder. -/
def saveAll (folder : Path) : List (String × String) → Disk → Disk × Bool
  | [] => fun disk => (disk, true)
  | (name, text) :: files => andThen (save folder name text) (saveAll folder files)

section Changes

variable {change change' other : Disk → Disk × Bool}

theorem Keeps.andThen (h : Keeps folder change) (h' : Keeps folder change') :
    Keeps folder (andThen change change') := fun disk htidy => h' _ (h disk htidy)

theorem Commute.andThen (hkeeps : Keeps folder change) (h : Commute folder change other)
    (h' : Commute folder change' other) : Commute folder (andThen change change') other := by
  intro disk htidy
  have hfirst := h disk htidy
  have hsecond := h' (change disk).1 (hkeeps disk htidy)
  refine ⟨?_, ?_, ?_⟩
  · unfold Disk.andThen
    rw [hsecond.same, hfirst.same]
  · unfold Disk.andThen
    rw [hfirst.left, ← hfirst.same, hsecond.left]
  · unfold Disk.andThen
    rw [hsecond.right, hfirst.right]

theorem commute_pure (done : Bool) : Commute folder (fun disk => (disk, done)) other :=
  fun _ _ => ⟨rfl, rfl, rfl⟩

theorem keeps_saveAll (hfolder : folder.EndsPlain) {files : List (String × String)}
    (hfiles : ∀ file ∈ files, IsPlainName file.1) : Keeps folder (saveAll folder files) := by
  induction files with
  | nil => exact fun disk htidy => htidy
  | cons file files ih =>
      have hsave : Keeps folder (save folder file.1 file.2) :=
        fun disk htidy => htidy.save hfolder (hfiles file List.mem_cons_self) file.2
      exact hsave.andThen (ih fun file hfile => hfiles file (List.mem_cons_of_mem _ hfile))

theorem commute_saveAll (hfolder : folder.EndsPlain) {files : List (String × String)}
    (hfiles : ∀ file ∈ files, IsPlainName file.1)
    (hcomm : ∀ file ∈ files, Commute folder (save folder file.1 file.2) other) :
    Commute folder (saveAll folder files) other := by
  induction files with
  | nil => exact commute_pure true
  | cons file files ih =>
      have hsave : Keeps folder (save folder file.1 file.2) :=
        fun disk htidy => htidy.save hfolder (hfiles file List.mem_cons_self) file.2
      exact Commute.andThen hsave (hcomm file List.mem_cons_self)
        (ih (fun file hfile => hfiles file (List.mem_cons_of_mem _ hfile))
          fun file hfile => hcomm file (List.mem_cons_of_mem _ hfile))

/-- **Writes of apart files commute.** -/
theorem saveAll_comm (hfolder : folder.EndsPlain) {files files' : List (String × String)}
    (hfiles : ∀ file ∈ files, IsPlainName file.1) (hfiles' : ∀ file ∈ files', IsPlainName file.1)
    (hapart : ∀ file ∈ files, ∀ file' ∈ files', Apart file.1 file'.1) :
    Commute folder (saveAll folder files) (saveAll folder files') := by
  refine commute_saveAll hfolder hfiles fun file hfile => ?_
  refine (commute_saveAll hfolder hfiles' fun file' hfile' => ?_).symm
  exact (save_comm hfolder (hfiles file hfile) (hfiles' file' hfile')
    (hapart file hfile file' hfile') file.2 file'.2).symm

theorem holds_saveAll (hfolder : folder.EndsPlain) {files : List (String × String)}
    (hname : IsPlainName name) (hfiles : ∀ file ∈ files, IsPlainName file.1 ∧ Apart file.1 name)
    (htidy : disk.IsTidy folder) :
    (saveAll folder files disk).1.holds (folder / name) = disk.holds (folder / name) := by
  induction files generalizing disk with
  | nil => rfl
  | cons file files ih =>
      obtain ⟨hplain, hapart⟩ := hfiles file List.mem_cons_self
      refine (ih (fun file hfile => hfiles file (List.mem_cons_of_mem _ hfile))
        (htidy.save hfolder hplain file.2)).trans ?_
      exact holds_save hfolder htidy hplain hname hapart file.2

theorem writeAll_eq_saveAll (folder : Path) (files : List (String × String)) (disk : Disk) :
    ((disk.writeAll (files.map fun file => (folder / file.1, file.2))).1,
      (disk.writeAll (files.map fun file => (folder / file.1, file.2))).2.isOk) =
      saveAll folder files disk := by
  induction files generalizing disk with
  | nil => rfl
  | cons file files ih =>
      rw [List.map_cons, saveAll, andThen, ← ih, writeAll, save]
      dsimp only
      cases (disk.writeChanged (folder / file.1) file.2) with
      | mk next first =>
          dsimp only
          cases next.writeAll (files.map fun file => (folder / file.1, file.2)) with
          | mk last others =>
              cases first with
              | error failure => rfl
              | ok written => cases others <;> rfl

/-- The disk after some changes, the first of which comes last. -/
def applyAll {α : Type} (changes : α → Disk → Disk × Bool) (items : List α) (disk : Disk) : Disk :=
  items.foldr (fun item disk => (changes item disk).1) disk

variable {α : Type} {changes : α → Disk → Disk × Bool} {items items' : List α}

theorem IsTidy.applyAll (htidy : disk.IsTidy folder) (hkeeps : ∀ item, Keeps folder (changes item))
    (items : List α) : (applyAll changes items disk).IsTidy folder := by
  induction items with
  | nil => exact htidy
  | cons item items ih => exact hkeeps item _ ih

/-- Changes that commute lead to one disk in any order. -/
theorem applyAll_perm (htidy : disk.IsTidy folder) (hkeeps : ∀ item, Keeps folder (changes item))
    (hperm : items.Perm items')
    (hcomm : ∀ item ∈ items, ∀ item' ∈ items, item ≠ item' →
      Commute folder (changes item) (changes item')) :
    applyAll changes items disk = applyAll changes items' disk := by
  induction hperm with
  | nil => rfl
  | cons item hperm ih =>
      refine congrArg (fun disk => (changes item disk).1) (ih fun first hfirst second hsecond => ?_)
      exact hcomm first (List.mem_cons_of_mem _ hfirst) second (List.mem_cons_of_mem _ hsecond)
  | swap first second items =>
      by_cases heq : first = second
      · rw [heq]
      · have hboth := hcomm first (by simp) second (by simp) heq
        exact (hboth _ (htidy.applyAll hkeeps items)).same
  | trans hperm hperm' ih ih' =>
      refine (ih hcomm).trans (ih' fun first hfirst second hsecond => ?_)
      exact hcomm first (hperm.mem_iff.2 hfirst) second (hperm.mem_iff.2 hsecond)

/-- A change has the outcome that it has before all those that it commutes with. -/
theorem outcome_applyAll (htidy : disk.IsTidy folder) (hkeeps : ∀ item, Keeps folder (changes item))
    (hcomm : ∀ item ∈ items, Commute folder (changes item) change) :
    (change (applyAll changes items disk)).2 = (change disk).2 := by
  induction items with
  | nil => rfl
  | cons item items ih =>
      have hitem := hcomm item List.mem_cons_self _ (htidy.applyAll hkeeps items)
      exact hitem.right.trans (ih fun item hitem => hcomm item (List.mem_cons_of_mem _ hitem))

end Changes

end ComponentTags.Disk
