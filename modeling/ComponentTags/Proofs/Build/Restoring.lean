import ComponentTags.Proofs.Build.Contents
import ComponentTags.Proofs.Build.History

/-!
Restoring. When files of the component directory are deleted, the next build writes anew what is missing
of the components whose module was deleted. It does not look for companions.
-/

namespace ComponentTags

namespace Disk

variable {disk : Disk} {folder : Path} {name : String} {names : List String}
  {texts : String → Option String}

/-- Deletes some files of a folder. -/
def deleteAll (folder : Path) (names : List String) (disk : Disk) : Disk :=
  names.foldl (fun disk name => disk.deleteFile (folder / name)) disk

namespace Shelf

section Deletion

variable (h : Shelf folder disk texts) (hfolder : folder.EndsPlain)
  (hthere : disk.isDirectory folder = true)

include h hfolder hthere

theorem deleteFile_eq (hname : IsPlainName name) (hfault : nameFault? folder name = none) :
    disk.deleteFile (folder / name) =
      if (texts name).isSome then disk.erase (name :: disk.spotOf folder) else disk := by
  have hlocated := locate_join hfolder hname hthere
  rw [hfault] at hlocated
  dsimp only at hlocated
  have hentry := h.entry name
  unfold Disk.deleteFile
  rw [hlocated]
  dsimp only
  rw [hentry]
  cases texts name <;> rfl

theorem deleteFile (hname : IsPlainName name) (hfault : nameFault? folder name = none) :
    (disk.deleteFile (folder / name)).isDirectory folder = true ∧
      SameAround folder disk (disk.deleteFile (folder / name)) ∧
      Shelf folder (disk.deleteFile (folder / name))
        (fun other => if other = name then none else texts other) := by
  rw [h.deleteFile_eq hfolder hthere hname hfault]
  split
  · have hne := h.entry_ne_directory name
    have hkeeps : disk.KeepsDirectories (disk.erase (name :: disk.spotOf folder)) := by
      refine ⟨rfl, fun spot hspot => ?_⟩
      rw [entry_erase, if_neg]
      · exact hspot
      · rintro ⟨rfl, -⟩
        exact hne hspot
    have hthere' := isDirectory_mono hkeeps hthere
    refine ⟨hthere', ⟨rfl, fun spot hspot => ?_⟩, ⟨⟨fun step rest hsome => ?_, .inr hthere'⟩,
      fun other => ?_, fun other => ?_⟩⟩
    · simp [erase, Std.ExtTreeMap.getElem?_erase, Ne.symm (hspot name)]
    · rw [entry_erase] at hsome
      split at hsome
      · cases hsome
      · exact hkeeps.entry _ (h.isTidy.isTree step rest hsome)
    · rw [entry_erase, show (disk.erase (name :: disk.spotOf folder)).spotOf folder =
        disk.spotOf folder from spotOf_congr rfl folder]
      by_cases hother : other = name
      · simp [hother]
      · simp [hother, h.entry other]
    · rw [h.clean other, ite_self]
  · next hnone =>
      have htexts : (fun other => if other = name then none else texts other) = texts := by
        funext other
        split
        · next heq => rw [heq, Option.not_isSome_iff_eq_none.1 hnone]
        · rfl
      rw [htexts]
      exact ⟨hthere, .refl folder disk, h⟩

theorem deleteAll (hnames : ∀ name ∈ names, IsPlainName name ∧ nameFault? folder name = none) :
    (disk.deleteAll folder names).isDirectory folder = true ∧
      SameAround folder disk (disk.deleteAll folder names) ∧
      Shelf folder (disk.deleteAll folder names)
        (fun other => if other ∈ names then none else texts other) := by
  induction names generalizing disk texts with
  | nil => exact ⟨hthere, .refl folder disk, by simpa [Disk.deleteAll] using h⟩
  | cons name names ih =>
      obtain ⟨hname, hfault⟩ := hnames name List.mem_cons_self
      obtain ⟨hthere, haround, hfirst⟩ := h.deleteFile hfolder hthere hname hfault
      obtain ⟨hthere, haroundAll, hall⟩ := ih hfirst hthere fun other hother =>
        hnames other (List.mem_cons_of_mem _ hother)
      refine ⟨hthere, haround.trans haroundAll, ?_⟩
      have htexts : (fun other => if other ∈ name :: names then none else texts other) =
          fun other => if other ∈ names then none else if other = name then none
            else texts other := by
        funext other
        by_cases hmem : other ∈ names <;> simp [hmem]
      rw [htexts]
      exact hall

end Deletion

end Shelf

end Disk

namespace Build

variable {call later : Call} {directory : Path} {build next : Build}
  {reference first second : Reference} {settled lost : List Reference} {names : List String} {name text : String} {payload : Payload}

/-! ### Calls that need the same -/

/-- A later call asks for the same components, in the same setting, and they need the same. -/
structure Alike (call later : Call) : Prop where
  setting : later.setting = call.setting
  references : later.references = call.references
  deps : ∀ reference, call.Meets reference → later.deps reference = call.deps reference

namespace Alike

variable (h : Alike call later)

include h

theorem naming : later.naming = call.naming := by
  rw [Call.naming, h.setting, Call.naming]

theorem needs_iff (hmeets : call.Meets first) : later.Needs first second ↔ call.Needs first second := by
  rw [Call.Needs, Call.Needs, h.deps first hmeets]

theorem reaches_iff (hmeets : call.Meets first) :
    Relation.ReflTransGen later.Needs first second ↔
      Relation.ReflTransGen call.Needs first second := by
  obtain ⟨root, hroot, hfirst⟩ := hmeets
  constructor
  · intro hreach
    induction hreach with
    | refl => exact .refl
    | tail _ hneeds ih => exact ih.tail ((h.needs_iff ⟨root, hroot, hfirst.trans ih⟩).1 hneeds)
  · intro hreach
    induction hreach with
    | refl => exact .refl
    | tail hreach hneeds ih =>
        exact ih.tail ((h.needs_iff ⟨root, hroot, hfirst.trans hreach⟩).2 hneeds)

theorem meets_iff : later.Meets reference ↔ call.Meets reference := by
  rw [Call.Meets, Call.Meets, h.references]
  constructor
  · rintro ⟨root, hroot, hreach⟩
    exact ⟨root, hroot, (h.reaches_iff ⟨root, hroot, .refl⟩).1 hreach⟩
  · rintro ⟨root, hroot, hreach⟩
    exact ⟨root, hroot, (h.reaches_iff ⟨root, hroot, .refl⟩).2 hreach⟩

theorem isOrderly (horderly : call.IsOrderly directory)
    (htidy : later.disk.IsTidy call.naming.directory) : later.IsOrderly directory where
  buildsIn := by
    rw [h.setting]
    exact horderly.buildsIn
  isTidy := by
    rw [← horderly.directory_eq]
    exact htidy
  distinct first second hfirst hsecond := by
    rw [h.naming]
    exact horderly.distinct first second (h.meets_iff.1 hfirst) (h.meets_iff.1 hsecond)
  apart root hroot other hother hreach := by
    rw [h.references] at hroot hother
    have hmeets : call.Meets root := ⟨root, hroot, .refl⟩
    obtain ⟨middle, hmiddle, hneeds⟩ := Relation.TransGen.tail'_iff.1 hreach
    have hmiddle := (h.reaches_iff hmeets).1 hmiddle
    exact horderly.apart root hroot other hother
      (.tail' hmiddle ((h.needs_iff ⟨root, hroot, hmiddle⟩).1 hneeds))

theorem needsAt_eq (horderly : call.IsOrderly directory) (hlater : later.IsOrderly directory) :
    later.needsAt = call.needsAt := by
  funext key
  by_cases hmet : ∃ reference, call.Meets reference ∧ call.naming.key reference = key
  · obtain ⟨reference, hmeets, rfl⟩ := hmet
    have hkey := hlater.needsAt_key (h.meets_iff.2 hmeets)
    rw [h.naming, h.deps reference hmeets] at hkey
    rw [hkey, horderly.needsAt_key hmeets]
  · have hmet' : ¬∃ reference, later.Meets reference ∧ later.naming.key reference = key := by
      rintro ⟨reference, hmeets, hkey⟩
      exact hmet ⟨reference, h.meets_iff.1 hmeets, h.naming ▸ hkey⟩
    rw [Call.needsAt, Call.needsAt, dif_neg hmet, dif_neg hmet']

theorem closure_eq (horderly : call.IsOrderly directory) (hlater : later.IsOrderly directory)
    (hmeets : call.Meets reference) : later.closure reference = call.closure reference := by
  refine Call.closure_congr fun order => ?_
  rw [h.needsAt_eq horderly hlater, h.naming, h.deps reference hmeets]

/-- A component that is served again has the same module. -/
theorem deed?_eq (horderly : call.IsOrderly directory) (hlater : later.IsOrderly directory)
    (hmeets : call.Meets reference) (hserved : call.fate reference = .served payload)
    (hserved' : later.fate reference = .served payload) :
    later.deed? reference = call.deed? reference := by
  rw [Call.deed?, Call.deed?, hserved, hserved', h.closure_eq horderly hlater hmeets, h.references,
    h.setting]

end Alike

/-! ### The next build -/

/-- The call that is made once more when files of the component directory were deleted. -/
def Call.again (call : Call) (build : Build) (names : List String) : Call :=
  { call with cache := build.cache, disk := build.disk.deleteAll call.naming.directory names }

/-- Files of the component directory are named. -/
def NamesFiles (call : Call) (disk : Disk) (names : List String) : Prop :=
  ∀ name ∈ names, ∃ content,
    disk.entry? (name :: disk.spotOf call.naming.directory) = some (.file content)

namespace Stocked

variable (h : Stocked call build settled) (horderly : call.IsOrderly directory)

include h

theorem served_eq (hmeets : call.Meets reference)
    (hanswer : answer? call.setting reference = some payload) :
    call.fate reference = .served payload ∧
      build.cache.get? (call.naming.key reference) =
        some { success := true, deps := payload.deps } := by
  obtain ⟨payload', hfate, hanswer', hentry⟩ := h.served reference hmeets
  rw [hanswer] at hanswer'
  obtain rfl := Option.some.inj hanswer'
  exact ⟨hfate, hentry⟩

include horderly

theorem textsOf_eq (hmeets : call.Meets reference)
    (hname : name ∈ call.naming.ownNames reference) :
    call.textsOf settled name = (call.saves reference).lookup name :=
  horderly.textsOf_eq (fun other hother => (h.mem_settled other).1 hother)
    ((h.mem_settled reference).2 hmeets) hname

/-- The module and the companion that a component was given. -/
theorem lookup_saves (hmeets : call.Meets reference)
    (hanswer : answer? call.setting reference = some payload) :
    ((call.saves reference).lookup (call.naming.moduleName reference)).isSome ∧
      (((call.saves reference).lookup (call.naming.companionName reference)).isSome ↔
        payload.kind = .compiled) := by
  obtain ⟨deed, hdeed, hreference, hcompanions⟩ :=
    Call.deed?_of_served (h.served_eq hmeets hanswer).1
  have hne : (call.naming.companionName reference == call.naming.moduleName reference) = false :=
    beq_false_of_ne ((horderly.isProper.isModuleName reference).ne_companionName
      (horderly.isProper.isCompanionName reference)).symm
  have hsaves : call.saves reference =
      (call.naming.moduleName reference, deed.text call.setting.workshop) ::
      (call.setting.workshop.companionFiles (call.naming.identity reference) payload).map
        fun file => (call.naming.companionName reference, file.content) := by
    rw [Call.saves, hdeed, ← hcompanions]
    show deed.saves call.setting.workshop = _
    rw [Deed.saves, hreference]
    rfl
  rw [hsaves]
  refine ⟨by simp, ?_⟩
  rw [List.lookup_cons, hne]
  unfold Workshop.companionFiles
  cases payload.kind <;> simp

theorem emptied (hnames : NamesFiles call build.disk names) :
    Disk.SameAround call.naming.directory build.disk (call.again build names).disk ∧
      Disk.Shelf call.naming.directory (call.again build names).disk
        (fun other => if other ∈ names then none else call.textsOf settled other) ∧
      ∀ reference, call.Meets reference →
        (call.again build names).disk.isDirectory call.naming.directory = true := by
  have hfiles : ∀ name ∈ names, ∃ reference, call.Meets reference ∧
      ∃ text, (name, text) ∈ call.saves reference := by
    intro name hname
    obtain ⟨content, hcontent⟩ := hnames name hname
    rw [h.shelf.entry name] at hcontent
    obtain ⟨text, htext, -⟩ := Option.map_eq_some_iff.1 hcontent
    obtain ⟨reference, hmem, hfile⟩ := call.exists_saves htext
    exact ⟨reference, (h.mem_settled reference).1 hmem, text, hfile⟩
  by_cases hany : ∃ reference, call.Meets reference
  · obtain ⟨reference, hmeets⟩ := hany
    have htakes : ∀ name ∈ names, IsPlainName name ∧
        Disk.nameFault? call.naming.directory name = none := by
      intro name hname
      obtain ⟨owner, howner, text, hfile⟩ := hfiles name hname
      exact ⟨(horderly.isLasting hfile).isPlainName, (h.takes owner howner _ hfile).1⟩
    obtain ⟨hthere, haround, hshelf⟩ := h.shelf.deleteAll horderly.endsPlain
      (h.isDirectory reference hmeets) htakes
    exact ⟨haround, hshelf, fun _ _ => hthere⟩
  · obtain rfl : names = [] := List.eq_nil_iff_forall_not_mem.2 fun name hname =>
      let ⟨reference, hmeets, _⟩ := hfiles name hname
      hany ⟨reference, hmeets⟩
    have hshelf : Disk.Shelf call.naming.directory build.disk
        (fun other => if other ∈ [] then none else call.textsOf settled other) := by
      simpa using h.shelf
    exact ⟨.refl _ _, hshelf, fun reference hmeets => absurd ⟨reference, hmeets⟩ hany⟩

/-- The files of a component whose code is compiled are in the directory. -/
theorem namesFiles (hmeets : call.Meets reference)
    (hanswer : answer? call.setting reference = some payload) (hkind : payload.kind = .compiled)
    (hsub : names ⊆ call.naming.ownNames reference) : NamesFiles call build.disk names := by
  intro name hname
  have hown := hsub hname
  obtain ⟨hmodule, hcompanion⟩ := h.lookup_saves horderly hmeets hanswer
  have hsome : ((call.saves reference).lookup name).isSome := by
    simp only [Naming.ownNames, List.mem_cons, List.not_mem_nil, or_false] at hown
    rcases hown with rfl | rfl
    · exact hmodule
    · exact hcompanion.2 hkind
  obtain ⟨text, htext⟩ := Option.isSome_iff_exists.1 hsome
  rw [h.shelf.entry, h.textsOf_eq horderly hmeets hown, htext]
  exact ⟨_, rfl⟩

variable (hnames : NamesFiles call build.disk names)

include hnames

theorem fate_again (hmeets : call.Meets reference)
    (hanswer : answer? call.setting reference = some payload) :
    (call.again build names).fate reference =
      if call.naming.moduleName reference ∈ names then .served payload else .found payload.deps := by
  obtain ⟨hfate, hentry⟩ := h.served_eq hmeets hanswer
  obtain ⟨-, hshelf, hthere⟩ := h.emptied horderly hnames
  have hmodule : call.naming.moduleName reference ∈ call.naming.ownNames reference :=
    List.mem_cons_self
  obtain ⟨hsome, -⟩ := h.lookup_saves horderly hmeets hanswer
  obtain ⟨text, htext⟩ := Option.isSome_iff_exists.1 hsome
  have hfile : (call.naming.moduleName reference, text) ∈ call.saves reference :=
    Disk.mem_of_lookup htext
  have hholds : (call.again build names).disk.holds (call.naming.identity reference).path =
      !decide (call.naming.moduleName reference ∈ names) := by
    rw [show (call.naming.identity reference).path =
      call.naming.directory / call.naming.moduleName reference from rfl,
      hshelf.holds_eq horderly.endsPlain (hthere reference hmeets)
        (horderly.isLasting hfile).isPlainName (h.takes reference hmeets _ hfile).1,
      h.textsOf_eq horderly hmeets hmodule, htext]
    by_cases hgone : call.naming.moduleName reference ∈ names <;> simp [hgone]
  have hknown : (call.again build names).known? reference =
      if call.naming.moduleName reference ∈ names then none else some payload.deps := by
    have hcached : (call.again build names).cache.get?
        ((call.again build names).naming.key reference) = _ := hentry
    have hheld : (call.again build names).disk.holds
        ((call.again build names).naming.identity reference).path = _ := hholds
    rw [Call.known?, hcached]
    dsimp only
    rw [hheld]
    by_cases hgone : call.naming.moduleName reference ∈ names <;> simp [hgone]
  rw [Call.fate, hknown]
  by_cases hgone : call.naming.moduleName reference ∈ names
  · rw [if_pos hgone, if_pos hgone, show answer? (call.again build names).setting reference =
      some payload from hanswer]
  · rw [if_neg hgone, if_neg hgone]

theorem alike : Alike call (call.again build names) where
  setting := rfl
  references := rfl
  deps reference hmeets := by
    obtain ⟨payload, hfate, hanswer, -⟩ := h.served reference hmeets
    rw [Call.deps, Call.deps, h.fate_again horderly hnames hmeets hanswer, hfate]
    split <;> rfl

theorem isOrderly_again : (call.again build names).IsOrderly directory :=
  (h.alike horderly hnames).isOrderly horderly (h.emptied horderly hnames).2.1.isTidy

/-- The files of a component are written anew exactly if its module was deleted. -/
theorem saves_again (hmeets : call.Meets reference) :
    (call.again build names).saves reference =
      if call.naming.moduleName reference ∈ names then call.saves reference else [] := by
  obtain ⟨payload, hfate, hanswer, -⟩ := h.served reference hmeets
  have hagain := h.fate_again horderly hnames hmeets hanswer
  by_cases hgone : call.naming.moduleName reference ∈ names
  · rw [if_pos hgone] at hagain ⊢
    rw [Call.saves, (h.alike horderly hnames).deed?_eq horderly (h.isOrderly_again horderly hnames)
      hmeets hfate hagain]
    rfl
  · rw [if_neg hgone] at hagain ⊢
    rw [Call.saves, Call.deed?_of_found hagain]
    rfl

theorem shelf_again {settled' : List Reference}
    (hmeets : ∀ reference ∈ settled', call.Meets reference) :
    Disk.SameAround call.naming.directory build.disk ((call.again build names).diskAfter settled') ∧
      Disk.Shelf call.naming.directory ((call.again build names).diskAfter settled')
        (fun name => ((call.again build names).textsOf settled' name).or
          (if name ∈ names then none else call.textsOf settled name)) ∧
      ∀ reference, call.Meets reference →
        ((call.again build names).diskAfter settled').isDirectory call.naming.directory = true := by
  have hagain := h.isOrderly_again horderly hnames
  induction settled' with
  | nil => exact h.emptied horderly hnames
  | cons reference settled' ih =>
      have hown := hmeets reference List.mem_cons_self
      obtain ⟨haround, hshelf, hthere⟩ := ih fun other hother =>
        hmeets other (List.mem_cons_of_mem _ hother)
      have htakes : ∀ file ∈ (call.again build names).saves reference,
          Disk.Takes call.naming.directory file.1 := by
        intro file hfile
        rw [h.saves_again horderly hnames hown] at hfile
        split at hfile
        · exact h.takes reference hown file hfile
        · cases hfile
      have hnext : (call.again build names).diskAfter (reference :: settled') =
          (((call.again build names).diskAfter settled').saveAll call.naming.directory
            ((call.again build names).saves reference)).1 := by
        rw [← show (call.again build names).naming.directory = call.naming.directory from rfl,
          ← Call.change_eq]
        rfl
      obtain ⟨-, hthere', haround', hshelf'⟩ := hshelf.saveAll_again horderly.endsPlain
        (hthere reference hown) (fun file hfile => hagain.isLasting hfile)
        (hagain.nodup_saves reference) htakes
      rw [hnext, Call.textsOf_cons]
      exact ⟨haround.trans haround', hshelf', fun _ _ => hthere'⟩

/-- The text of a file that belongs to a component, when what was deleted is settled again. -/
theorem texts_again {settled' lost' : List Reference}
    (h' : Outcome (call.again build names) next settled' lost') (hmeets : call.Meets reference)
    (hname : name ∈ call.naming.ownNames reference) :
    ((call.again build names).textsOf settled' name).or
        (if name ∈ names then none else call.textsOf settled name) =
      if name ∈ names ∧ call.naming.moduleName reference ∉ names then none
      else (call.saves reference).lookup name := by
  have hagain := h.isOrderly_again horderly hnames
  have hown : name ∈ (call.again build names).naming.ownNames reference := hname
  rw [h.textsOf_eq horderly hmeets hname,
    hagain.textsOf_eq (fun other hother => (h'.mem_settled other).1 hother)
      ((h'.mem_settled reference).2 ((h.alike horderly hnames).meets_iff.2 hmeets)) hown,
    h.saves_again horderly hnames hmeets]
  by_cases hmodule : call.naming.moduleName reference ∈ names
  · rw [if_pos hmodule]
    cases (call.saves reference).lookup name <;>
      simp only [Option.none_or, Option.some_or, ite_self, hmodule, not_true_eq_false, and_false,
        if_false]
  · simp [hmodule]

/-- What the component directory holds when what was deleted is settled again. -/
theorem shelf_of_outcome {settled' lost' : List Reference}
    (h' : Outcome (call.again build names) next settled' lost') :
    Disk.SameAround call.naming.directory build.disk next.disk ∧
      Disk.Shelf call.naming.directory next.disk
        (fun name => ((call.again build names).textsOf settled' name).or
          (if name ∈ names then none else call.textsOf settled name)) := by
  obtain ⟨haround, hshelf, -⟩ := h.shelf_again horderly hnames fun reference hmem =>
    (h.alike horderly hnames).meets_iff.1 ((h'.mem_settled reference).1 hmem)
  rw [h'.disk]
  exact ⟨haround, hshelf⟩

/-- A companion stays away if its module was kept. -/
theorem disk_ne {settled' lost' : List Reference}
    (h' : Outcome (call.again build names) next settled' lost') (hmeets : call.Meets reference)
    (hanswer : answer? call.setting reference = some payload) (hkind : payload.kind = .compiled)
    (hgone : call.naming.companionName reference ∈ names)
    (hkept : call.naming.moduleName reference ∉ names) : next.disk ≠ build.disk := by
  intro hsame
  have hcompanion : call.naming.companionName reference ∈ call.naming.ownNames reference := by
    simp [Naming.ownNames]
  obtain ⟨text, htext⟩ :=
    Option.isSome_iff_exists.1 ((h.lookup_saves horderly hmeets hanswer).2.2 hkind)
  have hentry := (h.shelf_of_outcome horderly hnames h').2.entry (call.naming.companionName reference)
  rw [h.texts_again horderly hnames h' hmeets hcompanion, if_pos ⟨hgone, hkept⟩, hsame,
    h.shelf.entry, h.textsOf_eq horderly hmeets hcompanion, htext] at hentry
  cases hentry

omit horderly hnames in
/-- The next build can be gone on with until it is over, since nothing else may come up. -/
theorem exists_finished_again (hslots : 0 < call.setting.slots) (names : List String)
    (hsteps : Relation.ReflTransGen (StepsTo call.setting) (call.again build names).opening next) :
    ∃ last, Relation.ReflTransGen (StepsTo call.setting) next last ∧ last.isFinished = true := by
  refine (call.again build names).exists_finished hslots (fun root hroot => ?_) hsteps
  refine Set.Finite.subset (List.finite_toSet settled) fun reference hreach => ?_
  refine (h.mem_settled reference).2 ?_
  induction hreach with
  | refl => exact ⟨root, hroot, .refl⟩
  | tail _ hneeds ih =>
      obtain ⟨deps, htold, dep, hdep, rfl⟩ := hneeds
      obtain ⟨payload, hfate, hanswer, hentry⟩ := h.served _ ih
      refine ih.child ?_
      rw [Call.deps, hfate]
      rcases htold with hcached | ⟨payload', hserves, rfl⟩
      · cases hcached.symm.trans hentry
        exact hdep
      · cases (answer?_of_serves hserves).symm.trans hanswer
        exact hdep

end Stocked

/-- **Deleted files are restored** by the next build exactly if the companions among them were deleted
with their modules. -/
theorem restores_iff (horderly : call.IsOrderly directory) (hblank : call.IsBlank)
    (hsteps : Relation.ReflTransGen (StepsTo call.setting) call.opening build)
    (hover : build.isFinished = true) {report : Report} (hreports : build.reports = [report])
    (hfailed : report.failed = 0) (hwrites : report.writeErrors = 0)
    (hnames : NamesFiles call build.disk names)
    (hagain : Relation.ReflTransGen (StepsTo call.setting) (call.again build names).opening next)
    (hover' : next.isFinished = true) :
    next.disk = build.disk ↔ ∀ reference payload, call.Meets reference →
      answer? call.setting reference = some payload → payload.kind = .compiled →
        call.naming.companionName reference ∈ names → call.naming.moduleName reference ∈ names := by
  obtain ⟨settled, lost, houtcome⟩ := exists_outcome horderly hsteps hover
  have h := houtcome.stocked horderly hblank hreports hfailed hwrites
  obtain ⟨settled', lost', h'⟩ := exists_outcome (h.isOrderly_again horderly hnames) hagain hover'
  constructor
  · intro hsame reference payload hmeets hanswer hkind hgone
    by_contra hkept
    exact h.disk_ne horderly hnames h' hmeets hanswer hkind hgone hkept hsame
  · intro hrule
    obtain ⟨haround, hshelf⟩ := h.shelf_of_outcome horderly hnames h'
    have htexts : (fun name => ((call.again build names).textsOf settled' name).or
        (if name ∈ names then none else call.textsOf settled name)) = call.textsOf settled := by
      funext name
      by_cases hany : ∃ reference, call.Meets reference ∧ name ∈ call.naming.ownNames reference
      · obtain ⟨reference, hmeets, hname⟩ := hany
        obtain ⟨payload, -, hanswer, -⟩ := h.served reference hmeets
        rw [h.texts_again horderly hnames h' hmeets hname, h.textsOf_eq horderly hmeets hname]
        split
        · next hgone =>
            have hcompanion : name = call.naming.companionName reference := by
              simp only [Naming.ownNames, List.mem_cons, List.not_mem_nil, or_false] at hname
              exact hname.resolve_left fun heq => hgone.2 (heq ▸ hgone.1)
            subst hcompanion
            refine (Option.eq_none_iff_forall_ne_some.2 fun text hsome => hgone.2 ?_).symm
            have hkind := (h.lookup_saves horderly hmeets hanswer).2.1 (by simp [hsome])
            exact hrule reference payload hmeets hanswer hkind hgone.1
        · rfl
      · have hnone : ∀ reference, call.Meets reference →
            name ∉ call.naming.ownNames reference :=
          fun reference hmeets hname => hany ⟨reference, hmeets, hname⟩
        have hbefore : call.textsOf settled name = none :=
          Call.IsOrderly.textsOf_eq_none fun reference hmem =>
            hnone reference ((h.mem_settled reference).1 hmem)
        have hafter : (call.again build names).textsOf settled' name = none :=
          Call.IsOrderly.textsOf_eq_none fun reference hmem =>
            hnone reference ((h.alike horderly hnames).meets_iff.1 ((h'.mem_settled reference).1 hmem))
        rw [hbefore, hafter, ite_self]
        rfl
    rw [htexts] at hshelf
    exact (haround.eq h.shelf hshelf).symm

/-! ### A companion that is deleted alone -/

/-- The component `menu` is asked for, whose code is compiled. -/
def compiledCall : Call where
  setting :=
    { menuSetting with
      endpoint := fun _ => some (.ok ({ runtime := "module", deps := [] }, [])) }
  cache := .inMemory
  disk := .empty
  references := [⟨"ui", "menu", "1"⟩]

/-- The first build of `menu`. -/
def compiledBuild : Build :=
  compiledCall.after [0, 0, 0, 0, 0]

/-- The names of the files of `menu`. -/
def compiledNames : List String :=
  compiledCall.naming.ownNames ⟨"ui", "menu", "1"⟩

/-- The name of the companion of `menu`. -/
def compiledCompanion : String :=
  compiledCall.naming.companionName ⟨"ui", "menu", "1"⟩

set_option maxRecDepth 100000 in
theorem compiledCall_computed :
    compiledCall.ClosedBy [⟨"ui", "menu", "1"⟩] ∧
      compiledCall.deps ⟨"ui", "menu", "1"⟩ = [] ∧
      answer? compiledCall.setting ⟨"ui", "menu", "1"⟩ = some { runtime := "module", deps := [] } ∧
      (⟨"module", []⟩ : Payload).kind = .compiled ∧
      (strides? compiledCall.setting [] compiledCall.opening [0, 0, 0, 0, 0]).any (fun last =>
        last.isFinished = true ∧ last.reports = [{ Report.zero with fetched := 1 }]) = true := by
  decide +kernel

theorem reports_compiledBuild :
    compiledBuild.isFinished = true ∧
      compiledBuild.reports = [{ Report.zero with fetched := 1 }] := by
  obtain ⟨-, -, -, -, hstrides⟩ := compiledCall_computed
  have hready : IsReady compiledCall.setting [] .empty := isReady_menuSetting.congr rfl
  obtain ⟨last, disk, hlast, hafter⟩ := compiledCall.exists_after hready hstrides
  rw [compiledBuild, hafter]
  exact of_decide_eq_true hlast

theorem isOrderly_compiledCall : compiledCall.IsOrderly ⟨"/w"⟩ := by
  obtain ⟨hclosed, hdeps, -⟩ := compiledCall_computed
  refine hclosed.isOrderly ⟨.jsx, "r", "c", rfl⟩ ⟨Disk.isTree_empty, .inl (by decide)⟩ ?_ ?_
  · intro first hfirst second hsecond _
    rw [List.mem_singleton.1 hfirst, List.mem_singleton.1 hsecond]
  · intro reference hreference dep hdep
    rw [List.mem_singleton.1 hreference, hdeps] at hdep
    cases hdep

theorem isBlank_compiledCall : compiledCall.IsBlank where
  cache := rfl
  disk name := by simp [compiledCall, Disk.empty, Disk.entry?]

theorem meets_menu : compiledCall.Meets ⟨"ui", "menu", "1"⟩ :=
  ⟨_, List.mem_singleton_self _, .refl⟩

theorem stocked_compiledBuild : ∃ settled, Stocked compiledCall compiledBuild settled := by
  obtain ⟨hover, hreports⟩ := reports_compiledBuild
  obtain ⟨settled, lost, houtcome⟩ :=
    exists_outcome isOrderly_compiledCall (compiledCall.steps_after [0, 0, 0, 0, 0]) hover
  exact ⟨settled, houtcome.stocked isOrderly_compiledCall isBlank_compiledCall hreports rfl rfl⟩

theorem namesFiles_menu {names : List String} (hsub : names ⊆ compiledNames) :
    NamesFiles compiledCall compiledBuild.disk names := by
  obtain ⟨-, -, hanswer, hkind, -⟩ := compiledCall_computed
  obtain ⟨settled, h⟩ := stocked_compiledBuild
  exact h.namesFiles isOrderly_compiledCall meets_menu hanswer hkind hsub

theorem restores_menu :
    compiledCall.IsOrderly ⟨"/w"⟩ ∧ compiledCall.IsBlank ∧ compiledBuild.isFinished = true ∧
      compiledBuild.reports = [{ Report.zero with fetched := 1 }] ∧
      NamesFiles compiledCall compiledBuild.disk compiledNames ∧
      ∃ next, Relation.ReflTransGen (StepsTo compiledCall.setting)
          (compiledCall.again compiledBuild compiledNames).opening next ∧
        next.isFinished = true ∧ next.disk = compiledBuild.disk := by
  obtain ⟨hclosed, -⟩ := compiledCall_computed
  obtain ⟨hover, hreports⟩ := reports_compiledBuild
  have hnames : NamesFiles compiledCall compiledBuild.disk compiledNames :=
    namesFiles_menu (List.Subset.refl _)
  obtain ⟨settled, h⟩ := stocked_compiledBuild
  obtain ⟨next, hagain, hover'⟩ := h.exists_finished_again (by decide) compiledNames .refl
  have hrestores := restores_iff isOrderly_compiledCall isBlank_compiledCall
    (compiledCall.steps_after [0, 0, 0, 0, 0]) hover hreports rfl rfl hnames hagain hover'
  refine ⟨isOrderly_compiledCall, isBlank_compiledCall, hover, hreports, hnames, next, hagain, hover',
    hrestores.2 fun reference payload hmeets _ _ _ => ?_⟩
  rw [List.mem_singleton.1 (hclosed.mem hmeets)]
  exact List.mem_cons_self

/-- A companion that is deleted alone is not written again. -/
theorem companion_not_restored :
    compiledCall.IsOrderly ⟨"/w"⟩ ∧ compiledCall.IsBlank ∧ compiledBuild.isFinished = true ∧
      compiledBuild.reports = [{ Report.zero with fetched := 1 }] ∧
      NamesFiles compiledCall compiledBuild.disk [compiledCompanion] ∧
      ∃ next, Relation.ReflTransGen (StepsTo compiledCall.setting)
          (compiledCall.again compiledBuild [compiledCompanion]).opening next ∧
        next.isFinished = true ∧ next.disk ≠ compiledBuild.disk := by
  obtain ⟨-, -, hanswer, hkind, -⟩ := compiledCall_computed
  obtain ⟨hover, hreports⟩ := reports_compiledBuild
  have hnames : NamesFiles compiledCall compiledBuild.disk [compiledCompanion] :=
    namesFiles_menu (by simp [compiledNames, compiledCompanion, Naming.ownNames])
  obtain ⟨settled, h⟩ := stocked_compiledBuild
  obtain ⟨next, hagain, hover'⟩ := h.exists_finished_again (by decide) [compiledCompanion] .refl
  obtain ⟨settled', lost', h'⟩ := exists_outcome (h.isOrderly_again isOrderly_compiledCall hnames)
    hagain hover'
  have hkept : compiledCall.naming.moduleName ⟨"ui", "menu", "1"⟩ ∉ [compiledCompanion] := by
    rw [List.mem_singleton]
    exact (isOrderly_compiledCall.isProper.isModuleName _).ne_companionName
      (isOrderly_compiledCall.isProper.isCompanionName _)
  exact ⟨isOrderly_compiledCall, isBlank_compiledCall, hover, hreports, hnames, next, hagain, hover',
    h.disk_ne isOrderly_compiledCall hnames h' meets_menu hanswer hkind (List.mem_singleton_self _)
      hkept⟩

end Build

end ComponentTags
