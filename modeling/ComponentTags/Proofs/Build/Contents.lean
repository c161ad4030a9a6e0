import ComponentTags.Proofs.Build.Outcomes
import ComponentTags.Proofs.Disk.Shelves

/-!
Contents. After a fresh build from an empty component directory in which all went well, the directory
holds the files of the components that came up, each with the text that its fate gives it.
-/

namespace ComponentTags

namespace Deed

variable {workshop : Workshop} {deed : Deed} {file : String × String}

theorem isLasting_of_mem_saves (hproper : workshop.naming.IsProper)
    (h : file ∈ deed.saves workshop) : Disk.IsLasting file.1 where
  isPlainName := hproper.isPlainName_of_mem_ownNames (fst_mem_ownNames h)
  ne_temporaryName := hproper.ne_temporaryName_of_mem_ownNames (fst_mem_ownNames h) _

theorem nodup_saves (hproper : workshop.naming.IsProper) (deed : Deed) :
    ((deed.saves workshop).map Prod.fst).Nodup := by
  have hne := (hproper.isModuleName deed.reference).ne_companionName
    (hproper.isCompanionName deed.reference)
  rw [saves]
  rcases deed.companions_eq workshop with h | ⟨text, h⟩
  · simp [h]
  · simp [h, hne]

end Deed

namespace Build

variable {call : Call} {directory : Path} {build next : Build} {reference other : Reference}
  {settled lost : List Reference} {name : String} {file : String × String}

/-! ### What the component directory holds -/

namespace Call

/-- The files that are written for a component. -/
noncomputable def saves (call : Call) (reference : Reference) : List (String × String) :=
  ((call.deed? reference).map (·.saves call.setting.workshop)).getD []

/-- The texts of the files that are written for some components. -/
noncomputable def textsOf (call : Call) (settled : List Reference) (name : String) :
    Option String :=
  settled.findSome? fun reference => (call.saves reference).lookup name

/-- A call to start with: the cache has no entries, and there is nothing in the component directory. -/
structure IsBlank (call : Call) : Prop where
  cache : call.cache.entries = ∅
  disk : ∀ name, call.disk.entry? (name :: call.disk.spotOf call.naming.directory) = none

theorem change_eq (call : Call) (reference : Reference) :
    call.change reference = Disk.saveAll call.naming.directory (call.saves reference) := by
  show Deed.change call.setting.workshop (call.deed? reference) = _
  rw [saves]
  cases call.deed? reference with
  | none => rfl
  | some deed => exact Deed.change_eq call.setting.workshop deed

theorem fst_mem_ownNames (h : file ∈ call.saves reference) :
    file.1 ∈ call.naming.ownNames reference := by
  rw [saves] at h
  cases hdeed : call.deed? reference with
  | none => simp [hdeed] at h
  | some deed =>
      rw [hdeed] at h
      rw [← deed?_reference hdeed]
      exact Deed.fst_mem_ownNames h

/-- A file that is there belongs to one of the components. -/
theorem exists_saves (call : Call) {text : String} (h : call.textsOf settled name = some text) :
    ∃ reference ∈ settled, (name, text) ∈ call.saves reference := by
  obtain ⟨reference, hmem, hlookup⟩ := List.exists_of_findSome?_eq_some h
  exact ⟨reference, hmem, Disk.mem_of_lookup hlookup⟩

theorem textsOf_cons (call : Call) (reference : Reference) (settled : List Reference)
    (texts : String → Option String) :
    (fun name => (call.textsOf (reference :: settled) name).or (texts name)) =
      Disk.shelve (call.saves reference) fun name => (call.textsOf settled name).or (texts name) := by
  funext name
  rw [textsOf, List.findSome?_cons, Disk.shelve]
  cases (call.saves reference).lookup name <;> rfl

end Call

namespace Call.IsOrderly

variable (h : call.IsOrderly directory)

include h

theorem isLasting (hfile : file ∈ call.saves reference) : Disk.IsLasting file.1 := by
  rw [saves] at hfile
  cases hdeed : call.deed? reference with
  | none => simp [hdeed] at hfile
  | some deed =>
      rw [hdeed] at hfile
      exact Deed.isLasting_of_mem_saves h.isProper hfile

theorem nodup_saves (reference : Reference) : ((call.saves reference).map Prod.fst).Nodup := by
  rw [saves]
  cases call.deed? reference with
  | none => exact List.nodup_nil
  | some deed => exact Deed.nodup_saves h.isProper deed

/-- The files of a component are not those of another one. -/
theorem lookup_eq_none (hmeets : call.Meets reference) (hother : call.Meets other)
    (hne : other ≠ reference) (hname : name ∈ call.naming.ownNames reference) :
    (call.saves other).lookup name = none := by
  refine Disk.lookup_eq_none fun hmem => ?_
  obtain ⟨file, hfile, rfl⟩ := List.mem_map.1 hmem
  have hidentifier := mt (h.distinct other reference hother hmeets) hne
  exact (h.isProper.apart hidentifier (Call.fst_mem_ownNames hfile) hname).names rfl

theorem textsOf_eq (hmeets : ∀ reference ∈ settled, call.Meets reference)
    (hmem : reference ∈ settled) (hname : name ∈ call.naming.ownNames reference) :
    call.textsOf settled name = (call.saves reference).lookup name := by
  have hothers : ∀ other ∈ settled, other ≠ reference → (call.saves other).lookup name = none :=
    fun other hother hne => h.lookup_eq_none (hmeets _ hmem) (hmeets other hother) hne hname
  rw [textsOf]
  cases htext : (call.saves reference).lookup name with
  | none =>
      refine List.findSome?_eq_none_iff.2 fun other hother => ?_
      by_cases heq : other = reference
      · rw [heq, htext]
      · exact hothers other hother heq
  | some text =>
      induction settled with
      | nil => cases hmem
      | cons first settled ih =>
          rw [List.findSome?_cons]
          by_cases heq : first = reference
          · rw [heq, htext]
          · rw [hothers first List.mem_cons_self heq]
            exact ih (fun other hother => hmeets other (List.mem_cons_of_mem _ hother))
              ((List.mem_cons.1 hmem).resolve_left (Ne.symm heq))
              fun other hother => hothers other (List.mem_cons_of_mem _ hother)

omit h in
/-- A file that belongs to none of the components is not there. -/
theorem textsOf_eq_none (hname : ∀ reference ∈ settled, name ∉ call.naming.ownNames reference) :
    call.textsOf settled name = none := by
  refine List.findSome?_eq_none_iff.2 fun reference hreference => Disk.lookup_eq_none fun hmem => ?_
  obtain ⟨file, hfile, rfl⟩ := List.mem_map.1 hmem
  exact hname reference hreference (Call.fst_mem_ownNames hfile)

end Call.IsOrderly

/-! ### A build that went well -/

/-- How an empty component directory is filled when all files can be written. -/
theorem Call.IsOrderly.shelf_diskAfter (horderly : call.IsOrderly directory) (hblank : call.IsBlank)
    (hnodup : settled.Nodup) (hmeets : ∀ reference ∈ settled, call.Meets reference)
    (hmanages : ∀ reference ∈ settled, call.manages reference = true) :
    (∀ reference ∈ settled, ∀ file ∈ call.saves reference,
        Disk.Takes call.naming.directory file.1 ∧
          (call.diskAfter settled).isDirectory call.naming.directory = true) ∧
      Disk.Shelf call.naming.directory (call.diskAfter settled) (call.textsOf settled) := by
  induction settled with
  | nil => exact ⟨nofun, horderly.tidy, fun name => hblank.disk name, fun _ => rfl⟩
  | cons reference settled ih =>
      obtain ⟨hnew, hnodup⟩ := List.nodup_cons.1 hnodup
      have hrest := fun other hother => hmeets other (List.mem_cons_of_mem reference hother)
      have hmeetsOwn := hmeets reference List.mem_cons_self
      obtain ⟨hfiles, hshelf⟩ := ih hnodup hrest fun other hother =>
        hmanages other (List.mem_cons_of_mem reference hother)
      have hok : (call.change reference (call.diskAfter settled)).2 = true :=
        (horderly.manages_after hmeetsOwn hrest hnew).trans (hmanages reference List.mem_cons_self)
      have hnext : call.diskAfter (reference :: settled) =
          (call.change reference (call.diskAfter settled)).1 := rfl
      have hnone : ∀ file ∈ call.saves reference, call.textsOf settled file.1 = none := by
        refine fun file hfile => Call.IsOrderly.textsOf_eq_none fun other hother hmem => ?_
        have hne : other ≠ reference := fun heq => hnew (heq ▸ hother)
        have hidentifier := mt (horderly.distinct other reference (hrest other hother) hmeetsOwn) hne
        exact (horderly.isProper.apart hidentifier hmem (Call.fst_mem_ownNames hfile)).names rfl
      have htexts : call.textsOf (reference :: settled) =
          Disk.shelve (call.saves reference) (call.textsOf settled) := by
        have hcons := call.textsOf_cons reference settled fun _ => none
        simpa only [Option.or_none] using hcons
      rw [hnext, htexts]
      rw [call.change_eq] at hok ⊢
      obtain ⟨htakes, hthere, hsaved⟩ := hshelf.saveAll_new horderly.endsPlain
        (fun file hfile => horderly.isLasting hfile) (horderly.nodup_saves reference) hnone hok
      refine ⟨fun other hother file hfile => ?_, hsaved⟩
      rcases List.mem_cons.1 hother with rfl | hother
      · exact ⟨htakes file hfile, hthere (List.ne_nil_of_mem hfile)⟩
      · obtain ⟨htakesFile, hbefore⟩ := hfiles other hother file hfile
        refine ⟨htakesFile, ?_⟩
        by_cases hsaves : call.saves reference = []
        · rw [hsaves]
          exact hbefore
        · exact hthere hsaves

/-- What a fresh build from an empty component directory leaves when all went well. -/
structure Stocked (call : Call) (build : Build) (settled : List Reference) : Prop where
  mem_settled : ∀ reference, reference ∈ settled ↔ call.Meets reference
  served : ∀ reference, call.Meets reference → ∃ payload,
    call.fate reference = .served payload ∧ answer? call.setting reference = some payload ∧
      build.cache.get? (call.naming.key reference) = some { success := true, deps := payload.deps }
  takes : ∀ reference, call.Meets reference → ∀ file ∈ call.saves reference,
    Disk.Takes call.naming.directory file.1
  isDirectory : ∀ reference, call.Meets reference →
    build.disk.isDirectory call.naming.directory = true
  shelf : Disk.Shelf call.naming.directory build.disk (call.textsOf settled)

theorem Call.IsBlank.known?_eq_none (h : call.IsBlank) (reference : Reference) :
    call.known? reference = none := by
  rw [Call.known?, Cache.get?, h.cache]
  simp

/-- The files of a component that was served. -/
theorem Call.deed?_of_served {payload : Payload} (h : call.fate reference = .served payload) :
    ∃ deed, call.deed? reference = some deed ∧ deed.reference = reference ∧
      deed.companions call.setting.workshop =
        call.setting.workshop.companionFiles (call.naming.identity reference) payload := by
  rw [deed?, h]
  dsimp only
  split
  · exact ⟨_, rfl, rfl, rfl⟩
  · exact ⟨_, rfl, rfl, rfl⟩

theorem writeErrors_tally (h : (call.tally settled).writeErrors = 0) (hmem : reference ∈ settled) :
    (call.dues reference).writeErrors = 0 := by
  induction settled with
  | nil => cases hmem
  | cons first settled ih =>
      have hsum : (call.dues first).writeErrors + (call.tally settled).writeErrors = 0 := h
      rcases List.mem_cons.1 hmem with rfl | hmem
      · omega
      · exact ih (by omega) hmem

/-- **After a build that went well** from an empty component directory, all that came up was served and
is in the directory. -/
theorem Outcome.stocked (h : Outcome call build settled lost) (horderly : call.IsOrderly directory)
    (hblank : call.IsBlank) {report : Report} (hreports : build.reports = [report])
    (hfailed : report.failed = 0) (hwrites : report.writeErrors = 0) :
    Stocked call build settled := by
  obtain ⟨cycles, hsum, -⟩ := h.reports
  rw [hreports, List.cons.injEq] at hsum
  obtain ⟨rfl, -⟩ := hsum
  have hserved : ∀ reference, call.Meets reference → ∃ payload,
      call.fate reference = .served payload ∧ answer? call.setting reference = some payload := by
    intro reference hmeets
    have hlost : lost = [] := by
      simpa [Report.add] using (Nat.add_eq_zero_iff.1 hfailed).2
    have hfate := mt (fun hfate => (h.mem_lost reference).2 ⟨hmeets, hfate⟩) (by simp [hlost])
    rw [Call.fate, hblank.known?_eq_none] at hfate ⊢
    cases hanswer : answer? call.setting reference with
    | none =>
        rw [hanswer] at hfate
        exact absurd rfl hfate
    | some payload => exact ⟨payload, rfl, rfl⟩
  have hmanages : ∀ reference ∈ settled, call.manages reference = true := by
    intro reference hmem
    obtain ⟨payload, hfate, -⟩ := hserved reference ((h.mem_settled reference).1 hmem)
    have hdues := writeErrors_tally hwrites hmem
    rw [Call.dues, hfate] at hdues
    by_contra hmanages
    simp [written, hmanages, Report.zero] at hdues
  obtain ⟨hfiles, hshelf⟩ := horderly.shelf_diskAfter hblank h.once
    (fun reference hmem => (h.mem_settled reference).1 hmem) hmanages
  rw [← h.disk] at hfiles hshelf
  refine ⟨h.mem_settled, fun reference hmeets => ?_, fun reference hmeets file hfile => ?_,
    fun reference hmeets => ?_, hshelf⟩
  · obtain ⟨payload, hfate, hanswer⟩ := hserved reference hmeets
    refine ⟨payload, hfate, hanswer, ?_⟩
    rw [h.recorded reference hmeets, Call.entry, hfate]
    simp [hmanages reference ((h.mem_settled reference).2 hmeets)]
  · exact (hfiles reference ((h.mem_settled reference).2 hmeets) file hfile).1
  · obtain ⟨payload, hfate, -⟩ := hserved reference hmeets
    obtain ⟨deed, hdeed, -, -⟩ := Call.deed?_of_served hfate
    refine (hfiles reference ((h.mem_settled reference).2 hmeets)
      (call.naming.moduleName deed.reference, deed.text call.setting.workshop) ?_).2
    rw [Call.saves, hdeed]
    exact List.mem_cons_self

end Build

end ComponentTags
