import ComponentTags.Proofs.Build.Ledgers
import ComponentTags.Proofs.Build.Progress

/-!
Outcomes. When a fresh build is over, all that comes up is settled and what cannot be had was given
up, so its disk, its cache and its report are those of its ledger.
-/

namespace ComponentTags.Build

variable {call : Call} {directory : Path} {build build' : Build}
  {owner : ComponentKey → Option Nat} {settled lost settled' lost' : List Reference}
  {reference : Reference}

theorem passed_opening (call : Call) (past : Visit → Prop) :
    Passed call.opening (fun _ => none) past [] where
  once := .nil
  mem_iff reference := by simp

theorem ledger_opening (call : Call) : Ledger call call.opening (fun _ => none) [] [] where
  passed := passed_opening call _
  gaveUp := passed_opening call _
  disk := rfl
  document := rfl
  held _ _ _ hown := nomatch hown
  reports := ⟨0, rfl, fun _ => rfl⟩

theorem exists_ledger (horderly : call.IsOrderly directory)
    (hsteps : Relation.ReflTransGen (StepsTo call.setting) call.opening build) :
    ∃ owner settled lost, Fits call build owner ∧ Ledger call build owner settled lost := by
  induction hsteps with
  | refl => exact ⟨_, [], [], fits_opening call, ledger_opening call⟩
  | tail hsteps hstepsTo ih =>
      obtain ⟨owner, settled, lost, hfits, hledger⟩ := ih
      obtain ⟨index, hnext⟩ := hstepsTo
      obtain ⟨visit, children, stage, hstep⟩ := exists_advances hnext
      obtain ⟨owner', hguarded, howner⟩ := hfits.guarded.advance hstep
      have hsees := hledger.seesModule hfits horderly hstep.found
      obtain ⟨settled', lost', hledger'⟩ := hledger.advance hfits horderly hnext hstep howner
      exact ⟨owner', settled', lost', hfits.advance hsees hnext hstep hguarded howner, hledger'⟩

/-- What a fresh build has come to when it is over. -/
structure Outcome (call : Call) (build : Build) (settled lost : List Reference) : Prop where
  once : settled.Nodup
  mem_settled : ∀ reference, reference ∈ settled ↔ call.Meets reference
  lostOnce : lost.Nodup
  mem_lost : ∀ reference, reference ∈ lost ↔
    call.Meets reference ∧ call.fate reference = .lost
  disk : build.disk = call.diskAfter settled
  document : build.cache.document = call.cache.document
  recorded : ∀ reference, call.Meets reference →
    build.cache.get? (call.naming.key reference) = some (call.entry reference)
  untouched : ∀ key, (∀ reference, call.Meets reference → call.naming.key reference ≠ key) →
    build.cache.get? key = call.cache.get? key
  reports : ∃ cycles, build.reports =
      [(call.tally settled).add { Report.zero with failed := lost.length, cycles }] ∧
    (call.IsAcyclic → cycles = 0)

theorem Ledger.outcome (h : Ledger call build owner settled lost) (hfits : Fits call build owner)
    (horderly : call.IsOrderly directory) (hover : build.isFinished = true) :
    Outcome call build settled lost where
  once := h.passed.once
  mem_settled reference := by
    refine ⟨h.meets hfits reference, fun hmeets => ?_⟩
    obtain ⟨i, visit, hvisit, hown, hreference, hstage⟩ :=
      hfits.exists_done horderly hover hmeets
    exact (h.passed.mem_iff reference).2
      ⟨i, visit, hvisit, hown, hreference, by rw [hstage]; rfl⟩
  lostOnce := h.gaveUp.once
  mem_lost reference := by
    rw [h.gaveUp.mem_iff reference]
    constructor
    · rintro ⟨i, visit, hvisit, -, rfl, hfailing | ⟨-, hlost⟩⟩
      · have hdone : visit.stage = .done := by
          simpa using List.all_eq_true.1 hover visit (List.mem_of_getElem? hvisit)
        rw [hdone] at hfailing
        cases hfailing
      · exact ⟨(hfits.comes i visit hvisit).met, hlost⟩
    · rintro ⟨hmeets, hlost⟩
      obtain ⟨i, visit, hvisit, hown, rfl, hstage⟩ := hfits.exists_done horderly hover hmeets
      exact ⟨i, visit, hvisit, hown, rfl, .inr ⟨hstage, hlost⟩⟩
  disk := h.disk
  document := h.document
  recorded reference hmeets := by
    obtain ⟨i, visit, hvisit, hown, rfl, hstage⟩ := hfits.exists_done horderly hover hmeets
    rw [show call.naming.key visit.component.reference = visit.component.key from
      (hfits.faithful i visit hvisit).key, h.held i visit hvisit hown, hstage]
    rfl
  untouched key hkey := by
    refine hfits.unmet key (Option.eq_none_iff_forall_not_mem.2 fun i hi => ?_)
    obtain ⟨visit, hvisit, rfl, -⟩ := hfits.guarded.owned key i hi
    exact hkey _ (hfits.comes i visit hvisit).met (hfits.faithful i visit hvisit).key
  reports := h.reports

theorem exists_outcome (horderly : call.IsOrderly directory)
    (hsteps : Relation.ReflTransGen (StepsTo call.setting) call.opening build)
    (hover : build.isFinished = true) : ∃ settled lost, Outcome call build settled lost := by
  obtain ⟨owner, settled, lost, hfits, hledger⟩ := exists_ledger horderly hsteps
  exact ⟨settled, lost, hledger.outcome hfits horderly hover⟩

/-! ### What two outcomes have in common -/

theorem Call.tally_perm (call : Call) (hperm : settled.Perm settled') :
    call.tally settled = call.tally settled' := by
  refine hperm.foldr_eq' (fun first _ second _ report => ?_) Report.zero
  rw [← Report.add_assoc, ← Report.add_assoc, (call.dues first).add_comm]

/-- Settling a component is not counted as a cycle. -/
theorem Call.cycles_dues (call : Call) (reference : Reference) :
    (call.dues reference).cycles = 0 := by
  unfold dues written
  split
  · rfl
  · split <;> rfl
  · split <;> rfl

theorem Call.cycles_tally (call : Call) (settled : List Reference) :
    (call.tally settled).cycles = 0 := by
  induction settled with
  | nil => rfl
  | cons reference settled ih =>
      show (call.dues reference).cycles + (call.tally settled).cycles = 0
      rw [call.cycles_dues, ih]

namespace Outcome

theorem disk_eq (h : Outcome call build settled lost) (horderly : call.IsOrderly directory)
    (hperm : settled.Perm settled') : build.disk = call.diskAfter settled' := by
  rw [h.disk]
  refine Disk.applyAll_perm horderly.tidy horderly.keeps hperm ?_
  intro reference hreference other hother hne
  exact horderly.commute ((h.mem_settled reference).1 hreference)
    ((h.mem_settled other).1 hother) hne

section Two

variable (h : Outcome call build settled lost) (h' : Outcome call build' settled' lost')

include h h'

theorem perm : settled.Perm settled' := by
  rw [List.perm_ext_iff_of_nodup h.once h'.once]
  intro reference
  rw [h.mem_settled, h'.mem_settled]

theorem lost_perm : lost.Perm lost' := by
  rw [List.perm_ext_iff_of_nodup h.lostOnce h'.lostOnce]
  intro reference
  rw [h.mem_lost, h'.mem_lost]

theorem cache_eq : build.cache = build'.cache := by
  have hentries : build.cache.entries = build'.cache.entries := by
    refine Std.ExtTreeMap.ext_getElem? fun {key} => ?_
    show build.cache.get? key = build'.cache.get? key
    by_cases hmet : ∃ reference, call.Meets reference ∧ call.naming.key reference = key
    · obtain ⟨reference, hmeets, rfl⟩ := hmet
      rw [h.recorded reference hmeets, h'.recorded reference hmeets]
    · have hnone : ∀ reference, call.Meets reference → call.naming.key reference ≠ key :=
        fun reference hmeets hkey => hmet ⟨reference, hmeets, hkey⟩
      rw [h.untouched key hnone, h'.untouched key hnone]
  have hdocument := h.document.trans h'.document.symm
  generalize build.cache = cache at hentries hdocument
  generalize build'.cache = cache' at hentries hdocument
  cases cache
  cases cache'
  cases hentries
  cases hdocument
  rfl

end Two

end Outcome

/-! ### Builds in which the turns are told -/

/-- The build after some turns. -/
def Call.after (call : Call) (turns : List Nat) : Build :=
  call.opening.sweep call.setting turns

/-- What can be said of the strides without the disk can be said of the build, if the disk is ready. -/
theorem Call.exists_after (call : Call) {held : List Reference}
    (hready : IsReady call.setting held call.disk) {turns : List Nat} {check : Build → Bool}
    (hstrides : (strides? call.setting held call.opening turns).any check = true) :
    ∃ last disk, check last = true ∧ call.after turns = last.withDisk disk := by
  have hfaithful : AllFaithful call.setting call.opening :=
    (allFaithful_start call.setting call.cache call.disk).begin call.references
  obtain ⟨last, disk, hlast, hsweep, -⟩ := hready.exists_last hfaithful hstrides
  exact ⟨last, disk, hlast, hsweep⟩

theorem reflTransGen_sweep (setting : BuildSetting) (build : Build) (indices : List Nat) :
    Relation.ReflTransGen (StepsTo setting) build (build.sweep setting indices) := by
  induction indices generalizing build with
  | nil => exact .refl
  | cons index rest ih =>
      rw [sweep]
      cases hnext : build.step? setting index with
      | none => exact ih build
      | some next => exact .head ⟨index, hnext⟩ (ih next)

theorem Call.steps_after (call : Call) (turns : List Nat) :
    Relation.ReflTransGen (StepsTo call.setting) call.opening (call.after turns) :=
  reflTransGen_sweep call.setting call.opening turns

namespace Call

/-- A build of the call is a run, and stays within a range. -/
theorem exists_run (range : Range call.setting call.cache)
    (hroots : ∀ root ∈ call.references, root ∈ range.all)
    (hsteps : Relation.ReflTransGen (StepsTo call.setting) call.opening build) :
    ∃ turns, Run call.setting (Build.start call.cache call.disk) turns build ∧
      ∀ visit ∈ build.visits, visit.component.reference ∈ range.all := by
  induction hsteps with
  | refl =>
      refine ⟨[], .begin call.references .start, fun visit hvisit => ?_⟩
      obtain ⟨i, hi⟩ := List.mem_iff_getElem?.1 hvisit
      exact hroots _ (visit_opening hi).1
  | tail _ hstepsTo ih =>
      obtain ⟨turns, hrun, hall⟩ := ih
      obtain ⟨index, hnext⟩ := hstepsTo
      exact ⟨_, hrun.step index hnext, (range.potential_step hrun hall hnext).2⟩

/-- A build of the call can be gone on with until it is over, if only so much may come up. -/
theorem exists_finished (call : Call) (hslots : 0 < call.setting.slots)
    (hfinite : ∀ root ∈ call.references, {reference | Relation.ReflTransGen
      (MayNeed call.setting call.cache) root reference}.Finite)
    (hsteps : Relation.ReflTransGen (StepsTo call.setting) call.opening build) :
    ∃ last, Relation.ReflTransGen (StepsTo call.setting) build last ∧ last.isFinished = true := by
  obtain ⟨range, hroots⟩ := exists_range call.references hfinite
  obtain ⟨turns, hrun, hall⟩ := exists_run range hroots hsteps
  exact range.exists_finished hrun hslots hall

/-- A list of components has those that a call asks for, and with each one all that it needs. -/
def ClosedBy (call : Call) (listed : List Reference) : Prop :=
  (∀ root ∈ call.references, root ∈ listed) ∧
    ∀ reference ∈ listed, ∀ dep ∈ call.deps reference, reference.child dep ∈ listed

instance (call : Call) (listed : List Reference) : Decidable (call.ClosedBy listed) :=
  inferInstanceAs (Decidable (_ ∧ _))

variable {listed : List Reference} {reference other : Reference}

theorem ClosedBy.mem_of_reaches (h : call.ClosedBy listed) (hmem : reference ∈ listed)
    (hreach : Relation.ReflTransGen call.Needs reference other) : other ∈ listed := by
  induction hreach with
  | refl => exact hmem
  | tail _ hneeds ih =>
      obtain ⟨dep, hdep, rfl⟩ := hneeds
      exact h.2 _ ih dep hdep

theorem ClosedBy.mem (h : call.ClosedBy listed) (hmeets : call.Meets reference) :
    reference ∈ listed := by
  obtain ⟨root, hroot, hreach⟩ := hmeets
  exact h.mem_of_reaches (h.1 root hroot) hreach

theorem ClosedBy.apart (h : call.ClosedBy listed)
    (hapart : ∀ reference ∈ listed, ∀ dep ∈ call.deps reference,
      reference.child dep ∉ call.references) :
    ∀ root ∈ call.references, ∀ other ∈ call.references,
      ¬Relation.TransGen call.Needs root other := by
  intro root hroot other hother hreach
  obtain ⟨middle, hmiddle, dep, hdep, rfl⟩ := Relation.TransGen.tail'_iff.1 hreach
  exact hapart middle (h.mem_of_reaches (h.1 root hroot) hmiddle) dep hdep hother

/-- A call is orderly if those that it needs are listed, have identifiers of their own and are not
asked for. -/
theorem ClosedBy.isOrderly (h : call.ClosedBy listed) (hbuilds : BuildsIn directory call.setting)
    (htidy : call.disk.IsTidy (directory / "com"))
    (hdistinct : ∀ first ∈ listed, ∀ second ∈ listed,
      (call.naming.identity first).identifier = (call.naming.identity second).identifier →
        first = second)
    (hapart : ∀ reference ∈ listed, ∀ dep ∈ call.deps reference,
      reference.child dep ∉ call.references) : call.IsOrderly directory where
  buildsIn := hbuilds
  isTidy := htidy
  distinct first second hfirst hsecond := hdistinct first (h.mem hfirst) second (h.mem hsecond)
  apart := h.apart hapart

end Call

end ComponentTags.Build
