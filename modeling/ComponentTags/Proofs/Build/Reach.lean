import ComponentTags.Proofs.Build.CycleReports
import ComponentTags.Proofs.Build.Delivery

/-!
Reach. A call that is carried out alone meets what it asks for and what that needs in turn, as its turns
showed, and nothing else.
-/

namespace ComponentTags.Build

section Alone

variable {setting : BuildSetting} {start build : Build} {turns : List Turn}

theorem Advances.length_reports {next : Build} {index : Nat} {visit : Visit}
    {children : List Visit} {stage : Stage}
    (h : Advances setting build index visit children stage next) :
    next.reports.length = build.reports.length := by
  have hlength : next.writeErrors.length = build.writeErrors.length := by
    rw [h.errors]
    split
    · rfl
    · rw [List.length_modify]
  simpa [writeErrors] using hlength

theorem Run.length_reports_le (hrun : Run setting start turns build) :
    start.reports.length ≤ build.reports.length := by
  induction hrun with
  | start => exact Nat.le_refl _
  | begin references _ ih =>
      rw [Build.begin, List.length_append]
      exact Nat.le_trans ih (Nat.le_add_right _ _)
  | step index _ hnext ih =>
      obtain ⟨visit, children, stage, hadvances⟩ := exists_advances hnext
      rwa [hadvances.length_reports]

/-- What holds at the start of a run in which nothing else is asked for, and is kept by every step. -/
theorem Run.induction_alone {motive : List Turn → Build → Prop} (hstart : motive [] start)
    (hstep : ∀ {turns build index next}, Run setting start turns build →
      build.step? setting index = some next → motive turns build →
        motive (⟨build, index⟩ :: turns) next)
    (hrun : Run setting start turns build) (halone : build.reports.length = start.reports.length) :
    motive turns build := by
  induction hrun with
  | start => exact hstart
  | begin references hrun ih =>
      have hle := hrun.length_reports_le
      rw [Build.begin, List.length_append] at halone
      simp at halone
      omega
  | step index hrun hnext ih =>
      obtain ⟨visit, children, stage, hadvances⟩ := exists_advances hnext
      rw [hadvances.length_reports] at halone
      exact hstep hrun hnext (ih halone)

/-- What came up on account of no other component was there at the start. -/
theorem Run.asked (hrun : Run setting start turns build)
    (halone : build.reports.length = start.reports.length) :
    ∀ visit ∈ build.visits, visit.ancestors = [] →
      ∃ old ∈ start.visits, old.component = visit.component := by
  refine hrun.induction_alone (motive := fun _ build => ∀ visit ∈ build.visits,
    visit.ancestors = [] → ∃ old ∈ start.visits, old.component = visit.component) ?_ ?_ halone
  · exact fun visit hvisit _ => ⟨visit, hvisit, rfl⟩
  · intro turns build index next _ hnext hasked other hother hancestors
    obtain ⟨visit, children, stage, hadvances⟩ := exists_advances hnext
    rcases hadvances.mem_cases hother with rfl | hbefore | hchild
    · exact hasked visit (List.mem_of_getElem? hadvances.found) hancestors
    · exact hasked other hbefore hancestors
    · rw [hchild.ancestors] at hancestors
      exact absurd hancestors (by simp)

end Alone

section Calls

variable {call : Call} {turns : List Turn} {build : Build} {owner : ComponentKey → Option Nat}
  {key : ComponentKey}

theorem Tracked.needs_reached (h : Tracked call.setting call.cache turns build owner)
    (hrun : Run call.setting call.opening turns build) (halone : build.reports.length = 1) (n : Nat) :
    ∀ (i : Nat) (visit : Visit), build.visits[i]? = some visit → visit.ancestors.length = n →
      ∃ reference ∈ call.references, Relation.ReflTransGen
        (ResolvedNeeds call.setting call.cache turns) (call.naming.key reference)
          visit.component.key := by
  -- The visit on whose account this one came up has one ancestor less.
  induction n with
  | zero =>
      intro i visit hvisit hlength
      obtain ⟨old, hold, hcomponent⟩ := hrun.asked halone visit (List.mem_of_getElem? hvisit)
        (List.length_eq_zero_iff.1 hlength)
      obtain ⟨j, hj⟩ := List.mem_iff_getElem?.1 hold
      refine ⟨_, (Call.visit_opening hj).1, ?_⟩
      have hfaithful := (fits_opening call).faithful j old hj
      rw [show call.naming.key old.component.reference = old.component.key from hfaithful.key,
        hcomponent]
  | succ n ih =>
      intro i visit hvisit hlength
      cases h.claimed.descends i visit hvisit with
      | asked hancestors => simp [hancestors] at hlength
      | @needed j parent deps dep hparent hown hancestors hdeps hdep hkey =>
          have hshorter : parent.ancestors.length = n := by
            simpa [hancestors] using hlength
          obtain ⟨reference, hasked, hreach⟩ := ih j parent hparent hshorter
          exact ⟨reference, hasked,
            hreach.tail ⟨deps, h.sound.taught.known _ deps hdeps, dep, hdep, hkey.symm⟩⟩

/-- **What a call meets.** Carried out alone and to its end, it has met what it asks for and what that
needs in turn. -/
theorem Tracked.met_iff (h : Tracked call.setting call.cache turns build owner)
    (hrun : Run call.setting call.opening turns build) (halone : build.reports.length = 1)
    (hfinished : build.isFinished = true) :
    (owner key).isSome ↔ ∃ reference ∈ call.references, Relation.ReflTransGen
      (ResolvedNeeds call.setting call.cache turns) (call.naming.key reference) key := by
  have hguarded := h.sound.guarded
  constructor
  · intro hmet
    obtain ⟨i, hown⟩ := Option.isSome_iff_exists.1 hmet
    obtain ⟨visit, hvisit, rfl, -⟩ := hguarded.owned key i hown
    exact h.needs_reached hrun halone _ i visit hvisit rfl
  · rintro ⟨reference, hasked, hreach⟩
    induction hreach with
    | refl =>
        obtain ⟨i, visit, hvisit, hcomponent, -⟩ := visit_of_begin hasked
        obtain ⟨stage, hvisit⟩ := hrun.remains hvisit
        have hkey : visit.component.key = call.naming.key reference :=
          congrArg NamedReference.key hcomponent
        rw [← hkey]
        by_cases hown : owner visit.component.key = some i
        · rw [hown]
          rfl
        · rcases hguarded.others i _ hvisit hown with harriving | ⟨-, hmet⟩
          · have hdone := List.all_eq_true.1 hfinished _ (List.mem_of_getElem? hvisit)
            rw [harriving] at hdone
            cases hdone
          · exact hmet
    | tail _ hneeds hmet =>
        obtain ⟨deps, hlearned, dep, hdep, rfl⟩ := hneeds
        obtain ⟨-, -, -, -, -, -, -, hopened⟩ := hguarded.opened_of_isFinished hfinished hmet
        exact hguarded.complete _ deps hopened (h.sound.taught.learned _ deps hlearned) dep hdep

end Calls

end ComponentTags.Build
