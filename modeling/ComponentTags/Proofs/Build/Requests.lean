import ComponentTags.Proofs.Build.Moves

/-!
Requests. Only a visit that waits for a slot sends one, for its own component; no other step of a build
asks the endpoint for anything.
-/

namespace ComponentTags.Build

/-- The request that the next step of a visit sends. -/
def asks? (setting : BuildSetting) (visit : Visit) : Option FetchRequest :=
  match visit.stage with
  | .queued =>
      (setting.registry.find? visit.component.reference.tag).map fun rule =>
        { reference := visit.component.reference, identifier := visit.component.identity.identifier
          api := rule.api }
  | _ => none

variable {setting : BuildSetting} {build next : Build} {index : Nat} {visit : Visit}

theorem asks?_eq_none (hstage : visit.stage ≠ .queued) : asks? setting visit = none := by
  unfold asks?
  split
  · next hqueued => exact absurd hqueued hstage
  · rfl

@[simp]
theorem requests_atStage (build : Build) (index : Nat) (stage : Stage) :
    (build.atStage index stage).requests = build.requests :=
  rfl

@[simp]
theorem requests_openNode (build : Build) (key : ComponentKey) :
    (build.openNode key).requests = build.requests :=
  rfl

@[simp]
theorem requests_openSubtree (build : Build) (key : ComponentKey) :
    (build.openSubtree key).requests = build.requests :=
  rfl

@[simp]
theorem requests_learn (build : Build) (key : ComponentKey) (deps : List Dependency) :
    (build.learn key deps).requests = build.requests :=
  rfl

@[simp]
theorem requests_writeModules (build : Build) (visit : Visit) (files : List OutputFile) :
    (build.writeModules visit files).1.requests = build.requests := by
  unfold writeModules
  split <;> rfl

@[simp]
theorem requests_settle (build : Build) (visit : Visit) (payload : Payload)
    (files : List OutputFile) :
    (build.settle visit payload files).requests = build.requests := by
  have hwritten := requests_writeModules build visit files
  unfold settle
  split
  · next outcome => rwa [outcome] at hwritten
  · next outcome => rwa [outcome] at hwritten

@[simp]
theorem requests_visitDeps (build : Build) (setting : BuildSetting) (index : Nat) (visit : Visit)
    (deps : List Dependency) (entry : Option Payload) :
    (build.visitDeps setting index visit deps entry).requests = build.requests := by
  obtain ⟨warnings, reports, hequation, -⟩ := visitDeps_eq build setting index visit deps entry
  rw [hequation]

theorem requests_arrive (build : Build) (index : Nat) (visit : Visit) :
    (build.arrive index visit).requests = build.requests := by
  unfold arrive
  dsimp only
  split
  · rfl
  · split <;> rfl

theorem requests_look (build : Build) (setting : BuildSetting) (index : Nat) (visit : Visit)
    (deps : List Dependency) : (build.look setting index visit deps).requests = build.requests := by
  unfold look
  dsimp only
  split
  · simp only [requests_visitDeps, requests_openNode, requests_learn]
    rfl
  · rfl

theorem requests_receive (build : Build) (setting : BuildSetting) (index : Nat) (visit : Visit) :
    (build.receive setting index visit).requests = build.requests := by
  unfold receive
  split
  · rfl
  · dsimp only
    split
    · rfl
    · simp only [requests_visitDeps, requests_openNode, requests_learn]

theorem requests_writeError (build : Build) (setting : BuildSetting) (index : Nat) (visit : Visit) :
    (build.writeError setting index visit).requests = build.requests := by
  simp only [writeError, requests_atStage, requests_openNode, requests_openSubtree,
    requests_writeModules]

theorem requests_writeDependency (build : Build) (setting : BuildSetting) (index : Nat)
    (visit : Visit) (payload : Payload) :
    (build.writeDependency setting index visit payload).requests = build.requests := by
  simp only [writeDependency, requests_visitDeps, requests_openNode, requests_settle]

theorem requests_gather? {payload : Payload} {gathering : Gathering}
    (hnext : build.gather? setting index visit payload gathering = some next) :
    next.requests = build.requests := by
  unfold gather? at hnext
  dsimp only at hnext
  split at hnext
  · rw [← Option.some.inj hnext, requests_atStage, requests_settle]
  · split at hnext
    · rw [← Option.some.inj hnext, requests_atStage]
    · split at hnext
      · cases hnext
      · rw [← Option.some.inj hnext, requests_atStage]

theorem requests_send? (hstage : visit.stage = .queued)
    (hnext : build.send? setting index visit = some next) :
    next.requests = build.requests ++ (asks? setting visit).toList := by
  simp only [asks?, hstage]
  unfold send? at hnext
  dsimp only at hnext
  split at hnext
  · next hrule =>
      rw [← Option.some.inj hnext, hrule]
      exact (List.append_nil _).symm
  · next rule hrule =>
      split at hnext
      · rw [← Option.some.inj hnext, hrule]
        rfl
      · cases hnext

/-- **What a step asks for.** -/
theorem requests_step (hvisit : build.visits[index]? = some visit)
    (hnext : build.step? setting index = some next) :
    next.requests = build.requests ++ (asks? setting visit).toList := by
  unfold step? at hnext
  rw [hvisit] at hnext
  dsimp only at hnext
  by_cases hqueued : visit.stage = .queued
  · rw [hqueued] at hnext
    exact requests_send? hqueued hnext
  · rw [asks?_eq_none hqueued, Option.toList_none, List.append_nil]
    split at hnext
    · rw [← Option.some.inj hnext, requests_arrive]
    · split at hnext
      · cases hnext
      · rw [← Option.some.inj hnext, requests_atStage]
    · rw [← Option.some.inj hnext, requests_look]
    · next hstage => exact absurd hstage hqueued
    · rw [← Option.some.inj hnext, requests_receive]
    · rw [← Option.some.inj hnext, requests_writeError]
    · rw [← Option.some.inj hnext, requests_writeDependency]
    · unfold join? at hnext
      dsimp only at hnext
      split at hnext
      · rw [← Option.some.inj hnext, requests_atStage, requests_openSubtree]
      · cases hnext
    · exact requests_gather? hnext
    · cases hnext

end ComponentTags.Build
