import Mathlib.Logic.Relation
import ComponentTags.Proofs.Build.Moves

/-!
Runs. A build runs by any order of turns of its visits, and further components may be asked for at any
time; the order in which visits are polled is one of them. What a visit carries is always about its
own component, as the endpoint answered for it.
-/

namespace ComponentTags.Build

/-- A step of a build: the build before it, and the visit that takes it. -/
structure Turn where
  before : Build
  index : Nat

namespace Turn

/-- The visit whose turn it is. -/
def visit? (turn : Turn) : Option Visit :=
  turn.before.visits[turn.index]?

/-- The module that is written in the turn. -/
def deed? (setting : BuildSetting) (turn : Turn) : Option Deed :=
  turn.visit?.bind (Visit.deed? setting)

end Turn

/-- The runs that lead from one build to another: the turns taken, the last one first. -/
inductive Run (setting : BuildSetting) (start : Build) : List Turn → Build → Prop where
  | start : Run setting start [] start
  | begin {turns : List Turn} {build : Build} (references : List Reference)
      (hrun : Run setting start turns build) :
      Run setting start turns (build.begin (references.map (named setting)))
  | step {turns : List Turn} {build next : Build} (index : Nat)
      (hrun : Run setting start turns build) (hnext : build.step? setting index = some next) :
      Run setting start (⟨build, index⟩ :: turns) next

/-- The steps of some visits, one after another; a visit that has to wait is passed over. -/
def sweep (setting : BuildSetting) (build : Build) : List Nat → Build
  | [] => build
  | index :: rest => sweep setting ((build.step? setting index).getD build) rest

theorem Run.exists_sweep {setting : BuildSetting} {start build : Build} {turns : List Turn}
    (hrun : Run setting start turns build) (indices : List Nat) :
    ∃ turns, Run setting start turns (build.sweep setting indices) := by
  induction indices generalizing build turns with
  | nil => exact ⟨turns, hrun⟩
  | cons index indices ih =>
      rw [sweep]
      cases hnext : build.step? setting index with
      | none => exact ih hrun
      | some next => exact ih (hrun.step index hnext)

/-! ### Builds that are carried out -/

/-- Some visit takes a build to the next one. -/
def StepsTo (setting : BuildSetting) (build next : Build) : Prop :=
  ∃ index, build.step? setting index = some next

section Polls

variable {setting : BuildSetting} {start build : Build}

theorem steps_foldl {visit : Build → Nat → Build}
    (hvisit : ∀ (build : Build) (index : Nat),
      Relation.ReflTransGen (StepsTo setting) build (visit build index))
    (build : Build) (indices : List Nat) :
    Relation.ReflTransGen (StepsTo setting) build (indices.foldl visit build) := by
  induction indices generalizing build with
  | nil => exact .refl
  | cons index indices ih => exact (hvisit build index).trans (ih _)

theorem steps_poll (pace : Pace) (late : Bool) (fuel : Nat) (build : Build) (index : Nat) :
    Relation.ReflTransGen (StepsTo setting) build (poll setting pace late fuel build index) := by
  induction fuel generalizing build index with
  | zero => exact .refl
  | succ fuel ih =>
      rw [poll]
      cases hvisit : build.visits[index]? with
      | none => exact .refl
      | some visit =>
          dsimp only
          split
          · exact .refl
          · have hjoined := steps_foldl ih build (joined visit.stage)
            generalize (joined visit.stage).foldl _ build = next at hjoined ⊢
            cases hnext : next.step? setting index with
            | none => exact hjoined
            | some last =>
                have hstepped := hjoined.tail ⟨index, hnext⟩
                dsimp only
                split
                · exact hstepped
                · exact hstepped.trans (ih last index)

theorem steps_run (pace : Pace) (turns : Nat) (build : Build) :
    Relation.ReflTransGen (StepsTo setting) build (run setting pace turns build) := by
  induction turns generalizing build with
  | zero => exact .refl
  | succ turns ih =>
      have hall (late : Bool) :
          Relation.ReflTransGen (StepsTo setting) build (build.pollAll setting pace late) :=
        steps_foldl (steps_poll pace late maxTurns) build _
      rw [run]
      split
      · exact .refl
      · dsimp only
        split
        · exact (hall true).trans (ih _)
        · exact (hall false).trans (ih _)

theorem Run.of_steps {next : Build} {turns : List Turn} (hrun : Run setting start turns build)
    (h : Relation.ReflTransGen (StepsTo setting) build next) :
    ∃ turns, Run setting start turns next := by
  induction h with
  | refl => exact ⟨turns, hrun⟩
  | tail _ hstep ih =>
      obtain ⟨turns, hrun⟩ := ih
      obtain ⟨index, hnext⟩ := hstep
      exact ⟨_, hrun.step index hnext⟩

/-- A build that is carried out is a run. -/
theorem Run.exists_materialize {turns : List Turn} (hrun : Run setting start turns build)
    (references : List Reference) (pace : Pace) :
    ∃ turns, Run setting start turns
      (build.materialize setting (references.map (named setting)) pace).1 :=
  (hrun.begin references).of_steps (steps_run pace maxTurns _)

end Polls

/-! ### The visits after a step -/

/-- A visit that came up for something that a component needs. -/
structure IsChildOf (setting : BuildSetting) (visit child : Visit) : Prop where
  component : ∃ dep, child.component = named setting (visit.component.reference.child dep)
  ancestors : child.ancestors = visit.ancestors ++ [visit.component.key]
  isChild : child.isChild = true
  run : child.run = visit.run
  stage : child.stage = .arriving

section Steps

variable {setting : BuildSetting} {build next : Build} {index i : Nat}
  {visit other child : Visit} {children : List Visit} {stage : Stage} {knowledge : Knowledge}
  {cache : Cache} {deps : List Dependency}

theorem isChildOf_of_mem_freshVisits (h : child ∈ freshVisits setting visit deps) :
    IsChildOf setting visit child := by
  obtain ⟨component, hcomponent, rfl⟩ := List.mem_map.1 h
  obtain ⟨dep, -, rfl⟩ := List.mem_map.1 (List.mem_filter.1 hcomponent).1
  exact ⟨⟨dep, rfl⟩, rfl, rfl, rfl, rfl⟩

theorem Move.isChildOf (h : Move setting build visit knowledge cache children stage)
    (hchild : child ∈ children) : IsChildOf setting visit child := by
  cases h with
  | hit | takeEntry | writeDependency => exact isChildOf_of_mem_freshVisits hchild
  | _ => cases hchild

namespace Advances

theorem index_lt (h : Advances setting build index visit children stage next) :
    index < build.visits.length :=
  (List.getElem?_eq_some_iff.1 h.found).1

theorem own (h : Advances setting build index visit children stage next) :
    next.visits[index]? = some { visit with stage } := by
  rw [h.visits, List.getElem?_modify_eq, List.getElem?_append_left h.index_lt, h.found]
  rfl

theorem keeps (h : Advances setting build index visit children stage next) (hne : i ≠ index)
    (hother : build.visits[i]? = some other) : next.visits[i]? = some other := by
  rw [h.visits, List.getElem?_modify_ne _ _ (Ne.symm hne),
    List.getElem?_append_left (List.getElem?_eq_some_iff.1 hother).1, hother]

theorem came (h : Advances setting build index visit children stage next) (i : Nat) :
    next.visits[build.visits.length + i]? = children[i]? := by
  have hne : index ≠ build.visits.length + i := by
    have := h.index_lt
    omega
  rw [h.visits, List.getElem?_modify_ne _ _ hne, List.getElem?_append_right (by omega)]
  congr 1
  omega

/-- A visit after a step took the step, was there before it, or came up in it. -/
theorem visit_cases (h : Advances setting build index visit children stage next)
    (hother : next.visits[i]? = some other) :
    (i = index ∧ other = { visit with stage }) ∨ (i ≠ index ∧ build.visits[i]? = some other) ∨
      (i ≠ index ∧ build.visits[i]? = none ∧ IsChildOf setting visit other) := by
  by_cases heq : i = index
  · subst heq
    rw [h.own] at hother
    exact .inl ⟨rfl, (Option.some.inj hother).symm⟩
  · refine .inr ?_
    by_cases hlt : i < build.visits.length
    · have hkept := h.keeps heq (List.getElem?_eq_getElem hlt)
      rw [hother] at hkept
      exact .inl ⟨heq, by rw [List.getElem?_eq_getElem hlt, hkept]⟩
    · have hcame := h.came (i - build.visits.length)
      rw [show build.visits.length + (i - build.visits.length) = i by omega, hother] at hcame
      have hmem := List.mem_of_getElem? hcame.symm
      exact .inr ⟨heq, by rw [List.getElem?_eq_none_iff]; omega, h.move.isChildOf hmem⟩

end Advances

end Steps

/-! ### What visits carry -/

/-- The payload that a visit is at work on. -/
def payload? : Stage → Option Payload
  | .writing payload => some payload
  | .joining _ entry => entry
  | .gathering payload _ => some payload
  | _ => none

/-- Whether a visit may be at a stage: only children write dependencies, and only others entries. -/
def Suits (isChild : Bool) : Stage → Prop
  | .writing _ => isChild = true
  | .joining _ (some _) => isChild = false
  | .gathering _ _ => isChild = false
  | _ => True

/-- A visit under the name of its reference, with what the endpoint answered for that. -/
structure IsFaithful (setting : BuildSetting) (visit : Visit) : Prop where
  component : visit.component = named setting visit.component.reference
  answered : ∀ payload, payload? visit.stage = some payload →
    ∃ warnings, response setting visit = .ok (payload, warnings)
  suits : Suits visit.isChild visit.stage

section Faithful

variable {setting : BuildSetting} {build next : Build} {index i : Nat} {visit other : Visit}
  {children : List Visit} {stage : Stage} {knowledge : Knowledge} {cache : Cache}

theorem IsFaithful.of_arriving {component : NamedReference} {reference : Reference}
    {ancestors : List ComponentKey} {isChild : Bool} {run : Nat}
    (hcomponent : component = named setting reference) :
    IsFaithful setting { component, ancestors, isChild, run, stage := .arriving } where
  component := by
    subst hcomponent
    rfl
  answered := nofun
  suits := trivial

theorem IsChildOf.isFaithful {child : Visit} (h : IsChildOf setting visit child) :
    IsFaithful setting child := by
  obtain ⟨component, ancestors, isChild, run, childStage⟩ := child
  obtain ⟨⟨dep, hcomponent⟩, -, -, -, hstage⟩ := h
  subst hstage
  exact .of_arriving hcomponent

theorem Move.payload? (h : Move setting build visit knowledge cache children stage)
    {payload : Payload} (hpayload : Build.payload? stage = some payload) :
    Build.payload? visit.stage = some payload ∨
      ∃ warnings, response setting visit = .ok (payload, warnings) := by
  cases h with
  | takeDependency payload' warnings hstage hresponse hchild =>
      cases hpayload
      exact .inr ⟨warnings, hresponse⟩
  | takeEntry payload' warnings hstage hresponse hchild =>
      cases hpayload
      exact .inr ⟨warnings, hresponse⟩
  | joinEntry ids payload' hstage hdone =>
      rw [hstage]
      exact .inl hpayload
  | pass payload' gathering reference pending hstage hpending hseen =>
      rw [hstage]
      exact .inl hpayload
  | gather payload' gathering reference pending hstage hpending hseen hgate =>
      rw [hstage]
      exact .inl hpayload
  | _ => cases hpayload

theorem Move.suits (h : Move setting build visit knowledge cache children stage)
    (hsuits : Suits visit.isChild visit.stage) : Suits visit.isChild stage := by
  cases h with
  | takeDependency payload warnings hstage hresponse hchild => exact hchild
  | takeEntry payload warnings hstage hresponse hchild => exact hchild
  | joinEntry ids payload hstage hdone =>
      rw [hstage] at hsuits
      exact hsuits
  | pass payload gathering reference pending hstage hpending hseen =>
      rw [hstage] at hsuits
      exact hsuits
  | gather payload gathering reference pending hstage hpending hseen hgate =>
      rw [hstage] at hsuits
      exact hsuits
  | _ => trivial

theorem IsFaithful.move (hvisit : IsFaithful setting visit)
    (h : Move setting build visit knowledge cache children stage) :
    IsFaithful setting { visit with stage } where
  component := hvisit.component
  answered payload hpayload := by
    rcases h.payload? hpayload with hcarried | htaken
    · exact hvisit.answered payload hcarried
    · exact htaken
  suits := h.suits hvisit.suits

/-- Every visit of a build is faithful. -/
def AllFaithful (setting : BuildSetting) (build : Build) : Prop :=
  ∀ (i : Nat) (visit : Visit), build.visits[i]? = some visit → IsFaithful setting visit

theorem allFaithful_start (setting : BuildSetting) (cache : Cache) (disk : Disk) :
    AllFaithful setting (Build.start cache disk) := by
  intro i visit hvisit
  simp [Build.start] at hvisit

theorem AllFaithful.begin (h : AllFaithful setting build) (references : List Reference) :
    AllFaithful setting (build.begin (references.map (named setting))) := by
  intro i visit hvisit
  rw [Build.begin, List.getElem?_append] at hvisit
  split at hvisit
  · exact h i visit hvisit
  · obtain ⟨component, hcomponent, rfl⟩ := List.mem_map.1 (List.mem_of_getElem? hvisit)
    obtain ⟨reference, -, rfl⟩ := List.mem_map.1 hcomponent
    exact .of_arriving rfl

theorem AllFaithful.advance (h : AllFaithful setting build)
    (hstep : Advances setting build index visit children stage next) :
    AllFaithful setting next := by
  intro i other hother
  rcases hstep.visit_cases hother with ⟨-, rfl⟩ | ⟨-, hkept⟩ | ⟨-, -, hchild⟩
  · exact (h index visit hstep.found).move hstep.move
  · exact h i other hkept
  · exact hchild.isFaithful

theorem Run.allFaithful {cache : Cache} {disk : Disk} {turns : List Turn}
    (hrun : Run setting (Build.start cache disk) turns build) : AllFaithful setting build := by
  induction hrun with
  | start => exact allFaithful_start setting cache disk
  | begin references hrun ih => exact ih.begin references
  | step index hrun hnext ih =>
      obtain ⟨visit, children, stage, hstep⟩ := exists_advances hnext
      exact ih.advance hstep

/-- Every visit counts for a run that has a report. -/
def AllCounted (build : Build) : Prop :=
  ∀ (i : Nat) (visit : Visit), build.visits[i]? = some visit →
    visit.run < build.writeErrors.length

theorem AllCounted.begin (h : AllCounted build) (components : List NamedReference) :
    AllCounted (build.begin components) := by
  intro i visit hvisit
  have hlength : (build.begin components).writeErrors.length = build.writeErrors.length + 1 := by
    simp [Build.begin, writeErrors]
  rw [hlength]
  rw [Build.begin, List.getElem?_append] at hvisit
  split at hvisit
  · exact Nat.lt_succ_of_lt (h i visit hvisit)
  · obtain ⟨component, -, rfl⟩ := List.mem_map.1 (List.mem_of_getElem? hvisit)
    simp [writeErrors]

theorem AllCounted.advance (h : AllCounted build)
    (hstep : Advances setting build index visit children stage next) : AllCounted next := by
  have hlength : next.writeErrors.length = build.writeErrors.length := by
    rw [hstep.errors]
    split
    · rfl
    · rw [List.length_modify]
  intro i other hother
  rw [hlength]
  rcases hstep.visit_cases hother with ⟨-, rfl⟩ | ⟨-, hkept⟩ | ⟨-, -, hchild⟩
  · exact h index visit hstep.found
  · exact h i other hkept
  · rw [hchild.run]
    exact h index visit hstep.found

theorem deed?_reference {deed : Deed} (h : visit.deed? setting = some deed) :
    deed.reference = visit.component.reference := by
  unfold Visit.deed? at h
  split at h
  · cases h
    rfl
  · cases h
    rfl
  · split at h
    · cases h
      rfl
    · cases h
  · cases h

end Faithful

end ComponentTags.Build
