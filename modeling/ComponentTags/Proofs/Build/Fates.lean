import ComponentTags.Proofs.Build.Accounts
import ComponentTags.Proofs.Build.Ending

/-!
Fates. What becomes of a component in a fresh build follows from what the build starts from: its module
is there as the cache says, the endpoint serves it, or it cannot be had. So do the components that come
up, and what is written for each of them; the order of turns has no part in it.
-/

namespace ComponentTags.Build

/-- A fresh build that is asked for some components, and what it starts from. -/
structure Call where
  setting : BuildSetting
  cache : Cache
  disk : Disk
  references : List Reference

/-- What becomes of a component: it is found, it is served, or it cannot be had. -/
inductive Fate where
  | found (deps : List Dependency)
  | served (payload : Payload)
  | lost
deriving DecidableEq

/-- What a component is taken to need. -/
def Fate.deps : Fate → List Dependency
  | found deps => deps
  | served payload => payload.deps
  | lost => []

/-- What the endpoint serves for a component. -/
def answer? (setting : BuildSetting) (reference : Reference) : Option Payload :=
  match setting.registry.find? reference.tag with
  | none => none
  | some rule =>
      match setting.endpoint
        { reference, identifier := (setting.workshop.naming.identity reference).identifier
          api := rule.api } with
      | some (.ok (payload, _)) => some payload
      | _ => none

namespace Call

variable (call : Call)

/-- The build before its first step. -/
def opening : Build :=
  (Build.start call.cache call.disk).begin (call.references.map (named call.setting))

def naming : Naming :=
  call.setting.workshop.naming

/-- What the cache says that a component needs whose module is there. -/
def known? (reference : Reference) : Option (List Dependency) :=
  match call.cache.get? (call.naming.key reference) with
  | some { success := true, deps } =>
      if call.disk.holds (call.naming.identity reference).path then some deps else none
  | _ => none

def fate (reference : Reference) : Fate :=
  match call.known? reference with
  | some deps => .found deps
  | none =>
      match answer? call.setting reference with
      | some payload => .served payload
      | none => .lost

def deps (reference : Reference) : List Dependency :=
  (call.fate reference).deps

/-- One component needs another one, as the cache or the endpoint says. -/
def Needs (first second : Reference) : Prop :=
  ∃ dep ∈ call.deps first, second = first.child dep

/-- A component comes up in the build. -/
def Meets (reference : Reference) : Prop :=
  ∃ root ∈ call.references, Relation.ReflTransGen call.Needs root reference

/-- No component that comes up needs itself in the end. -/
def IsAcyclic : Prop :=
  ∀ reference, call.Meets reference → ¬Relation.TransGen call.Needs reference reference

/--
A call whose components can be told apart: those that come up have identifiers of their own, and none
that is asked for is needed by another one. The disk is one on which a missing folder is empty.
-/
structure IsOrderly (directory : Path) : Prop where
  buildsIn : BuildsIn directory call.setting
  isTidy : call.disk.IsTidy (directory / "com")
  distinct : ∀ first second, call.Meets first → call.Meets second →
    (call.naming.identity first).identifier = (call.naming.identity second).identifier →
      first = second
  apart : ∀ root ∈ call.references, ∀ other ∈ call.references,
    ¬Relation.TransGen call.Needs root other

/-- What the component with that key needs, if one comes up that has it. -/
noncomputable def needsAt (key : ComponentKey) : List Reference :=
  open Classical in
  if h : ∃ reference, call.Meets reference ∧ call.naming.key reference = key then
    (call.deps h.choose).map h.choose.child
  else []

/-- All that is below a component, in depth-first order. -/
noncomputable def closure (reference : Reference) : List Reference :=
  open Classical in
  if h : ∃ order, DepthFirst call.naming.key call.needsAt [call.naming.key reference]
      ((call.deps reference).map reference.child) order then h.choose
  else []

/-- The module that is written for a component. -/
noncomputable def deed? (reference : Reference) : Option Deed :=
  open Classical in
  match call.fate reference with
  | .found _ => none
  | .lost => some (.message reference)
  | .served payload =>
      some (if reference ∈ call.references then
          .entry reference payload
            ((call.closure reference).map call.setting.workshop.registration)
        else
          .dependency reference payload
            (directRegistrations call.setting reference payload.deps))

end Call

/-! ### What comes up -/

section Calls

variable {call : Call} {directory : Path} {reference first second : Reference}
  {setting : BuildSetting} {build next : Build} {owner owner' : ComponentKey → Option Nat}
  {index i : Nat} {visit other : Visit} {children : List Visit} {stage : Stage}
  {knowledge : Knowledge} {cache : Cache}

theorem Call.Meets.child (h : call.Meets reference) {dep : Dependency}
    (hdep : dep ∈ call.deps reference) : call.Meets (reference.child dep) := by
  obtain ⟨root, hroot, hreach⟩ := h
  exact ⟨root, hroot, hreach.tail ⟨dep, hdep, rfl⟩⟩

namespace Call.IsOrderly

theorem isProper (h : call.IsOrderly directory) : call.naming.IsProper :=
  h.buildsIn.isProper

theorem directory_eq (h : call.IsOrderly directory) :
    call.naming.directory = directory / "com" := by
  obtain ⟨dialect, renderer, start, hworkshop⟩ := h.buildsIn
  rw [naming, hworkshop]
  rfl

theorem endsPlain (h : call.IsOrderly directory) : call.naming.directory.EndsPlain := by
  rw [h.directory_eq]
  exact Path.endsPlain_join directory ⟨by decide, by decide, by decide, by decide⟩

theorem tidy (h : call.IsOrderly directory) : call.disk.IsTidy call.naming.directory := by
  rw [h.directory_eq]
  exact h.isTidy

theorem eq_of_key (h : call.IsOrderly directory) (hfirst : call.Meets first)
    (hsecond : call.Meets second) (hkey : call.naming.key first = call.naming.key second) :
    first = second :=
  h.distinct first second hfirst hsecond (congrArg ComponentKey.identifier hkey)

theorem needsAt_key (h : call.IsOrderly directory) (hmeets : call.Meets reference) :
    call.needsAt (call.naming.key reference) = (call.deps reference).map reference.child := by
  have hexists : ∃ other, call.Meets other ∧ call.naming.key other = call.naming.key reference :=
    ⟨reference, hmeets, rfl⟩
  obtain ⟨hother, hkey⟩ := hexists.choose_spec
  rw [needsAt, dif_pos hexists, h.eq_of_key hother hmeets hkey]

end Call.IsOrderly

theorem Call.closure_eq {order : List Reference}
    (horder : DepthFirst call.naming.key call.needsAt [call.naming.key reference]
      ((call.deps reference).map reference.child) order) : call.closure reference = order := by
  have hexists : ∃ order, DepthFirst call.naming.key call.needsAt [call.naming.key reference]
      ((call.deps reference).map reference.child) order := ⟨order, horder⟩
  rw [closure, dif_pos hexists]
  exact hexists.choose_spec.unique horder

/-- What is below a component is told by the orders in which it can be met. -/
theorem Call.closure_congr {other : Call}
    (h : ∀ order, DepthFirst call.naming.key call.needsAt [call.naming.key reference]
        ((call.deps reference).map reference.child) order ↔
      DepthFirst other.naming.key other.needsAt [other.naming.key reference]
        ((other.deps reference).map reference.child) order) :
    other.closure reference = call.closure reference := by
  by_cases horder : ∃ order, DepthFirst call.naming.key call.needsAt [call.naming.key reference]
      ((call.deps reference).map reference.child) order
  · obtain ⟨order, horder⟩ := horder
    rw [Call.closure_eq horder, Call.closure_eq ((h order).1 horder)]
  · rw [Call.closure, Call.closure, dif_neg horder, dif_neg]
    exact fun ⟨order, horder'⟩ => horder ⟨order, (h order).2 horder'⟩

theorem Call.fate_of_known {deps : List Dependency} (h : call.known? reference = some deps) :
    call.fate reference = .found deps := by
  rw [fate, h]

theorem answer?_of_serves {payload : Payload} (h : Serves setting reference payload) :
    answer? setting reference = some payload := by
  obtain ⟨rule, warnings, hrule, hserved⟩ := h
  rw [answer?, hrule]
  dsimp only
  rw [hserved]

theorem answer?_eq (hcomponent : visit.component = named setting visit.component.reference) :
    answer? setting visit.component.reference =
      (response setting visit).toOption.map Prod.fst := by
  have hidentifier : visit.component.identity.identifier =
      (setting.workshop.naming.identity visit.component.reference).identifier :=
    congrArg (·.identity.identifier) hcomponent
  unfold answer? response
  dsimp only
  rw [hidentifier]
  cases setting.registry.find? visit.component.reference.tag with
  | none => rfl
  | some rule =>
      dsimp only
      cases setting.endpoint
          { reference := visit.component.reference
            identifier := (setting.workshop.naming.identity visit.component.reference).identifier
            api := rule.api } with
      | none => rfl
      | some answer => cases answer <;> rfl

/-- Where a visit comes from: it is one that the call asks for, or one that such a one needs. -/
structure Comes (call : Call) (visit : Visit) : Prop where
  met : call.Meets visit.component.reference
  root : visit.isChild = false → visit.component.reference ∈ call.references
  child : visit.isChild = true → ∃ root ∈ call.references,
    Relation.TransGen call.Needs root visit.component.reference
  ancestors : ∀ key ∈ visit.ancestors, ∃ ancestor, call.Meets ancestor ∧
    call.naming.key ancestor = key ∧
      Relation.TransGen call.Needs ancestor visit.component.reference
  run : visit.run = 0

/-- Whether a visit is at a stage that is right for the fate of its component. -/
def IsFated (call : Call) (visit : Visit) : Prop :=
  match visit.stage with
  | .arriving | .waiting | .done => True
  | .looking deps => call.cache.get? visit.component.key = some { success := true, deps }
  | .queued | .requesting => call.known? visit.component.reference = none
  | .failing => call.fate visit.component.reference = .lost
  | .writing payload => call.fate visit.component.reference = .served payload
  | .joining _ none => call.fate visit.component.reference ≠ .lost
  | .joining _ (some payload) => call.fate visit.component.reference = .served payload
  | .gathering payload _ => call.fate visit.component.reference = .served payload

theorem Comes.of_freshVisits (h : Comes call visit)
    (hkey : call.naming.key visit.component.reference = visit.component.key) {child : Visit}
    (hchild : child ∈ freshVisits call.setting visit (call.deps visit.component.reference)) :
    Comes call child := by
  obtain ⟨dep, hdep, hcomponent⟩ := exists_dep_of_mem_freshVisits hchild
  obtain ⟨-, hancestors, hisChild, hrun, -⟩ := isChildOf_of_mem_freshVisits hchild
  have hreference : child.component.reference = visit.component.reference.child dep :=
    congrArg NamedReference.reference hcomponent
  have hneeds : call.Needs visit.component.reference child.component.reference :=
    ⟨dep, hdep, hreference⟩
  refine ⟨?_, fun hroot => ?_, fun _ => ?_, fun key hmem => ?_, hrun.trans h.run⟩
  · rw [hreference]
    exact h.met.child hdep
  · rw [hisChild] at hroot
    cases hroot
  · obtain ⟨root, hroot, hreach⟩ := h.met
    exact ⟨root, hroot, .tail' hreach hneeds⟩
  · rw [hancestors, List.mem_append, List.mem_singleton] at hmem
    rcases hmem with hold | rfl
    · obtain ⟨ancestor, hmet, hancestor, hreach⟩ := h.ancestors key hold
      exact ⟨ancestor, hmet, hancestor, hreach.tail hneeds⟩
    · exact ⟨visit.component.reference, h.met, hkey, .single hneeds⟩

/-- Without cycles nothing that comes up is needed by what it needs. -/
theorem Comes.cyclesAmong_eq (h : Comes call visit) (horderly : call.IsOrderly directory)
    (hkey : call.naming.key visit.component.reference = visit.component.key)
    (hacyclic : call.IsAcyclic) :
    cyclesAmong call.setting visit (call.deps visit.component.reference) = 0 := by
  rw [cyclesAmong, List.length_eq_zero_iff, List.filter_eq_nil_iff]
  intro component hcomponent hcyclic
  obtain ⟨dep, hdep, rfl⟩ := List.mem_map.1 hcomponent
  have hneeds : call.Needs visit.component.reference (visit.component.reference.child dep) :=
    ⟨dep, hdep, rfl⟩
  have hmet := h.met.child hdep
  rw [List.contains_iff_mem, List.mem_append, List.mem_singleton] at hcyclic
  rcases hcyclic with hancestor | hself
  · obtain ⟨ancestor, hancestorMet, hancestorKey, hreach⟩ := h.ancestors _ hancestor
    have heq := horderly.eq_of_key hancestorMet hmet hancestorKey
    rw [← heq] at hneeds
    exact hacyclic ancestor hancestorMet (hreach.tail hneeds)
  · have heq := horderly.eq_of_key hmet h.met (hself.trans hkey.symm)
    rw [heq] at hneeds
    exact hacyclic _ h.met (.single hneeds)

/-! ### The fate that a visit comes to know -/

/-- The module of a visited component is on the disk exactly if it was there at the start. -/
def SeesModule (call : Call) (build : Build) (visit : Visit) : Prop :=
  ∀ deps, visit.stage = .looking deps → build.disk.holds visit.component.identity.path =
    call.disk.holds visit.component.identity.path

section Fated

variable (hfated : IsFated call visit) (hfaithful : IsFaithful call.setting visit)

include hfated hfaithful

theorem fate_of_hit {deps : List Dependency} (hsees : SeesModule call build visit)
    (hstage : visit.stage = .looking deps)
    (hheld : build.disk.holds visit.component.identity.path = true) :
    call.fate visit.component.reference = .found deps := by
  have hpath : visit.component.identity.path =
      (call.naming.identity visit.component.reference).path :=
    congrArg (·.identity.path) hfaithful.component
  rw [IsFated, hstage] at hfated
  dsimp only at hfated
  rw [hsees deps hstage, hpath] at hheld
  refine Call.fate_of_known ?_
  rw [Call.known?, show call.naming.key visit.component.reference = visit.component.key from
    hfaithful.key, hfated]
  exact if_pos hheld

theorem known?_of_miss {deps : List Dependency} (hsees : SeesModule call build visit)
    (hstage : visit.stage = .looking deps)
    (hheld : build.disk.holds visit.component.identity.path = false) :
    call.known? visit.component.reference = none := by
  have hpath : visit.component.identity.path =
      (call.naming.identity visit.component.reference).path :=
    congrArg (·.identity.path) hfaithful.component
  rw [IsFated, hstage] at hfated
  dsimp only at hfated
  rw [hsees deps hstage, hpath] at hheld
  rw [Call.known?, show call.naming.key visit.component.reference = visit.component.key from
    hfaithful.key, hfated]
  exact if_neg (by simp [hheld])

theorem fate_of_answer {payload : Payload} {warnings : List Warning}
    (hstage : visit.stage = .requesting)
    (hresponse : response call.setting visit = .ok (payload, warnings)) :
    call.fate visit.component.reference = .served payload := by
  rw [IsFated, hstage] at hfated
  dsimp only at hfated
  rw [Call.fate, hfated, answer?_eq hfaithful.component, hresponse]
  rfl

theorem fate_of_refusal {failure : FetchFailure} (hstage : visit.stage = .requesting)
    (hresponse : response call.setting visit = .error failure) :
    call.fate visit.component.reference = .lost := by
  rw [IsFated, hstage] at hfated
  dsimp only at hfated
  rw [Call.fate, hfated, answer?_eq hfaithful.component, hresponse]
  rfl

omit hfaithful in
theorem fate_of_lack (hstage : visit.stage = .queued)
    (hrule : call.setting.registry.find? visit.component.reference.tag = none) :
    call.fate visit.component.reference = .lost := by
  rw [IsFated, hstage] at hfated
  dsimp only at hfated
  rw [Call.fate, hfated, answer?, hrule]

/-- The visits that come up are those of what the component needs. -/
theorem Move.children_eq (hsees : SeesModule call build visit)
    (h : Move call.setting build visit knowledge cache children stage) :
    children = [] ∨
      children = freshVisits call.setting visit (call.deps visit.component.reference) := by
  cases h with
  | hit deps hstage hheld =>
      rw [Call.deps, fate_of_hit hfated hfaithful hsees hstage hheld]
      exact .inr rfl
  | takeEntry payload warnings hstage hresponse hchild =>
      rw [Call.deps, fate_of_answer hfated hfaithful hstage hresponse]
      exact .inr rfl
  | writeDependency payload cache hstage hcache =>
      rw [IsFated, hstage] at hfated
      dsimp only at hfated
      rw [Call.deps, hfated]
      exact .inr rfl
  | _ => exact .inl rfl

/-- What a step comes to know of a component's needs is what its fate says. -/
theorem Move.deps_eq (hsees : SeesModule call build visit)
    (h : Move call.setting build visit knowledge cache children stage) :
    knowledge.deps = build.knowledge.deps ∨
      knowledge.deps[visit.component.key]? = some (call.deps visit.component.reference) ∧
        IsUnderWay visit.stage := by
  rcases h.deps_cases with hsame | ⟨deps, hdeps, hshown⟩
  · exact .inl hsame
  · refine .inr ?_
    rcases hshown with ⟨hstage, hheld⟩ | ⟨hstage, payload, warnings, hresponse, rfl⟩
    · rw [Call.deps, fate_of_hit hfated hfaithful hsees hstage hheld]
      exact ⟨hdeps, by rw [hstage]; trivial⟩
    · rw [Call.deps, fate_of_answer hfated hfaithful hstage hresponse]
      exact ⟨hdeps, by rw [hstage]; trivial⟩

/-- A visit that goes on is at a stage that is right for the fate of its component. -/
theorem IsFated.move (hsees : SeesModule call build visit)
    (h : Move call.setting build visit knowledge cache children stage)
    (hunmet : visit.component.key ∉ build.knowledge.nodes →
      build.cache.get? visit.component.key = call.cache.get? visit.component.key)
    (hqueued : visit.stage = .arriving → visit.component.key ∉ build.knowledge.nodes →
      stage = .queued → ∀ deps,
        build.cache.get? visit.component.key ≠ some { success := true, deps }) :
    IsFated call { visit with stage } := by
  cases h with
  | claimKnown deps hstage hkey hcache => exact (hunmet hkey).symm.trans (get?_of_ensure hcache)
  | claimUnknown hstage hkey =>
      have hnot := hqueued hstage hkey rfl
      rw [hunmet hkey, ← hfaithful.key] at hnot
      show call.known? visit.component.reference = none
      unfold Call.known?
      split
      · next deps hknown => exact absurd hknown (hnot deps)
      · rfl
  | hit deps hstage hheld =>
      have hfate := fate_of_hit hfated hfaithful hsees hstage hheld
      show call.fate visit.component.reference ≠ .lost
      simp [hfate]
  | miss deps hstage hheld =>
      have hknown := known?_of_miss hfated hfaithful hsees hstage hheld
      exact hknown
  | lack hstage hrule =>
      have hfate := fate_of_lack hfated hstage hrule
      exact hfate
  | send hstage hrule =>
      rw [IsFated, hstage] at hfated
      exact hfated
  | refuse failure hstage hresponse =>
      have hfate := fate_of_refusal hfated hfaithful hstage hresponse
      exact hfate
  | takeDependency payload warnings hstage hresponse hchild =>
      have hfate := fate_of_answer hfated hfaithful hstage hresponse
      exact hfate
  | takeEntry payload warnings hstage hresponse hchild =>
      have hfate := fate_of_answer hfated hfaithful hstage hresponse
      exact hfate
  | writeDependency payload cache hstage hcache =>
      rw [IsFated, hstage] at hfated
      dsimp only at hfated
      show call.fate visit.component.reference ≠ .lost
      simp [hfated]
  | joinEntry ids payload hstage hdone =>
      rw [IsFated, hstage] at hfated
      exact hfated
  | pass payload gathering reference pending hstage hpending hseen =>
      rw [IsFated, hstage] at hfated
      exact hfated
  | gather payload gathering reference pending hstage hpending hseen hgate =>
      rw [IsFated, hstage] at hfated
      exact hfated
  | _ => trivial

end Fated

/-! ### Builds in which every component meets its fate -/

/-- What holds of a fresh build that some steps led to. -/
structure Fits (call : Call) (build : Build) (owner : ComponentKey → Option Nat) : Prop where
  faithful : AllFaithful call.setting build
  guarded : Guarded call.setting build owner
  gather : AllGather call.setting build owner
  roots : ∀ reference ∈ call.references, ∃ visit ∈ build.visits,
    visit.component.reference = reference
  comes : ∀ (i : Nat) (visit : Visit), build.visits[i]? = some visit → Comes call visit
  fated : ∀ (i : Nat) (visit : Visit), build.visits[i]? = some visit → IsFated call visit
  known : ∀ (i : Nat) (visit : Visit), build.visits[i]? = some visit →
    owner visit.component.key = some i → ∀ deps,
      build.knowledge.deps[visit.component.key]? = some deps →
        deps = call.deps visit.component.reference
  untold : ∀ (i : Nat) (visit : Visit), build.visits[i]? = some visit →
    owner visit.component.key = some i → visit.stage = .done →
      build.knowledge.deps[visit.component.key]? = none →
        call.deps visit.component.reference = []
  unmet : ∀ key, owner key = none → build.cache.get? key = call.cache.get? key

theorem Call.visit_opening (hvisit : call.opening.visits[i]? = some visit) :
    visit.component.reference ∈ call.references ∧ visit.ancestors = [] ∧ visit.isChild = false ∧
      visit.run = 0 ∧ visit.stage = .arriving := by
  rw [opening, Build.begin, Build.start, List.nil_append] at hvisit
  obtain ⟨component, hcomponent, rfl⟩ := List.mem_map.1 (List.mem_of_getElem? hvisit)
  obtain ⟨reference, hreference, rfl⟩ := List.mem_map.1 hcomponent
  exact ⟨hreference, rfl, rfl, rfl, rfl⟩

theorem fits_opening (call : Call) : Fits call call.opening fun _ => none where
  faithful := (allFaithful_start call.setting call.cache call.disk).begin call.references
  guarded := (guarded_start call.setting call.cache call.disk).begin _
  gather := AllGather.begin (fun i visit payload gathering hvisit => by simp [Build.start] at hvisit) _
  roots reference hreference := by
    refine ⟨{ component := named call.setting reference, ancestors := [], isChild := false
              run := 0, stage := .arriving }, ?_, rfl⟩
    rw [Call.opening, Build.begin, Build.start, List.nil_append]
    exact List.mem_map_of_mem (List.mem_map_of_mem hreference)
  comes i visit hvisit := by
    obtain ⟨hreference, hancestors, hchild, hrun, -⟩ := Call.visit_opening hvisit
    refine ⟨⟨_, hreference, .refl⟩, fun _ => hreference, fun h => ?_, fun key hkey => ?_, hrun⟩
    · rw [hchild] at h
      cases h
    · rw [hancestors] at hkey
      cases hkey
  fated i visit hvisit := by
    obtain ⟨-, -, -, -, hstage⟩ := Call.visit_opening hvisit
    rw [IsFated, hstage]
    trivial
  known i visit hvisit howner := nomatch howner
  untold i visit hvisit howner := nomatch howner
  unmet key _ := rfl

namespace Fits

theorem comes_advance (h : Fits call build owner) (hsees : SeesModule call build visit)
    (hstep : Advances call.setting build index visit children stage next)
    (hother : next.visits[i]? = some other) : Comes call other := by
  have hcomes := h.comes index visit hstep.found
  have hfaithful := h.faithful index visit hstep.found
  by_cases heq : i = index
  · subst heq
    rw [hstep.own] at hother
    obtain rfl := Option.some.inj hother
    exact ⟨hcomes.met, hcomes.root, hcomes.child, hcomes.ancestors, hcomes.run⟩
  · by_cases hlt : i < build.visits.length
    · have hkept := hstep.keeps heq (List.getElem?_eq_getElem hlt)
      rw [hother] at hkept
      exact h.comes i other (by rw [List.getElem?_eq_getElem hlt, hkept])
    · have hcame := hstep.came (i - build.visits.length)
      rw [show build.visits.length + (i - build.visits.length) = i by omega, hother] at hcame
      have hmem := List.mem_of_getElem? hcame.symm
      rcases hstep.move.children_eq (h.fated index visit hstep.found) hfaithful hsees with
        hnone | hfresh
      · rw [hnone] at hmem
        cases hmem
      · rw [hfresh] at hmem
        exact hcomes.of_freshVisits hfaithful.key hmem

theorem fated_advance (h : Fits call build owner) (hsees : SeesModule call build visit)
    (hnext : build.step? call.setting index = some next)
    (hstep : Advances call.setting build index visit children stage next)
    (hother : next.visits[i]? = some other) : IsFated call other := by
  rcases hstep.visit_cases hother with ⟨rfl, rfl⟩ | ⟨-, hkept⟩ | ⟨-, -, hchild⟩
  · refine (h.fated i visit hstep.found).move (h.faithful i visit hstep.found) hsees hstep.move
      (fun hkey => h.unmet _ ?_) fun hstage hkey hqueued deps => ?_
    · simpa using mt (h.guarded.isSome_iff visit.component.key).1 hkey
    · subst hqueued
      exact get?_ne_of_queued hstep.found hstage hkey hnext hstep.own deps
  · exact h.fated i other hkept
  · rw [IsFated, hchild.stage]
    trivial

theorem known_advance (h : Fits call build owner) (hsees : SeesModule call build visit)
    (hstep : Advances call.setting build index visit children stage next)
    (howner : Extends owner owner' visit.component.key index)
    (hother : next.visits[i]? = some other) (hown : owner' other.component.key = some i)
    {deps : List Dependency}
    (hdeps : next.knowledge.deps[other.component.key]? = some deps) :
    deps = call.deps other.component.reference := by
  have hfaithful := h.faithful index visit hstep.found
  have hmoved := hstep.move.deps_eq (h.fated index visit hstep.found) hfaithful hsees
  rcases hstep.visit_cases hother with ⟨rfl, rfl⟩ | ⟨hne, hkept⟩ | ⟨hne, hnone, hchild⟩
  · rcases hmoved with hsame | ⟨hlearned, -⟩
    · rw [hsame] at hdeps
      rcases howner.new _ _ hown with hold | ⟨hnone, -, -⟩
      · exact h.known i visit hstep.found hold deps hdeps
      · rw [(h.guarded.unmet _ hnone).2.2] at hdeps
        cases hdeps
    · exact Option.some.inj (hdeps.symm.trans hlearned)
  · have hold := (howner.new _ _ hown).resolve_right fun hnew => hne hnew.2.2
    refine h.known i other hkept hold deps ?_
    by_cases hkey : other.component.key = visit.component.key
    · rw [← h.guarded.deps_eq hstep, hdeps]
      rw [← hkey, hold]
      exact fun heq => hne (Option.some.inj heq)
    · rw [← hstep.move.agreesOff.deps _ hkey, hdeps]
  · rcases howner.new _ _ hown with hold | ⟨-, -, heq⟩
    · obtain ⟨found, hfound, -, -⟩ := h.guarded.owned _ _ hold
      rw [hnone] at hfound
      cases hfound
    · exact absurd heq hne

/-- A visit that is over knows what its component needs, unless that could not be had. -/
theorem untold_advance (h : Fits call build owner)
    (hstep : Advances call.setting build index visit children stage next)
    (howner : Extends owner owner' visit.component.key index)
    (hother : next.visits[i]? = some other) (hown : owner' other.component.key = some i)
    (hdone : other.stage = .done)
    (hnone : next.knowledge.deps[other.component.key]? = none) :
    call.deps other.component.reference = [] := by
  rcases hstep.visit_cases hother with ⟨rfl, rfl⟩ | ⟨hne, hkept⟩ | ⟨-, -, hchild⟩
  · dsimp only at hdone
    subst hdone
    have hold : owner visit.component.key = some i := by
      refine (howner.new _ _ hown).resolve_right fun hnew => ?_
      rcases h.guarded.others i visit hstep.found (by simp [hnew.1]) with hstage | ⟨-, hsome⟩
      · exact (hstep.move.of_arriving hstage).2 rfl
      · simp [hnew.1] at hsome
    have hknows := (h.guarded.guards hstep.found hold).knows
    have hfated := h.fated i visit hstep.found
    have hbefore := h.guarded.deps_none hstep hnone
    have hmove := hstep.move
    generalize next.knowledge = knowledge at hmove
    generalize next.cache = cache at hmove
    cases hmove with
    | release hstage hgate => exact absurd hold (h.guarded.not_owner hstep.found hstage rfl)
    | apologize hstage =>
        rw [IsFated, hstage] at hfated
        dsimp only at hfated
        rw [Call.deps, hfated, Fate.deps]
    | joinDependency ids hstage hdone =>
        rw [hstage, hbefore] at hknows
        cases hknows
    | writeEntry payload gathering cache hstage hpending hcache =>
        rw [hstage, hbefore] at hknows
        cases hknows
  · have hold := (howner.new _ _ hown).resolve_right fun hnew => hne hnew.2.2
    exact h.untold i other hkept hold hdone (h.guarded.deps_none hstep hnone)
  · rw [hchild.stage] at hdone
    cases hdone

theorem advance (h : Fits call build owner) (hsees : SeesModule call build visit)
    (hnext : build.step? call.setting index = some next)
    (hstep : Advances call.setting build index visit children stage next)
    (hguarded : Guarded call.setting next owner')
    (howner : Extends owner owner' visit.component.key index) : Fits call next owner' where
  faithful := h.faithful.advance hstep
  guarded := hguarded
  gather := h.gather.advance h.guarded hguarded hstep howner
  roots reference hreference := by
    obtain ⟨visit, hvisit, rfl⟩ := h.roots reference hreference
    obtain ⟨later, hlater, hcomponent⟩ := hstep.exists_mem hvisit
    exact ⟨later, hlater, by rw [hcomponent]⟩
  comes _ _ hother := h.comes_advance hsees hstep hother
  fated _ _ hother := h.fated_advance hsees hnext hstep hother
  known _ _ hother hown _ hdeps := h.known_advance hsees hstep howner hother hown hdeps
  untold _ _ hother hown hdone hnone := h.untold_advance hstep howner hother hown hdone hnone
  unmet key hnone := by
    obtain ⟨hold, hne⟩ := howner.of_none hnone
    rw [hstep.move.cache_get? hne, h.unmet key hold]

/-! What is written, and what comes up in the end. -/

theorem knownBelow_eq (h : Fits call build owner) (horderly : call.IsOrderly directory)
    {key : ComponentKey} (hopened : build.knowledge.subtrees[key]? = some .opened) :
    build.knownBelow key = call.needsAt key := by
  obtain ⟨-, i, visit, howner, hvisit, rfl, hstage⟩ := h.guarded.stage_of_opened hopened
  have hfaithful := h.faithful i visit hvisit
  have hdeps : build.knowledge.deps[visit.component.key]?.getD [] =
      call.deps visit.component.reference := by
    cases hknown : build.knowledge.deps[visit.component.key]? with
    | some deps => exact h.known i visit hvisit howner deps hknown
    | none =>
        have hdone := hstage.resolve_right (by simp [hknown])
        exact (h.untold i visit hvisit howner hdone hknown).symm
  have hkey : call.naming.key visit.component.reference = visit.component.key := hfaithful.key
  rw [knownBelow, hdeps, ← hkey, horderly.needsAt_key (h.comes i visit hvisit).met]
  rfl

theorem mem_references_iff (h : Fits call build owner) (horderly : call.IsOrderly directory)
    (hvisit : build.visits[index]? = some visit) :
    visit.component.reference ∈ call.references ↔ visit.isChild = false := by
  have hcomes := h.comes index visit hvisit
  refine ⟨fun hmem => ?_, hcomes.root⟩
  by_contra hchild
  obtain ⟨root, hroot, hreach⟩ := hcomes.child (by simpa using hchild)
  exact horderly.apart root hroot _ hmem hreach

/-- **What is written for a component follows from what the build starts from.** -/
theorem deed?_eq (h : Fits call build owner) (horderly : call.IsOrderly directory)
    (hvisit : build.visits[index]? = some visit) {deed : Deed}
    (hdeed : visit.deed? call.setting = some deed) :
    call.deed? visit.component.reference = some deed := by
  have hfaithful := h.faithful index visit hvisit
  have hfated := h.fated index visit hvisit
  have hroot := h.mem_references_iff horderly hvisit
  have hsuits := hfaithful.suits
  rw [IsFated] at hfated
  unfold Visit.deed? at hdeed
  split at hdeed
  · next hstage =>
      rw [hstage] at hfated
      rw [Call.deed?, show call.fate visit.component.reference = .lost from hfated]
      exact hdeed
  · next payload hstage =>
      rw [hstage] at hfated hsuits
      have hchild : visit.component.reference ∉ call.references := by
        rw [hroot, show visit.isChild = true from hsuits]
        nofun
      rw [Call.deed?, show call.fate visit.component.reference = .served payload from hfated]
      dsimp only
      rw [if_neg hchild]
      exact hdeed
  · next payload gathering hstage =>
      rw [hstage] at hfated hsuits
      split at hdeed
      · next hpending =>
          have hfate : call.fate visit.component.reference = .served payload := hfated
          have hentry : visit.deed? call.setting =
              some (.entry visit.component.reference payload gathering.found) := by
            rw [Visit.deed?, hstage]
            dsimp only
            rw [hpending]
          obtain ⟨order, hclosure, horder, -, hopened⟩ :=
            h.gather.exists_order h.faithful h.guarded hvisit hentry
          have hdeps : call.deps visit.component.reference = payload.deps := by
            rw [Call.deps, hfate, Fate.deps]
          have horder' : DepthFirst call.naming.key call.needsAt
              [call.naming.key visit.component.reference]
              ((call.deps visit.component.reference).map visit.component.reference.child)
              order := by
            rw [hdeps]
            exact horder.congr fun node hnode =>
              (h.knownBelow_eq horderly (hopened _ (.inr (List.mem_map_of_mem hnode)))).symm
          rw [Call.deed?, hfate]
          dsimp only
          rw [if_pos (hroot.2 hsuits), Call.closure_eq horder', ← hclosure]
          exact hdeed
      · cases hdeed
  · cases hdeed

/-- When a build is over, all that can come up has been met and is settled. -/
theorem exists_done (h : Fits call build owner) (horderly : call.IsOrderly directory)
    (hover : build.isFinished = true) (hmeets : call.Meets reference) :
    ∃ i visit, build.visits[i]? = some visit ∧ owner visit.component.key = some i ∧
      visit.component.reference = reference ∧ visit.stage = .done := by
  have hdone : ∀ (i : Nat) (visit : Visit), build.visits[i]? = some visit → visit.stage = .done :=
    fun i visit hvisit => by
      simpa using List.all_eq_true.1 hover visit (List.mem_of_getElem? hvisit)
  -- whichever visit closed its gates, a component that was met is the one with its key
  have howned : ∀ reference, call.Meets reference →
      (owner (call.naming.key reference)).isSome → ∃ i visit, build.visits[i]? = some visit ∧
        owner visit.component.key = some i ∧ visit.component.reference = reference ∧
          visit.stage = .done := by
    intro reference hmeets hsome
    obtain ⟨i, hi⟩ := Option.isSome_iff_exists.1 hsome
    obtain ⟨visit, hvisit, hkey, -⟩ := h.guarded.owned _ i hi
    refine ⟨i, visit, hvisit, by rw [hkey, hi], ?_, hdone i visit hvisit⟩
    exact horderly.eq_of_key (h.comes i visit hvisit).met hmeets
      ((h.faithful i visit hvisit).key.trans hkey)
  obtain ⟨root, hroot, hreach⟩ := hmeets
  induction hreach with
  | refl =>
      obtain ⟨visit, hvisit, hreference⟩ := h.roots root hroot
      obtain ⟨i, hi⟩ := List.mem_iff_getElem?.1 hvisit
      refine howned root ⟨root, hroot, .refl⟩ ?_
      rw [← hreference, show call.naming.key visit.component.reference = visit.component.key from
        (h.faithful i visit hi).key]
      by_cases hown : owner visit.component.key = some i
      · simp [hown]
      · rcases h.guarded.others i visit hi hown with harriving | ⟨-, hsome⟩
        · rw [hdone i visit hi] at harriving
          cases harriving
        · exact hsome
  | @tail middle last hreach hneeds ih =>
      obtain ⟨i, visit, hvisit, hown, rfl, hstage⟩ := ih
      obtain ⟨dep, hdep, rfl⟩ := hneeds
      have hguards := h.guarded.guards hvisit hown
      have hopened := (hguards.gates_eq hstage rfl).2
      refine howned _ ⟨root, hroot, hreach.tail ⟨dep, hdep, rfl⟩⟩ ?_
      cases hknown : build.knowledge.deps[visit.component.key]? with
      | none =>
          rw [h.untold i visit hvisit hown hstage hknown] at hdep
          cases hdep
      | some deps =>
          rw [← h.known i visit hvisit hown deps hknown] at hdep
          have hmet := h.guarded.complete _ deps hopened hknown dep hdep
          rw [← (h.faithful i visit hvisit).key] at hmet
          exact hmet

end Fits

end Calls

end ComponentTags.Build
