import Mathlib.Logic.Relation
import ComponentTags.Proofs.Build.Progress

/-!
Claims. The first visit that comes to a component claims it, and no other visit works on it. The
ancestors of that visit are the components on whose account it came up, each of them claimed on
account of the one before it.
-/

namespace ComponentTags.Build

/-- The visit is the first of its component. -/
def Turn.Claims (turn : Turn) (visit : Visit) : Prop :=
  turn.visit? = some visit ∧ visit.stage = .arriving ∧
    visit.component.key ∉ turn.before.knowledge.nodes

/-- The second component was claimed on account of the first one. -/
def ClaimedBelow (turns : List Turn) (first second : ComponentKey) : Prop :=
  ∃ turn ∈ turns, ∃ visit, turn.Claims visit ∧ visit.component.key = second ∧
    visit.ancestors.getLast? = some first

/-- Where a visit comes from: it was asked for, or a component that is known needs its own. -/
inductive Descends (setting : BuildSetting) (build : Build) (owner : ComponentKey → Option Nat)
    (visit : Visit) : Prop where
  | asked (hancestors : visit.ancestors = []) : Descends setting build owner visit
  | needed {i : Nat} {parent : Visit} {deps : List Dependency} {dep : Dependency}
      (hparent : build.visits[i]? = some parent) (howner : owner parent.component.key = some i)
      (hancestors : visit.ancestors = parent.ancestors ++ [parent.component.key])
      (hdeps : build.knowledge.deps[parent.component.key]? = some deps) (hdep : dep ∈ deps)
      (hkey : visit.component.key = childKey setting parent.component.key dep) :
      Descends setting build owner visit

/-- The visits that closed the gates of a component are those that claimed it. -/
structure Claimed (setting : BuildSetting) (turns : List Turn) (build : Build)
    (owner : ComponentKey → Option Nat) : Prop where
  claimed : ∀ key i, owner key = some i → ∃ turn ∈ turns, ∃ visit,
    turn.index = i ∧ turn.Claims visit ∧ visit.component.key = key
  owns : ∀ turn ∈ turns, ∀ visit, turn.Claims visit →
    owner visit.component.key = some turn.index ∧
      ∃ stage, build.visits[turn.index]? = some { visit with stage }
  descends : ∀ (i : Nat) (visit : Visit), build.visits[i]? = some visit →
    Descends setting build owner visit

section Steps

variable {setting : BuildSetting} {build next : Build} {owner owner' : ComponentKey → Option Nat}
  {index i : Nat} {visit other : Visit} {children : List Visit} {stage : Stage}
  {knowledge : Knowledge} {cache : Cache} {turns : List Turn} {key : ComponentKey}

/-- A node gate that is open stays open. -/
theorem Advances.node_opened
    (hstep : Advances setting build index visit children stage next)
    (hopened : build.knowledge.nodes[key]? = some .opened) :
    next.knowledge.nodes[key]? = some .opened := by
  by_cases heq : key = visit.component.key
  · subst heq
    have hmem : visit.component.key ∈ build.knowledge.nodes :=
      Std.ExtTreeMap.mem_iff_isSome_getElem?.2 (by simp [hopened])
    have hmove := hstep.move
    generalize next.knowledge = knowledge at hmove ⊢
    generalize next.cache = cache at hmove
    cases hmove with
    | claimKnown _ _ hkey | claimUnknown _ hkey => exact absurd hmem hkey
    | hit | takeEntry | apologize | writeDependency => simp
    | _ => simpa using hopened
  · rw [hstep.move.agreesOff.nodes key heq, hopened]

/-- A component that was not met is claimed by the step after which it was. -/
theorem Guarded.claims (h : Guarded setting build owner)
    (hfound : build.visits[index]? = some visit) (hnone : owner visit.component.key = none) :
    Turn.Claims ⟨build, index⟩ visit := by
  refine ⟨hfound, ?_, ?_⟩
  · rcases h.others index visit hfound (by simp [hnone]) with hstage | ⟨-, hsome⟩
    · exact hstage
    · simp [hnone] at hsome
  · rw [← h.isSome_iff]
    simp [hnone]

theorem Guarded.owner_of_claims (h : Guarded setting build owner)
    (howner : Extends owner owner' visit.component.key index)
    (hkey : visit.component.key ∉ build.knowledge.nodes) :
    owner' visit.component.key = some index := by
  obtain ⟨i, hi⟩ := Option.isSome_iff_exists.1 howner.met
  rcases howner.new _ _ hi with hold | ⟨-, -, rfl⟩
  · exact absurd ((h.isSome_iff _).1 (by simp [hold])) hkey
  · exact hi

/-- What is known to need something was claimed. -/
theorem Guarded.exists_owner (h : Guarded setting build owner) {deps : List Dependency}
    (hdeps : build.knowledge.deps[key]? = some deps) :
    ∃ i visit, build.visits[i]? = some visit ∧ visit.component.key = key ∧
      owner visit.component.key = some i := by
  cases hown : owner key with
  | none => cases hdeps.symm.trans (h.unmet key hown).2.2
  | some i =>
      obtain ⟨visit, hvisit, rfl, -⟩ := h.owned key i hown
      exact ⟨i, visit, hvisit, rfl, hown⟩

/-- Nothing happens to a component but by the visit that claimed it. -/
theorem Guarded.frame (h : Guarded setting build owner)
    (hstep : Advances setting build index visit children stage next)
    (hown : owner key = some i) (hne : i ≠ index) :
    next.cache.get? key = build.cache.get? key ∧
      next.knowledge.nodes[key]? = build.knowledge.nodes[key]? ∧
      next.knowledge.deps[key]? = build.knowledge.deps[key]? := by
  by_cases heq : key = visit.component.key
  · subst heq
    have hother : owner visit.component.key ≠ some index := by
      rw [hown]
      exact fun hsame => hne (Option.some.inj hsame)
    have hmem : visit.component.key ∈ build.knowledge.nodes := (h.isSome_iff _).1 (by simp [hown])
    have hidle : ∀ {stage' : Stage}, visit.stage = stage' → ¬IsUnderWay stage' :=
      fun hstage hway => hother (h.owner_eq hstep.found hstage hway)
    have hmove := hstep.move
    generalize next.knowledge = knowledge at hmove ⊢
    generalize next.cache = cache at hmove ⊢
    cases hmove with
    | claimKnown _ _ hkey | claimUnknown _ hkey => exact absurd hmem hkey
    | wait | release => exact ⟨rfl, rfl, rfl⟩
    | hit _ hstage | miss _ hstage | lack hstage | send hstage | refuse _ hstage
    | takeDependency _ _ hstage | takeEntry _ _ hstage | apologize hstage
    | writeDependency _ _ hstage | joinDependency _ hstage | joinEntry _ _ hstage
    | pass _ _ _ _ hstage | gather _ _ _ _ hstage | writeEntry _ _ _ hstage =>
        exact absurd trivial (hidle hstage)
  · exact ⟨hstep.move.cache_get? heq, hstep.move.agreesOff.nodes key heq,
      hstep.move.agreesOff.deps key heq⟩

/-- A visit that is past its arrival and claimed its component had done so before. -/
theorem Guarded.owner_before (h : Guarded setting build owner)
    (hfound : build.visits[index]? = some visit)
    (howner : Extends owner owner' visit.component.key index) (hstage : visit.stage ≠ .arriving)
    (hown : owner' visit.component.key = some index) :
    owner visit.component.key = some index := by
  rcases howner.new _ _ hown with hold | ⟨hnone, -, -⟩
  · exact hold
  · rcases h.others index visit hfound (by simp [hnone]) with harriving | ⟨-, hsome⟩
    · exact absurd harriving hstage
    · simp [hnone] at hsome

theorem Advances.mem_children (h : Advances setting build index visit children stage next)
    (hother : next.visits[i]? = some other) (hnone : build.visits[i]? = none) :
    other ∈ children := by
  have hlength : build.visits.length ≤ i := by rwa [List.getElem?_eq_none_iff] at hnone
  have hcame := h.came (i - build.visits.length)
  rw [show build.visits.length + (i - build.visits.length) = i by omega, hother] at hcame
  exact List.mem_of_getElem? hcame.symm

/-- The visits that come up are of what the component of the visit is known to need. -/
theorem Guarded.needs_children (h : Guarded setting build owner)
    (hstep : Advances setting build index visit children stage next)
    (hother : other ∈ children) :
    owner visit.component.key = some index ∧
      ∃ deps, next.knowledge.deps[visit.component.key]? = some deps ∧
        ∃ dep ∈ deps, other.component.key = childKey setting visit.component.key dep := by
  have hfresh : ∀ {deps}, other ∈ freshVisits setting visit deps →
      ∃ dep ∈ deps, other.component.key = childKey setting visit.component.key dep := by
    intro deps hmem
    obtain ⟨component, hcomponent, rfl⟩ := List.mem_map.1 hmem
    obtain ⟨dep, hdep, rfl⟩ := List.mem_map.1 (List.mem_filter.1 hcomponent).1
    exact ⟨dep, hdep, rfl⟩
  have hmove := hstep.move
  generalize next.knowledge = knowledge at hmove ⊢
  generalize next.cache = cache at hmove
  cases hmove with
  | hit deps hstage hheld =>
      exact ⟨h.owner_eq hstep.found hstage trivial, deps, by simp, hfresh hother⟩
  | takeEntry payload warnings hstage hresponse hchild =>
      exact ⟨h.owner_eq hstep.found hstage trivial, payload.deps, by simp, hfresh hother⟩
  | writeDependency payload cache hstage hcache =>
      have hown := h.owner_eq hstep.found hstage trivial
      have hknows := (h.guards hstep.found hown).knows
      rw [hstage] at hknows
      exact ⟨hown, payload.deps, hknows, hfresh hother⟩
  | _ => cases hother

theorem Descends.advance (h : Descends setting build owner other)
    (hguarded : Guarded setting build owner)
    (hstep : Advances setting build index visit children stage next)
    (howner : Extends owner owner' visit.component.key index) :
    Descends setting next owner' other := by
  cases h with
  | asked hancestors => exact .asked hancestors
  | needed hparent hown hancestors hdeps hdep hkey =>
      obtain ⟨stage', hparent'⟩ := hstep.remains hparent
      exact .needed hparent' (howner.kept _ _ hown) hancestors (hguarded.deps_kept hstep hdeps)
        hdep hkey

theorem Claimed.advance (h : Claimed setting turns build owner)
    (hguarded : Guarded setting build owner)
    (hstep : Advances setting build index visit children stage next)
    (howner : Extends owner owner' visit.component.key index) :
    Claimed setting (⟨build, index⟩ :: turns) next owner' where
  claimed key i hown := by
    rcases howner.new key i hown with hold | ⟨hnone, rfl, rfl⟩
    · obtain ⟨turn, hturn, hclaims⟩ := h.claimed key i hold
      exact ⟨turn, List.mem_cons_of_mem _ hturn, hclaims⟩
    · exact ⟨_, List.mem_cons_self, visit, rfl, hguarded.claims hstep.found hnone, rfl⟩
  owns turn hturn found hclaims := by
    rcases List.mem_cons.1 hturn with rfl | hold
    · obtain rfl : found = visit := Option.some.inj (hclaims.1.symm.trans hstep.found)
      exact ⟨hguarded.owner_of_claims howner hclaims.2.2, stage, hstep.own⟩
    · obtain ⟨hown, stage', hvisit⟩ := h.owns turn hold found hclaims
      obtain ⟨stage'', hvisit'⟩ := hstep.remains hvisit
      exact ⟨howner.kept _ _ hown, stage'', hvisit'⟩
  descends i other hother := by
    rcases hstep.visit_cases hother with ⟨rfl, rfl⟩ | ⟨-, hkept⟩ | ⟨-, hnone, hchild⟩
    · cases (h.descends i visit hstep.found).advance hguarded hstep howner with
      | asked hancestors => exact .asked hancestors
      | needed hparent hown hancestors hdeps hdep hkey =>
          exact .needed hparent hown hancestors hdeps hdep hkey
    · exact (h.descends i other hkept).advance hguarded hstep howner
    · obtain ⟨hown, deps, hdeps, dep, hdep, hkey⟩ :=
        hguarded.needs_children hstep (hstep.mem_children hother hnone)
      exact .needed hstep.own (howner.kept _ _ hown) hchild.ancestors hdeps hdep hkey

theorem Claimed.begin (h : Claimed setting turns build owner) (components : List NamedReference) :
    Claimed setting turns (build.begin components) owner where
  claimed := h.claimed
  owns turn hturn visit hclaims := by
    obtain ⟨hown, stage, hvisit⟩ := h.owns turn hturn visit hclaims
    exact ⟨hown, stage, getElem?_begin_of_some components hvisit⟩
  descends i visit hvisit := by
    rcases getElem?_begin hvisit with hold | ⟨-, hancestors, -⟩
    · cases h.descends i visit hold with
      | asked hancestors => exact .asked hancestors
      | needed hparent hown hancestors hdeps hdep hkey =>
          exact .needed (getElem?_begin_of_some components hparent) hown hancestors hdeps hdep hkey
    · exact .asked hancestors

/-- Who claimed what is told by the turns. -/
theorem Claimed.unique (h : Claimed setting turns build owner)
    (h' : Claimed setting turns build owner') : owner = owner' := by
  funext key
  cases hown : owner key with
  | some i =>
      obtain ⟨turn, hturn, visit, rfl, hclaims, rfl⟩ := h.claimed key i hown
      exact (h'.owns turn hturn visit hclaims).1.symm
  | none =>
      cases hown' : owner' key with
      | none => rfl
      | some i =>
          obtain ⟨turn, hturn, visit, rfl, hclaims, rfl⟩ := h'.claimed key i hown'
          cases hown.symm.trans (h.owns turn hturn visit hclaims).1

/-- The last of the ancestors tells on whose account a component was claimed. -/
theorem Claimed.below_iff (h : Claimed setting turns build owner)
    (hvisit : build.visits[i]? = some visit) (hown : owner visit.component.key = some i) :
    ClaimedBelow turns key visit.component.key ↔ visit.ancestors.getLast? = some key := by
  constructor
  · rintro ⟨turn, hturn, found, hclaims, hkey, hlast⟩
    obtain ⟨hfound, stage, hvisit'⟩ := h.owns turn hturn found hclaims
    rw [hkey, hown] at hfound
    rw [← Option.some.inj hfound, hvisit] at hvisit'
    obtain rfl := Option.some.inj hvisit'
    exact hlast
  · intro hlast
    obtain ⟨turn, hturn, found, rfl, hclaims, hkey⟩ := h.claimed _ i hown
    obtain ⟨-, stage, hvisit'⟩ := h.owns turn hturn found hclaims
    obtain rfl := Option.some.inj (hvisit.symm.trans hvisit')
    exact ⟨turn, hturn, found, hclaims, hkey, hlast⟩

/-- The ancestors of the visit that claimed a component lead to it from claim to claim. -/
theorem Claimed.mem_lineage_iff (h : Claimed setting turns build owner)
    (hvisit : build.visits[i]? = some visit) (hown : owner visit.component.key = some i) :
    key ∈ visit.ancestors ++ [visit.component.key] ↔
      Relation.ReflTransGen (ClaimedBelow turns) key visit.component.key := by
  rw [List.mem_append, List.mem_singleton, Relation.ReflTransGen.cases_tail_iff, or_comm,
    eq_comm (b := key)]
  refine or_congr_right ?_
  simp only [h.below_iff hvisit hown]
  -- The ancestors of the parent are fewer, and the parent claimed its own component.
  induction hlength : visit.ancestors.length generalizing i visit with
  | zero => simp [List.length_eq_zero_iff.1 hlength]
  | succ n ih =>
      cases h.descends i visit hvisit with
      | asked hancestors =>
          rw [hancestors] at hlength
          cases hlength
      | @needed j parent deps dep hparent hownParent hancestors hdeps hdep hneeds =>
          have hn : parent.ancestors.length = n := by
            rw [hancestors, List.length_append, List.length_singleton] at hlength
            omega
          have hlineage := ih hparent hownParent hn
          rw [hancestors, List.mem_append, List.mem_singleton, hlineage, List.getLast?_concat]
          simp only [Option.some.injEq, exists_eq_right']
          rw [Relation.ReflTransGen.cases_tail_iff, or_comm, eq_comm]
          simp only [h.below_iff hparent hownParent]

end Steps

section Runs

variable {setting : BuildSetting} {start before build : Build} {turns more : List Turn}
  {cache : Cache} {disk : Disk}

theorem Run.trans (h : Run setting start turns before) (h' : Run setting before more build) :
    Run setting start (more ++ turns) build := by
  induction h' with
  | start => exact h
  | begin references _ ih => exact ih.begin references
  | step index _ hnext ih => exact ih.step index hnext

theorem Run.remains (h : Run setting start turns build) {i : Nat} {visit : Visit}
    (hvisit : start.visits[i]? = some visit) :
    ∃ stage, build.visits[i]? = some { visit with stage } := by
  induction h with
  | start => exact ⟨visit.stage, hvisit⟩
  | begin references _ ih =>
      obtain ⟨stage, hkept⟩ := ih
      exact ⟨stage, getElem?_begin_of_some _ hkept⟩
  | step index _ hnext ih =>
      obtain ⟨stage, hkept⟩ := ih
      obtain ⟨found, children, stage', hstep⟩ := exists_advances hnext
      obtain ⟨stage'', hkept'⟩ := hstep.remains hkept
      exact ⟨stage'', hkept'⟩

theorem claimed_start (setting : BuildSetting) (cache : Cache) (disk : Disk) :
    Claimed setting [] (Build.start cache disk) fun _ => none where
  claimed key i hown := nomatch hown
  owns turn hturn := nomatch hturn
  descends i visit hvisit := by simp [Build.start] at hvisit

/-- What holds of a build that some turns led to, and which visit claimed each of its components. -/
structure Tracked (setting : BuildSetting) (start : Cache) (turns : List Turn) (build : Build)
    (owner : ComponentKey → Option Nat) : Prop where
  sound : Sound setting start turns build owner
  claimed : Claimed setting turns build owner

/-- A step with what it makes of the owners. -/
structure Passage (setting : BuildSetting) (build : Build) (owner : ComponentKey → Option Nat)
    (index : Nat) (visit : Visit) (children : List Visit) (stage : Stage) (next : Build)
    (owner' : ComponentKey → Option Nat) : Prop where
  taken : build.step? setting index = some next
  advances : Advances setting build index visit children stage next
  owners : Extends owner owner' visit.component.key index
  guarded : Guarded setting next owner'

/-- What holds at the start, and is kept by every step and whenever components are asked for, holds
of each run. -/
theorem Run.invariant {motive : List Turn → Build → (ComponentKey → Option Nat) → Prop}
    (hproper : setting.workshop.naming.IsProper)
    (hstart : motive [] (Build.start cache disk) fun _ => none)
    (hbegin : ∀ {turns build owner} (references : List Reference),
      Tracked setting cache turns build owner → motive turns build owner →
        motive turns (build.begin (references.map (named setting))) owner)
    (hstep : ∀ {turns build owner index visit children stage next owner'},
      Tracked setting cache turns build owner →
        Passage setting build owner index visit children stage next owner' →
          motive turns build owner → motive (⟨build, index⟩ :: turns) next owner')
    (hrun : Run setting (Build.start cache disk) turns build) :
    ∃ owner, Tracked setting cache turns build owner ∧ motive turns build owner := by
  induction hrun with
  | start => exact ⟨_, ⟨sound_start setting cache disk, claimed_start setting cache disk⟩, hstart⟩
  | begin references hrun ih =>
      obtain ⟨owner, htracked, hmotive⟩ := ih
      exact ⟨owner, ⟨htracked.sound.begin references, htracked.claimed.begin _⟩,
        hbegin references htracked hmotive⟩
  | step index hrun hnext ih =>
      obtain ⟨owner, htracked, hmotive⟩ := ih
      obtain ⟨visit, children, stage, hadvances⟩ := exists_advances hnext
      obtain ⟨owner', hguarded, hextends⟩ := htracked.sound.guarded.advance hadvances
      exact ⟨owner',
        ⟨htracked.sound.advance hproper hnext hadvances hextends hguarded,
          htracked.claimed.advance htracked.sound.guarded hadvances hextends⟩,
        hstep htracked ⟨hnext, hadvances, hextends, hguarded⟩ hmotive⟩

theorem Run.tracked (hproper : setting.workshop.naming.IsProper)
    (hrun : Run setting (Build.start cache disk) turns build) :
    ∃ owner, Tracked setting cache turns build owner := by
  obtain ⟨owner, htracked, -⟩ := hrun.invariant (motive := fun _ _ _ => True) hproper trivial
    (fun _ _ _ => trivial) fun _ _ _ => trivial
  exact ⟨owner, htracked⟩

end Runs

end ComponentTags.Build
