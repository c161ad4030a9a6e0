import ComponentTags.Proofs.Build.Settling
import ComponentTags.Proofs.Build.Strides
import ComponentTags.Proofs.Build.Traversal

/-!
The registry of an entry. The components that an entry gathers are met in depth-first order; every one
of them has its subtree gate open by then, so none that it needs in turn is missed.
-/

namespace ComponentTags.Build

/-- What the component with that key needs, as far as is known. -/
def knownBelow (build : Build) (key : ComponentKey) : List Reference :=
  (build.knowledge.deps[key]?.getD []).map fun dep =>
    { tag := key.tag, space := dep.space, version := dep.version }

/-- How far an entry is: what it found, in depth-first order, and what is still to come. -/
structure Gathers (setting : BuildSetting) (build : Build) (owner : ComponentKey → Option Nat)
    (root : ComponentKey) (gathering : Gathering) (order : List Reference) : Prop where
  found : gathering.found = order.map setting.workshop.registration
  seen : gathering.seen = (order.map setting.workshop.naming.key).reverse ++ [root]
  opened : ∀ key ∈ gathering.seen, build.knowledge.subtrees[key]? = some .opened
  met : ∀ reference ∈ gathering.pending, (owner (setting.workshop.naming.key reference)).isSome
  completes : ∀ needs rest, (∀ key ∈ gathering.seen, needs key = build.knownBelow key) →
    DepthFirst setting.workshop.naming.key needs gathering.seen gathering.pending rest →
      DepthFirst setting.workshop.naming.key needs [root] (needs root) (order ++ rest)

/-- Every entry under way has gathered in depth-first order. -/
def AllGather (setting : BuildSetting) (build : Build) (owner : ComponentKey → Option Nat) : Prop :=
  ∀ (i : Nat) (visit : Visit) (payload : Payload) (gathering : Gathering),
    build.visits[i]? = some visit → visit.stage = .gathering payload gathering →
      ∃ order, Gathers setting build owner visit.component.key gathering order

section Steps

variable {setting : BuildSetting} {build next : Build} {owner owner' : ComponentKey → Option Nat}
  {index : Nat} {visit : Visit} {children : List Visit} {stage : Stage} {knowledge : Knowledge}
  {cache : Cache} {key root : ComponentKey} {gathering : Gathering} {order : List Reference}

theorem Move.knowledge_cases (h : Move setting build visit knowledge cache children stage) :
    knowledge = build.knowledge ∨ visit.component.key ∉ build.knowledge.nodes ∨
      ∃ node, gates? visit.stage = some (node, .closed) := by
  cases h with
  | claimKnown _ _ hkey | claimUnknown _ hkey => exact .inr (.inl hkey)
  | hit _ hstage | takeDependency _ _ hstage | takeEntry _ _ hstage | apologize hstage
  | writeDependency _ _ hstage | joinDependency _ hstage | joinEntry _ _ hstage =>
      exact .inr (.inr ⟨_, by rw [hstage]; rfl⟩)
  | _ => exact .inl rfl

/-- A subtree gate that is open stays open, and what is known of its component does not change. -/
theorem Guarded.opened (h : Guarded setting build owner)
    (hstep : Advances setting build index visit children stage next)
    (hopened : build.knowledge.subtrees[key]? = some .opened) :
    next.knowledge.subtrees[key]? = some .opened ∧
      next.knowledge.deps[key]? = build.knowledge.deps[key]? := by
  by_cases heq : key = visit.component.key
  · subst heq
    rcases hstep.move.knowledge_cases with hsame | hnew | ⟨node, hgates⟩
    · rw [hsame]
      exact ⟨hopened, rfl⟩
    · rw [← h.isSome_iff, Bool.not_eq_true, Option.isSome_eq_false_iff,
        Option.isNone_iff_eq_none] at hnew
      rw [(h.unmet _ hnew).2.1] at hopened
      cases hopened
    · have hway : IsUnderWay visit.stage := by
        revert hgates
        cases visit.stage <;> simp [gates?, IsUnderWay]
      have howner := h.owner_eq hstep.found rfl hway
      rw [((h.guards hstep.found howner).gates_eq rfl hgates).2] at hopened
      cases hopened
  · rw [hstep.move.agreesOff.subtrees key heq, hstep.move.agreesOff.deps key heq]
    exact ⟨hopened, rfl⟩

theorem Gathers.keep (h : Gathers setting build owner root gathering order)
    (hguarded : Guarded setting build owner)
    (hstep : Advances setting build index visit children stage next)
    (howner : Extends owner owner' visit.component.key index) :
    Gathers setting next owner' root gathering order := by
  have hbelow : ∀ key ∈ gathering.seen, next.knownBelow key = build.knownBelow key := by
    intro key hkey
    rw [knownBelow, knownBelow, (hguarded.opened hstep (h.opened key hkey)).2]
  refine ⟨h.found, h.seen, ?_, ?_, ?_⟩
  · intro key hkey
    exact (hguarded.opened hstep (h.opened key hkey)).1
  · intro reference hreference
    obtain ⟨i, hi⟩ := Option.isSome_iff_exists.1 (h.met reference hreference)
    simp [howner.kept _ i hi]
  · intro needs rest hneeds hrest
    exact h.completes needs rest (fun key hkey => (hneeds key hkey).trans (hbelow key hkey)) hrest

theorem gathers_start (visit : Visit) (hguarded : Guarded setting build owner)
    (hopened : build.knowledge.subtrees[visit.component.key]? = some .opened)
    {payload : Payload} (hdeps : build.knowledge.deps[visit.component.key]? = some payload.deps) :
    Gathers setting build owner visit.component.key
      { seen := [visit.component.key], found := []
        pending := payload.deps.map visit.component.reference.child } [] := by
  have hbelow : build.knownBelow visit.component.key =
      payload.deps.map visit.component.reference.child := by
    rw [knownBelow, hdeps]
    rfl
  refine ⟨rfl, rfl, ?_, ?_, ?_⟩
  · intro key hkey
    rw [List.mem_singleton] at hkey
    rw [hkey, hopened]
  · intro reference hreference
    obtain ⟨dep, hdep, rfl⟩ := List.mem_map.1 hreference
    exact hguarded.complete _ _ hopened hdeps dep hdep
  · intro needs rest hneeds hrest
    rw [hneeds _ (by simp), hbelow]
    exact hrest

theorem Gathers.pass (h : Gathers setting build owner root gathering order) {reference : Reference}
    {pending : List Reference} (hpending : gathering.pending = reference :: pending)
    (hseen : setting.workshop.naming.key reference ∈ gathering.seen) :
    Gathers setting build owner root { gathering with pending } order where
  found := h.found
  seen := h.seen
  opened := h.opened
  met other hother := h.met other (by simp [hpending, hother])
  completes needs rest hneeds hrest := by
    refine h.completes needs rest hneeds ?_
    rw [hpending]
    exact .skip hseen hrest

/-- A component that comes up first is gathered, once its subtree gate is open. -/
theorem Gathers.gather (h : Gathers setting build owner root gathering order)
    (hguarded : Guarded setting build owner) {reference : Reference} {pending : List Reference}
    (hpending : gathering.pending = reference :: pending)
    (hseen : setting.workshop.naming.key reference ∉ gathering.seen)
    (hgate : build.knowledge.subtrees[setting.workshop.naming.key reference]? ≠ some .closed) :
    Gathers setting build owner root
      { seen := setting.workshop.naming.key reference :: gathering.seen
        found := gathering.found ++ [setting.workshop.registration reference]
        pending := (build.knowledge.deps[setting.workshop.naming.key reference]?.getD []).map
          reference.child ++ pending }
      (order ++ [reference]) := by
  have hopened :
      build.knowledge.subtrees[setting.workshop.naming.key reference]? = some .opened := by
    obtain ⟨i, hi⟩ := Option.isSome_iff_exists.1 (h.met reference (by simp [hpending]))
    obtain ⟨visit, -, hkey, hguards⟩ := hguarded.owned _ i hi
    obtain ⟨node, subtree, -, -, hsubtree⟩ := hguards.gates
    rw [hkey] at hsubtree
    cases subtree with
    | closed => exact absurd hsubtree hgate
    | opened => exact hsubtree
  refine ⟨?_, ?_, ?_, ?_, ?_⟩
  · rw [h.found, List.map_append, List.map_singleton]
  · rw [h.seen, List.map_append, List.map_singleton, List.reverse_append]
    rfl
  · intro key hkey
    rcases List.mem_cons.1 hkey with rfl | hold
    · exact hopened
    · exact h.opened key hold
  · intro other hother
    rcases List.mem_append.1 hother with hchild | hold
    · obtain ⟨dep, hdep, rfl⟩ := List.mem_map.1 hchild
      cases hdeps : build.knowledge.deps[setting.workshop.naming.key reference]? with
      | none => simp [hdeps] at hdep
      | some deps =>
          rw [hdeps] at hdep
          exact hguarded.complete _ deps hopened hdeps dep hdep
    · exact h.met other (by simp [hpending, hold])
  · intro needs rest hneeds hrest
    rw [List.append_assoc]
    refine h.completes needs _ (fun key hkey => hneeds key (List.mem_cons_of_mem _ hkey)) ?_
    rw [hpending]
    refine .push hseen ?_
    rw [hneeds _ List.mem_cons_self]
    exact hrest

theorem AllGather.advance (h : AllGather setting build owner)
    (hguarded : Guarded setting build owner) (hguarded' : Guarded setting next owner')
    (hstep : Advances setting build index visit children stage next)
    (howner : Extends owner owner' visit.component.key index) :
    AllGather setting next owner' := by
  intro i other payload gathering hother hstage
  rcases hstep.visit_cases hother with ⟨rfl, rfl⟩ | ⟨-, hkept⟩ | ⟨-, -, hchild⟩
  · dsimp only at hstage ⊢
    subst hstage
    have hself := hguarded'.guards hother (hguarded'.owner_eq hother rfl trivial)
    have hsubtree := (hself.gates_eq rfl rfl).2
    have hfound := hstep.found
    have hmove := hstep.move
    generalize next.knowledge = knowledge at hmove
    generalize next.cache = cache at hmove
    cases hmove with
    | joinEntry ids payload hwas hdone =>
        exact ⟨[], gathers_start visit hguarded' hsubtree hself.knows⟩
    | pass payload gathering reference pending hwas hpending hseen =>
        obtain ⟨order, hgathers⟩ := h i visit payload gathering hfound hwas
        exact ⟨order, (hgathers.pass hpending hseen).keep hguarded hstep howner⟩
    | gather payload gathering reference pending hwas hpending hseen hgate =>
        obtain ⟨order, hgathers⟩ := h i visit payload gathering hfound hwas
        exact ⟨order ++ [reference],
          (hgathers.gather hguarded hpending hseen hgate).keep hguarded hstep howner⟩
  · obtain ⟨order, hgathers⟩ := h i other payload gathering hkept hstage
    exact ⟨order, hgathers.keep hguarded hstep howner⟩
  · rw [hchild.stage] at hstage
    cases hstage

/-! ### Whole runs -/

/-- What holds of a build that some turns led to; `start` is the cache at the start. -/
structure Sound (setting : BuildSetting) (start : Cache) (turns : List Turn) (build : Build)
    (owner : ComponentKey → Option Nat) : Prop where
  faithful : AllFaithful setting build
  counted : AllCounted build
  guarded : Guarded setting build owner
  taught : Taught setting start turns build owner
  lost : Lost setting turns build owner
  entered : Entered turns build owner
  settled : AllSettled setting turns build
  gather : AllGather setting build owner

end Steps

section Runs

variable {setting : BuildSetting} {build next : Build} {owner : ComponentKey → Option Nat}
  {start : Cache} {turns : List Turn} {index : Nat}

theorem taught_start (setting : BuildSetting) (cache : Cache) (disk : Disk) :
    Taught setting cache [] (Build.start cache disk) fun _ => none where
  learned := by
    rintro key deps (⟨hturn, -⟩ | ⟨hturn, -⟩)
    · cases hturn
    · cases hturn
  known key deps hdeps := by simp [Build.start, Knowledge.none] at hdeps
  looking i visit deps hvisit := by simp [Build.start] at hvisit
  unmet _ _ := rfl

theorem Taught.begin (h : Taught setting start turns build owner)
    (components : List NamedReference) :
    Taught setting start turns (build.begin components) owner where
  learned := h.learned
  known := h.known
  looking i visit deps hvisit hstage := by
    rcases getElem?_begin hvisit with hold | ⟨harriving, -, -⟩
    · exact h.looking i visit deps hold hstage
    · rw [harriving] at hstage
      cases hstage
  unmet := h.unmet

theorem AllGather.begin (h : AllGather setting build owner) (components : List NamedReference) :
    AllGather setting (build.begin components) owner := by
  intro i visit payload gathering hvisit hstage
  rcases getElem?_begin hvisit with hold | ⟨harriving, -, -⟩
  · obtain ⟨order, hgathers⟩ := h i visit payload gathering hold hstage
    exact ⟨order, hgathers.found, hgathers.seen, hgathers.opened, hgathers.met,
      hgathers.completes⟩
  · rw [harriving] at hstage
    cases hstage

theorem sound_start (setting : BuildSetting) (cache : Cache) (disk : Disk) :
    Sound setting cache [] (Build.start cache disk) fun _ => none where
  faithful := allFaithful_start setting cache disk
  counted i visit hvisit := by simp [Build.start] at hvisit
  guarded := guarded_start setting cache disk
  taught := taught_start setting cache disk
  lost :=
    { failed := by
        rintro key ⟨turn, hturn, -⟩
        cases hturn
      failing := fun i visit hvisit => by simp [Build.start] at hvisit }
  entered i visit hvisit := by simp [Build.start] at hvisit
  settled key hopened := by simp [Build.start, Knowledge.none] at hopened
  gather i visit payload gathering hvisit := by simp [Build.start] at hvisit

theorem Sound.begin (h : Sound setting start turns build owner) (references : List Reference) :
    Sound setting start turns (build.begin (references.map (named setting))) owner where
  faithful := h.faithful.begin references
  counted := h.counted.begin _
  guarded := h.guarded.begin _
  taught := h.taught.begin _
  lost :=
    { failed := fun key hfailed => by
        obtain ⟨i, visit, howner, hvisit, hrest⟩ := h.lost.failed key hfailed
        exact ⟨i, visit, howner, getElem?_begin_of_some _ hvisit, hrest⟩
      failing := fun i visit hvisit howner hlost => by
        rcases getElem?_begin hvisit with hold | ⟨harriving, -, -⟩
        · exact h.lost.failing i visit hold howner hlost
        · simp [harriving] at hlost }
  entered i visit hvisit howner hchild := by
    rcases getElem?_begin hvisit with hold | ⟨harriving, -, -⟩
    · exact h.entered i visit hold howner hchild
    · have hbegun := h.guarded.begin (references.map (named setting))
      exact absurd howner (hbegun.not_owner hvisit harriving rfl)
  settled := h.settled
  gather := h.gather.begin _

theorem Sound.advance (h : Sound setting start turns build owner)
    (hproper : setting.workshop.naming.IsProper)
    (hnext : build.step? setting index = some next) {visit : Visit} {children : List Visit}
    {stage : Stage} (hstep : Advances setting build index visit children stage next)
    {owner' : ComponentKey → Option Nat}
    (howner : Extends owner owner' visit.component.key index)
    (hguarded : Guarded setting next owner') :
    Sound setting start (⟨build, index⟩ :: turns) next owner' where
  faithful := h.faithful.advance hstep
  counted := h.counted.advance hstep
  guarded := hguarded
  taught := h.taught.advance h.guarded hstep howner
  lost := h.lost.advance h.guarded hstep howner
  entered := h.entered.advance h.guarded hstep howner
  settled := h.settled.advance hproper h.faithful h.counted h.guarded h.entered hnext hstep
  gather := h.gather.advance h.guarded hguarded hstep howner

theorem Sound.step (h : Sound setting start turns build owner)
    (hproper : setting.workshop.naming.IsProper)
    (hnext : build.step? setting index = some next) :
    ∃ owner', Sound setting start (⟨build, index⟩ :: turns) next owner' := by
  obtain ⟨visit, children, stage, hstep⟩ := exists_advances hnext
  obtain ⟨owner', hguarded, howner⟩ := h.guarded.advance hstep
  exact ⟨owner', h.advance hproper hnext hstep howner hguarded⟩

theorem Run.sound {cache : Cache} {disk : Disk} (hproper : setting.workshop.naming.IsProper)
    (hrun : Run setting (Build.start cache disk) turns build) :
    ∃ owner, Sound setting cache turns build owner := by
  induction hrun with
  | start => exact ⟨_, sound_start setting cache disk⟩
  | begin references hrun ih =>
      obtain ⟨owner, hsound⟩ := ih
      exact ⟨owner, hsound.begin references⟩
  | step index hrun hnext ih =>
      obtain ⟨owner, hsound⟩ := ih
      exact hsound.step hproper hnext

end Runs

/-! ### The registry -/

/-- What a component needs as its turns showed it: a component that could not be had needs nothing. -/
structure Grounds (setting : BuildSetting) (start : Cache) (turns : List Turn) (key : ComponentKey)
    (deps : List Dependency) : Prop where
  shown : Learned setting start turns key deps ∨ Failed setting turns key ∧ deps = []
  learned : ∀ other, Learned setting start turns key other → other = deps
  failed : Failed setting turns key → deps = []

/-- What the component with that key needs, as references. -/
def below (needs : ComponentKey → List Dependency) (key : ComponentKey) : List Reference :=
  (needs key).map fun dep => { tag := key.tag, space := dep.space, version := dep.version }

/--
A complete registry for the entry of a component: in depth-first order it has all that can be reached
from what the component needs, each once and never the component itself, and every module that it
imports is settled, unless that is an entry of its own.
-/
structure CompletesRegistry (setting : BuildSetting) (start : Cache) (turns : List Turn)
    (build : Build) (reference : Reference) (payload : Payload) (closure : List Registration)
    (needs : ComponentKey → List Dependency) (order : List Reference) : Prop where
  closure : closure = order.map setting.workshop.registration
  depthFirst : DepthFirst setting.workshop.naming.key (below needs)
    [setting.workshop.naming.key reference] (payload.deps.map reference.child) order
  once : (order.map setting.workshop.naming.key).Nodup
  reachable : ∀ key, key ∈ order.map setting.workshop.naming.key ↔
    key ≠ setting.workshop.naming.key reference ∧
      Relation.TransGen (Needs setting.workshop.naming.key (below needs))
        (setting.workshop.naming.key reference) key
  declared : needs (setting.workshop.naming.key reference) = payload.deps
  grounded : ∀ key, key = setting.workshop.naming.key reference ∨
    key ∈ order.map setting.workshop.naming.key → Grounds setting start turns key (needs key)
  settled : ∀ key ∈ order.map setting.workshop.naming.key,
    ClaimedEntry turns key ∨ Settled setting turns build.disk key

section Registry

variable {setting : BuildSetting} {build : Build} {owner : ComponentKey → Option Nat}
  {start : Cache} {turns : List Turn} {index : Nat} {visit : Visit} {key : ComponentKey}

/-- An open subtree gate tells that the visit of the component is over or gathers its entry. -/
theorem Guarded.stage_of_opened (h : Guarded setting build owner)
    (hopened : build.knowledge.subtrees[key]? = some .opened) :
    build.knowledge.nodes[key]? = some .opened ∧ ∃ i visit, owner key = some i ∧
      build.visits[i]? = some visit ∧ visit.component.key = key ∧
      (visit.stage = .done ∨ (build.knowledge.deps[key]?).isSome) := by
  cases howner : owner key with
  | none =>
      rw [(h.unmet key howner).2.1] at hopened
      cases hopened
  | some i =>
      obtain ⟨visit, hvisit, rfl, hguards⟩ := h.owned key i howner
      obtain ⟨node, subtree, hgates, hnode, hsubtree⟩ := hguards.gates
      rw [hopened] at hsubtree
      cases hsubtree
      have hknows := hguards.knows
      cases hstage : visit.stage with
      | gathering payload gathering =>
          rw [hstage] at hgates hknows
          cases hgates
          exact ⟨hnode, i, visit, rfl, hvisit, rfl, .inr (by rw [show _ = _ from hknows]; rfl)⟩
      | done =>
          rw [hstage] at hgates
          cases hgates
          exact ⟨hnode, i, visit, rfl, hvisit, rfl, .inl hstage⟩
      | _ =>
          rw [hstage] at hgates
          cases hgates

theorem Sound.grounds (h : Sound setting start turns build owner)
    (hopened : build.knowledge.subtrees[key]? = some .opened) :
    Grounds setting start turns key (build.knowledge.deps[key]?.getD []) := by
  refine ⟨?_, ?_, ?_⟩
  · cases hdeps : build.knowledge.deps[key]? with
    | some deps => exact .inl (h.taught.known key deps hdeps)
    | none =>
        obtain ⟨-, i, visit, howner, hvisit, rfl, hstage⟩ := h.guarded.stage_of_opened hopened
        have hdone : visit.stage = .done := hstage.resolve_right (by simp [hdeps])
        exact .inr ⟨h.lost.failing i visit hvisit howner (.inr ⟨hdone, hdeps⟩), rfl⟩
  · intro other hlearned
    rw [h.taught.learned key other hlearned]
    rfl
  · intro hfailed
    obtain ⟨i, visit, -, -, -, hdeps⟩ := h.lost.failed key hfailed
    rw [hdeps]
    rfl

theorem stage_of_entry {reference : Reference} {payload : Payload} {closure : List Registration}
    (hdeed : visit.deed? setting = some (.entry reference payload closure)) :
    reference = visit.component.reference ∧ ∃ gathering, visit.stage = .gathering payload gathering ∧
      gathering.pending = [] ∧ gathering.found = closure := by
  unfold Visit.deed? at hdeed
  split at hdeed
  · cases hdeed
  · cases hdeed
  · next payload' gathering hstage =>
      split at hdeed
      · next hpending =>
          cases hdeed
          exact ⟨rfl, gathering, hstage, hpending, rfl⟩
      · cases hdeed
  · cases hdeed

/-- When an entry is written, it has met all below it in depth-first order, every subtree gate open. -/
theorem AllGather.exists_order (h : AllGather setting build owner)
    (hfaithful : AllFaithful setting build) (hguarded : Guarded setting build owner)
    (hvisit : build.visits[index]? = some visit) {reference : Reference} {payload : Payload}
    {closure : List Registration}
    (hdeed : visit.deed? setting = some (.entry reference payload closure)) :
    ∃ order, closure = order.map setting.workshop.registration ∧
      DepthFirst setting.workshop.naming.key build.knownBelow
        [setting.workshop.naming.key reference] (payload.deps.map reference.child) order ∧
      build.knowledge.deps[setting.workshop.naming.key reference]? = some payload.deps ∧
      ∀ key, key = setting.workshop.naming.key reference ∨
        key ∈ order.map setting.workshop.naming.key →
        build.knowledge.subtrees[key]? = some .opened := by
  obtain ⟨rfl, gathering, hstage, hpending, rfl⟩ := stage_of_entry hdeed
  obtain ⟨order, hgathers⟩ := h index visit payload gathering hvisit hstage
  have hkey : setting.workshop.naming.key visit.component.reference = visit.component.key :=
    congrArg NamedReference.key (hfaithful index visit hvisit).component.symm
  have hself := hguarded.guards hvisit (hguarded.owner_eq hvisit hstage trivial)
  have hdeps : build.knowledge.deps[visit.component.key]? = some payload.deps := by
    have hknows := hself.knows
    rw [hstage] at hknows
    exact hknows
  have horder := hgathers.completes build.knownBelow [] (fun _ _ => rfl)
    (by rw [hpending]; exact .nil _)
  have hbelow : build.knownBelow visit.component.key =
      payload.deps.map visit.component.reference.child := by
    rw [knownBelow, hdeps]
    rfl
  rw [List.append_nil, hbelow] at horder
  rw [hkey]
  refine ⟨order, hgathers.found, horder, hdeps, fun key hmem => hgathers.opened key ?_⟩
  rw [hgathers.seen, List.mem_append, List.mem_reverse, List.mem_singleton]
  exact hmem.symm

/--
**The registry of an entry is complete under any order of turns.** Whenever an entry is written, its
registry has exactly what can be reached from what the component needs, in depth-first order, and the
modules that it imports are settled.
-/
theorem entry_registry_complete {dialect : Dialect} {directory : Path} {renderer start : String}
    (hworkshop : setting.workshop = .of dialect directory renderer start) {cache : Cache}
    {disk : Disk} (hrun : Run setting (Build.start cache disk) turns build)
    (hvisit : build.visits[index]? = some visit) {reference : Reference} {payload : Payload}
    {closure : List Registration}
    (hdeed : visit.deed? setting = some (.entry reference payload closure)) :
    (∃ next, build.step? setting index = some next ∧ next.disk = (build.disk.perform
      setting.workshop (some (.entry reference payload closure))).1) ∧
    ∃ needs order,
      CompletesRegistry setting cache turns build reference payload closure needs order := by
  have hproper : setting.workshop.naming.IsProper := by
    rw [hworkshop]
    exact Naming.isProper_of _ dialect start
  obtain ⟨owner, hsound⟩ := hrun.sound hproper
  obtain ⟨rfl, gathering, hstage, hpending, rfl⟩ := stage_of_entry hdeed
  refine ⟨?_, fun key => build.knowledge.deps[key]?.getD [], ?_⟩
  · have hnext : build.step? setting index = build.gather? setting index visit payload gathering := by
      rw [step?, hvisit]
      dsimp only
      rw [hstage]
    have hsome : ∃ next, build.step? setting index = some next := by
      rw [hnext, gather?, hpending]
      exact ⟨_, rfl⟩
    obtain ⟨next, hnext⟩ := hsome
    obtain ⟨found, children, stage, hstep⟩ := exists_advances hnext
    obtain rfl : visit = found := Option.some.inj (hvisit.symm.trans hstep.found)
    exact ⟨next, hnext, by rw [hstep.disk, hdeed]⟩
  · obtain ⟨order, hclosure, horder, hdeps, hopened⟩ :=
      hsound.gather.exists_order hsound.faithful hsound.guarded hvisit hdeed
    have hbelow : payload.deps.map visit.component.reference.child =
        build.knownBelow (setting.workshop.naming.key visit.component.reference) := by
      rw [knownBelow, hdeps]
      rfl
    refine ⟨order, hclosure, horder, horder.nodup.1, ?_, by rw [hdeps]; rfl, ?_, ?_⟩
    · rw [hbelow] at horder
      exact fun key => horder.mem_iff_reachable key
    · exact fun key hmem => hsound.grounds (hopened key hmem)
    · intro key hmem
      exact hsound.settled key (hsound.guarded.stage_of_opened (hopened key (.inr hmem))).1

/-- A setting in which the component `app` needs the component `menu`. -/
def menuSetting : BuildSetting where
  workshop := .of .jsx ⟨"/w"⟩ "r" "c"
  registry := { rules := (∅ : TextMap TagRule).insert "ui" { keyword := "def", api := default } }
  endpoint request :=
    let deps := if request.reference.space = "app" then [⟨"menu", "1"⟩] else []
    some (.ok ({ runtime := "function () \x7b\x7d", deps }, []))
  slots := 4
  timeout := 1000

theorem isReady_menuSetting : IsReady menuSetting [] .empty where
  isProper := Naming.isProper_of _ .jsx "c"
  endsPlain := Path.endsPlain_join ⟨"/w"⟩ ⟨by decide, by decide, by decide, by decide⟩
  isNear := ⟨by decide, by decide +kernel⟩
  hasRoom :=
    { isTidy := ⟨Disk.isTree_empty, .inl (by decide)⟩
      made := by decide
      free := fun name => by simp [Disk.empty, Disk.entry?] }
  holds := nofun

/-- The build of `app` before its first turn. -/
def menuOpening : Build :=
  (Build.start .inMemory .empty).begin ([⟨"ui", "app", "1"⟩].map (named menuSetting))

theorem allFaithful_menuOpening : AllFaithful menuSetting menuOpening :=
  (allFaithful_start menuSetting .inMemory .empty).begin [⟨"ui", "app", "1"⟩]

/-- The build of `app` when its entry is about to be written. -/
def menuBuild : Build :=
  ((Build.start .inMemory .empty).begin ([⟨"ui", "app", "1"⟩].map (named menuSetting))).sweep
    menuSetting [0, 0, 0, 1, 1, 1, 1, 1, 0, 0]

set_option maxRecDepth 100000 in
theorem entry_registry_complete_of_menu :
    ∃ turns, Run menuSetting (Build.start .inMemory .empty) turns menuBuild ∧
      ∃ needs order, CompletesRegistry menuSetting .inMemory turns menuBuild ⟨"ui", "app", "1"⟩
        { runtime := "function () \x7b\x7d", deps := [⟨"menu", "1"⟩] }
        [menuSetting.workshop.registration ⟨"ui", "menu", "1"⟩] needs order := by
  have hstart : Run menuSetting (Build.start .inMemory .empty) [] (Build.start .inMemory .empty) :=
    .start
  obtain ⟨turns, hrun⟩ := (hstart.begin [⟨"ui", "app", "1"⟩]).exists_sweep
    [0, 0, 0, 1, 1, 1, 1, 1, 0, 0]
  have hstrides : (strides? menuSetting [] menuOpening [0, 0, 0, 1, 1, 1, 1, 1, 0, 0]).any
      (fun last => (last.visits[0]?.bind (Visit.deed? menuSetting)) = some (.entry ⟨"ui", "app", "1"⟩
        { runtime := "function () \x7b\x7d", deps := [⟨"menu", "1"⟩] }
        [menuSetting.workshop.registration ⟨"ui", "menu", "1"⟩])) = true := by
    decide +kernel
  obtain ⟨last, disk, hlast, hsweep, -⟩ :=
    isReady_menuSetting.exists_last allFaithful_menuOpening hstrides
  have hentry : (menuBuild.visits[0]?.bind (Visit.deed? menuSetting)) =
      some (.entry ⟨"ui", "app", "1"⟩
        { runtime := "function () \x7b\x7d", deps := [⟨"menu", "1"⟩] }
        [menuSetting.workshop.registration ⟨"ui", "menu", "1"⟩]) := by
    rw [menuBuild, ← menuOpening, hsweep]
    exact of_decide_eq_true hlast
  obtain ⟨visit, hvisit, hdeed⟩ := Option.bind_eq_some_iff.1 hentry
  exact ⟨turns, hrun, (entry_registry_complete rfl hrun hvisit hdeed).2⟩

end Registry

end ComponentTags.Build
