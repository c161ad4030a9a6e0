import Mathlib.Algebra.GroupWithZero.Nat
import Mathlib.Data.Set.Finite.Basic
import Mathlib.Logic.Relation
import ComponentTags.Proofs.Build.Progress
import ComponentTags.Proofs.Build.ServedModules

/-!
Endings. A component is visited below another one only once, and only what can be needed is visited. If
that is finite, a build has a potential that every step lowers: each component that was not met yet is
worth more than all that its visit can still do, and an entry gathers no component twice.
-/

namespace ComponentTags.Build

/-- What a component needs as the cache at the start or the endpoint tells. -/
def Tells (setting : BuildSetting) (cache : Cache) (reference : Reference)
    (deps : List Dependency) : Prop :=
  cache.get? (setting.workshop.naming.key reference) = some { success := true, deps } ∨
    ∃ payload, Serves setting reference payload ∧ payload.deps = deps

/-- One component may come to need another one. -/
def MayNeed (setting : BuildSetting) (cache : Cache) (first second : Reference) : Prop :=
  ∃ deps, Tells setting cache first deps ∧ ∃ dep ∈ deps, second = first.child dep

/-- What is known of a component, and what an entry has still to see, was told. -/
structure AllTold (setting : BuildSetting) (cache : Cache) (build : Build) : Prop where
  known : ∀ key deps, build.knowledge.deps[key]? = some deps →
    ∃ visit ∈ build.visits, visit.component.key = key ∧
      Tells setting cache visit.component.reference deps
  looking : ∀ visit ∈ build.visits, ∀ deps, visit.stage = .looking deps →
    Tells setting cache visit.component.reference deps
  pending : ∀ visit ∈ build.visits, ∀ payload gathering, visit.stage = .gathering payload gathering →
    ∀ reference ∈ gathering.pending, ∃ other ∈ build.visits,
      MayNeed setting cache other.component.reference reference
  unmet : ∀ key, key ∉ build.knowledge.nodes → build.cache.get? key = cache.get? key

section Told

variable {setting : BuildSetting} {start cache : Cache} {build next : Build} {index i : Nat}
  {visit other : Visit} {children : List Visit} {stage : Stage} {knowledge : Knowledge}
  {turns : List Turn} {disk : Disk}

theorem IsFaithful.tells (h : IsFaithful setting visit) {payload : Payload}
    (hpayload : payload? visit.stage = some payload) :
    Tells setting cache visit.component.reference payload.deps := by
  obtain ⟨warnings, hresponse⟩ := h.answered payload hpayload
  exact .inr ⟨payload, serves_of_response h.component hresponse, rfl⟩

theorem IsFaithful.key (h : IsFaithful setting visit) :
    setting.workshop.naming.key visit.component.reference = visit.component.key :=
  congrArg NamedReference.key h.component.symm

theorem IsFaithful.tag (h : IsFaithful setting visit) :
    visit.component.key.tag = visit.component.reference.tag := by
  rw [← h.key]
  rfl

theorem Tells.mayNeed {reference : Reference} {deps : List Dependency}
    (h : Tells setting cache reference deps) {dep : Dependency} (hdep : dep ∈ deps) :
    MayNeed setting cache reference (reference.child dep) :=
  ⟨deps, h, dep, hdep, rfl⟩

theorem exists_dep_of_mem_freshVisits {deps : List Dependency} {child : Visit}
    (h : child ∈ freshVisits setting visit deps) :
    ∃ dep ∈ deps, child.component = named setting (visit.component.reference.child dep) := by
  obtain ⟨component, hcomponent, rfl⟩ := List.mem_map.1 h
  obtain ⟨dep, hdep, rfl⟩ := List.mem_map.1 (List.mem_filter.1 hcomponent).1
  exact ⟨dep, hdep, rfl⟩

theorem child_eq_of_tag {first second : Reference} (h : first.tag = second.tag)
    (dep : Dependency) : first.child dep = second.child dep := by
  rw [Reference.child, Reference.child, h]

/-- Every visit of a build goes on, for the same component. -/
theorem Advances.exists_mem (h : Advances setting build index visit children stage next)
    (hother : other ∈ build.visits) : ∃ later ∈ next.visits, later.component = other.component := by
  obtain ⟨i, hi⟩ := List.mem_iff_getElem?.1 hother
  obtain ⟨stage', hlater⟩ := h.remains hi
  exact ⟨_, List.mem_of_getElem? hlater, rfl⟩

theorem Advances.mem_cases (h : Advances setting build index visit children stage next)
    (hother : other ∈ next.visits) :
    other = { visit with stage } ∨ other ∈ build.visits ∨ IsChildOf setting visit other := by
  obtain ⟨i, hi⟩ := List.mem_iff_getElem?.1 hother
  rcases h.visit_cases hi with ⟨-, rfl⟩ | ⟨-, hkept⟩ | ⟨-, -, hchild⟩
  · exact .inl rfl
  · exact .inr (.inl (List.mem_of_getElem? hkept))
  · exact .inr (.inr hchild)

theorem AllTold.known_advance (h : AllTold setting start build)
    (hfaithful : AllFaithful setting build)
    (hstep : Advances setting build index visit children stage next) {key : ComponentKey}
    {deps : List Dependency} (hdeps : next.knowledge.deps[key]? = some deps) :
    ∃ other ∈ next.visits, other.component.key = key ∧
      Tells setting start other.component.reference deps := by
  have hold : build.knowledge.deps[key]? = some deps → ∃ other ∈ next.visits,
      other.component.key = key ∧ Tells setting start other.component.reference deps := by
    intro hdeps
    obtain ⟨other, hother, hkey, htells⟩ := h.known key deps hdeps
    obtain ⟨later, hlater, hcomponent⟩ := hstep.exists_mem hother
    exact ⟨later, hlater, by rw [hcomponent, hkey], by rw [hcomponent]; exact htells⟩
  by_cases heq : key = visit.component.key
  · subst heq
    rcases hstep.move.deps_cases with hsame | ⟨deps', hdeps', hshown⟩
    · rw [hsame] at hdeps
      exact hold hdeps
    · obtain rfl : deps' = deps := Option.some.inj (hdeps'.symm.trans hdeps)
      refine ⟨{ visit with stage }, List.mem_of_getElem? hstep.own, rfl, ?_⟩
      rcases hshown with ⟨hlooking, -⟩ | ⟨-, payload, warnings, hresponse, rfl⟩
      · exact h.looking visit (List.mem_of_getElem? hstep.found) deps' hlooking
      · exact .inr ⟨payload,
          serves_of_response (hfaithful index visit hstep.found).component hresponse, rfl⟩
  · rw [hstep.move.agreesOff.deps key heq] at hdeps
    exact hold hdeps

theorem AllTold.pending_advance (h : AllTold setting start build)
    (hfaithful : AllFaithful setting build)
    (hstep : Advances setting build index visit children stage next) {payload : Payload}
    {gathering : Gathering} (hstage : stage = .gathering payload gathering) {reference : Reference}
    (hreference : reference ∈ gathering.pending) :
    ∃ other ∈ build.visits, MayNeed setting start other.component.reference reference := by
  have hmem := List.mem_of_getElem? hstep.found
  have hmove := hstep.move
  subst hstage
  generalize next.knowledge = knowledge at hmove
  generalize next.cache = cache at hmove
  cases hmove with
  | joinEntry ids payload hwas hdone =>
      obtain ⟨dep, hdep, rfl⟩ := List.mem_map.1 hreference
      have htells : Tells setting start visit.component.reference payload.deps :=
        (hfaithful index visit hstep.found).tells (by rw [hwas]; rfl)
      exact ⟨visit, hmem, htells.mayNeed hdep⟩
  | pass payload gathering first pending hwas hpending hseen =>
      exact h.pending visit hmem payload gathering hwas reference (by simp_all)
  | gather payload gathering first pending hwas hpending hseen hgate =>
      rcases List.mem_append.1 hreference with hbelow | hlater
      · obtain ⟨dep, hdep, rfl⟩ := List.mem_map.1 hbelow
        cases hdeps : build.knowledge.deps[(named setting first).key]? with
        | none => simp [hdeps] at hdep
        | some deps =>
            rw [hdeps] at hdep
            obtain ⟨other, hother, hkey, htells⟩ := h.known _ deps hdeps
            obtain ⟨j, hj⟩ := List.mem_iff_getElem?.1 hother
            have htag : first.tag = other.component.reference.tag := by
              rw [← (hfaithful j other hj).tag, hkey]
              rfl
            rw [child_eq_of_tag htag]
            exact ⟨other, hother, htells.mayNeed hdep⟩
      · exact h.pending visit hmem payload gathering hwas reference (by simp_all)

theorem AllTold.looking_advance (h : AllTold setting start build)
    (hfaithful : AllFaithful setting build)
    (hstep : Advances setting build index visit children stage next) {deps : List Dependency}
    (hstage : stage = .looking deps) : Tells setting start visit.component.reference deps := by
  have hmove := hstep.move
  subst hstage
  obtain ⟨hnew, hcache⟩ := hmove.looking
  refine .inl ?_
  rw [(hfaithful index visit hstep.found).key, ← h.unmet _ hnew]
  exact hcache

theorem AllTold.unmet_advance (h : AllTold setting start build) {owner owner' : ComponentKey → Option Nat}
    (hguarded : Guarded setting build owner) (hguarded' : Guarded setting next owner')
    (hstep : Advances setting build index visit children stage next)
    (howner : Extends owner owner' visit.component.key index) {key : ComponentKey}
    (hkey : key ∉ next.knowledge.nodes) : next.cache.get? key = start.get? key := by
  have hnone : owner' key = none := by
    simpa using mt (hguarded'.isSome_iff key).1 hkey
  obtain ⟨hold, hne⟩ := howner.of_none hnone
  rw [hstep.move.cache_get? hne]
  refine h.unmet key ?_
  rw [← hguarded.isSome_iff, hold]
  simp

theorem AllTold.advance (h : AllTold setting start build) (hfaithful : AllFaithful setting build)
    {owner owner' : ComponentKey → Option Nat} (hguarded : Guarded setting build owner)
    (hguarded' : Guarded setting next owner')
    (hstep : Advances setting build index visit children stage next)
    (howner : Extends owner owner' visit.component.key index) : AllTold setting start next where
  known key deps hdeps := h.known_advance hfaithful hstep hdeps
  looking other hother deps hstage := by
    rcases hstep.mem_cases hother with rfl | hold | hchild
    · exact h.looking_advance hfaithful hstep hstage
    · exact h.looking other hold deps hstage
    · rw [hchild.stage] at hstage
      cases hstage
  pending other hother payload gathering hstage reference hreference := by
    have hpast : ∃ other ∈ build.visits,
        MayNeed setting start other.component.reference reference := by
      rcases hstep.mem_cases hother with rfl | hold | hchild
      · exact h.pending_advance hfaithful hstep hstage hreference
      · exact h.pending other hold payload gathering hstage reference hreference
      · rw [hchild.stage] at hstage
        cases hstage
    obtain ⟨earlier, hearlier, hneeds⟩ := hpast
    obtain ⟨later, hlater, hcomponent⟩ := hstep.exists_mem hearlier
    exact ⟨later, hlater, by rw [hcomponent]; exact hneeds⟩
  unmet _ hkey := h.unmet_advance hguarded hguarded' hstep howner hkey

theorem AllTold.begin (h : AllTold setting start build) (components : List NamedReference) :
    AllTold setting start (build.begin components) := by
  have hmem : ∀ visit ∈ (build.begin components).visits,
      visit ∈ build.visits ∨ visit.stage = .arriving := by
    intro visit hvisit
    obtain ⟨i, hi⟩ := List.mem_iff_getElem?.1 hvisit
    exact (getElem?_begin hi).imp List.mem_of_getElem? And.left
  have hkept : ∀ visit ∈ build.visits, visit ∈ (build.begin components).visits :=
    fun visit hvisit => List.mem_append_left _ hvisit
  refine ⟨?_, ?_, ?_, h.unmet⟩
  · intro key deps hdeps
    obtain ⟨visit, hvisit, htells⟩ := h.known key deps hdeps
    exact ⟨visit, hkept visit hvisit, htells⟩
  · intro visit hvisit deps hstage
    rcases hmem visit hvisit with hold | harriving
    · exact h.looking visit hold deps hstage
    · rw [harriving] at hstage
      cases hstage
  · intro visit hvisit payload gathering hstage reference hreference
    rcases hmem visit hvisit with hold | harriving
    · obtain ⟨other, hother, hneeds⟩ :=
        h.pending visit hold payload gathering hstage reference hreference
      exact ⟨other, hkept other hother, hneeds⟩
    · rw [harriving] at hstage
      cases hstage

theorem allTold_start (setting : BuildSetting) (cache : Cache) (disk : Disk) :
    AllTold setting cache (Build.start cache disk) where
  known key deps hdeps := by simp [Build.start, Knowledge.none] at hdeps
  looking visit hvisit := by simp [Build.start] at hvisit
  pending visit hvisit := by simp [Build.start] at hvisit
  unmet _ _ := rfl

theorem Run.allTold (hrun : Run setting (Build.start start disk) turns build) :
    AllTold setting start build := by
  induction hrun with
  | start => exact allTold_start setting start disk
  | begin references hrun ih => exact ih.begin _
  | step index hrun hnext ih =>
      obtain ⟨visit, children, stage, hstep⟩ := exists_advances hnext
      obtain ⟨owner, hguarded⟩ := hrun.guarded
      obtain ⟨owner', hguarded', howner⟩ := hguarded.advance hstep
      exact ih.advance hrun.allFaithful hguarded hguarded' hstep howner

end Told

/-! ### The potential -/

/-- Some references that are all that may come up, and the most that one of them needs. -/
structure Range (setting : BuildSetting) (cache : Cache) where
  all : List Reference
  most : Nat
  closed : ∀ reference ∈ all, ∀ other, MayNeed setting cache reference other → other ∈ all
  length_le : ∀ reference ∈ all, ∀ deps, Tells setting cache reference deps → deps.length ≤ most

namespace Range

variable {setting : BuildSetting} {cache : Cache}

def keys (range : Range setting cache) : List ComponentKey :=
  range.all.map setting.workshop.naming.key

/-- How many keys of the range fail a test. -/
def left (range : Range setting cache) (isSeen : ComponentKey → Bool) : Nat :=
  range.keys.countP fun key => !isSeen key

/-- What an entry has still to do that is about to gather. -/
def gatherWeight (range : Range setting cache) (gathering : Gathering) : Nat :=
  range.left gathering.seen.contains * (range.most + 1) + gathering.pending.length + 1

/-- What an owner has still to do that waits for its children. -/
def joinWeight (range : Range setting cache) : Nat :=
  range.keys.length * (range.most + 1) + range.most + 2

/-- What a visit has still to do, with the children that it may bring up. -/
def weight (range : Range setting cache) (visit : Visit) : Nat :=
  match visit.stage with
  | .arriving => 2
  | .waiting => 1
  | .looking _ => range.joinWeight + 2 * range.most + 4
  | .queued => range.joinWeight + 2 * range.most + 3
  | .requesting => range.joinWeight + 2 * range.most + 2
  | .failing => 1
  | .writing _ => range.joinWeight + 2 * range.most + 1
  | .joining _ _ => range.joinWeight
  | .gathering _ gathering => range.gatherWeight gathering
  | .done => 0

/-- How many steps a build can still take. -/
def potential (range : Range setting cache) (build : Build) : Nat :=
  range.left build.knowledge.nodes.contains * (range.joinWeight + 2 * range.most + 4) +
    (build.visits.map range.weight).sum

theorem left_lt (range : Range setting cache) (key : ComponentKey)
    {isSeen isSeen' : ComponentKey → Bool}
    (hmono : ∀ key, isSeen key = true → isSeen' key = true)
    (hkey : key ∈ range.keys) (hnew : isSeen key = false) (hseen : isSeen' key = true) :
    range.left isSeen' < range.left isSeen := by
  unfold left
  generalize range.keys = keys at hkey
  have hle : ∀ keys : List ComponentKey,
      (keys.countP fun key => !isSeen' key) ≤ keys.countP fun key => !isSeen key := by
    intro keys
    refine List.countP_mono_left fun other _ hother => ?_
    cases h : isSeen other with
    | false => rfl
    | true => simp [hmono other h] at hother
  induction keys with
  | nil => cases hkey
  | cons first keys ih =>
      rw [List.countP_cons, List.countP_cons]
      rcases List.mem_cons.1 hkey with rfl | hrest
      · simp only [hnew, hseen]
        have := hle keys
        simp
        omega
      · have hfirst : (if (!isSeen' first) = true then 1 else 0) ≤
            if (!isSeen first) = true then 1 else 0 := by
          cases h : isSeen first with
          | false => split <;> simp
          | true => simp [hmono first h]
        have := ih hrest
        omega

theorem left_le (range : Range setting cache) (isSeen : ComponentKey → Bool) :
    range.left isSeen ≤ range.keys.length :=
  List.countP_le_length

theorem left_mono (range : Range setting cache) {isSeen isSeen' : ComponentKey → Bool}
    (hmono : ∀ key, isSeen key = true → isSeen' key = true) : range.left isSeen' ≤ range.left isSeen := by
  refine List.countP_mono_left fun other _ hother => ?_
  cases h : isSeen other with
  | false => rfl
  | true => simp [hmono other h] at hother

/-! What a step makes of the potential. -/

variable {build next : Build} {index : Nat} {visit : Visit} {children : List Visit} {stage : Stage}
  {knowledge : Knowledge} {cache' : Cache} {owner owner' : ComponentKey → Option Nat}

theorem sum_modify {α : Type} (measure : α → Nat) (change : α → α) {items : List α} {i : Nat}
    {item : α} (h : items[i]? = some item) :
    ((items.modify i change).map measure).sum + measure item =
      (items.map measure).sum + measure (change item) := by
  induction items generalizing i with
  | nil => simp at h
  | cons first items ih =>
      cases i with
      | zero =>
          obtain rfl : first = item := by simpa using h
          simp only [List.modify_zero_cons, List.map_cons, List.sum_cons]
          omega
      | succ i =>
          have := ih (by simpa using h)
          simp only [List.modify_succ_cons, List.map_cons, List.sum_cons]
          omega

theorem length_freshVisits_le (setting : BuildSetting) (visit : Visit) (deps : List Dependency) :
    (freshVisits setting visit deps).length ≤ deps.length := by
  rw [freshVisits, List.length_map]
  exact (List.length_filter_le _ _).trans (by simp)

theorem sum_visits (range : Range setting cache)
    (hstep : Advances setting build index visit children stage next) :
    (next.visits.map range.weight).sum + range.weight visit =
      (build.visits.map range.weight).sum + 2 * children.length +
        range.weight { visit with stage } := by
  have hfound : (build.visits ++ children)[index]? = some visit := by
    rw [List.getElem?_append_left hstep.index_lt, hstep.found]
  have hchildren : (children.map range.weight).sum = 2 * children.length := by
    have hall : ∀ child ∈ children, range.weight child = 2 := by
      intro child hchild
      rw [weight, (hstep.move.isChildOf hchild).stage]
    clear hfound hstep
    induction children with
    | nil => rfl
    | cons child children ih =>
        rw [List.map_cons, List.sum_cons, hall child List.mem_cons_self,
          ih fun other hother => hall other (List.mem_cons_of_mem _ hother), List.length_cons]
        omega
  have hsum := sum_modify range.weight (fun other => { other with stage }) hfound
  rw [hstep.visits, hsum, List.map_append, List.sum_append, hchildren]

/-- A visit that gathers one more component has seen one more of the range. -/
theorem gatherWeight_lt (range : Range setting cache) {gathering : Gathering} {reference : Reference}
    {pending : List Reference} {deps : List Dependency}
    (hpending : gathering.pending = reference :: pending) (hreference : reference ∈ range.all)
    (hseen : (named setting reference).key ∉ gathering.seen) (hdeps : deps.length ≤ range.most) :
    range.gatherWeight
        { seen := (named setting reference).key :: gathering.seen
          found := gathering.found ++ [.of reference (named setting reference).identity]
          pending := deps.map reference.child ++ pending } < range.gatherWeight gathering := by
  have hlt : range.left ((named setting reference).key :: gathering.seen).contains <
      range.left gathering.seen.contains := by
    refine range.left_lt (named setting reference).key ?_ ?_ ?_ ?_
    · intro key hkey
      simp only [List.contains_eq_mem, decide_eq_true_eq] at hkey ⊢
      exact List.mem_cons_of_mem _ hkey
    · exact List.mem_map_of_mem hreference
    · simpa using hseen
    · simp
  have hmul := Nat.mul_le_mul_right (range.most + 1) hlt
  rw [Nat.succ_mul] at hmul
  unfold gatherWeight
  simp only [hpending, List.length_append, List.length_map, List.length_cons]
  omega

/-- What a visit does and what its children are worth together is less than what it had to do. -/
theorem weight_lt (range : Range setting cache)
    (hall : ∀ visit ∈ build.visits, visit.component.reference ∈ range.all)
    (htold : AllTold setting cache build) (hfaithful : IsFaithful setting visit)
    (hvisit : visit ∈ build.visits)
    (hmove : Move setting build visit knowledge cache' children stage)
    (hold : visit.stage = .arriving → visit.component.key ∈ build.knowledge.nodes) :
    2 * children.length + range.weight { visit with stage } < range.weight visit := by
  have hmost : ∀ deps, Tells setting cache visit.component.reference deps →
      (freshVisits setting visit deps).length ≤ range.most := fun deps hdeps =>
    (length_freshVisits_le setting visit deps).trans
      (range.length_le _ (hall visit hvisit) deps hdeps)
  cases hmove with
  | wait hstage hkey => simp [weight, hstage]
  | claimKnown deps hstage hkey hcache => exact absurd (hold hstage) hkey
  | claimUnknown hstage hkey => exact absurd (hold hstage) hkey
  | release hstage hgate => simp [weight, hstage]
  | hit deps hstage hheld =>
      have := hmost deps (htold.looking visit hvisit deps hstage)
      simp only [weight, hstage, joiningStage]
      omega
  | miss deps hstage hheld => simp [weight, hstage]
  | lack hstage hrule =>
      simp only [weight, hstage, List.length_nil]
      omega
  | send hstage hrule => simp [weight, hstage]
  | refuse failure hstage hresponse =>
      simp only [weight, hstage, List.length_nil]
      omega
  | takeDependency payload warnings hstage hresponse hchild => simp [weight, hstage]
  | takeEntry payload warnings hstage hresponse hchild =>
      have := hmost payload.deps
        (.inr ⟨payload, serves_of_response hfaithful.component hresponse, rfl⟩)
      simp only [weight, hstage, joiningStage]
      omega
  | apologize hstage => simp [weight, hstage]
  | writeDependency payload cache' hstage hcache =>
      have := hmost payload.deps (hfaithful.tells (by rw [hstage]; rfl))
      simp only [weight, hstage, joiningStage]
      omega
  | joinDependency ids hstage hdone => simp [weight, hstage, joinWeight]
  | joinEntry ids payload hstage hdone =>
      have hdeps := range.length_le _ (hall visit hvisit) payload.deps
        (hfaithful.tells (by rw [hstage]; rfl))
      have hleft := Nat.mul_le_mul_right (range.most + 1)
        (range.left_le [visit.component.key].contains)
      simp only [weight, hstage, gatherWeight, joinWeight, List.length_map, List.length_nil]
      omega
  | pass payload gathering reference pending hstage hpending hseen =>
      simp [weight, hstage, gatherWeight, hpending]
  | gather payload gathering reference pending hstage hpending hseen hgate =>
      obtain ⟨other, hother, hneeds⟩ :=
        htold.pending visit hvisit payload gathering hstage reference (by simp [hpending])
      have hreference := range.closed _ (hall other hother) reference hneeds
      simp only [weight, hstage, List.length_nil, Nat.mul_zero, Nat.zero_add]
      refine range.gatherWeight_lt hpending hreference hseen ?_
      cases hdeps : build.knowledge.deps[(named setting reference).key]? with
      | none => simp
      | some deps =>
          obtain ⟨known, hknown, -, htells⟩ := htold.known _ deps hdeps
          exact range.length_le _ (hall known hknown) deps htells
  | writeEntry payload gathering cache' hstage hpending hcache =>
      simp [weight, hstage, gatherWeight]

/-- **Every step lowers the potential.** -/
theorem potential_lt (range : Range setting cache)
    (hall : ∀ visit ∈ build.visits, visit.component.reference ∈ range.all)
    (htold : AllTold setting cache build) (hfaithful : AllFaithful setting build)
    (hguarded : Guarded setting build owner) (hguarded' : Guarded setting next owner')
    (hstep : Advances setting build index visit children stage next)
    (howner : Extends owner owner' visit.component.key index) :
    range.potential next < range.potential build := by
  have hvisit := List.mem_of_getElem? hstep.found
  have hsum := range.sum_visits hstep
  have hmono : ∀ key, build.knowledge.nodes.contains key = true →
      next.knowledge.nodes.contains key = true := by
    intro key hkey
    rw [Std.ExtTreeMap.contains_iff_mem] at hkey ⊢
    rw [← hguarded.isSome_iff] at hkey
    rw [← hguarded'.isSome_iff]
    obtain ⟨i, hi⟩ := Option.isSome_iff_exists.1 hkey
    simp [howner.kept key i hi]
  have hself : next.knowledge.nodes.contains visit.component.key = true := by
    rw [Std.ExtTreeMap.contains_iff_mem, ← hguarded'.isSome_iff]
    exact howner.met
  unfold potential
  by_cases hnew : visit.stage = .arriving ∧ visit.component.key ∉ build.knowledge.nodes
  · obtain ⟨harriving, hkey⟩ := hnew
    have hlt := range.left_lt visit.component.key hmono
      (List.mem_map.2 ⟨_, hall visit hvisit, (hfaithful index visit hstep.found).key⟩)
      (by rwa [← Bool.not_eq_true, Std.ExtTreeMap.contains_iff_mem]) hself
    have hmul := Nat.mul_le_mul_right (range.joinWeight + 2 * range.most + 4) hlt
    rw [Nat.succ_mul] at hmul
    have hmove := hstep.move
    have hweight : 2 * children.length + range.weight { visit with stage } ≤
        range.joinWeight + 2 * range.most + 4 := by
      generalize next.knowledge = knowledge at hmove
      generalize next.cache = cache at hmove
      cases hmove with
      | wait hstage hold => exact absurd hold hkey
      | claimKnown | claimUnknown => simp [weight]
      | _ => simp_all
    have htwo : range.weight visit = 2 := by rw [weight, harriving]
    omega
  · have hle := Nat.mul_le_mul_right (range.joinWeight + 2 * range.most + 4)
      (range.left_mono hmono)
    have hlt := range.weight_lt hall htold (hfaithful index visit hstep.found) hvisit hstep.move
      fun harriving => Classical.byContradiction fun hkey => hnew ⟨harriving, hkey⟩
    omega

end Range

/-! ### Builds end -/

section Runs

variable {setting : BuildSetting} {cache : Cache} {disk : Disk} {build next : Build}
  {turns : List Turn}

theorem Serves.unique {reference : Reference} {payload other : Payload}
    (h : Serves setting reference payload) (h' : Serves setting reference other) :
    payload = other := by
  obtain ⟨rule, warnings, hrule, hanswer⟩ := h
  obtain ⟨rule', warnings', hrule', hanswer'⟩ := h'
  obtain rfl : rule = rule' := Option.some.inj (hrule.symm.trans hrule')
  have heq := Except.ok.inj (Option.some.inj (hanswer.symm.trans hanswer'))
  exact congrArg Prod.fst heq

theorem exists_length_le (setting : BuildSetting) (cache : Cache) (reference : Reference) :
    ∃ most, ∀ deps, Tells setting cache reference deps → deps.length ≤ most := by
  have hcached : ∃ most, ∀ deps, cache.get? (setting.workshop.naming.key reference) =
      some { success := true, deps } → deps.length ≤ most := by
    cases hentry : cache.get? (setting.workshop.naming.key reference) with
    | none => exact ⟨0, nofun⟩
    | some entry =>
        refine ⟨entry.deps.length, fun deps heq => ?_⟩
        rw [Option.some.inj heq]
  have hserved : ∃ most, ∀ payload, Serves setting reference payload →
      payload.deps.length ≤ most := by
    by_cases hsome : ∃ payload, Serves setting reference payload
    · obtain ⟨payload, hpayload⟩ := hsome
      exact ⟨payload.deps.length, fun other hother => by rw [hpayload.unique hother]⟩
    · exact ⟨0, fun payload hpayload => absurd ⟨payload, hpayload⟩ hsome⟩
  obtain ⟨first, hfirst⟩ := hcached
  obtain ⟨second, hsecond⟩ := hserved
  refine ⟨first + second, ?_⟩
  rintro deps (hentry | ⟨payload, hpayload, rfl⟩)
  · have := hfirst deps hentry
    omega
  · have := hsecond payload hpayload
    omega

theorem exists_range (roots : List Reference) (hfinite : ∀ root ∈ roots,
      {reference | Relation.ReflTransGen (MayNeed setting cache) root reference}.Finite) :
    ∃ range : Range setting cache, ∀ root ∈ roots, root ∈ range.all := by
  have hreached : ∃ all : List Reference, ∀ reference, reference ∈ all ↔
      ∃ root ∈ roots, Relation.ReflTransGen (MayNeed setting cache) root reference := by
    induction roots with
    | nil => exact ⟨[], by simp⟩
    | cons root roots ih =>
        obtain ⟨all, hall⟩ := ih fun other hother => hfinite other (List.mem_cons_of_mem _ hother)
        refine ⟨(hfinite root List.mem_cons_self).toFinset.toList ++ all, fun reference => ?_⟩
        simp [hall]
  obtain ⟨all, hall⟩ := hreached
  have hmost : ∀ references : List Reference, ∃ most, ∀ reference ∈ references, ∀ deps,
      Tells setting cache reference deps → deps.length ≤ most := by
    intro references
    induction references with
    | nil => exact ⟨0, by simp⟩
    | cons reference references ih =>
        obtain ⟨first, hfirst⟩ := exists_length_le setting cache reference
        obtain ⟨rest, hrest⟩ := ih
        refine ⟨first + rest, fun other hother deps hdeps => ?_⟩
        rcases List.mem_cons.1 hother with rfl | hother
        · have := hfirst deps hdeps
          omega
        · have := hrest other hother deps hdeps
          omega
  obtain ⟨most, hlength⟩ := hmost all
  refine ⟨{ all, most, closed := ?_, length_le := hlength }, ?_⟩
  · intro reference hreference other hneeds
    obtain ⟨root, hroot, hreach⟩ := (hall reference).1 hreference
    exact (hall other).2 ⟨root, hroot, hreach.tail hneeds⟩
  · intro root hroot
    exact (hall root).2 ⟨root, hroot, .refl⟩

/-- What comes up is something that the visit's component may need. -/
theorem AllTold.mayNeed (htold : AllTold setting cache build) {visit child : Visit}
    {children : List Visit} {stage : Stage} {knowledge : Knowledge} {cache' : Cache}
    (hvisit : visit ∈ build.visits) (hfaithful : IsFaithful setting visit)
    (hmove : Move setting build visit knowledge cache' children stage) (hchild : child ∈ children) :
    MayNeed setting cache visit.component.reference child.component.reference := by
  have hneeds : ∀ deps, Tells setting cache visit.component.reference deps →
      child ∈ freshVisits setting visit deps →
      MayNeed setting cache visit.component.reference child.component.reference := by
    intro deps htells hfresh
    obtain ⟨dep, hdep, hcomponent⟩ := exists_dep_of_mem_freshVisits hfresh
    rw [hcomponent]
    exact htells.mayNeed hdep
  cases hmove with
  | hit deps hstage hheld => exact hneeds deps (htold.looking visit hvisit deps hstage) hchild
  | takeEntry payload warnings hstage hresponse hnot =>
      exact hneeds payload.deps
        (.inr ⟨payload, serves_of_response hfaithful.component hresponse, rfl⟩) hchild
  | writeDependency payload cache' hstage hcache =>
      exact hneeds payload.deps (hfaithful.tells (by rw [hstage]; rfl)) hchild
  | _ => cases hchild

/-- What may come up does not change in a step. -/
theorem Range.all_advance (range : Range setting cache) {index : Nat} {visit : Visit}
    {children : List Visit} {stage : Stage}
    (hall : ∀ visit ∈ build.visits, visit.component.reference ∈ range.all)
    (htold : AllTold setting cache build) (hfaithful : AllFaithful setting build)
    (hstep : Advances setting build index visit children stage next) :
    ∀ other ∈ next.visits, other.component.reference ∈ range.all := by
  have hvisit := List.mem_of_getElem? hstep.found
  intro other hother
  rw [hstep.visits] at hother
  obtain ⟨i, hi⟩ := List.mem_iff_getElem?.1 hother
  rw [List.getElem?_modify] at hi
  obtain ⟨before, hbefore, heq⟩ := Option.map_eq_some_iff.1 hi
  have hsame : other.component = before.component := by
    rw [← heq]
    split <;> rfl
  rw [hsame]
  rcases List.mem_append.1 (List.mem_of_getElem? hbefore) with hold | hchild
  · exact hall before hold
  · exact range.closed _ (hall visit hvisit) _
      (htold.mayNeed hvisit (hfaithful index visit hstep.found) hstep.move hchild)

/-- A step of a run takes something off the potential, and nothing else may come up. -/
theorem Range.potential_step (range : Range setting cache)
    (hrun : Run setting (Build.start cache disk) turns build)
    (hall : ∀ visit ∈ build.visits, visit.component.reference ∈ range.all) {index : Nat}
    (hnext : build.step? setting index = some next) :
    range.potential next < range.potential build ∧
      ∀ visit ∈ next.visits, visit.component.reference ∈ range.all := by
  obtain ⟨visit, children, stage, hstep⟩ := exists_advances hnext
  obtain ⟨owner, hguarded⟩ := hrun.guarded
  obtain ⟨owner', hguarded', howner⟩ := hguarded.advance hstep
  exact ⟨range.potential_lt hall hrun.allTold hrun.allFaithful hguarded hguarded' hstep howner,
    range.all_advance hall hrun.allTold hrun.allFaithful hstep⟩

theorem Range.length_le_potential (range : Range setting cache)
    (hrun : Run setting (Build.start cache disk) turns build)
    (hall : ∀ visit ∈ build.visits, visit.component.reference ∈ range.all) (later : List Build)
    (hlater : List.IsChain (StepsTo setting) (build :: later)) :
    later.length ≤ range.potential build := by
  induction later generalizing build turns with
  | nil => exact Nat.zero_le _
  | cons next later ih =>
      obtain ⟨⟨index, hnext⟩, hrest⟩ := List.isChain_cons_cons.1 hlater
      obtain ⟨hlt, hstill⟩ := range.potential_step hrun hall hnext
      have hlength := ih (hrun.step index hnext) hstill hrest
      rw [List.length_cons]
      omega

/-- A run within a range can be gone on with until all visits are over. -/
theorem Range.exists_finished (range : Range setting cache)
    (hrun : Run setting (Build.start cache disk) turns build) (hslots : 0 < setting.slots)
    (hall : ∀ visit ∈ build.visits, visit.component.reference ∈ range.all) :
    ∃ last, Relation.ReflTransGen (StepsTo setting) build last ∧ last.isFinished = true := by
  induction hpotential : range.potential build using Nat.strongRecOn generalizing build turns with
  | ind potential ih =>
      cases hover : build.isFinished with
      | true => exact ⟨build, .refl, hover⟩
      | false =>
          obtain ⟨next, index, hnext⟩ := hrun.exists_stepsTo hslots hover
          obtain ⟨hlt, hstill⟩ := range.potential_step hrun hall hnext
          obtain ⟨last, hsteps, hlast⟩ :=
            ih (range.potential next) (by omega) (hrun.step index hnext) hstill rfl
          exact ⟨last, .head ⟨index, hnext⟩ hsteps, hlast⟩

/--
**No build gets stuck, and every build ends.** Whatever order of turns led to a build, and however many
calls it serves: until all visits are over some visit can take a step, and only so many steps can be
taken.
-/
theorem steps_until_finished (hrun : Run setting (Build.start cache disk) turns build)
    (hslots : 0 < setting.slots)
    (hfinite : ∀ visit ∈ build.visits, {reference | Relation.ReflTransGen
      (MayNeed setting cache) visit.component.reference reference}.Finite) :
    (build.isFinished = false → ∃ next, StepsTo setting build next) ∧
      ∃ most, ∀ later, List.IsChain (StepsTo setting) (build :: later) → later.length ≤ most := by
  refine ⟨hrun.exists_stepsTo hslots, ?_⟩
  obtain ⟨range, hrange⟩ : ∃ range : Range setting cache,
      ∀ root ∈ build.visits.map fun visit => visit.component.reference, root ∈ range.all :=
    exists_range _ (by simpa using hfinite)
  refine ⟨range.potential build, range.length_le_potential hrun fun visit hvisit => ?_⟩
  exact hrange _ (List.mem_map_of_mem hvisit)

/-- A build of `app` during which `menu` is asked for, too. -/
def overlappingBuild : Build :=
  ((Build.start .inMemory .empty).begin ([⟨"ui", "app", "1"⟩].map (named menuSetting))).begin
    ([menu].map (named menuSetting))

theorem mayNeed_menuSetting {first second : Reference}
    (hcache : ∀ key deps, cache.get? key = some { success := true, deps } → deps ⊆ [⟨"menu", "1"⟩])
    (h : MayNeed menuSetting cache first second) : second = first.child ⟨"menu", "1"⟩ := by
  obtain ⟨deps, hentry | ⟨payload, ⟨rule, warnings, -, hanswer⟩, rfl⟩, dep, hdep, rfl⟩ := h
  · rw [List.mem_singleton.1 (hcache _ deps hentry hdep)]
  · have heq := congrArg Prod.fst (Except.ok.inj (Option.some.inj hanswer))
    dsimp only at heq
    rw [← heq] at hdep
    dsimp only at hdep
    split at hdep
    · rw [List.mem_singleton.1 hdep]
    · cases hdep

theorem finite_menuSetting
    (hcache : ∀ key deps, cache.get? key = some { success := true, deps } → deps ⊆ [⟨"menu", "1"⟩])
    (root : Reference) :
    {reference | Relation.ReflTransGen (MayNeed menuSetting cache) root reference}.Finite := by
  refine Set.Finite.subset (Set.toFinite {root, root.child ⟨"menu", "1"⟩}) ?_
  intro reference hreach
  induction hreach with
  | refl => exact .inl rfl
  | tail _ hneeds ih =>
      have hmenu := mayNeed_menuSetting hcache hneeds
      rcases ih with rfl | rfl
      · exact .inr hmenu
      · exact .inr hmenu

theorem steps_until_finished_of_menu :
    Run menuSetting (Build.start .inMemory .empty) [] overlappingBuild ∧ 0 < menuSetting.slots ∧
      (overlappingBuild.isFinished = false →
        ∃ next, StepsTo menuSetting overlappingBuild next) ∧
      ∃ most, ∀ later, List.IsChain (StepsTo menuSetting) (overlappingBuild :: later) →
        later.length ≤ most := by
  have hrun : Run menuSetting (Build.start .inMemory .empty) [] overlappingBuild :=
    (Run.begin [⟨"ui", "app", "1"⟩] .start).begin [menu]
  exact ⟨hrun, by decide, steps_until_finished hrun (by decide) fun visit _ =>
    finite_menuSetting (by simp [Cache.inMemory, Cache.get?]) visit.component.reference⟩

end Runs

end ComponentTags.Build
