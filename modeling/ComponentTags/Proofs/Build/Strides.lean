import ComponentTags.Proofs.Artifact.TakenDeeds
import ComponentTags.Proofs.Build.Runs

/-!
Strides. A step asks the disk whether a module is there, or whether its own files can be written, and
nothing else. On a disk that has room, and has the modules that are looked for, all goes well, and what
a build comes to can be told without the disk.
-/

namespace ComponentTags

/-- Whether a step goes well on a disk that has room and has the modules of some components. -/
def Visit.isSmooth (held : List Reference) (visit : Visit) : Bool :=
  match visit.stage with
  | .looking _ => held.contains visit.component.reference
  | .failing | .writing _ | .gathering _ _ =>
      visit.component.identity.identifier.utf8ByteSize ≤ Naming.maxIdentifierSize
  | _ => true

namespace Build

def withDisk (build : Build) (disk : Disk) : Build :=
  { build with disk }

/-- Counts and records a component whose module was written. -/
def record (build : Build) (visit : Visit) (payload : Payload) : Build :=
  { build with cache := build.cache.recordSuccess visit.component.key payload.deps }.count visit.run
    fun report => { report with fetched := report.fetched + 1 }

/-- The step of a visit when the module that it looks for is there, or its own can be written, less
what is written. -/
def stride (build : Build) (setting : BuildSetting) (index : Nat) (visit : Visit) : Build :=
  let key := visit.component.key
  match visit.stage with
  | .looking deps =>
      (((build.count visit.run fun report => { report with cacheHits := report.cacheHits + 1 }).learn
        key deps).openNode key).visitDeps setting index visit deps none
  | .failing => ((build.openSubtree key).openNode key).atStage index .done
  | .writing payload =>
      ((build.record visit payload).openNode key).visitDeps setting index visit payload.deps none
  | .gathering payload { pending := [], .. } => (build.record visit payload).atStage index .done
  | _ => (build.step? setting index).getD build

/-- The strides of some visits, one after another, if all are smooth. -/
def strides? (setting : BuildSetting) (held : List Reference) (build : Build) :
    List Nat → Option Build
  | [] => some build
  | index :: rest =>
      match build.visits[index]? with
      | none => strides? setting held build rest
      | some visit =>
          if visit.isSmooth held then strides? setting held (build.stride setting index visit) rest
          else none

section Steps

variable {setting : BuildSetting} {build : Build} {disk : Disk} {index : Nat} {visit : Visit}
  {payload : Payload} {held : List Reference}

/-! ### Builds that differ in the disk -/

theorem step?_eq_none (hnone : build.visits[index]? = none) :
    (build.withDisk disk).step? setting index = none := by
  have hfound : (build.withDisk disk).visits[index]? = none := hnone
  rw [step?, hfound]

/-- A visit that waits writes nothing and has not asked for anything. -/
theorem waits_of_step?_eq_none (hvisit : build.visits[index]? = some visit)
    (hwaits : build.step? setting index = none) :
    visit.deed? setting = none ∧ visit.stage ≠ .requesting := by
  unfold step? at hwaits
  rw [hvisit] at hwaits
  unfold Visit.deed?
  cases hstage : visit.stage with
  | gathering payload gathering =>
      rcases gathering with ⟨seen, found, _ | ⟨reference, pending⟩⟩
      · simp [hstage, gather?] at hwaits
      · simp
  | failing | writing | requesting => simp [hstage] at hwaits
  | _ => simp

theorem withDisk_visitDeps (build : Build) (disk : Disk) (setting : BuildSetting) (index : Nat)
    (visit : Visit) (deps : List Dependency) (entry : Option Payload) :
    (build.withDisk disk).visitDeps setting index visit deps entry =
      (build.visitDeps setting index visit deps entry).withDisk disk := by
  have hfold : ∀ cyclic : List NamedReference,
      cyclic.foldl (fun build child =>
          (build.warn (.dependencyCycle visit.component.reference child.reference)).count visit.run
            fun report => { report with cycles := report.cycles + 1 }) (build.withDisk disk) =
        (cyclic.foldl (fun build child =>
          (build.warn (.dependencyCycle visit.component.reference child.reference)).count visit.run
            fun report => { report with cycles := report.cycles + 1 }) build).withDisk disk :=
    fun cyclic => List.foldl_hom (fun build : Build => build.withDisk disk) fun _ _ => rfl
  unfold visitDeps
  dsimp only
  rw [hfold]
  rfl

theorem withDisk_arrive (build : Build) (disk : Disk) (index : Nat) (visit : Visit) :
    (build.withDisk disk).arrive index visit = (build.arrive index visit).withDisk disk := by
  have hknown : (build.withDisk disk).knowledge = build.knowledge := rfl
  have hcache : ((build.withDisk disk).close visit.component.key).cache = build.cache := rfl
  have hcache' : (build.close visit.component.key).cache = build.cache := rfl
  unfold arrive
  dsimp only
  rw [hknown]
  by_cases hmet : build.knowledge.nodes.contains visit.component.key = true
  · rw [if_pos hmet, if_pos hmet]
    rfl
  · rw [if_neg hmet, if_neg hmet, hcache, hcache']
    rcases (build.cache.ensure visit.component.key).get? visit.component.key with
      _ | ⟨_ | _, deps⟩ <;> rfl

theorem withDisk_send? (build : Build) (disk : Disk) (setting : BuildSetting) (index : Nat)
    (visit : Visit) :
    (build.withDisk disk).send? setting index visit =
      (build.send? setting index visit).map (·.withDisk disk) := by
  have hunder : (build.withDisk disk).requestsUnderWay = build.requestsUnderWay := rfl
  unfold send?
  dsimp only
  rw [hunder]
  cases setting.registry.find? visit.component.reference.tag with
  | none => rfl
  | some rule =>
      dsimp only
      split <;> rfl

theorem withDisk_receive (build : Build) (disk : Disk) (setting : BuildSetting) (index : Nat)
    (visit : Visit) :
    (build.withDisk disk).receive setting index visit =
      (build.receive setting index visit).withDisk disk := by
  unfold receive
  cases response setting visit with
  | error failure => rfl
  | ok answer =>
      dsimp only
      split
      · rfl
      · exact withDisk_visitDeps (({ build with warnings := build.warnings ++ answer.2 }.learn
          visit.component.key answer.1.deps).openNode visit.component.key) disk setting index visit
            answer.1.deps (some answer.1)

theorem withDisk_join? (build : Build) (disk : Disk) (index : Nat) (visit : Visit)
    (children : List Nat) (entry : Option Payload) :
    (build.withDisk disk).join? index visit children entry =
      (build.join? index visit children entry).map (·.withDisk disk) := by
  have hdone : (build.withDisk disk).isDone = build.isDone := rfl
  unfold join?
  rw [hdone]
  split <;> rfl

theorem withDisk_gather? (build : Build) (disk : Disk) (setting : BuildSetting) (index : Nat)
    (visit : Visit) (payload : Payload) {gathering : Gathering} (hpending : gathering.pending ≠ []) :
    (build.withDisk disk).gather? setting index visit payload gathering =
      (build.gather? setting index visit payload gathering).map (·.withDisk disk) := by
  have hknown : (build.withDisk disk).knowledge = build.knowledge := rfl
  obtain ⟨reference, pending, hmore⟩ := List.exists_cons_of_ne_nil hpending
  unfold gather?
  rw [hmore, hknown]
  dsimp only
  split
  · rfl
  · split <;> rfl

/-! ### Steps as strides -/

theorem writeModules_of_taken (build : Build) (visit : Visit) {deed : Deed}
    (hok : (Deed.change setting.workshop (some deed) disk).2 = true) :
    (build.withDisk disk).writeModules visit (deed.files setting.workshop) =
      (build.withDisk (Deed.change setting.workshop (some deed) disk).1, true) := by
  have hwritten : (Deed.change setting.workshop (some deed) disk).1 = (disk.writeAll
      ((deed.files setting.workshop).map fun file => (file.path, file.content))).1 := rfl
  rw [Deed.snd_change] at hok
  rw [hwritten]
  unfold writeModules withDisk
  dsimp only
  generalize disk.writeAll
    ((deed.files setting.workshop).map fun file => (file.path, file.content)) = written at hok ⊢
  obtain ⟨next, failure | count⟩ := written
  · cases hok
  · rfl

theorem settle_of_taken (build : Build) (visit : Visit) (payload : Payload) {deed : Deed}
    (hok : (Deed.change setting.workshop (some deed) disk).2 = true) :
    (build.withDisk disk).settle visit payload (deed.files setting.workshop) =
      (build.record visit payload).withDisk (Deed.change setting.workshop (some deed) disk).1 := by
  unfold settle
  rw [writeModules_of_taken build visit hok]
  rfl

/-- **A step is a stride** if the disk has the module that is looked for, and takes what is written. -/
theorem step?_eq_stride (hvisit : build.visits[index]? = some visit)
    (hheld : ∀ deps, visit.stage = .looking deps →
      disk.holds visit.component.identity.path = true)
    (hok : (Deed.change setting.workshop (visit.deed? setting) disk).2 = true) :
    ((build.withDisk disk).step? setting index).getD (build.withDisk disk) =
      (build.stride setting index visit).withDisk
        (Deed.change setting.workshop (visit.deed? setting) disk).1 := by
  have hfound : (build.withDisk disk).visits[index]? = some visit := hvisit
  have hknown : (build.withDisk disk).knowledge = build.knowledge := rfl
  -- A step that leaves the disk alone is taken, or waited for, whichever the disk is.
  have hquiet : ∀ step? : Option Build,
      (step?.map (·.withDisk disk)).getD (build.withDisk disk) = (step?.getD build).withDisk disk := by
    rintro (_ | _) <;> rfl
  unfold stride step? Visit.deed? at *
  rw [hfound, hvisit]
  dsimp only
  cases hstage : visit.stage with
  | arriving => exact withDisk_arrive build disk index visit
  | waiting =>
      rw [hknown]
      dsimp only
      split <;> rfl
  | looking deps =>
      have hthere : (build.withDisk disk).disk.holds visit.component.identity.path = true :=
        hheld deps hstage
      unfold look
      dsimp only
      rw [if_pos hthere, Option.getD_some]
      exact withDisk_visitDeps (((build.count visit.run fun report =>
        { report with cacheHits := report.cacheHits + 1 }).learn visit.component.key deps).openNode
          visit.component.key) disk setting index visit deps none
  | queued =>
      dsimp only
      rw [withDisk_send?]
      exact hquiet _
  | requesting => exact withDisk_receive build disk setting index visit
  | failing =>
      rw [hstage] at hok
      have hwrite := writeModules_of_taken build visit hok
      rw [Deed.files] at hwrite
      unfold writeError
      rw [hwrite, Option.getD_some]
      generalize (Deed.change setting.workshop _ disk).1 = next
      rfl
  | writing payload =>
      rw [hstage] at hok
      have hsettle := settle_of_taken build visit payload hok
      rw [Deed.files] at hsettle
      unfold writeDependency
      dsimp only
      rw [hsettle, Option.getD_some]
      generalize (Deed.change setting.workshop _ disk).1 = next
      exact withDisk_visitDeps ((build.record visit payload).openNode visit.component.key) next
        setting index visit payload.deps none
  | joining children entry =>
      dsimp only
      rw [withDisk_join?]
      exact hquiet _
  | gathering payload gathering =>
      rw [hstage] at hok
      rcases gathering with ⟨seen, found, _ | ⟨reference, pending⟩⟩
      · have hsettle := settle_of_taken build visit payload hok
        rw [Deed.files] at hsettle
        unfold gather?
        dsimp only
        rw [hsettle, Option.getD_some]
        generalize (Deed.change setting.workshop _ disk).1 = next
        rfl
      · dsimp only
        rw [withDisk_gather? build disk setting index visit payload (List.cons_ne_nil _ _)]
        exact hquiet _
  | done => rfl

/-! ### Runs as strides -/

theorem sweep_append (setting : BuildSetting) (build : Build) (indices more : List Nat) :
    build.sweep setting (indices ++ more) = (build.sweep setting indices).sweep setting more := by
  induction indices generalizing build with
  | nil => rfl
  | cons index indices ih => exact ih _

/-- A disk on which modules can be written, and that has those of some components. -/
structure IsReady (setting : BuildSetting) (held : List Reference) (disk : Disk) : Prop where
  isProper : setting.workshop.naming.IsProper
  endsPlain : setting.workshop.naming.directory.EndsPlain
  isNear : Disk.IsNear setting.workshop.naming.directory
  hasRoom : Disk.HasRoom setting.workshop.naming.directory disk
  holds : ∀ reference ∈ held,
    disk.holds (setting.workshop.naming.identity reference).path = true

theorem isSmooth_of_deed? {deed : Deed} (hdeed : visit.deed? setting = some deed)
    (hsmooth : visit.isSmooth held = true) :
    visit.component.identity.identifier.utf8ByteSize ≤ Naming.maxIdentifierSize := by
  unfold Visit.deed? at hdeed
  unfold Visit.isSmooth at hsmooth
  split at hdeed
  · next hstage => simpa [hstage] using hsmooth
  · next hstage => simpa [hstage] using hsmooth
  · next hstage => simpa [hstage] using hsmooth
  · cases hdeed

/-- Whether a disk is ready depends on the workshop alone. -/
theorem IsReady.congr {setting' : BuildSetting} (h : IsReady setting held disk)
    (hworkshop : setting'.workshop = setting.workshop) : IsReady setting' held disk where
  isProper := hworkshop ▸ h.isProper
  endsPlain := hworkshop ▸ h.endsPlain
  isNear := hworkshop ▸ h.isNear
  hasRoom := hworkshop ▸ h.hasRoom
  holds := hworkshop ▸ h.holds

/-- A folder that is ready still is when the module of a component was put there. -/
theorem IsReady.put (h : IsReady setting held disk)
    (hthere : disk.isDirectory setting.workshop.naming.directory = true) {reference : Reference}
    (hshort : (setting.workshop.naming.identity reference).identifier.utf8ByteSize ≤
      Naming.maxIdentifierSize)
    (hnew : disk.entry? (setting.workshop.naming.moduleName reference ::
      disk.spotOf setting.workshop.naming.directory) = none) (content : List UInt8) :
    IsReady setting (reference :: held) (disk.put (setting.workshop.naming.moduleName reference ::
      disk.spotOf setting.workshop.naming.directory) (.file content)) := by
  obtain ⟨hstill, hroom⟩ := h.hasRoom.put hthere hnew content
  have hplain := fun other => (h.isProper.isModuleName other).isPlainName
  refine { h with hasRoom := hroom, holds := fun other hmem => ?_ }
  refine (Disk.holds_join h.endsPlain (hplain other) hstill).2 ?_
  rw [Disk.spotOf_put, Disk.entry_put]
  rcases List.mem_cons.1 hmem with rfl | hold
  · exact ⟨(h.isProper.takes_of_mem_ownNames h.endsPlain h.isNear hshort List.mem_cons_self).1,
      by simp⟩
  · obtain ⟨hfault, hsome⟩ :=
      (Disk.holds_join h.endsPlain (hplain other) hthere).1 (h.holds other hold)
    refine ⟨hfault, ?_⟩
    split
    · rfl
    · exact hsome

theorem IsReady.change (h : IsReady setting held disk) (hfaithful : IsFaithful setting visit)
    (hsmooth : visit.isSmooth held = true) :
    (Deed.change setting.workshop (visit.deed? setting) disk).2 = true ∧
      IsReady setting held (Deed.change setting.workshop (visit.deed? setting) disk).1 := by
  have hroom : (Deed.change setting.workshop (visit.deed? setting) disk).2 = true ∧
      Disk.HasRoom setting.workshop.naming.directory
        (Deed.change setting.workshop (visit.deed? setting) disk).1 := by
    cases hdeed : visit.deed? setting with
    | none => exact ⟨rfl, h.hasRoom⟩
    | some deed =>
        have hshort := isSmooth_of_deed? hdeed hsmooth
        rw [hfaithful.component] at hshort
        refine Deed.change_of_hasRoom h.isProper h.endsPlain h.isNear h.hasRoom ?_
        rw [deed?_reference hdeed]
        exact hshort
  exact ⟨hroom.1, { h with
    hasRoom := hroom.2
    holds := fun reference hmem =>
      Disk.holds_perform h.isProper (visit.deed? setting) reference (h.holds reference hmem) }⟩

theorem IsReady.holds_of_looking (h : IsReady setting held disk)
    (hfaithful : IsFaithful setting visit) (hsmooth : visit.isSmooth held = true)
    {deps : List Dependency} (hstage : visit.stage = .looking deps) :
    disk.holds visit.component.identity.path = true := by
  have hmem : visit.component.reference ∈ held := by simpa [Visit.isSmooth, hstage] using hsmooth
  rw [hfaithful.component]
  exact h.holds _ hmem

theorem AllFaithful.turn (h : AllFaithful setting build) (index : Nat) :
    AllFaithful setting ((build.step? setting index).getD build) := by
  cases hnext : build.step? setting index with
  | none => exact h
  | some next =>
      obtain ⟨visit, children, stage, hstep⟩ := exists_advances hnext
      exact h.advance hstep

theorem AllFaithful.sweep (h : AllFaithful setting build) (indices : List Nat) :
    AllFaithful setting (build.sweep setting indices) := by
  induction indices generalizing build with
  | nil => exact h
  | cons index indices ih => exact ih (h.turn index)

theorem IsReady.turn (h : IsReady setting held disk) (hfaithful : AllFaithful setting build)
    (hvisit : build.visits[index]? = some visit) (hsmooth : visit.isSmooth held = true) :
    ∃ after, ((build.withDisk disk).step? setting index).getD (build.withDisk disk) =
        (build.stride setting index visit).withDisk after ∧
      IsReady setting held after ∧ AllFaithful setting (build.stride setting index visit) := by
  have hsound := hfaithful index visit hvisit
  obtain ⟨hok, hready⟩ := h.change hsound hsmooth
  have hstride := step?_eq_stride hvisit
    (fun _ hstage => h.holds_of_looking hsound hsmooth hstage) hok
  have hstart : AllFaithful setting (build.withDisk disk) := hfaithful
  have hnext := hstart.turn index
  rw [hstride] at hnext
  exact ⟨_, hstride, hready, hnext⟩

theorem strides?_of_none {indices : List Nat} (hnone : build.visits[index]? = none) :
    strides? setting held build (index :: indices) = strides? setting held build indices := by
  rw [strides?, hnone]

theorem strides?_of_some {indices : List Nat} (hvisit : build.visits[index]? = some visit) :
    strides? setting held build (index :: indices) =
      if visit.isSmooth held then strides? setting held (build.stride setting index visit) indices
      else none := by
  rw [strides?, hvisit]

/-- **A run comes to what its strides come to**, but for the disk, if the disk is ready for it. -/
theorem IsReady.sweep {indices : List Nat} {last : Build} (h : IsReady setting held disk)
    (hfaithful : AllFaithful setting build)
    (hlast : strides? setting held build indices = some last) :
    ∃ after, (build.withDisk disk).sweep setting indices = last.withDisk after ∧
      IsReady setting held after := by
  induction indices generalizing build disk with
  | nil =>
      obtain rfl := Option.some.inj hlast
      exact ⟨disk, rfl, h⟩
  | cons index indices ih =>
      rw [Build.sweep]
      cases hvisit : build.visits[index]? with
      | none =>
          rw [strides?_of_none hvisit] at hlast
          rw [step?_eq_none hvisit]
          exact ih h hfaithful hlast
      | some visit =>
          rw [strides?_of_some hvisit] at hlast
          split at hlast
          · next hsmooth =>
              obtain ⟨after, hstride, hready, hnext⟩ := h.turn hfaithful hvisit hsmooth
              rw [hstride]
              exact ih hready hnext hlast
          · cases hlast

/-- What can be said of the strides of a run without the disk can be said of the run. -/
theorem IsReady.exists_last {indices : List Nat} {check : Build → Bool}
    (h : IsReady setting held build.disk) (hfaithful : AllFaithful setting build)
    (hcheck : (strides? setting held build indices).any check = true) :
    ∃ last disk, check last = true ∧ build.sweep setting indices = last.withDisk disk ∧
      IsReady setting held disk := by
  obtain ⟨last, hlast, hchecked⟩ := (Option.any_eq_true _ _).1 hcheck
  obtain ⟨disk, hsweep, hready⟩ := h.sweep hfaithful hlast
  exact ⟨last, disk, hchecked, hsweep, hready⟩

end Steps

end Build

end ComponentTags
