import ComponentTags.Proofs.Build.Lessons

/-!
Settled modules. When the node gate of a component opens, its module is settled: it was found on the
disk, it was written, or it could not be written and that was counted. It stays settled.
-/

namespace ComponentTags

/-- Where the module of the component with that key lies. -/
def Naming.modulePath (naming : Naming) (key : ComponentKey) : Path :=
  naming.directory / (key.identifier ++ "." ++ naming.extension)

theorem Naming.modulePath_key (naming : Naming) (reference : Reference) :
    naming.modulePath (naming.key reference) = (naming.identity reference).path :=
  rfl

theorem Naming.modulePath_of_moduleName {naming : Naming} {first second : Reference}
    (h : naming.moduleName first = naming.moduleName second) :
    naming.modulePath (naming.key first) = naming.modulePath (naming.key second) :=
  congrArg (naming.directory / ·) h

namespace Build

/-- Writing the files of the visit's module fails in the turn, and its run counts that. -/
def Turn.CountsError (setting : BuildSetting) (turn : Turn) (visit : Visit) : Prop :=
  turn.visit? = some visit ∧ ∃ next count, turn.before.step? setting turn.index = some next ∧
    turn.before.writeErrors[visit.run]? = some count ∧
    next.writeErrors[visit.run]? = some (count + 1)

/-- The module of the component with that key was found, was written, or could not be written; what
was found is still there, and a module that was written still holds what was written there last. -/
inductive Settled (setting : BuildSetting) (turns : List Turn) (disk : Disk) (key : ComponentKey) :
    Prop where
  | found {turn : Turn} {visit : Visit} {deps : List Dependency} (hturn : turn ∈ turns)
      (hhit : turn.Hits visit deps) (hkey : visit.component.key = key)
      (hheld : disk.holds (setting.workshop.naming.modulePath key) = true) :
      Settled setting turns disk key
  | written {turn last : Turn} {deed lastDeed : Deed} (hturn : turn ∈ turns)
      (hdeed : turn.deed? setting = some deed)
      (hkey : setting.workshop.naming.key deed.reference = key) (hlast : last ∈ turns)
      (hlastDeed : last.deed? setting = some lastDeed)
      (hpath : lastDeed.path setting.workshop = setting.workshop.naming.modulePath key)
      (hread : disk.read (setting.workshop.naming.modulePath key) =
        .ok (lastDeed.content setting.workshop)) :
      Settled setting turns disk key
  | missed {turn : Turn} {visit : Visit} (hturn : turn ∈ turns)
      (hmissed : turn.CountsError setting visit) (hkey : visit.component.key = key) :
      Settled setting turns disk key

section Steps

variable {setting : BuildSetting} {build next : Build} {owner : ComponentKey → Option Nat}
  {index i : Nat} {visit other : Visit} {children : List Visit} {stage : Stage}
  {knowledge : Knowledge} {start cache : Cache} {turns : List Turn} {key : ComponentKey}

/-! ### Modules on the disk -/

theorem Advances.holds (hstep : Advances setting build index visit children stage next)
    (hproper : setting.workshop.naming.IsProper) (reference : Reference)
    (hheld : build.disk.holds (setting.workshop.naming.identity reference).path = true) :
    next.disk.holds (setting.workshop.naming.identity reference).path = true := by
  rw [hstep.disk]
  exact Disk.holds_perform hproper _ reference hheld

theorem Advances.read (hstep : Advances setting build index visit children stage next)
    (hproper : setting.workshop.naming.IsProper) (reference : Reference) {content : List UInt8}
    (hread : build.disk.read (setting.workshop.naming.identity reference).path = .ok content) :
    next.disk.read (setting.workshop.naming.identity reference).path = .ok content ∨
      ∃ deed, visit.deed? setting = some deed ∧
        deed.path setting.workshop = (setting.workshop.naming.identity reference).path ∧
        next.disk.read (setting.workshop.naming.identity reference).path =
          .ok (deed.content setting.workshop) := by
  rw [hstep.disk]
  cases hdeed : visit.deed? setting with
  | none => exact .inl hread
  | some deed =>
      obtain ⟨parts, hparts⟩ := hproper.exists_parts reference
      have hmodule := hproper.isModuleName reference
      have hside := hproper.notMem_sideNames deed.reference hmodule
      have hattempt := Disk.attempt_perform hproper build.disk deed
      by_cases hname : setting.workshop.naming.moduleName reference =
          setting.workshop.naming.moduleName deed.reference
      · have hpath : deed.path setting.workshop =
            (setting.workshop.naming.identity reference).path :=
          (Naming.modulePath_of_moduleName hname).symm
        cases htakes : build.disk.takes setting.workshop deed with
        | false =>
            exact .inl ((hattempt.refused htakes).read hmodule.isPlainName hparts hside hread)
        | true =>
            refine .inr ⟨deed, rfl, hpath, ?_⟩
            rw [← hpath]
            exact hattempt.read htakes
      · refine .inl (hattempt.agrees.read hmodule.isPlainName hparts ?_ hread)
        rw [List.mem_cons, not_or]
        exact ⟨hname, hside⟩

theorem Settled.cons (h : Settled setting turns build.disk key)
    (hproper : setting.workshop.naming.IsProper)
    (hstep : Advances setting build index visit children stage next) (reference : Reference)
    (hkey : setting.workshop.naming.key reference = key) :
    Settled setting (⟨build, index⟩ :: turns) next.disk key := by
  subst hkey
  cases h with
  | found hturn hhit hkey hheld =>
      exact .found (List.mem_cons_of_mem _ hturn) hhit hkey (hstep.holds hproper reference hheld)
  | written hturn hdeed hkey hlast hlastDeed hpath hread =>
      rcases hstep.read hproper reference hread with hsame | ⟨deed, hnew, hnewPath, hnewRead⟩
      · exact .written (List.mem_cons_of_mem _ hturn) hdeed hkey (List.mem_cons_of_mem _ hlast)
          hlastDeed hpath hsame
      · refine .written (List.mem_cons_of_mem _ hturn) hdeed hkey List.mem_cons_self ?_ hnewPath
          hnewRead
        rw [Turn.deed?, Turn.visit?, hstep.found]
        exact hnew
  | missed hturn hmissed hkey => exact .missed (List.mem_cons_of_mem _ hturn) hmissed hkey

/-! ### Node gates -/

/-- A node gate opens when the module was found, before an entry is gathered, or with a deed. -/
theorem Move.opens (h : Move setting build visit knowledge cache children stage)
    (hopened : knowledge.nodes[visit.component.key]? = some .opened)
    (hclosed : build.knowledge.nodes[visit.component.key]? ≠ some .opened) :
    (∃ deps, visit.stage = .looking deps ∧
        build.disk.holds visit.component.identity.path = true ∧ visit.deed? setting = none) ∨
      (visit.isChild = false ∧ visit.stage = .requesting) ∨
      ∃ deed, visit.deed? setting = some deed := by
  cases h with
  | hit deps hstage hheld => exact .inl ⟨deps, hstage, hheld, by simp [Visit.deed?, hstage]⟩
  | takeEntry payload warnings hstage hresponse hchild => exact .inr (.inl ⟨hchild, hstage⟩)
  | apologize hstage => exact .inr (.inr ⟨_, by rw [Visit.deed?, hstage]⟩)
  | writeDependency payload cache hstage hcache =>
      exact .inr (.inr ⟨_, by rw [Visit.deed?, hstage]⟩)
  | claimKnown | claimUnknown => simp at hopened
  | _ => exact absurd hopened hclosed

theorem settled_of_deed (hproper : setting.workshop.naming.IsProper)
    (hcounted : AllCounted build) (hnext : build.step? setting index = some next)
    (hstep : Advances setting build index visit children stage next)
    (hfaithful : IsFaithful setting visit) {deed : Deed} (hdeed : visit.deed? setting = some deed) :
    Settled setting (⟨build, index⟩ :: turns) next.disk visit.component.key := by
  have hreference := deed?_reference hdeed
  have hkey : setting.workshop.naming.key deed.reference = visit.component.key := by
    rw [hfaithful.component, hreference]
    rfl
  have hturn : Turn.deed? setting ⟨build, index⟩ = some deed := by
    rw [Turn.deed?, Turn.visit?, hstep.found]
    exact hdeed
  cases htakes : build.disk.takes setting.workshop deed with
  | true =>
      refine .written List.mem_cons_self hturn hkey List.mem_cons_self hturn ?_ ?_
      · rw [← hkey]
        rfl
      · rw [hstep.disk, hdeed, ← hkey]
        exact (Disk.attempt_perform hproper build.disk deed).read htakes
  | false =>
      refine .missed List.mem_cons_self ⟨hstep.found, next, ?_⟩ rfl
      have hrefused :
          (build.disk.perform setting.workshop (visit.deed? setting)).2.isOk = false := by
        rw [hdeed]
        exact Bool.eq_false_iff.2 fun hok => by simp [Disk.takes_of_perform hok] at htakes
      have hrun := hcounted index visit hstep.found
      refine ⟨build.writeErrors[visit.run], hnext, List.getElem?_eq_getElem hrun, ?_⟩
      rw [hstep.errors, hrefused]
      simp [List.getElem?_eq_getElem hrun]

/-- Every component whose node gate is open is settled, unless it was met as an entry first. -/
def AllSettled (setting : BuildSetting) (turns : List Turn) (build : Build) : Prop :=
  ∀ key, build.knowledge.nodes[key]? = some .opened →
    ClaimedEntry turns key ∨ Settled setting turns build.disk key

theorem AllSettled.advance (h : AllSettled setting turns build)
    (hproper : setting.workshop.naming.IsProper) (hfaithful : AllFaithful setting build)
    (hcounted : AllCounted build) (hguarded : Guarded setting build owner)
    (hentered : Entered turns build owner) (hnext : build.step? setting index = some next)
    (hstep : Advances setting build index visit children stage next) :
    AllSettled setting (⟨build, index⟩ :: turns) next := by
  intro key hopened
  by_cases hwas : build.knowledge.nodes[key]? = some .opened
  · refine (h key hwas).imp ClaimedEntry.cons fun hsettled => ?_
    have hmet := (hguarded.isSome_iff key).2
      (Std.ExtTreeMap.mem_iff_isSome_getElem?.2 (by simp [hwas]))
    obtain ⟨i, howner⟩ := Option.isSome_iff_exists.1 hmet
    obtain ⟨found, hfound, rfl, -⟩ := hguarded.owned key i howner
    refine hsettled.cons hproper hstep found.component.reference ?_
    exact congrArg NamedReference.key (hfaithful i found hfound).component.symm
  · have hkey : key = visit.component.key := by
      refine Classical.byContradiction fun hne => hwas ?_
      rw [← hstep.move.agreesOff.nodes key hne, hopened]
    subst hkey
    rcases hstep.move.opens hopened hwas with
      ⟨deps, hstage, hheld, hdeed⟩ | ⟨hchild, hstage⟩ | ⟨deed, hdeed⟩
    · refine .inr (.found List.mem_cons_self ⟨hstep.found, hstage, hheld⟩ rfl ?_)
      have hcomponent := (hfaithful index visit hstep.found).component
      rw [hstep.disk, hdeed]
      rw [hcomponent] at hheld ⊢
      exact hheld
    · have howner := hguarded.owner_eq hstep.found hstage trivial
      exact .inl (hentered index visit hstep.found howner hchild).cons
    · exact .inr (settled_of_deed hproper hcounted hnext hstep
        (hfaithful index visit hstep.found) hdeed)

end Steps

end Build

end ComponentTags
