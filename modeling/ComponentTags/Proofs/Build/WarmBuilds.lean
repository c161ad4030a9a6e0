import ComponentTags.Proofs.Build.Findings
import ComponentTags.Proofs.Build.Tallies
import ComponentTags.Proofs.Cache.Reloading

/-!
Warm builds. A call that went well leaves in the cache and on the disk all that the same call would come
to, so that one asks for nothing and changes nothing, whatever the endpoint is by then.
-/

namespace ComponentTags

theorem Naming.IsProper.endsLasting_modulePath {naming : Naming} (h : naming.IsProper)
    (reference : Reference) : Disk.EndsLasting (naming.modulePath (naming.key reference)) := by
  have hname := h.isModuleName reference
  obtain ⟨parts, hparts⟩ := naming.directory.exists_parts_join hname.isPlainName
  exact ⟨parts, _, hparts, hname.isPlainName, hname.ne_temporaryName _⟩

namespace Build

variable {call later : Call} {turns more : List Turn} {build next : Build}
  {report report' : Report} {owner owner' : ComponentKey → Option Nat} {key : ComponentKey}

/-- What a build has of a component that was met: what it needs is recorded, and its module is at its
place. -/
structure Has (call : Call) (turns : List Turn) (build : Build) (key : ComponentKey)
    (deps : List Dependency) : Prop where
  learned : Learned call.setting call.cache turns key deps
  recorded : build.cache.get? key = some { success := true, deps }
  held : build.disk.holds (call.naming.modulePath key) = true
  lasting : Disk.EndsLasting (call.naming.modulePath key)

/-- A build has all that it met, and met all that this needs. -/
def HasAll (call : Call) (turns : List Turn) (build : Build) (owner : ComponentKey → Option Nat) :
    Prop :=
  ∀ key, (owner key).isSome → ∃ deps, Has call turns build key deps ∧
    ∀ dep ∈ deps, (owner (childKey call.setting key dep)).isSome

namespace Call.Completes

theorem length_reports (h : call.Completes turns build report) : build.reports.length = 1 := by
  rw [h.reports]
  rfl

theorem losses_eq (h : call.Completes turns build report) (hlosses : report.losses = 0) :
    ∀ other ∈ build.reports, other.losses = 0 := by
  rw [h.reports]
  exact List.forall_mem_singleton.2 hlosses

theorem length_provided (h : call.Completes turns build report)
    (htallied : Tallied call.setting turns build owner) :
    (provided call.setting turns).length = report.fetched + report.cacheHits := by
  rw [← htallied.total, h.reports]
  rfl

/-- **What a call leaves that loses nothing**: all that it met is there, and all that this needs was
met. -/
theorem exists_hasAll (h : call.Completes turns build report) (hproper : call.naming.IsProper)
    (hlosses : report.losses = 0) :
    ∃ owner, Tracked call.setting call.cache turns build owner ∧
      Tallied call.setting turns build owner ∧ HasAll call turns build owner := by
  obtain ⟨owner, htracked, hhandled⟩ := (Call.run_start h.run).allHandled hproper
  obtain ⟨owner', htracked', htallied⟩ := (Call.run_start h.run).tallied hproper
  obtain rfl := htracked.claimed.unique htracked'.claimed
  refine ⟨owner, htracked, htallied, fun key hmet => ?_⟩
  have hguarded := htracked.sound.guarded
  obtain ⟨deps, hdeps⟩ := htallied.known key
    ((htallied.mem_provided_iff hguarded h.isFinished (h.losses_eq hlosses)).2 hmet)
  obtain ⟨i, visit, hvisit, rfl, hmodule⟩ := hhandled.of_isFinished hguarded h.isFinished hmet
  have hfaithful := htracked.sound.faithful i visit hvisit
  cases hmodule with
  | missed hcount hpos =>
      exfalso
      rw [writeErrors, h.reports, List.map_singleton] at hcount
      have hzero := List.mem_singleton.1 (List.mem_of_getElem? hcount)
      rw [Report.losses] at hlosses
      omega
  | provided hmodule hrecorded =>
      refine ⟨deps, ⟨htracked.sound.taught.known _ deps hdeps, hrecorded deps hdeps, ?_, ?_⟩, ?_⟩
      · cases hmodule with
        | found _ _ _ hheld _ => exact hheld
        | written _ _ _ hread => exact Disk.holds_of_read hread
      · rw [← hfaithful.key]
        exact hproper.endsLasting_modulePath _
      · obtain ⟨-, -, -, -, -, -, -, hopened⟩ := hguarded.opened_of_isFinished h.isFinished hmet
        exact hguarded.complete _ deps hopened hdeps

end Call.Completes

/--
A call that comes after a build: the same call in the same place, with any endpoint, and with the cache
as the build left it or as it was loaded again after a flush.
-/
structure Call.Repeats (later call : Call) (build : Build) : Prop where
  workshop : later.setting.workshop = call.setting.workshop
  references : later.references = call.references
  state : later.cache = build.cache ∧ later.disk = build.disk ∨
    ∃ document, build.cache.document = some document ∧
      (build.cache.flush build.disk).outcome = .ok () ∧
      later.disk = (build.cache.flush build.disk).disk ∧
      later.cache = (Cache.load later.disk document).1

namespace Call.Repeats

theorem get?_eq (h : later.Repeats call build) {deps : List Dependency}
    (hrecorded : build.cache.get? key = some { success := true, deps }) :
    later.cache.get? key = some { success := true, deps } := by
  rcases h.state with ⟨hcache, -⟩ | ⟨document, hdocument, hflushed, hdisk, hcache⟩
  · rw [hcache, hrecorded]
  · rw [hcache, hdisk, Cache.load_flush hdocument hflushed]
    exact Cache.get?_flush hdocument hflushed hrecorded rfl

theorem holds (h : later.Repeats call build) {path : Path} (hpath : Disk.EndsLasting path)
    (hheld : build.disk.holds path = true) : later.disk.holds path = true := by
  rcases h.state with ⟨-, hdisk⟩ | ⟨document, hdocument, hflushed, hdisk, -⟩
  · rw [hdisk, hheld]
  · rw [hdisk]
    exact Cache.holds_flush hdocument hflushed hpath hheld

theorem naming_eq (h : later.Repeats call build) : later.naming = call.naming :=
  congrArg Workshop.naming h.workshop

theorem childKey_eq (h : later.Repeats call build) (key : ComponentKey) (dep : Dependency) :
    childKey later.setting key dep = childKey call.setting key dep := by
  rw [childKey, childKey, h.workshop]

/-- A call finds all that the one before it met and did not lose. -/
theorem findsAll (h : later.Repeats call build)
    (htracked : Tracked call.setting call.cache turns build owner)
    (hcompletes : call.Completes turns build report) (hhas : HasAll call turns build owner) :
    later.FindsAll fun key => (owner key).isSome := by
  constructor
  · intro reference hasked
    rw [h.naming_eq]
    rw [h.references] at hasked
    exact (htracked.met_iff hcompletes.run hcompletes.length_reports hcompletes.isFinished).2
      ⟨reference, hasked, .refl⟩
  · intro key hmet
    obtain ⟨deps, hthere, hneeds⟩ := hhas key hmet
    refine ⟨deps, h.get?_eq hthere.recorded, ?_, fun dep hdep => ?_⟩
    · rw [h.naming_eq]
      exact h.holds hthere.lasting hthere.held
    · rw [h.childKey_eq]
      exact hneeds dep hdep

/-- A call that finds all that the one before it met comes to all of it again. -/
theorem met_iff (h : later.Repeats call build)
    (htracked : Tracked call.setting call.cache turns build owner)
    (hcompletes : call.Completes turns build report) (hhas : HasAll call turns build owner)
    (htracked' : Tracked later.setting later.cache more next owner')
    (hcompletes' : later.Completes more next report') :
    (owner' key).isSome ↔ (owner key).isSome := by
  have hfinds := h.findsAll htracked hcompletes hhas
  obtain ⟨hrests, hbefore⟩ := Rests.of_run hfinds hcompletes'.run hcompletes'.length_reports
  have hmet : ∀ key, (owner key).isSome ↔ ∃ reference ∈ call.references,
      Relation.ReflTransGen (ResolvedNeeds call.setting call.cache turns)
        (call.naming.key reference) key :=
    fun key => htracked.met_iff hcompletes.run hcompletes.length_reports hcompletes.isFinished
  have hmet' : ∀ key, (owner' key).isSome ↔ ∃ reference ∈ later.references,
      Relation.ReflTransGen (ResolvedNeeds later.setting later.cache more)
        (later.naming.key reference) key :=
    fun key => htracked'.met_iff hcompletes'.run hcompletes'.length_reports
      hcompletes'.isFinished
  constructor
  · intro howned
    obtain ⟨i, visit, hvisit, rfl, -⟩ :=
      htracked'.sound.guarded.opened_of_isFinished hcompletes'.isFinished howned
    exact hrests.keys visit (List.mem_of_getElem? hvisit)
  · rw [hmet]
    rintro ⟨reference, hasked, hreach⟩
    -- Along the path each component was met by both calls, and needs the same in both.
    induction hreach with
    | refl =>
        refine (hmet' _).2 ⟨reference, h.references ▸ hasked, ?_⟩
        rw [h.naming_eq]
    | @tail first second hreach hneeds ih =>
        obtain ⟨deps, hlearned, dep, hdep, rfl⟩ := hneeds
        obtain ⟨deps', hthere, -⟩ := hhas first ((hmet first).2 ⟨reference, hasked, hreach⟩)
        obtain rfl : deps = deps' := by
          have hdeps := htracked.sound.taught.learned _ _ hlearned
          rw [htracked.sound.taught.learned _ _ hthere.learned] at hdeps
          exact (Option.some.inj hdeps).symm
        have hlearned' := (htracked'.needs_iff_cached hbefore hcompletes'.isFinished ih).2
          (h.get?_eq hthere.recorded)
        obtain ⟨root, hroot, hpath⟩ := (hmet' first).1 ih
        exact (hmet' _).2 ⟨root, hroot, hpath.tail ⟨deps, hlearned', dep, hdep, h.childKey_eq _ _⟩⟩

end Call.Repeats

/--
**A warm build touches nothing.** After a call that lost nothing the same call asks for nothing at any
of its turns, in whatever order they are taken and whatever the endpoint is, leaves the disk and the
cache as they are, and comes to an end; it then counts as hits exactly what the first call counted as
fetched or found.
-/
theorem warm_build_touches_nothing {dialect : Dialect} {directory : Path} {renderer start : String}
    (hworkshop : call.setting.workshop = .of dialect directory renderer start)
    (hcompletes : call.Completes turns build report) (hfailed : report.failed = 0)
    (hwritten : report.writeErrors = 0) (hrepeats : later.Repeats call build) :
    (∀ more next, Run later.setting later.opening more next → next.reports.length = 1 →
      next.requests = [] ∧ next.disk = later.disk ∧ next.cache = later.cache ∧
        ∃ last, Relation.ReflTransGen (StepsTo later.setting) next last ∧
          last.isFinished = true) ∧
    ∀ more next report', later.Completes more next report' →
      (∃ cycles, report' =
        { Report.zero with cacheHits := report.fetched + report.cacheHits, cycles }) ∧
      (provided call.setting turns).length = report.fetched + report.cacheHits ∧
      (provided later.setting more).Perm (provided call.setting turns) := by
  have hproper : call.naming.IsProper := by
    rw [Call.naming, hworkshop]
    exact Naming.isProper_of _ dialect start
  have hproper' : later.naming.IsProper := by
    rw [hrepeats.naming_eq]
    exact hproper
  have hlosses : report.losses = 0 := by
    rw [Report.losses, hfailed, hwritten]
  obtain ⟨owner, htracked, htallied, hhas⟩ := hcompletes.exists_hasAll hproper hlosses
  have hfinds := hrepeats.findsAll htracked hcompletes hhas
  constructor
  · intro more next hrun halone
    have hrests := (Rests.of_run hfinds hrun halone).1
    exact ⟨hrests.requests, hrests.disk, hrests.cache, Rests.exists_finished hfinds hrun halone⟩
  · intro more next report' hcompletes'
    obtain ⟨owner', htracked', htallied'⟩ := (Call.run_start hcompletes'.run).tallied hproper'
    obtain ⟨cacheHits, cycles, hreports⟩ :=
      (Rests.of_run hfinds hcompletes'.run hcompletes'.length_reports).1.reports
    obtain rfl : report' = { Report.zero with cacheHits, cycles } := by
      rw [hcompletes'.reports] at hreports
      exact List.singleton_inj.1 hreports
    have hlength := hcompletes.length_provided htallied
    have hlength' : (provided later.setting more).length = 0 + cacheHits :=
      hcompletes'.length_provided htallied'
    have hperm : (provided later.setting more).Perm (provided call.setting turns) := by
      refine (List.perm_ext_iff_of_nodup htallied'.once htallied.once).2 fun key => ?_
      calc key ∈ provided later.setting more ↔ (owner' key).isSome :=
            htallied'.mem_provided_iff htracked'.sound.guarded hcompletes'.isFinished
              (hcompletes'.losses_eq rfl)
        _ ↔ (owner key).isSome := hrepeats.met_iff htracked hcompletes hhas htracked' hcompletes'
        _ ↔ key ∈ provided call.setting turns :=
            (htallied.mem_provided_iff htracked.sound.guarded hcompletes.isFinished
              (hcompletes.losses_eq hlosses)).symm
    have hhits : cacheHits = report.fetched + report.cacheHits := by
      rw [← hlength, ← hperm.length_eq, hlength', Nat.zero_add]
    exact ⟨⟨cycles, by rw [hhits]⟩, hlength, hperm⟩

/-- The same call after a build, with nothing there to answer it. -/
def Call.repeated (call : Call) (build : Build) : Call where
  setting := { call.setting with endpoint := .unreachable }
  cache := build.cache
  disk := build.disk
  references := call.references

theorem Call.repeats_repeated (call : Call) (build : Build) :
    (call.repeated build).Repeats call build :=
  ⟨rfl, rfl, .inl ⟨rfl, rfl⟩⟩

/-- The ring again: one component is asked for, both are fetched, and the same request comes again
with nothing there to answer it. -/
theorem warm_build_touches_nothing_of_ring :
    ∃ call turns build report later, call = ringCall [⟨"ui", "a", "1"⟩] ∧
      later = call.repeated build ∧ call.setting.workshop = .of .jsx ⟨"/w"⟩ "r" "c" ∧
      call.Completes turns build report ∧ report.fetched = 2 ∧ report.failed = 0 ∧
      report.writeErrors = 0 ∧ later.Repeats call build ∧
      (∀ more next, Run later.setting later.opening more next → next.reports.length = 1 →
        next.requests = [] ∧ next.disk = later.disk ∧ next.cache = later.cache ∧
          ∃ last, Relation.ReflTransGen (StepsTo later.setting) next last ∧
            last.isFinished = true) ∧
      ∀ more next report', later.Completes more next report' →
        (∃ cycles, report' =
          { Report.zero with cacheHits := report.fetched + report.cacheHits, cycles }) ∧
        (provided call.setting turns).length = report.fetched + report.cacheHits ∧
        (provided later.setting more).Perm (provided call.setting turns) := by
  obtain ⟨turns, hcompletes⟩ := completes_ring
  have hworkshop : (ringCall [⟨"ui", "a", "1"⟩]).setting.workshop = .of .jsx ⟨"/w"⟩ "r" "c" := rfl
  have hrepeats := Call.repeats_repeated (ringCall [⟨"ui", "a", "1"⟩])
    (ringBuild [⟨"ui", "a", "1"⟩])
  have hsettled := warm_build_touches_nothing hworkshop hcompletes rfl rfl hrepeats
  exact ⟨_, turns, _, _, _, rfl, rfl, hworkshop, hcompletes, rfl, rfl, rfl, hrepeats, hsettled⟩

end Build

end ComponentTags
