import Mathlib.Order.Bounds.Basic
import ComponentTags.Proofs.Build.Reach
import ComponentTags.Proofs.Build.Tallies

/-!
Verdicts. A build passes one verdict on every component that it meets, in the step in which the
visit that claimed it finds it, gives it up or writes it. The counters of a report are the numbers of
the verdicts, but for write errors: a message that could not be written is one more.
-/

namespace ComponentTags

/-- The cache says that the component was had. -/
def Cache.HasSuccess (cache : Cache) (key : ComponentKey) : Prop :=
  ∃ deps, cache.get? key = some { success := true, deps }

namespace Build

/--
What becomes of a component: its module was there, it was fetched and written, it could not be had,
or it was fetched and could not be written.
-/
inductive Verdict where
  | found
  | fetched
  | failed
  | unwritten
deriving DecidableEq, Repr

/-- What a verdict is counted as. -/
def Verdict.counts : Verdict → Report
  | .found => { Report.zero with cacheHits := 1 }
  | .fetched => { Report.zero with fetched := 1 }
  | .failed => { Report.zero with failed := 1 }
  | .unwritten => { Report.zero with writeErrors := 1 }

/-- The verdict that the next step of a visit passes on its component. -/
def verdict? (setting : BuildSetting) (build : Build) (visit : Visit) : Option Verdict :=
  match visit.stage with
  | .looking _ => if build.disk.holds visit.component.identity.path then some .found else none
  | .queued =>
      if setting.registry.find? visit.component.reference.tag = none then some .failed else none
  | .requesting =>
      match response setting visit with
      | .error _ => some .failed
      | .ok _ => none
  | .writing _ => some (if manages setting build visit then .fetched else .unwritten)
  | .gathering _ gathering =>
      if gathering.pending = [] then
        some (if manages setting build visit then .fetched else .unwritten)
      else none
  | _ => none

/-- Whether the next step of a visit gives up its component without a message. -/
def isSilent (setting : BuildSetting) (build : Build) (visit : Visit) : Bool :=
  match visit.stage with
  | .failing => !manages setting build visit
  | _ => false

/-- The component on which a verdict is passed in the turn, with the verdict. -/
def Turn.judges? (setting : BuildSetting) (turn : Turn) : Option (ComponentKey × Verdict) :=
  turn.visit?.bind fun visit =>
    (verdict? setting turn.before visit).map fun verdict => (visit.component.key, verdict)

/-- The component whose message could not be written in the turn. -/
def Turn.silences? (setting : BuildSetting) (turn : Turn) : Option ComponentKey :=
  turn.visit?.bind fun visit =>
    if isSilent setting turn.before visit then some visit.component.key else none

/-- The verdicts of some turns, the last one first. -/
def verdicts (setting : BuildSetting) (turns : List Turn) : List (ComponentKey × Verdict) :=
  turns.filterMap (Turn.judges? setting)

/-- The components that could not be had and whose messages could not be written. -/
def silenced (setting : BuildSetting) (turns : List Turn) : List ComponentKey :=
  turns.filterMap (Turn.silences? setting)

/-- The components with that verdict. -/
def withVerdict (verdict : Verdict) (entries : List (ComponentKey × Verdict)) :
    List ComponentKey :=
  (entries.filter (·.2 = verdict)).map Prod.fst

/-- A report on some verdicts, some messages that could not be written, and some cycles. -/
def reportOn (entries : List (ComponentKey × Verdict)) (silenced : List ComponentKey)
    (cycles : Nat) : Report :=
  { fetched := (withVerdict .fetched entries).length
    cacheHits := (withVerdict .found entries).length
    failed := (withVerdict .failed entries).length
    cycles
    writeErrors := (withVerdict .unwritten entries).length + silenced.length }

/-- Whether a verdict was passed on a component when the visit that claimed it is at a stage. -/
def isDecided : Stage → Bool
  | .failing | .joining _ none | .done => true
  | _ => false

/-- The components are recorded once each, and the visits that claimed them are past some point. -/
structure Recorded (build : Build) (owner : ComponentKey → Option Nat) (past : Stage → Prop)
    (keys : List ComponentKey) : Prop where
  once : keys.Nodup
  reached : ∀ key ∈ keys, ∃ (i : Nat) (visit : Visit), build.visits[i]? = some visit ∧
    visit.component.key = key ∧ owner key = some i ∧ past visit.stage

/-- The verdicts that a build has passed. -/
structure Judged (setting : BuildSetting) (start : Cache) (turns : List Turn) (build : Build)
    (owner : ComponentKey → Option Nat) : Prop where
  recorded : Recorded build owner (isDecided · = true) ((verdicts setting turns).map Prod.fst)
  decided : ∀ (i : Nat) (visit : Visit), build.visits[i]? = some visit →
    owner visit.component.key = some i → isDecided visit.stage = true →
      visit.component.key ∈ (verdicts setting turns).map Prod.fst
  silenced : Recorded build owner (· = .done) (silenced setting turns)
  failed : ∀ key ∈ Build.silenced setting turns, Failed setting turns key
  counted : ∃ cycles, build.reports.foldr Report.add .zero =
    reportOn (verdicts setting turns) (Build.silenced setting turns) cycles
  kept : ∀ key, start.HasSuccess key → build.cache.HasSuccess key
  succeeded : ∀ key verdict, (key, verdict) ∈ verdicts setting turns →
    verdict = .found ∨ verdict = .fetched → build.cache.HasSuccess key

/-! ### Lists of verdicts -/

section Lists

variable {entries : List (ComponentKey × Verdict)} {key : ComponentKey} {verdict other : Verdict}

theorem mem_withVerdict : key ∈ withVerdict verdict entries ↔ (key, verdict) ∈ entries := by
  simp [withVerdict]

theorem withVerdict_cons (entry : ComponentKey × Verdict) :
    withVerdict verdict (entry :: entries) =
      if entry.2 = verdict then entry.1 :: withVerdict verdict entries
      else withVerdict verdict entries := by
  by_cases h : entry.2 = verdict <;> simp [withVerdict, h]

/-- Every verdict is one of the four. -/
theorem length_eq_add (entries : List (ComponentKey × Verdict)) :
    entries.length = (withVerdict .found entries).length + (withVerdict .fetched entries).length +
      (withVerdict .failed entries).length + (withVerdict .unwritten entries).length := by
  induction entries with
  | nil => rfl
  | cons entry entries ih =>
      obtain ⟨key, verdict⟩ := entry
      cases verdict <;> simp [withVerdict_cons, ih] <;> omega

theorem reportOn_cons (entry : ComponentKey × Verdict) (silenced : List ComponentKey)
    (cycles : Nat) :
    reportOn (entry :: entries) silenced cycles =
      (reportOn entries silenced cycles).add entry.2.counts := by
  obtain ⟨key, verdict⟩ := entry
  cases verdict <;>
    simp [reportOn, withVerdict_cons, Verdict.counts, Report.add, Report.zero, Nat.add_right_comm]

end Lists

/-! ### The report over a step -/

section Reports

variable {setting : BuildSetting} {build next : Build} {index : Nat} {visit : Visit}
  {turns : List Turn}

theorem total_modify {reports : List Report} {run : Nat} (hrun : run < reports.length)
    (more : Report) :
    (reports.modify run (·.add more)).foldr Report.add .zero =
      (reports.foldr Report.add .zero).add more := by
  induction reports generalizing run with
  | nil => simp at hrun
  | cons report reports ih =>
      cases run with
      | zero =>
          calc ((report.add more).add (reports.foldr Report.add .zero))
              = report.add (more.add (reports.foldr Report.add .zero)) := Report.add_assoc _ _ _
            _ = report.add ((reports.foldr Report.add .zero).add more) := by
                rw [Report.add_comm more]
            _ = (report.add (reports.foldr Report.add .zero)).add more :=
                (Report.add_assoc _ _ _).symm
      | succ run =>
          have hrest : run < reports.length := by simpa using hrun
          rw [List.modify_succ_cons, List.foldr_cons, ih hrest, List.foldr_cons, Report.add_assoc]

/-- What a step adds to the report of its run. -/
theorem exists_dues_eq (setting : BuildSetting) (build : Build) (visit : Visit) :
    ∃ cycles, dues setting build visit =
      (((verdict? setting build visit).elim .zero Verdict.counts).add
        { Report.zero with writeErrors := if isSilent setting build visit then 1 else 0 }).add
          { Report.zero with cycles } := by
  unfold dues verdict? isSilent
  cases hstage : visit.stage with
  | looking deps =>
      dsimp only
      split
      · exact ⟨cyclesAmong setting visit deps, by simp [Report.add, Report.zero, Verdict.counts]⟩
      · exact ⟨0, rfl⟩
  | queued =>
      dsimp only
      split <;> exact ⟨0, rfl⟩
  | requesting =>
      dsimp only
      cases response setting visit with
      | error failure => exact ⟨0, rfl⟩
      | ok answer =>
          dsimp only
          split
          · exact ⟨0, rfl⟩
          · exact ⟨cyclesAmong setting visit answer.1.deps, by simp [Report.add, Report.zero]⟩
  | failing => cases manages setting build visit <;> exact ⟨0, rfl⟩
  | writing payload =>
      refine ⟨cyclesAmong setting visit payload.deps, ?_⟩
      cases manages setting build visit <;> rfl
  | gathering payload gathering =>
      dsimp only
      split
      · cases manages setting build visit <;> exact ⟨0, rfl⟩
      · exact ⟨0, rfl⟩
  | _ => exact ⟨0, rfl⟩

theorem verdicts_cons (hfound : build.visits[index]? = some visit) :
    verdicts setting (⟨build, index⟩ :: turns) =
      ((verdict? setting build visit).map fun verdict =>
        (visit.component.key, verdict)).toList ++ verdicts setting turns := by
  have hjudges : Turn.judges? setting ⟨build, index⟩ =
      (verdict? setting build visit).map fun verdict => (visit.component.key, verdict) := by
    rw [Turn.judges?, Turn.visit?, hfound]
    rfl
  rw [verdicts, List.filterMap_cons, hjudges]
  cases verdict? setting build visit <;> rfl

theorem silenced_cons (hfound : build.visits[index]? = some visit) :
    silenced setting (⟨build, index⟩ :: turns) =
      if isSilent setting build visit then visit.component.key :: silenced setting turns
      else silenced setting turns := by
  have hsilences : Turn.silences? setting ⟨build, index⟩ =
      if isSilent setting build visit then some visit.component.key else none := by
    rw [Turn.silences?, Turn.visit?, hfound]
    rfl
  rw [silenced, List.filterMap_cons, hsilences]
  cases isSilent setting build visit <;> rfl

/-- A step adds to the reports what it adds to the verdicts. -/
theorem Accounts.total_eq (haccounts : Accounts setting build visit next)
    (hfound : build.visits[index]? = some visit) (hrun : visit.run < build.writeErrors.length)
    (hcounted : ∃ cycles, build.reports.foldr Report.add .zero =
      reportOn (verdicts setting turns) (silenced setting turns) cycles) :
    ∃ cycles, next.reports.foldr Report.add .zero =
      reportOn (verdicts setting (⟨build, index⟩ :: turns))
        (silenced setting (⟨build, index⟩ :: turns)) cycles := by
  obtain ⟨cycles, hcounted⟩ := hcounted
  obtain ⟨more, hdues⟩ := exists_dues_eq setting build visit
  rw [writeErrors, List.length_map] at hrun
  have hverdict : reportOn (verdicts setting (⟨build, index⟩ :: turns)) (silenced setting turns)
      cycles = (reportOn (verdicts setting turns) (silenced setting turns) cycles).add
        ((verdict? setting build visit).elim .zero Verdict.counts) := by
    rw [verdicts_cons hfound]
    cases verdict? setting build visit with
    | none => rfl
    | some verdict => exact reportOn_cons _ _ _
  refine ⟨cycles + more, ?_⟩
  rw [haccounts.reports, total_modify hrun, hcounted, hdues, ← Report.add_assoc,
    ← Report.add_assoc, ← hverdict, silenced_cons hfound]
  split <;> simp [reportOn, Report.add, Report.zero, Nat.add_assoc]

end Reports

/-! ### When a verdict is passed -/

section Steps

variable {setting : BuildSetting} {build next : Build} {owner owner' : ComponentKey → Option Nat}
  {index i : Nat} {visit other : Visit} {children : List Visit} {stage : Stage}
  {knowledge : Knowledge} {start cache : Cache} {turns : List Turn} {key : ComponentKey}
  {keys : List ComponentKey} {past : Stage → Prop} {verdict : Verdict}

namespace Recorded

/-- What is recorded stays so, as no step goes back before the point. -/
theorem keep (h : Recorded build owner past keys)
    (hstep : Advances setting build index visit children stage next)
    (howner : Extends owner owner' visit.component.key index)
    (hkept : past visit.stage → past stage) : Recorded next owner' past keys where
  once := h.once
  reached key hkey := by
    obtain ⟨i, other, hother, hkey, hown, hpast⟩ := h.reached key hkey
    by_cases hindex : i = index
    · subst hindex
      obtain rfl : other = visit := Option.some.inj (hother.symm.trans hstep.found)
      exact ⟨i, _, hstep.own, hkey, howner.kept _ _ hown, hkept hpast⟩
    · exact ⟨i, other, hstep.keeps hindex hother, hkey, howner.kept _ _ hown, hpast⟩

/-- One more component is recorded as the visit that claimed it passes the point. -/
theorem pass (h : Recorded build owner past keys)
    (hstep : Advances setting build index visit children stage next)
    (howner : Extends owner owner' visit.component.key index)
    (hown : owner visit.component.key = some index) (hbefore : ¬past visit.stage)
    (hafter : past stage) : Recorded next owner' past (visit.component.key :: keys) := by
  have hnew : visit.component.key ∉ keys := by
    intro hmem
    obtain ⟨i, other, hother, -, hown', hpast⟩ := h.reached _ hmem
    obtain rfl : index = i := Option.some.inj (hown.symm.trans hown')
    obtain rfl : visit = other := Option.some.inj (hstep.found.symm.trans hother)
    exact hbefore hpast
  have hkeeps := h.keep hstep howner fun _ => hafter
  refine ⟨List.nodup_cons.2 ⟨hnew, h.once⟩, List.forall_mem_cons.2 ⟨?_, hkeeps.reached⟩⟩
  exact ⟨index, _, hstep.own, rfl, howner.kept _ _ hown, hafter⟩

theorem begin (h : Recorded build owner past keys) (components : List NamedReference) :
    Recorded (build.begin components) owner past keys where
  once := h.once
  reached key hkey := by
    obtain ⟨i, visit, hvisit, hrest⟩ := h.reached key hkey
    exact ⟨i, visit, getElem?_begin_of_some components hvisit, hrest⟩

end Recorded

/-- A component that was decided on stays so. -/
theorem Move.decided (h : Move setting build visit knowledge cache children stage)
    (hdecided : isDecided visit.stage = true) : isDecided stage = true := by
  cases h with
  | apologize | joinDependency => rfl
  | _ => simp_all [isDecided]

/-- A verdict is passed by the visit that claimed the component, as that is decided on. -/
theorem Guarded.of_verdict (h : Guarded setting build owner)
    (hstep : Advances setting build index visit children stage next)
    (hverdict : verdict? setting build visit = some verdict) :
    owner visit.component.key = some index ∧ isDecided visit.stage = false ∧
      isDecided stage = true := by
  have hmove := hstep.move
  generalize next.knowledge = knowledge at hmove
  generalize next.cache = cache at hmove
  unfold verdict? at hverdict
  cases hmove with
  | hit deps hstage | lack hstage | refuse failure hstage | writeDependency payload cache hstage
  | writeEntry payload gathering cache hstage =>
      exact ⟨h.owner_eq hstep.found hstage trivial, by rw [hstage]; rfl, rfl⟩
  | _ => simp_all

/-- Where no verdict is passed, the visit that claimed the component decides on nothing. -/
theorem Guarded.of_no_verdict (h : Guarded setting build owner)
    (hstep : Advances setting build index visit children stage next)
    (hverdict : verdict? setting build visit = none)
    (hown : owner visit.component.key = some index) (hdecided : isDecided stage = true) :
    isDecided visit.stage = true := by
  have hmove := hstep.move
  generalize next.knowledge = knowledge at hmove
  generalize next.cache = cache at hmove
  unfold verdict? at hverdict
  cases hmove with
  | release hstage hgate => exact absurd hown (h.not_owner hstep.found hstage rfl)
  | apologize hstage => rw [hstage]; rfl
  | joinDependency ids hstage hdone => rw [hstage]; rfl
  | _ => simp_all [isDecided, joiningStage]

/-- A component is given up without a message by the visit that claimed it, which is done then. -/
theorem Guarded.of_silent (h : Guarded setting build owner)
    (hstep : Advances setting build index visit children stage next)
    (hsilent : isSilent setting build visit = true) :
    owner visit.component.key = some index ∧ visit.stage = .failing ∧ stage = .done := by
  have hstage : visit.stage = .failing := by
    unfold isSilent at hsilent
    split at hsilent
    · assumption
    · cases hsilent
  refine ⟨h.owner_eq hstep.found hstage trivial, hstage, ?_⟩
  have hmove := hstep.move
  generalize next.knowledge = knowledge at hmove
  generalize next.cache = cache at hmove
  cases hmove with
  | apologize => rfl
  | _ => simp_all

/-- The components that could not be had are those that got that verdict. -/
theorem mem_failed_iff : key ∈ withVerdict .failed (verdicts setting turns) ↔
    Failed setting turns key := by
  have hfails (turn : Turn) (visit : Visit) (hvisit : turn.visit? = some visit) :
      verdict? setting turn.before visit = some .failed ↔ turn.Fails setting visit := by
    rw [Turn.Fails, and_iff_right hvisit]
    unfold verdict?
    cases hstage : visit.stage with
    | requesting =>
        cases hresponse : response setting visit with
        | error failure => simp
        | ok answer => simp
    | writing | gathering => dsimp only; split_ifs <;> simp
    | _ => simp
  simp only [mem_withVerdict, verdicts, List.mem_filterMap, Turn.judges?, Option.bind_eq_some_iff,
    Option.map_eq_some_iff, Prod.mk.injEq]
  constructor
  · rintro ⟨turn, hturn, visit, hvisit, -, hverdict, hkey, rfl⟩
    exact ⟨turn, hturn, visit, (hfails turn visit hvisit).1 hverdict, hkey⟩
  · rintro ⟨turn, hturn, visit, hfailed, hkey⟩
    exact ⟨turn, hturn, visit, hfailed.1, _, (hfails turn visit hfailed.1).2 hfailed, hkey, rfl⟩

/-! ### The cache over a step -/

/-- What the cache knows to have been had it knows ever after. -/
theorem Accounts.succeeds (haccounts : Accounts setting build visit next)
    (h : build.cache.HasSuccess key) : next.cache.HasSuccess key := by
  have hensure : (build.cache.ensure visit.component.key).HasSuccess key := by
    obtain ⟨deps, hknown⟩ := h
    refine ⟨deps, ?_⟩
    by_cases heq : key = visit.component.key
    · subst heq
      rw [get?_ensure, hknown]
      rfl
    · rw [← hknown]
      simp [Cache.ensure, Cache.get?, Std.ExtTreeMap.getElem?_insertIfNew, Ne.symm heq]
  have hrecord (payload : Payload) :
      (build.cache.recordSuccess visit.component.key payload.deps).HasSuccess key := by
    obtain ⟨deps, hknown⟩ := h
    by_cases heq : key = visit.component.key
    · exact ⟨payload.deps, by simp [Cache.recordSuccess, Cache.get?, heq]⟩
    · refine ⟨deps, ?_⟩
      rw [← hknown]
      simp [Cache.recordSuccess, Cache.get?, Std.ExtTreeMap.getElem?_insert, Ne.symm heq]
  rw [haccounts.cache]
  unfold cacheAfter
  dsimp only
  split
  · split
    · exact h
    · exact hensure
  · split
    · exact hrecord _
    · exact h
  · split
    · split
      · exact hrecord _
      · exact h
    · exact h
  · exact h

theorem exists_looking_of_found (h : verdict? setting build visit = some .found) :
    ∃ deps, visit.stage = .looking deps := by
  unfold verdict? at h
  cases hstage : visit.stage with
  | looking deps => exact ⟨deps, rfl⟩
  | requesting =>
      rw [hstage] at h
      dsimp only at h
      split at h <;> cases h
  | writing | gathering =>
      rw [hstage] at h
      dsimp only at h
      split_ifs at h <;> cases h
  | _ => simp_all

/-- What is written is recorded. -/
theorem Accounts.succeeds_of_fetched (haccounts : Accounts setting build visit next)
    (hverdict : verdict? setting build visit = some .fetched) :
    next.cache.HasSuccess visit.component.key := by
  have hrecord (payload : Payload) :
      (build.cache.recordSuccess visit.component.key payload.deps).HasSuccess visit.component.key :=
    ⟨payload.deps, by simp [Cache.recordSuccess, Cache.get?]⟩
  rw [haccounts.cache]
  unfold verdict? at hverdict
  unfold cacheAfter
  cases hstage : visit.stage with
  | requesting =>
      rw [hstage] at hverdict
      dsimp only at hverdict
      split at hverdict <;> cases hverdict
  | writing payload =>
      cases hmanages : manages setting build visit with
      | true => exact hrecord payload
      | false => simp_all
  | gathering payload gathering =>
      by_cases hpending : gathering.pending = []
      · cases hmanages : manages setting build visit with
        | true => simpa [hpending] using hrecord payload
        | false => simp_all
      · simp_all
  | _ => simp_all

/-! ### The verdicts over a run -/

theorem Move.isDecided_of_arriving (h : Move setting build visit knowledge cache children stage)
    (hstage : visit.stage = .arriving) : isDecided stage = false := by
  cases h <;> simp_all [isDecided]

namespace Judged

theorem recorded_cons (h : Judged setting start turns build owner)
    (hguarded : Guarded setting build owner)
    (hstep : Advances setting build index visit children stage next)
    (howner : Extends owner owner' visit.component.key index) :
    Recorded next owner' (isDecided · = true)
      ((verdicts setting (⟨build, index⟩ :: turns)).map Prod.fst) := by
  rw [verdicts_cons hstep.found]
  cases hverdict : verdict? setting build visit with
  | none => exact h.recorded.keep hstep howner hstep.move.decided
  | some verdict =>
      obtain ⟨hown, hbefore, hafter⟩ := hguarded.of_verdict hstep hverdict
      exact h.recorded.pass hstep howner hown (by simp [hbefore]) hafter

theorem decided_cons (h : Judged setting start turns build owner)
    (hguarded : Guarded setting build owner)
    (hstep : Advances setting build index visit children stage next)
    (howner : Extends owner owner' visit.component.key index) (i : Nat) (other : Visit)
    (hother : next.visits[i]? = some other) (hown : owner' other.component.key = some i)
    (hdecided : isDecided other.stage = true) :
    other.component.key ∈ (verdicts setting (⟨build, index⟩ :: turns)).map Prod.fst := by
  rw [verdicts_cons hstep.found, List.map_append, List.mem_append]
  rcases hstep.visit_cases hother with ⟨rfl, rfl⟩ | ⟨hne, hkept⟩ | ⟨-, -, hchild⟩
  · have harriving : visit.stage ≠ .arriving := by
      intro hstage
      cases hdecided.symm.trans (hstep.move.isDecided_of_arriving hstage)
    have hwas := hguarded.owner_before hstep.found howner harriving hown
    cases hverdict : verdict? setting build visit with
    | none =>
        have hbefore := hguarded.of_no_verdict hstep hverdict hwas hdecided
        exact .inr (h.decided i visit hstep.found hwas hbefore)
    | some verdict => exact .inl (List.mem_singleton_self _)
  · have hwas := (howner.new _ _ hown).resolve_right fun hnew => hne hnew.2.2
    exact .inr (h.decided i other hkept hwas hdecided)
  · rw [hchild.stage] at hdecided
    cases hdecided

theorem silenced_cons (h : Judged setting start turns build owner)
    (htracked : Tracked setting start turns build owner)
    (hstep : Advances setting build index visit children stage next)
    (howner : Extends owner owner' visit.component.key index) :
    Recorded next owner' (· = .done) (Build.silenced setting (⟨build, index⟩ :: turns)) ∧
      ∀ key ∈ Build.silenced setting (⟨build, index⟩ :: turns),
        Failed setting (⟨build, index⟩ :: turns) key := by
  have hguarded := htracked.sound.guarded
  have hold : ∀ key ∈ Build.silenced setting turns, Failed setting (⟨build, index⟩ :: turns) key :=
    fun key hkey => (h.failed key hkey).cons
  rw [Build.silenced_cons hstep.found]
  by_cases hsilent : isSilent setting build visit = true
  · obtain ⟨hown, hfailing, rfl⟩ := hguarded.of_silent hstep hsilent
    have hfailed := htracked.sound.lost.failing index visit hstep.found hown (.inl hfailing)
    rw [if_pos hsilent]
    exact ⟨h.silenced.pass hstep howner hown (by simp [hfailing]) rfl,
      List.forall_mem_cons.2 ⟨hfailed.cons, hold⟩⟩
  · have hkept (hdone : visit.stage = .done) : stage = .done := by
      have hmove := hstep.move
      generalize next.knowledge = knowledge at hmove
      generalize next.cache = cache at hmove
      cases hmove <;> simp_all
    rw [if_neg hsilent]
    exact ⟨h.silenced.keep hstep howner hkept, hold⟩

theorem succeeded_cons (h : Judged setting start turns build owner)
    (htaught : Taught setting start turns build owner)
    (haccounts : Accounts setting build visit next) (hfound : build.visits[index]? = some visit)
    (hmem : (key, verdict) ∈ verdicts setting (⟨build, index⟩ :: turns))
    (hgood : verdict = .found ∨ verdict = .fetched) : next.cache.HasSuccess key := by
  rw [verdicts_cons hfound, List.mem_append, Option.mem_toList, Option.map_eq_some_iff] at hmem
  rcases hmem with ⟨passed, hverdict, hentry⟩ | hold
  · obtain ⟨rfl, rfl⟩ := Prod.mk.inj hentry
    rcases hgood with rfl | rfl
    · obtain ⟨deps, hstage⟩ := exists_looking_of_found hverdict
      exact haccounts.succeeds (h.kept _ ⟨deps, htaught.looking index visit deps hfound hstage⟩)
    · exact haccounts.succeeds_of_fetched hverdict
  · exact haccounts.succeeds (h.succeeded key verdict hold hgood)

theorem advance (h : Judged setting start turns build owner)
    (htracked : Tracked setting start turns build owner)
    (hpassage : Passage setting build owner index visit children stage next owner') :
    Judged setting start (⟨build, index⟩ :: turns) next owner' := by
  have hguarded := htracked.sound.guarded
  have hstep := hpassage.advances
  have howner := hpassage.owners
  have haccounts := accounts_step hstep.found hpassage.taken
  have hsilenced := h.silenced_cons htracked hstep howner
  exact {
    recorded := h.recorded_cons hguarded hstep howner
    decided := h.decided_cons hguarded hstep howner
    silenced := hsilenced.1
    failed := hsilenced.2
    counted := haccounts.total_eq hstep.found
      (htracked.sound.counted index visit hstep.found) h.counted
    kept := fun key hkey => haccounts.succeeds (h.kept key hkey)
    succeeded := fun key verdict =>
      h.succeeded_cons htracked.sound.taught haccounts hstep.found }

theorem begin (h : Judged setting start turns build owner)
    (components : List NamedReference) :
    Judged setting start turns (build.begin components) owner where
  recorded := h.recorded.begin components
  decided i visit hvisit hown hdecided := by
    rcases getElem?_begin hvisit with hold | ⟨harriving, -, -⟩
    · exact h.decided i visit hold hown hdecided
    · rw [harriving] at hdecided
      cases hdecided
  silenced := h.silenced.begin components
  failed := h.failed
  counted := by
    obtain ⟨cycles, hcounted⟩ := h.counted
    refine ⟨cycles, ?_⟩
    rw [← hcounted]
    simp [Build.begin, Report.add, Report.zero]
  kept := h.kept
  succeeded := h.succeeded

end Judged

end Steps

section Runs

variable {setting : BuildSetting} {build : Build} {turns : List Turn} {cache : Cache} {disk : Disk}

theorem Run.judged (hproper : setting.workshop.naming.IsProper)
    (hrun : Run setting (Build.start cache disk) turns build) :
    ∃ owner, Tracked setting cache turns build owner ∧ Judged setting cache turns build owner := by
  have hempty (past : Stage → Prop) : Recorded (Build.start cache disk) (fun _ => none) past [] :=
    ⟨List.nodup_nil, fun key hkey => by cases hkey⟩
  refine hrun.invariant (motive := Judged setting cache) hproper ?_ ?_ ?_
  · exact {
      recorded := hempty _
      decided := fun i visit hvisit => by simp [Build.start] at hvisit
      silenced := hempty _
      failed := fun key hkey => by cases hkey
      counted := ⟨0, rfl⟩
      kept := fun key hkey => hkey
      succeeded := fun key verdict hmem => by cases hmem }
  · intro turns build owner references htracked hjudged
    exact hjudged.begin _
  · intro turns build owner index visit children stage next owner' htracked hpassage hjudged
    exact hjudged.advance htracked hpassage

end Runs

/-! ### What a call counts -/

section Calls

variable {call : Call} {turns : List Turn} {build : Build} {report : Report}
  {owner : ComponentKey → Option Nat} {key : ComponentKey}

/-- The keys hold what a call asks for, and what each of them is known to need. -/
structure Call.IsClosed (call : Call) (turns : List Turn) (keys : Set ComponentKey) : Prop where
  asked : ∀ reference ∈ call.references, call.naming.key reference ∈ keys
  needed : ∀ key ∈ keys, ∀ deps, Learned call.setting call.cache turns key deps →
    ∀ dep ∈ deps, childKey call.setting key dep ∈ keys

/-- The components of a call that got that verdict. -/
def Call.judged (call : Call) (turns : List Turn) (verdict : Verdict) : List ComponentKey :=
  withVerdict verdict (verdicts call.setting turns)

/-- A call counts everything that it meets once. -/
structure Call.CountsOnce (call : Call) (turns : List Turn) (build : Build) (report : Report) :
    Prop where
  met : IsLeast {keys | call.IsClosed turns keys} {key | key ∈ build.knowledge.nodes}
  known : ∀ key ∈ build.knowledge.nodes,
    key ∉ call.judged turns .failed ↔ ∃ deps, Learned call.setting call.cache turns key deps
  once : ((verdicts call.setting turns).map Prod.fst).Perm build.knowledge.nodes.keys
  cacheHits : report.cacheHits = (call.judged turns .found).length
  fetched : report.fetched = (call.judged turns .fetched).length
  failed : report.failed = (call.judged turns .failed).length
  size : build.knowledge.nodes.size = report.cacheHits + report.fetched + report.failed +
    (call.judged turns .unwritten).length
  silenced : (Build.silenced call.setting turns).Nodup ∧
    Build.silenced call.setting turns ⊆ call.judged turns .failed
  writeErrors : report.writeErrors =
    (call.judged turns .unwritten).length + (Build.silenced call.setting turns).length
  succeeded : ∀ key ∈ call.judged turns .found ++ call.judged turns .fetched,
    build.cache.HasSuccess key

/-- What was met is the least that holds what was asked for and what that needs. -/
theorem Tracked.isLeast_met (h : Tracked call.setting call.cache turns build owner)
    (hrun : Run call.setting call.opening turns build) (halone : build.reports.length = 1)
    (hfinished : build.isFinished = true) :
    IsLeast {keys | call.IsClosed turns keys} {key | key ∈ build.knowledge.nodes} := by
  have hmet (key : ComponentKey) : key ∈ build.knowledge.nodes ↔
      ∃ reference ∈ call.references, Relation.ReflTransGen
        (ResolvedNeeds call.setting call.cache turns) (call.naming.key reference) key :=
    (h.sound.guarded.isSome_iff key).symm.trans (h.met_iff hrun halone hfinished)
  refine ⟨⟨?_, ?_⟩, ?_⟩
  · exact fun reference hasked => (hmet _).2 ⟨reference, hasked, .refl⟩
  · intro key hkey deps hlearned dep hdep
    obtain ⟨reference, hasked, hreach⟩ := (hmet key).1 hkey
    exact (hmet _).2 ⟨reference, hasked, hreach.tail ⟨deps, hlearned, dep, hdep, rfl⟩⟩
  · intro keys hclosed key hkey
    obtain ⟨reference, hasked, hreach⟩ := (hmet key).1 hkey
    induction hreach with
    | refl => exact hclosed.asked reference hasked
    | tail hreach hneeds ih =>
        obtain ⟨deps, hlearned, dep, hdep, rfl⟩ := hneeds
        exact hclosed.needed _ (ih ((hmet _).2 ⟨reference, hasked, hreach⟩)) deps hlearned dep hdep

/-- When a build is over, it is known what a component needs unless that could not be had. -/
theorem Tracked.learned_iff (h : Tracked call.setting call.cache turns build owner)
    (hfinished : build.isFinished = true) (hmet : (owner key).isSome) :
    ¬Failed call.setting turns key ↔ ∃ deps, Learned call.setting call.cache turns key deps := by
  constructor
  · intro hhad
    obtain ⟨i, visit, hvisit, rfl, hown, hdone, -⟩ :=
      h.sound.guarded.opened_of_isFinished hfinished hmet
    cases hdeps : build.knowledge.deps[visit.component.key]? with
    | none => exact absurd (h.sound.lost.failing i visit hvisit hown (.inr ⟨hdone, hdeps⟩)) hhad
    | some deps => exact ⟨deps, h.sound.taught.known _ deps hdeps⟩
  · rintro ⟨deps, hlearned⟩ hfailed
    obtain ⟨-, -, -, -, -, hnone⟩ := h.sound.lost.failed key hfailed
    cases hnone.symm.trans (h.sound.taught.learned key deps hlearned)

/-- When a build is over, a verdict was passed on everything that was met. -/
theorem Judged.mem_iff {setting : BuildSetting} {start : Cache}
    (h : Judged setting start turns build owner) (hguarded : Guarded setting build owner)
    (hfinished : build.isFinished = true) :
    key ∈ (verdicts setting turns).map Prod.fst ↔ key ∈ build.knowledge.nodes := by
  rw [← hguarded.isSome_iff]
  constructor
  · intro hmem
    obtain ⟨i, -, -, -, hown, -⟩ := h.recorded.reached key hmem
    rw [hown]
    rfl
  · intro hmet
    obtain ⟨i, visit, hvisit, rfl, hown, hdone, -⟩ := hguarded.opened_of_isFinished hfinished hmet
    exact h.decided i visit hvisit hown (by rw [hdone]; rfl)

/--
**Everything that is met is counted once.** Whatever the endpoint answers, whatever the cache and
the disk hold and in whatever order the turns are taken: a call meets the least that holds what it
asks for and what all of this needs that could be had, and each of it is found, fetched, given up or
lost in writing, and counted so.
-/
theorem counts_once {dialect : Dialect} {directory : Path} {renderer start : String}
    (hworkshop : call.setting.workshop = .of dialect directory renderer start)
    (hcompletes : call.Completes turns build report) : call.CountsOnce turns build report := by
  have hproper : call.setting.workshop.naming.IsProper := by
    rw [hworkshop]
    exact Naming.isProper_of _ dialect start
  obtain ⟨hrun, hfinished, hreports⟩ := hcompletes
  have halone : build.reports.length = 1 := by
    rw [hreports]
    rfl
  obtain ⟨owner, htracked, hjudged⟩ := (Call.run_start hrun).judged hproper
  have hguarded := htracked.sound.guarded
  obtain ⟨cycles, hcounted⟩ := hjudged.counted
  rw [hreports] at hcounted
  have hreport : report =
      reportOn (verdicts call.setting turns) (Build.silenced call.setting turns) cycles := hcounted
  have hperm : ((verdicts call.setting turns).map Prod.fst).Perm build.knowledge.nodes.keys := by
    refine (List.perm_ext_iff_of_nodup hjudged.recorded.once
      Std.ExtTreeMap.nodup_keys).2 fun key => ?_
    rw [hjudged.mem_iff hguarded hfinished, Std.ExtTreeMap.mem_keys]
  refine ⟨htracked.isLeast_met hrun halone hfinished, ?_, hperm, by rw [hreport]; rfl,
    by rw [hreport]; rfl, by rw [hreport]; rfl, ?_, ⟨hjudged.silenced.once, ?_⟩,
    by rw [hreport]; rfl, ?_⟩
  · intro key hkey
    rw [← hguarded.isSome_iff] at hkey
    rw [Call.judged, mem_failed_iff]
    exact htracked.learned_iff hfinished hkey
  · rw [← Std.ExtTreeMap.length_keys, ← hperm.length_eq, List.length_map, length_eq_add, hreport]
    rfl
  · exact fun key hkey => mem_failed_iff.2 (hjudged.failed key hkey)
  · intro key hkey
    rcases List.mem_append.1 hkey with hfound | hfetched
    · exact hjudged.succeeded key .found (mem_withVerdict.1 hfound) (.inl rfl)
    · exact hjudged.succeeded key .fetched (mem_withVerdict.1 hfetched) (.inr rfl)

/-- Of the ring one component is asked for, and both are counted. -/
theorem counts_once_of_ring :
    ∃ turns build report, (ringCall [⟨"ui", "a", "1"⟩]).Completes turns build report ∧
      report.fetched = 2 ∧ (ringCall [⟨"ui", "a", "1"⟩]).CountsOnce turns build report := by
  obtain ⟨turns, hcompletes⟩ := completes_ring
  exact ⟨turns, _, _, hcompletes, rfl, counts_once rfl hcompletes⟩

end Calls

end Build

end ComponentTags
