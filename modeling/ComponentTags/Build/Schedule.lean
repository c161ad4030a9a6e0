import ComponentTags.Build.Step

/-!
Running builds. Whoever polls a visit polls those that it joins before it, in the order in which they
came up, and a visit that is polled goes on until it has to wait: for a gate, for a slot, for the disk,
for other visits or for an answer. So what one component needs is met before the visit of the next
component begins, unless something had to be waited for in between.
-/

namespace ComponentTags.Build

/-- How soon requests are answered: at once, as in the same process, or after a while, as on the web. -/
inductive Pace where
  | atOnce
  | inTime
deriving DecidableEq, Repr, Inhabited

/-- Whether a visit waits for the disk or for an answer, which is not there before the next poll. -/
def rests (pace : Pace) : Stage → Bool
  | .looking _ | .failing | .writing _ => true
  | .gathering _ gathering => gathering.pending.isEmpty
  | .requesting => pace = .inTime
  | _ => false

/-- Whether a visit waits for an answer that never comes. -/
def isUnanswered (setting : BuildSetting) (visit : Visit) : Bool :=
  visit.stage = .requesting &&
    match response setting visit with
    | .error (.timeout _) => true
    | _ => false

/-- The visits that a visit joins. -/
def joined : Stage → List Nat
  | .joining children _ => children
  | _ => []

/--
Polls a visit, and first those that it joins, for so many steps and levels at most; a visit without an
answer is only given up if it is late.
-/
def poll (setting : BuildSetting) (pace : Pace) (late : Bool) : Nat → Build → Nat → Build
  | 0, build, _ => build
  | fuel + 1, build, index =>
      match build.visits[index]? with
      | none => build
      | some visit =>
          if isUnanswered setting visit && !late then build
          else
            let build := (joined visit.stage).foldl (poll setting pace late fuel) build
            match build.step? setting index with
            | none => build
            | some next =>
                if (next.visits[index]?).any fun visit => rests pace visit.stage then next
                else poll setting pace late fuel next index

def isFinished (build : Build) : Bool :=
  build.visits.all (·.stage = .done)

def maxTurns : Nat :=
  1000000

/-- Polls the visits that no other one joins. -/
def pollAll (setting : BuildSetting) (pace : Pace) (late : Bool) (build : Build) : Build :=
  ((List.range build.visits.length).filter fun index =>
      (build.visits[index]?).any fun visit => !visit.isChild).foldl
    (poll setting pace late maxTurns) build

/-- Polls until all visits are over, at most `turns` times; it is late only if nothing else goes on. -/
def run (setting : BuildSetting) (pace : Pace) : Nat → Build → Build
  | 0, build => build
  | turns + 1, build =>
      if build.isFinished then build
      else
        let next := build.pollAll setting pace false
        run setting pace turns
          (if next.visits = build.visits then build.pollAll setting pace true else next)

def materialize (build : Build) (setting : BuildSetting) (components : List NamedReference)
    (pace : Pace := .atOnce) : Build × Report :=
  let finished := run setting pace maxTurns (build.begin components)
  (finished, finished.reports.getLast?.getD .zero)

end ComponentTags.Build
