/-!
Reports: how many components a build fetched, found in the cache and failed to get.
-/

namespace ComponentTags

/--
The counts of a build: components fetched and written, components found in the cache, components
replaced by a message, dependencies on an ancestor, and modules that could not be written.
-/
structure Report where
  fetched : Nat
  cacheHits : Nat
  failed : Nat
  cycles : Nat
  writeErrors : Nat
deriving DecidableEq, Repr, Inhabited

namespace Report

def zero : Report :=
  { fetched := 0, cacheHits := 0, failed := 0, cycles := 0, writeErrors := 0 }

def add (first second : Report) : Report :=
  { fetched := first.fetched + second.fetched
    cacheHits := first.cacheHits + second.cacheHits
    failed := first.failed + second.failed
    cycles := first.cycles + second.cycles
    writeErrors := first.writeErrors + second.writeErrors }

def hasProblems (report : Report) : Bool :=
  report.failed > 0 || report.cycles > 0 || report.writeErrors > 0

/-- The counts on one line; write errors are told only if there are any. -/
def text (report : Report) : String :=
  toString report.fetched ++ " fetched, " ++ toString report.cacheHits ++ " cached, "
    ++ toString report.failed ++ " failed, " ++ toString report.cycles ++ " cycles"
    ++ if report.writeErrors > 0 then ", " ++ toString report.writeErrors ++ " write errors" else ""

end Report

end ComponentTags
