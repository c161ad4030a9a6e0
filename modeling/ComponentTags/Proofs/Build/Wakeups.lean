import Mathlib.Data.List.Nodup
import ComponentTags.Build.Step

/-!
Waiting for gates. Whoever closes a gate is handed a guard; dropping it puts the gate down as open and
then rings the bell of the gate. A wait looks for the gate, registers for its bell, looks again and
sleeps. However the steps of any number of tasks come between each other, no wait sleeps on after its
bell has rung, and a wait comes to its end in the cases in which a visit of the build goes on.
-/

namespace ComponentTags

/-- A gate as it is kept: one that is closed has a bell, known by the number of its guard. -/
inductive KeptGate where
  | closed (bell : Nat)
  | opened
deriving DecidableEq, Repr, Inhabited

def KeptGate.gate : KeptGate → Gate
  | .closed _ => .closed
  | .opened => .opened

/-- How far the dropping of a guard has come; while it is opening, it has the bell that it found. -/
inductive GuardStage where
  | held
  | opening (bell : Nat)
  | dropped
deriving DecidableEq, Repr, Inhabited

structure GateGuard where
  key : ComponentKey
  stage : GuardStage
deriving DecidableEq, Repr, Inhabited

/-- How far a wait has come: from `enabled` on, it is registered for the bell that it found. -/
inductive WaitStage where
  | looking
  | found (bell : Nat)
  | created (bell : Nat)
  | enabled (bell : Nat)
  | asleep (bell : Nat)
  | ended
deriving DecidableEq, Repr, Inhabited

namespace WaitStage

def bell? : WaitStage → Option Nat
  | .found bell | .created bell | .enabled bell | .asleep bell => some bell
  | .looking | .ended => none

/-- The next step of a wait, as it finds its gate; one that sleeps has to be woken. -/
def next? (gate? : Option KeptGate) (woken : Bool) : WaitStage → Option WaitStage
  | .looking =>
      match gate? with
      | some (.closed bell) => some (.found bell)
      | some .opened | none => some .ended
  | .found bell => some (.created bell)
  | .created bell => some (.enabled bell)
  | .enabled bell => some (if gate? = some .opened then .ended else .asleep bell)
  | .asleep _ => if woken then some .ended else none
  | .ended => none

end WaitStage

structure GateWait where
  key : ComponentKey
  stage : WaitStage
  woken : Bool
deriving DecidableEq, Repr, Inhabited

namespace GateWait

def go? (wait : GateWait) (gate? : Option KeptGate) : Option GateWait :=
  (wait.stage.next? gate? wait.woken).map fun stage => { wait with stage }

/-- Some steps of a wait, one after another, while its gate stays as it is. -/
def goes? (gate? : Option KeptGate) : Nat → GateWait → Option GateWait
  | 0, wait => some wait
  | n + 1, wait => (wait.go? gate?).bind (goes? gate? n)

/-- A bell wakes those that are registered for it; those that are about to be may hear it early. -/
def hears (wait : GateWait) (bell : Nat) (early : Bool) : Bool :=
  match wait.stage with
  | .enabled own | .asleep own => own = bell
  | .created own => early && own = bell
  | .looking | .found _ | .ended => false

def hear (wait : GateWait) (bell : Nat) (early : Bool) : GateWait :=
  { wait with woken := wait.woken || wait.hears bell early }

end GateWait

/-- The gates of one kind, with the guards that were handed out for them and the waits for them. -/
structure Gatehouse where
  gates : KeyMap KeptGate
  guards : List GateGuard
  waits : List GateWait

/-- A step of one of the tasks; when a bell rings, some waits may hear it early. -/
inductive GateStep where
  | close (key : ComponentKey)
  | wait (key : ComponentKey)
  | go (id : Nat)
  | release (id : Nat)
  | ring (id : Nat) (early : List Nat)
deriving DecidableEq, Repr, Inhabited

namespace Gatehouse

def empty : Gatehouse :=
  { gates := ∅, guards := [], waits := [] }

/-- A gate that nobody closed before is closed, and a guard handed out; any other stays as it is. -/
def close (house : Gatehouse) (key : ComponentKey) : Gatehouse :=
  if house.gates.contains key then house
  else
    { house with
      gates := house.gates.insert key (.closed house.guards.length)
      guards := house.guards ++ [{ key, stage := .held }] }

def wait (house : Gatehouse) (key : ComponentKey) : Gatehouse :=
  { house with waits := house.waits ++ [{ key, stage := .looking, woken := false }] }

def go? (house : Gatehouse) (id : Nat) : Option Gatehouse := do
  let wait ← house.waits[id]?
  let next ← wait.go? house.gates[wait.key]?
  pure { house with waits := house.waits.set id next }

/-- The first step of dropping a guard: its gate is open, and it has the bell that was there, if any. -/
def release? (house : Gatehouse) (id : Nat) : Option Gatehouse :=
  match house.guards[id]? with
  | some ⟨key, .held⟩ =>
      let stage :=
        match house.gates[key]? with
        | some (.closed bell) => .opening bell
        | some .opened | none => .dropped
      some { house with
        gates := house.gates.insert key .opened
        guards := house.guards.set id { key, stage } }
  | _ => none

/-- The second step of dropping a guard: the bell rings. -/
def ring? (house : Gatehouse) (id : Nat) (early : List Nat) : Option Gatehouse :=
  match house.guards[id]? with
  | some ⟨key, .opening bell⟩ =>
      some { house with
        guards := house.guards.set id { key, stage := .dropped }
        waits := house.waits.mapIdx fun n wait => wait.hear bell (early.contains n) }
  | _ => none

def step? (house : Gatehouse) : GateStep → Option Gatehouse
  | .close key => some (house.close key)
  | .wait key => some (house.wait key)
  | .go id => house.go? id
  | .release id => house.release? id
  | .ring id early => house.ring? id early

/-- The steps of all tasks, in any order. -/
def run? (house : Gatehouse) : List GateStep → Option Gatehouse
  | [] => some house
  | step :: steps => (house.step? step).bind fun later => later.run? steps

end Gatehouse

/-! ### How guards and waits stand -/

/-- The gate of a guard: closed, with the bell of that guard, until it is opened. -/
def GateGuard.Stands (gates : KeyMap KeptGate) (id : Nat) (guard : GateGuard) : Prop :=
  match guard.stage with
  | .held => gates[guard.key]? = some (.closed id)
  | .opening bell => bell = id ∧ gates[guard.key]? = some .opened
  | .dropped => gates[guard.key]? = some .opened

/-- A wait is for a bell of its own key, is not woken too early, and does not sleep on too long. -/
structure GateWait.Stands (gates : KeyMap KeptGate) (guards : List GateGuard) (wait : GateWait) :
    Prop where
  bell : ∀ bell : Nat, wait.stage.bell? = some bell →
    ∃ guard, guards[bell]? = some guard ∧ guard.key = wait.key
  woken : wait.woken = true → gates[wait.key]? = some .opened
  asleep : ∀ (bell : Nat) (guard : GateGuard), wait.stage = .asleep bell →
    guards[bell]? = some guard → guard.stage = .dropped → wait.woken = true

/-- How a guard stands depends on its own gate alone. -/
theorem GateGuard.Stands.of_eq {gates gates' : KeyMap KeptGate} {id : Nat} {guard : GateGuard}
    (h : guard.Stands gates id) (heq : gates'[guard.key]? = gates[guard.key]?) :
    guard.Stands gates' id := by
  unfold GateGuard.Stands at h ⊢
  rwa [heq]

namespace Gatehouse

/-- What is so in a gatehouse at every moment. -/
structure IsSound (house : Gatehouse) : Prop where
  keys : (house.guards.map GateGuard.key).Nodup
  closed : ∀ (key : ComponentKey) (bell : Nat), house.gates[key]? = some (.closed bell) →
    house.guards[bell]? = some ⟨key, .held⟩
  guards : ∀ (id : Nat) (guard : GateGuard), house.guards[id]? = some guard →
    guard.Stands house.gates id
  waits : ∀ wait ∈ house.waits, wait.Stands house.gates house.guards

/-- What stays as a gatehouse goes on: the gates that are open, and the keys of the guards. -/
structure Leads (house later : Gatehouse) : Prop where
  opened : ∀ key : ComponentKey, house.gates[key]? = some .opened →
    later.gates[key]? = some .opened
  keys : ∀ (id : Nat) (guard : GateGuard), house.guards[id]? = some guard →
    ∃ guard', later.guards[id]? = some guard' ∧ guard'.key = guard.key

section Soundness

variable {house later : Gatehouse} {gates : KeyMap KeptGate} {key key' : ComponentKey}
  {id bell : Nat} {early : List Nat} {wait next : GateWait} {guard other : GateGuard}
  {gate : KeptGate} {gate? : Option KeptGate} {stage stage' : GuardStage} {before after : WaitStage}
  {woken : Bool}

/-- Only the waits go on. -/
theorem leads_waits (house : Gatehouse) (waits : List GateWait) :
    Leads house { house with waits } :=
  ⟨fun _ h => h, fun _ guard h => ⟨guard, h, rfl⟩⟩

theorem Leads.refl (house : Gatehouse) : Leads house house :=
  leads_waits house house.waits

theorem Leads.trans {last : Gatehouse} (h : Leads house later) (h' : Leads later last) :
    Leads house last := by
  refine ⟨fun key hopen => h'.opened key (h.opened key hopen), fun id guard hguard => ?_⟩
  obtain ⟨guard', hguard', hkey⟩ := h.keys id guard hguard
  obtain ⟨guard'', hguard'', hkey'⟩ := h'.keys id guard' hguard'
  exact ⟨guard'', hguard'', hkey'.trans hkey⟩

/-- The bell of a wait stays one of its own key. -/
theorem Leads.exists_guard (h : Leads house later) (hwait : wait.Stands house.gates house.guards)
    (hbell : wait.stage.bell? = some bell) :
    ∃ guard, later.guards[bell]? = some guard ∧ guard.key = wait.key := by
  obtain ⟨guard, hguard, hkey⟩ := hwait.bell bell hbell
  obtain ⟨guard', hguard', hkey'⟩ := h.keys bell guard hguard
  exact ⟨guard', hguard', hkey'.trans hkey⟩

/-- A wait stands as it stood if the gatehouse goes on without dropping a guard. -/
theorem Leads.stands (h : Leads house later) (hwait : wait.Stands house.gates house.guards)
    (hdropped : ∀ (id : Nat) (guard : GateGuard), later.guards[id]? = some guard →
      guard.stage = .dropped → house.guards[id]? = some guard) :
    wait.Stands later.gates later.guards where
  bell _ hbell := h.exists_guard hwait hbell
  woken hwoken := h.opened _ (hwait.woken hwoken)
  asleep bell guard hasleep hguard hstage :=
    hwait.asleep bell guard hasleep (hdropped bell guard hguard hstage) hstage

theorem getElem?_insert_of_ne (hne : key ≠ key') : (gates.insert key gate)[key']? = gates[key']? := by
  simp [Std.ExtTreeMap.getElem?_insert, hne]

/-! ### Guards -/

/-- Every guard has a gate. -/
theorem IsSound.gate_ne_none (h : house.IsSound) (hguard : house.guards[id]? = some guard) :
    house.gates[guard.key]? ≠ none := by
  have hstands := h.guards id guard hguard
  unfold GateGuard.Stands at hstands
  intro hnone
  rw [hnone] at hstands
  split at hstands
  · cases hstands
  · cases hstands.2
  · cases hstands

/-- The gate of a guard that was dropped is open. -/
theorem IsSound.opened (h : house.IsSound) (hguard : house.guards[id]? = some guard)
    (hdropped : guard.stage = .dropped) : house.gates[guard.key]? = some .opened := by
  have hstands := h.guards id guard hguard
  rwa [GateGuard.Stands, hdropped] at hstands

/-- Two guards of one key are one. -/
theorem IsSound.eq_of_key {id' : Nat} (h : house.IsSound)
    (hguard : house.guards[id]? = some guard) (hother : house.guards[id']? = some other)
    (hkey : guard.key = other.key) : id = id' := by
  obtain ⟨hlt, -⟩ := List.getElem?_eq_some_iff.1 hguard
  refine (List.getElem?_inj (by rwa [List.length_map]) h.keys).1 ?_
  rw [List.getElem?_map, List.getElem?_map, hguard, hother]
  exact congrArg some hkey

/-- The keys of the guards stay when one of them goes on. -/
theorem map_key_set (hguard : house.guards[id]? = some ⟨key, stage⟩) :
    (house.guards.set id ⟨key, stage'⟩).map GateGuard.key = house.guards.map GateGuard.key := by
  obtain ⟨hlt, hget⟩ := List.getElem?_eq_some_iff.1 hguard
  have hmapped : id < (house.guards.map GateGuard.key).length := by rwa [List.length_map]
  have hsame : key = (house.guards.map GateGuard.key)[id] := by rw [List.getElem_map, hget]
  calc (house.guards.set id ⟨key, stage'⟩).map GateGuard.key =
        (house.guards.map GateGuard.key).set id key := List.map_set
    _ = (house.guards.map GateGuard.key).set id (house.guards.map GateGuard.key)[id] :=
        congrArg _ hsame
    _ = house.guards.map GateGuard.key := List.set_getElem_self hmapped

/-- What is found among the guards after one of them went on. -/
theorem of_getElem?_set {id' : Nat} (h : (house.guards.set id other)[id']? = some guard) :
    id = id' ∧ guard = other ∨ id ≠ id' ∧ house.guards[id']? = some guard := by
  rw [List.getElem?_set] at h
  split at h
  · next heq =>
      split at h
      · exact .inl ⟨heq, (Option.some.inj h).symm⟩
      · cases h
  · next hne => exact .inr ⟨hne, h⟩

/-- A guard that goes on keeps its place and its key. -/
theorem exists_of_set (hguard : house.guards[id]? = some ⟨key, stage⟩) {id' : Nat}
    (h : house.guards[id']? = some guard) :
    ∃ found, (house.guards.set id ⟨key, stage'⟩)[id']? = some found ∧ found.key = guard.key := by
  obtain ⟨hlt, -⟩ := List.getElem?_eq_some_iff.1 hguard
  by_cases heq : id = id'
  · subst heq
    obtain rfl := Option.some.inj (hguard.symm.trans h)
    exact ⟨_, List.getElem?_set_self hlt, rfl⟩
  · exact ⟨guard, (List.getElem?_set_ne heq).trans h, rfl⟩

/-! ### Closing a gate -/

theorem close_of_vacant (h : house.gates[key]? = none) :
    house.close key =
      { house with
        gates := house.gates.insert key (.closed house.guards.length)
        guards := house.guards ++ [{ key, stage := .held }] } := by
  rw [close, if_neg]
  rw [Std.ExtTreeMap.contains_eq_isSome_getElem?, h]
  exact Bool.false_ne_true

theorem close_of_taken (h : house.gates[key]? ≠ none) : house.close key = house := by
  rw [close, if_pos]
  rwa [Std.ExtTreeMap.contains_eq_isSome_getElem?, Option.isSome_iff_ne_none]

/-- The guards after one more was handed out. -/
theorem of_getElem?_append (h : (house.guards ++ [other])[id]? = some guard) :
    house.guards[id]? = some guard ∨ id = house.guards.length ∧ guard = other := by
  rw [List.getElem?_append] at h
  split at h
  · exact .inl h
  · next hle =>
      obtain ⟨hzero, heq⟩ := List.getElem?_eq_some_iff.1 h
      rw [List.length_singleton] at hzero
      exact .inr ⟨by omega, by simpa using heq.symm⟩

theorem leads_close (house : Gatehouse) (key : ComponentKey) : Leads house (house.close key) := by
  by_cases hvacant : house.gates[key]? = none
  · rw [close_of_vacant hvacant]
    refine ⟨fun key' hopen => ?_, fun id guard hguard => ?_⟩
    · have hne : key ≠ key' := by
        rintro rfl
        rw [hvacant] at hopen
        cases hopen
      exact (getElem?_insert_of_ne hne).trans hopen
    · obtain ⟨hlt, -⟩ := List.getElem?_eq_some_iff.1 hguard
      exact ⟨guard, (List.getElem?_append_left hlt).trans hguard, rfl⟩
  · rw [close_of_taken hvacant]
    exact .refl house

theorem isSound_close (h : house.IsSound) (key : ComponentKey) : (house.close key).IsSound := by
  have hleads := leads_close house key
  by_cases hvacant : house.gates[key]? = none
  · rw [close_of_vacant hvacant] at hleads ⊢
    have hother : ∀ (id : Nat) (guard : GateGuard), house.guards[id]? = some guard →
        key ≠ guard.key := by
      rintro id guard hguard rfl
      exact h.gate_ne_none hguard hvacant
    refine ⟨?_, fun key' bell hclosed => ?_, fun id guard hguard => ?_, fun wait hwait => ?_⟩
    · rw [List.map_append, List.nodup_append]
      refine ⟨h.keys, List.nodup_singleton _, ?_⟩
      rintro key' hkey' _ hnew rfl
      obtain ⟨guard, hmem, rfl⟩ := List.mem_map.1 hkey'
      obtain ⟨id, hguard⟩ := List.mem_iff_getElem?.1 hmem
      exact hother id guard hguard (List.mem_singleton.1 hnew).symm
    · by_cases heq : key = key'
      · subst heq
        obtain rfl : house.guards.length = bell := by simpa using hclosed
        exact List.getElem?_concat_length
      · dsimp only at hclosed
        rw [getElem?_insert_of_ne heq] at hclosed
        have hheld := h.closed key' bell hclosed
        obtain ⟨hlt, -⟩ := List.getElem?_eq_some_iff.1 hheld
        exact (List.getElem?_append_left hlt).trans hheld
    · rcases of_getElem?_append hguard with hold | ⟨rfl, rfl⟩
      · exact (h.guards id guard hold).of_eq (getElem?_insert_of_ne (hother id guard hold))
      · exact Std.ExtTreeMap.getElem?_insert_self
    · refine hleads.stands (h.waits wait hwait) fun id guard hguard hdropped => ?_
      rcases of_getElem?_append hguard with hold | ⟨rfl, rfl⟩
      · exact hold
      · cases hdropped
  · rwa [close_of_taken hvacant]

/-! ### Waiting -/

theorem isSound_wait (h : house.IsSound) (key : ComponentKey) : (house.wait key).IsSound := by
  refine ⟨h.keys, h.closed, h.guards, fun wait hwait => ?_⟩
  rcases List.mem_append.1 hwait with hold | hnew
  · exact h.waits wait hold
  · obtain rfl := List.mem_singleton.1 hnew
    exact ⟨nofun, nofun, nofun⟩

theorem go?_cases (h : house.go? id = some later) :
    ∃ wait next, house.waits[id]? = some wait ∧ wait.go? house.gates[wait.key]? = some next ∧
      later = { house with waits := house.waits.set id next } := by
  obtain ⟨wait, hwait, h⟩ := Option.bind_eq_some_iff.1 h
  obtain ⟨next, hnext, h⟩ := Option.bind_eq_some_iff.1 h
  exact ⟨wait, next, hwait, hnext, (Option.some.inj h).symm⟩

/-- The bell of a wait is the one that it found when it looked. -/
theorem bell?_of_next (h : before.next? gate? woken = some after)
    (hbell : after.bell? = some bell) :
    before.bell? = some bell ∨ gate? = some (.closed bell) := by
  unfold WaitStage.next? at h
  split at h
  · split at h
    · obtain rfl := Option.some.inj h
      obtain rfl := Option.some.inj hbell
      exact .inr rfl
    · obtain rfl := Option.some.inj h
      cases hbell
    · obtain rfl := Option.some.inj h
      cases hbell
  · obtain rfl := Option.some.inj h
    exact .inl hbell
  · obtain rfl := Option.some.inj h
    exact .inl hbell
  · obtain rfl := Option.some.inj h
    split at hbell
    · cases hbell
    · exact .inl hbell
  · split at h
    · obtain rfl := Option.some.inj h
      cases hbell
    · cases h
  · cases h

/-- A wait falls asleep only if it looks again and its gate is not open. -/
theorem enabled_of_next (h : before.next? gate? woken = some (.asleep bell)) :
    before = .enabled bell ∧ gate? ≠ some .opened := by
  unfold WaitStage.next? at h
  split at h
  · split at h <;> cases h
  · cases h
  · cases h
  · split at h
    · cases h
    · next hgate =>
        cases h
        exact ⟨rfl, hgate⟩
  · split at h <;> cases h
  · cases h

theorem go_cases (h : wait.go? gate? = some next) :
    ∃ stage, wait.stage.next? gate? wait.woken = some stage ∧ next = { wait with stage } := by
  obtain ⟨stage, hstage, rfl⟩ := Option.map_eq_some_iff.1 h
  exact ⟨stage, hstage, rfl⟩

theorem IsSound.stands_go (h : house.IsSound) (hwait : wait.Stands house.gates house.guards)
    (hgo : wait.go? house.gates[wait.key]? = some next) : next.Stands house.gates house.guards := by
  obtain ⟨stage, hstage, rfl⟩ := go_cases hgo
  refine ⟨fun bell hbell => ?_, hwait.woken, fun bell guard hasleep hguard hdropped => ?_⟩
  · rcases bell?_of_next hstage hbell with hbefore | hclosed
    · exact hwait.bell bell hbefore
    · exact ⟨⟨wait.key, .held⟩, h.closed wait.key bell hclosed, rfl⟩
  · obtain rfl : stage = .asleep bell := hasleep
    obtain ⟨henabled, hgate⟩ := enabled_of_next hstage
    obtain ⟨own, hown, hkey⟩ := hwait.bell bell (by rw [henabled]; rfl)
    obtain rfl : guard = own := Option.some.inj (hguard.symm.trans hown)
    have hopen := h.opened hguard hdropped
    rw [hkey] at hopen
    exact absurd hopen hgate

theorem isSound_go (h : house.IsSound) (hgo : house.go? id = some later) : later.IsSound := by
  obtain ⟨wait, next, hwait, hnext, rfl⟩ := go?_cases hgo
  refine ⟨h.keys, h.closed, h.guards, fun found hfound => ?_⟩
  rcases List.mem_or_eq_of_mem_set hfound with hold | rfl
  · exact h.waits found hold
  · exact h.stands_go (h.waits wait (List.mem_of_getElem? hwait)) hnext

/-! ### Dropping a guard -/

/-- A guard that begins to be dropped finds its own bell. -/
theorem IsSound.release?_cases (h : house.IsSound) (hrelease : house.release? id = some later) :
    ∃ key, house.guards[id]? = some ⟨key, .held⟩ ∧ house.gates[key]? = some (.closed id) ∧
      later = { house with
        gates := house.gates.insert key .opened
        guards := house.guards.set id { key, stage := .opening id } } := by
  unfold release? at hrelease
  split at hrelease
  · next key hguard =>
      have hclosed : house.gates[key]? = some (.closed id) := h.guards id _ hguard
      rw [hclosed] at hrelease
      exact ⟨key, hguard, hclosed, (Option.some.inj hrelease).symm⟩
  · cases hrelease

theorem IsSound.leads_release (h : house.IsSound) (hrelease : house.release? id = some later) :
    Leads house later := by
  obtain ⟨key, hguard, hclosed, rfl⟩ := h.release?_cases hrelease
  refine ⟨fun key' hopen => ?_, fun id' guard => exists_of_set hguard⟩
  by_cases heq : key = key'
  · subst heq
    exact Std.ExtTreeMap.getElem?_insert_self
  · exact (getElem?_insert_of_ne heq).trans hopen

theorem isSound_release (h : house.IsSound) (hrelease : house.release? id = some later) :
    later.IsSound := by
  have hleads := h.leads_release hrelease
  obtain ⟨key, hguard, hclosed, rfl⟩ := h.release?_cases hrelease
  refine ⟨?_, fun key' bell hgate => ?_, fun id' guard hfound => ?_, fun wait hwait => ?_⟩
  · dsimp only
    rw [map_key_set hguard]
    exact h.keys
  · by_cases heq : key = key'
    · subst heq
      rw [Std.ExtTreeMap.getElem?_insert_self] at hgate
      cases hgate
    · dsimp only at hgate
      rw [getElem?_insert_of_ne heq] at hgate
      have hheld := h.closed key' bell hgate
      have hne : id ≠ bell := by
        rintro rfl
        exact heq (congrArg GateGuard.key (Option.some.inj (hguard.symm.trans hheld)))
      exact (List.getElem?_set_ne hne).trans hheld
  · rcases of_getElem?_set hfound with ⟨rfl, rfl⟩ | ⟨hne, hold⟩
    · exact ⟨rfl, Std.ExtTreeMap.getElem?_insert_self⟩
    · refine (h.guards id' guard hold).of_eq (getElem?_insert_of_ne fun hkey => ?_)
      exact hne (h.eq_of_key hguard hold hkey)
  · refine hleads.stands (h.waits wait hwait) fun id' guard hfound hdropped => ?_
    rcases of_getElem?_set hfound with ⟨rfl, rfl⟩ | ⟨-, hold⟩
    · cases hdropped
    · exact hold

/-- A guard that is opening rings its own bell. -/
theorem IsSound.ring?_cases (h : house.IsSound) (hring : house.ring? id early = some later) :
    ∃ key, house.guards[id]? = some ⟨key, .opening id⟩ ∧ house.gates[key]? = some .opened ∧
      later = { house with
        guards := house.guards.set id { key, stage := .dropped }
        waits := house.waits.mapIdx fun n wait => wait.hear id (early.contains n) } := by
  unfold ring? at hring
  split at hring
  · next key bell hguard =>
      obtain ⟨rfl, hopen⟩ := h.guards id _ hguard
      exact ⟨key, hguard, hopen, (Option.some.inj hring).symm⟩
  · cases hring

theorem IsSound.leads_ring (h : house.IsSound) (hring : house.ring? id early = some later) :
    Leads house later := by
  obtain ⟨key, hguard, -, rfl⟩ := h.ring?_cases hring
  exact ⟨fun _ hopen => hopen, fun id' guard => exists_of_set hguard⟩

/-- A wait that hears a bell is for that bell. -/
theorem bell?_of_hears {heard : Bool} (h : wait.hears bell heard = true) :
    wait.stage.bell? = some bell := by
  unfold GateWait.hears at h
  split at h
  · next own hstage =>
      rw [hstage, of_decide_eq_true h]
      rfl
  · next own hstage =>
      rw [hstage, of_decide_eq_true h]
      rfl
  · next own hstage =>
      rw [hstage, of_decide_eq_true (Bool.and_eq_true_iff.1 h).2]
      rfl
  · cases h
  · cases h
  · cases h

theorem isSound_ring (h : house.IsSound) (hring : house.ring? id early = some later) :
    later.IsSound := by
  have hleads := h.leads_ring hring
  obtain ⟨key, hguard, hopen, rfl⟩ := h.ring?_cases hring
  refine ⟨?_, fun key' bell hgate => ?_, fun id' guard hfound => ?_, fun heard hheard => ?_⟩
  · dsimp only
    rw [map_key_set hguard]
    exact h.keys
  · have hheld := h.closed key' bell hgate
    have hne : id ≠ bell := by
      rintro rfl
      cases hguard.symm.trans hheld
    exact (List.getElem?_set_ne hne).trans hheld
  · rcases of_getElem?_set hfound with ⟨rfl, rfl⟩ | ⟨-, hold⟩
    · exact hopen
    · exact h.guards id' guard hold
  · obtain ⟨n, hn, rfl⟩ := List.mem_mapIdx.1 hheard
    have hwait := h.waits house.waits[n] (List.getElem_mem hn)
    refine ⟨fun bell hbell => ?_, fun hwoken => ?_, fun bell guard hstage hfound hdropped => ?_⟩
    · have hown := hleads.exists_guard hwait hbell
      exact hown
    · rcases Bool.or_eq_true_iff.1 hwoken with hbefore | hnow
      · exact hwait.woken hbefore
      · obtain ⟨guard, hown, hkey⟩ := hwait.bell id (bell?_of_hears hnow)
        obtain rfl := Option.some.inj (hown.symm.trans hguard)
        exact hkey ▸ hopen
    · rcases of_getElem?_set hfound with ⟨rfl, -⟩ | ⟨-, hold⟩
      · -- it sleeps for the bell that rings
        rw [GateWait.hear, GateWait.hears, show house.waits[n].stage = .asleep id from hstage]
        simp
      · rw [GateWait.hear, hwait.asleep bell guard hstage hold hdropped, Bool.true_or]

end Soundness

/-! ### Any number of tasks -/

section Runs

variable {house later : Gatehouse} {step : GateStep} {steps : List GateStep} {wait next : GateWait}
  {gate? : Option KeptGate} {id bell : Nat}

theorem isSound_empty : empty.IsSound :=
  ⟨List.nodup_nil, by simp [empty], nofun, nofun⟩

theorem isSound_step (h : house.IsSound) (hstep : house.step? step = some later) :
    later.IsSound := by
  cases step with
  | close key =>
      obtain rfl := Option.some.inj hstep
      exact isSound_close h key
  | wait key =>
      obtain rfl := Option.some.inj hstep
      exact isSound_wait h key
  | go id => exact isSound_go h hstep
  | release id => exact isSound_release h hstep
  | ring id early => exact isSound_ring h hstep

theorem leads_step (h : house.IsSound) (hstep : house.step? step = some later) :
    Leads house later := by
  cases step with
  | close key =>
      obtain rfl := Option.some.inj hstep
      exact leads_close house key
  | wait key =>
      obtain rfl := Option.some.inj hstep
      exact leads_waits house _
  | go id =>
      obtain ⟨wait, next, -, -, rfl⟩ := go?_cases hstep
      exact leads_waits house _
  | release id => exact h.leads_release hstep
  | ring id early => exact h.leads_ring hstep

theorem run_cons (hrun : house.run? (step :: steps) = some later) :
    ∃ between, house.step? step = some between ∧ between.run? steps = some later :=
  Option.bind_eq_some_iff.1 hrun

theorem isSound_run (h : house.IsSound) (hrun : house.run? steps = some later) :
    later.IsSound := by
  induction steps generalizing house with
  | nil => exact Option.some.inj hrun ▸ h
  | cons step steps ih =>
      obtain ⟨between, hstep, hrest⟩ := run_cons hrun
      exact ih (isSound_step h hstep) hrest

theorem leads_run (h : house.IsSound) (hrun : house.run? steps = some later) :
    Leads house later := by
  induction steps generalizing house with
  | nil => exact Option.some.inj hrun ▸ .refl house
  | cons step steps ih =>
      obtain ⟨between, hstep, hrest⟩ := run_cons hrun
      exact (leads_step h hstep).trans (ih (isSound_step h hstep) hrest)

/--
**No wake-up is lost.** Let gates be closed, waited for and opened, and let the steps of all that come
between each other in any way. Once the guard of a key was dropped, whoever sleeps for that key is
woken; a gate that is open stays so, whatever goes on; and no two guards are handed out for one key.
-/
theorem no_wakeup_lost (hrun : empty.run? steps = some house) :
    (∀ guard ∈ house.guards, guard.stage = .dropped → ∀ wait ∈ house.waits,
      wait.key = guard.key → ∀ bell, wait.stage = .asleep bell → wait.woken = true) ∧
      (∀ (further : List GateStep) (later : Gatehouse), house.run? further = some later →
        ∀ key : ComponentKey, house.gates[key]? = some .opened → later.gates[key]? = some .opened) ∧
      (house.guards.map GateGuard.key).Nodup := by
  have hsound := isSound_run isSound_empty hrun
  refine ⟨fun guard hguard hdropped wait hwait hkey bell hasleep => ?_,
    fun further later hfurther => (leads_run hsound hfurther).opened, hsound.keys⟩
  have hstands := hsound.waits wait hwait
  obtain ⟨id, hid⟩ := List.mem_iff_getElem?.1 hguard
  obtain ⟨own, hown, hown'⟩ := hstands.bell bell (by rw [hasleep]; rfl)
  -- the bell that the wait is for is that of the guard, the only one of its key
  obtain rfl : id = bell := hsound.eq_of_key hid hown (hkey.symm.trans hown'.symm)
  exact hstands.asleep id guard hasleep hid hdropped

/-- One wait sleeps when the gate opens, the other one registers when the bell is about to ring. -/
theorem no_wakeup_lost_of_two :
    let key : ComponentKey := ⟨"Widget", "CcWidgeta1"⟩
    let steps : List GateStep :=
      [.close key, .wait key, .go 0, .go 0, .go 0, .go 0, .wait key, .go 1, .release 0, .go 1,
        .ring 0 [], .go 1, .go 1, .close key]
    ∃ house, empty.run? steps = some house ∧ house.guards = [⟨key, .dropped⟩] ∧
      house.waits = [⟨key, .asleep 0, true⟩, ⟨key, .ended, false⟩] ∧
      house.gates[key]? = some .opened ∧
      (∀ wait ∈ house.waits, wait.key = key → ∀ bell, wait.stage = .asleep bell →
        wait.woken = true) := by
  intro key steps
  have hends : (empty.run? steps).map (fun house => (house.guards, house.waits, house.gates[key]?)) =
      some ([⟨key, .dropped⟩], [⟨key, .asleep 0, true⟩, ⟨key, .ended, false⟩], some .opened) := by
    decide +kernel
  obtain ⟨house, hrun, hends⟩ := Option.map_eq_some_iff.1 hends
  obtain ⟨hguards, hwaits, hgate⟩ : house.guards = _ ∧ house.waits = _ ∧ house.gates[key]? = _ := by
    simpa only [Prod.mk.injEq] using hends
  have hguard : ⟨key, .dropped⟩ ∈ house.guards := hguards ▸ List.mem_singleton_self _
  exact ⟨house, hrun, hguards, hwaits, hgate, (no_wakeup_lost hrun).1 _ hguard rfl⟩

/-! ### The end of a wait -/

/-- A gate is opened, and its bell is still to ring. -/
def IsRinging (house : Gatehouse) (key : ComponentKey) : Prop :=
  ∃ guard ∈ house.guards, guard.key = key ∧ ∃ bell, guard.stage = .opening bell

/-- A wait comes to its end by steps of its own. -/
def Ends (house : Gatehouse) (id : Nat) : Prop :=
  ∃ (n : Nat) (later : Gatehouse) (wait : GateWait),
    house.run? (List.replicate n (.go id)) = some later ∧ later.waits[id]? = some wait ∧
      wait.stage = .ended

theorem go?_of_wait (hwait : house.waits[id]? = some wait) :
    house.go? id = (wait.go? house.gates[wait.key]?).map fun next =>
      { house with waits := house.waits.set id next } := by
  rw [go?, hwait]
  cases hgo : wait.go? house.gates[wait.key]? with
  | none => exact congrArg (Option.bind · _) hgo
  | some next => exact congrArg (Option.bind · _) hgo

/-- The steps of one wait leave the gates and the guards alone. -/
theorem run_go (house : Gatehouse) (n : Nat) (hwait : house.waits[id]? = some wait) :
    house.run? (List.replicate n (.go id)) =
      (wait.goes? house.gates[wait.key]? n).map fun next =>
        { house with waits := house.waits.set id next } := by
  induction n generalizing house wait with
  | zero =>
      obtain ⟨hlt, hget⟩ := List.getElem?_eq_some_iff.1 hwait
      have hsame : house.waits.set id wait = house.waits := by
        rw [← hget, List.set_getElem_self]
      rw [GateWait.goes?, Option.map_some, hsame]
      rfl
  | succ n ih =>
      rw [List.replicate_succ, run?, step?, go?_of_wait hwait, GateWait.goes?]
      cases hgo : wait.go? house.gates[wait.key]? with
      | none => rfl
      | some next =>
          obtain ⟨hlt, -⟩ := List.getElem?_eq_some_iff.1 hwait
          have hnext : (house.waits.set id next)[id]? = some next := List.getElem?_set_self hlt
          have hrest := ih { house with waits := house.waits.set id next } hnext
          have hkey : next.key = wait.key := by
            obtain ⟨stage, -, rfl⟩ := go_cases hgo
            rfl
          rw [hkey] at hrest
          simpa only [Option.map_some, Option.bind_some, List.set_set] using hrest

theorem ends_iff_goes (hwait : house.waits[id]? = some wait) :
    house.Ends id ↔ ∃ n next, wait.goes? house.gates[wait.key]? n = some next ∧
      next.stage = .ended := by
  obtain ⟨hlt, -⟩ := List.getElem?_eq_some_iff.1 hwait
  constructor
  · rintro ⟨n, later, last, hrun, hlast, hended⟩
    rw [run_go house n hwait] at hrun
    obtain ⟨next, hgoes, rfl⟩ := Option.map_eq_some_iff.1 hrun
    obtain rfl : next = last := by simpa [hlt] using hlast
    exact ⟨n, next, hgoes, hended⟩
  · rintro ⟨n, next, hgoes, hended⟩
    refine ⟨n, { house with waits := house.waits.set id next }, next, ?_,
      List.getElem?_set_self hlt, hended⟩
    rw [run_go house n hwait, hgoes]
    rfl

/-- As long as a gate is closed and nobody is woken, a wait for it does not end. -/
theorem not_ended_of_closed {n : Nat} (hlooks : wait.stage ≠ .ended) (hwoken : wait.woken = false)
    (hgoes : wait.goes? (some (.closed bell)) n = some next) : next.stage ≠ .ended := by
  induction n generalizing wait with
  | zero => exact Option.some.inj hgoes ▸ hlooks
  | succ n ih =>
      obtain ⟨between, hgo, hrest⟩ := Option.bind_eq_some_iff.1 hgoes
      obtain ⟨key, stage, woken⟩ := wait
      dsimp only at hlooks hwoken
      subst hwoken
      cases stage with
      | ended => exact (hlooks rfl).elim
      | asleep => cases hgo
      | looking | found | created | enabled =>
          obtain rfl := Option.some.inj hgo
          exact ih (by simp) rfl hrest

/-- A wait whose gate is free ends after a few steps, unless it sleeps and nobody woke it. -/
theorem exists_goes (hlooks : wait.stage ≠ .ended) (hfree : ∀ bell, gate? ≠ some (.closed bell))
    (hopen : ∀ bell, wait.stage.bell? = some bell → gate? = some .opened)
    (hawake : ∀ bell, wait.stage = .asleep bell → wait.woken = true) :
    ∃ n next, wait.goes? gate? n = some next ∧ next.stage = .ended := by
  obtain ⟨key, stage, woken⟩ := wait
  cases stage with
  | ended => exact (hlooks rfl).elim
  | looking =>
      refine ⟨1, ⟨key, .ended, woken⟩, ?_, rfl⟩
      cases gate? with
      | none => rfl
      | some gate =>
          cases gate with
          | closed bell => exact (hfree bell rfl).elim
          | opened => rfl
  | found bell =>
      obtain rfl := hopen bell rfl
      exact ⟨3, ⟨key, .ended, woken⟩, rfl, rfl⟩
  | created bell =>
      obtain rfl := hopen bell rfl
      exact ⟨2, ⟨key, .ended, woken⟩, rfl, rfl⟩
  | enabled bell =>
      obtain rfl := hopen bell rfl
      exact ⟨1, ⟨key, .ended, woken⟩, rfl, rfl⟩
  | asleep bell =>
      obtain rfl : woken = true := hawake bell rfl
      exact ⟨1, ⟨key, .ended, true⟩, rfl, rfl⟩

/-- A wait that has a bell has a gate, which is open if it is not closed. -/
theorem IsSound.opened_of_free (h : house.IsSound)
    (hstands : wait.Stands house.gates house.guards) (hbell : wait.stage.bell? = some bell)
    (hfree : ∀ bell, house.gates[wait.key]? ≠ some (.closed bell)) :
    house.gates[wait.key]? = some .opened := by
  obtain ⟨guard, hguard, hkey⟩ := hstands.bell bell hbell
  have hgate := h.gate_ne_none hguard
  rw [hkey] at hgate
  cases hfound : house.gates[wait.key]? with
  | none => exact (hgate hfound).elim
  | some gate =>
      cases gate with
      | closed bell => exact (hfree bell hfound).elim
      | opened => rfl

/-- Whoever sleeps before an open gate is woken, unless the bell is still to ring. -/
theorem IsSound.woken_of_opened (h : house.IsSound)
    (hstands : wait.Stands house.gates house.guards) (hasleep : wait.stage = .asleep bell)
    (hopen : house.gates[wait.key]? = some .opened)
    (hquiet : ¬house.IsRinging wait.key) :
    wait.woken = true := by
  obtain ⟨guard, hguard, hkey⟩ := hstands.bell bell (by rw [hasleep]; rfl)
  apply hstands.asleep bell guard hasleep hguard
  have hstands' := h.guards bell guard hguard
  rw [GateGuard.Stands, hkey, hopen] at hstands'
  split at hstands'
  · cases hstands'
  · next own hopening =>
      exact (hquiet ⟨guard, List.mem_of_getElem? hguard, hkey, own, hopening⟩).elim
  · assumption

/-- A wait ends exactly if its gate is not closed, unless the bell is still to ring. -/
theorem IsSound.ends_iff (h : house.IsSound) (hwait : house.waits[id]? = some wait)
    (hlooks : wait.stage ≠ .ended) (hquiet : ¬house.IsRinging wait.key) :
    house.Ends id ↔ ∀ bell, house.gates[wait.key]? ≠ some (.closed bell) := by
  have hstands := h.waits wait (List.mem_of_getElem? hwait)
  rw [ends_iff_goes hwait]
  constructor
  · rintro ⟨n, next, hgoes, hended⟩ bell hclosed
    have hwoken : wait.woken = false := by
      rw [← Bool.not_eq_true]
      intro hwoken
      cases hclosed.symm.trans (hstands.woken hwoken)
    rw [hclosed] at hgoes
    exact not_ended_of_closed hlooks hwoken hgoes hended
  · intro hfree
    have hopen : ∀ bell, wait.stage.bell? = some bell → house.gates[wait.key]? = some .opened :=
      fun bell hbell => h.opened_of_free hstands hbell hfree
    refine exists_goes hlooks hfree hopen fun bell hasleep => ?_
    exact h.woken_of_opened hstands hasleep (hopen bell (by rw [hasleep]; rfl)) hquiet

end Runs

/-! ### The gates of a build -/

/-- What a build knows of the gates of a gatehouse: which were closed, and which are open again. -/
def Shows (house : Gatehouse) (gates : KeyMap Gate) : Prop :=
  ∀ key : ComponentKey, gates[key]? = (house.gates[key]?).map KeptGate.gate

section Builds

variable {house later : Gatehouse} {gates : KeyMap Gate} {steps : List GateStep} {wait : GateWait}
  {guard : GateGuard} {id index : Nat} {setting : BuildSetting} {build : Build} {visit : Visit}

theorem Shows.ends_iff (h : house.Shows gates) (hsound : house.IsSound)
    (hwait : house.waits[id]? = some wait) (hlooks : wait.stage ≠ .ended)
    (hquiet : ¬house.IsRinging wait.key) :
    house.Ends id ↔ gates[wait.key]? ≠ some .closed := by
  rw [hsound.ends_iff hwait hlooks hquiet, h wait.key]
  cases house.gates[wait.key]? with
  | none => simp
  | some gate => cases gate <;> simp [KeptGate.gate]

/-- The first visit of a component closes its node gate; a later one finds it as it is. -/
theorem shows_arrive (h : house.Shows build.knowledge.nodes) (index : Nat) (visit : Visit) :
    (house.close visit.component.key).Shows (build.arrive index visit).knowledge.nodes := by
  have hkey := h visit.component.key
  by_cases hvacant : house.gates[visit.component.key]? = none
  · have hnodes : (build.arrive index visit).knowledge.nodes =
        build.knowledge.nodes.insert visit.component.key .closed := by
      rw [hvacant] at hkey
      rw [Build.arrive]
      dsimp only
      rw [if_neg (by rw [Std.ExtTreeMap.contains_eq_isSome_getElem?, hkey]; exact Bool.false_ne_true)]
      split <;> rfl
    rw [hnodes, close_of_vacant hvacant]
    intro key
    by_cases heq : visit.component.key = key
    · subst heq
      simp [KeptGate.gate]
    · simp [Std.ExtTreeMap.getElem?_insert, heq, h key]
  · have hnodes : (build.arrive index visit).knowledge.nodes = build.knowledge.nodes := by
      rw [Build.arrive]
      dsimp only
      rw [if_pos]
      · rfl
      · rw [Std.ExtTreeMap.contains_eq_isSome_getElem?, hkey, Option.isSome_map,
          Option.isSome_iff_ne_none]
        exact hvacant
    rw [hnodes, close_of_taken hvacant]
    exact h

/-- Opening a node gate is the first of the two steps of dropping its guard. -/
theorem shows_openNode (h : house.Shows build.knowledge.nodes) (hsound : house.IsSound)
    (hrelease : house.release? id = some later) (hguard : house.guards[id]? = some guard) :
    later.Shows (build.openNode guard.key).knowledge.nodes := by
  obtain ⟨key, hheld, -, rfl⟩ := hsound.release?_cases hrelease
  obtain rfl := Option.some.inj (hheld.symm.trans hguard)
  intro other
  by_cases heq : key = other
  · subst heq
    simp [Build.openNode, KeptGate.gate]
  · simp [Build.openNode, Std.ExtTreeMap.getElem?_insert, heq, h other]

/-- **A visit waits as a wait does.** It goes on in those cases in which the wait for its gate ends. -/
theorem waiting_goes_on_iff (hrun : empty.run? steps = some house)
    (hshows : house.Shows build.knowledge.nodes) (hvisit : build.visits[index]? = some visit)
    (hstage : visit.stage = .waiting) (hwait : house.waits[id]? = some wait)
    (hkey : wait.key = visit.component.key) (hlooks : wait.stage ≠ .ended)
    (hquiet : ¬house.IsRinging wait.key) :
    (build.step? setting index).isSome = true ↔ house.Ends id := by
  rw [hshows.ends_iff (isSound_run isSound_empty hrun) hwait hlooks hquiet, hkey, Build.step?, hvisit]
  dsimp only
  rw [hstage]
  dsimp only
  split
  · next hclosed => simp [hclosed]
  · next hfree => simp [hfree]

/-- An entry that gathers its registrations waits for the subtree gate of the next component. -/
theorem gathering_goes_on_iff {payload : Payload} {gathering : Gathering} {reference : Reference}
    {pending : List Reference} (hrun : empty.run? steps = some house)
    (hshows : house.Shows build.knowledge.subtrees)
    (hpending : gathering.pending = reference :: pending)
    (hfresh : gathering.seen.contains (Build.named setting reference).key = false)
    (hwait : house.waits[id]? = some wait)
    (hkey : wait.key = (Build.named setting reference).key) (hlooks : wait.stage ≠ .ended)
    (hquiet : ¬house.IsRinging wait.key) :
    (build.gather? setting index visit payload gathering).isSome = true ↔ house.Ends id := by
  rw [hshows.ends_iff (isSound_run isSound_empty hrun) hwait hlooks hquiet, hkey, Build.gather?,
    hpending]
  dsimp only
  rw [hfresh, if_neg Bool.false_ne_true]
  split
  · next hclosed => simp [hclosed]
  · next hfree => simp [hfree]

end Builds

end Gatehouse

end ComponentTags
