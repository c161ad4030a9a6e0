import ComponentTags.Proofs.Json.Grammar

/-!
Records. Which data pass the check of texts, numbers and nesting, and which are read as a record, from
the members of an object or from the items of an array.
-/

namespace ComponentTags.Json

section Results

variable {ε α β : Type}

theorem not_exists_error {fault : ε} {holds : α → Prop} :
    ¬∃ value, Except.error fault = .ok value ∧ holds value := by
  rintro ⟨_, h, -⟩
  cases h

theorem bind_eq_ok {result : Except ε α} {next : α → Except ε β} {found : β} :
    (result >>= next) = .ok found ↔ ∃ value, result = .ok value ∧ next value = .ok found := by
  cases result with
  | error fault =>
      refine iff_of_false ?_ not_exists_error
      intro h
      cases h
  | ok value =>
      constructor
      · exact fun h => ⟨value, rfl, h⟩
      · rintro ⟨_, h, hnext⟩
        cases h
        exact hnext

theorem then_eq_ok {first : Except ε Unit} {next : Except ε β} {found : β} :
    (first >>= fun _ => next) = .ok found ↔ first = .ok () ∧ next = .ok found :=
  bind_eq_ok.trans ⟨fun ⟨_, h⟩ => h, fun h => ⟨(), h⟩⟩

theorem map_eq_ok {result : Except ε α} {f : α → β} {found : β} :
    result.map f = .ok found ↔ ∃ value, result = .ok value ∧ f value = found := by
  cases result with
  | error fault => simp [Except.map]
  | ok value => simp [Except.map]

theorem toOption_eq_some {result : Except ε α} {value : α} :
    result.toOption = some value ↔ result = .ok value := by
  cases result <;> simp [Except.toOption]

theorem isSome_toOption {result : Except ε α} :
    result.toOption.isSome = true ↔ ∃ value, result = .ok value := by
  cases result <;> simp [Except.toOption]

end Results

/-! ### Sound data -/

mutual

/--
Data that can be held on to: its texts are whole, its numbers are in range, and arrays and objects nest
at most `depth` deep.
-/
def Datum.IsSound (depth : Nat) : Datum → Prop
  | .null | .bool _ => True
  | .number bytes => isOutOfRange bytes = false
  | .text content => content.isSome = true
  | .array items =>
      match depth with
      | 0 => False
      | depth + 1 => Datum.AreSound depth items
  | .object members =>
      match depth with
      | 0 => False
      | depth + 1 => Datum.AreSoundMembers depth members

def Datum.AreSound (depth : Nat) : List Datum → Prop
  | [] => True
  | item :: items => item.IsSound depth ∧ Datum.AreSound depth items

def Datum.AreSoundMembers (depth : Nat) : List (Option String × Datum) → Prop
  | [] => True
  | (name, value) :: members =>
      name.isSome = true ∧ value.IsSound depth ∧ Datum.AreSoundMembers depth members

end

mutual

/-- **The check of a value passes for sound data only.** -/
theorem check_eq_ok (value : Value) (depth : Nat) :
    value.check depth = .ok () ↔ value.datum.IsSound depth := by
  match value, depth with
  | .null _, _ | .bool _ _, _ => simp [Value.check, Value.datum, Datum.IsSound]
  | .number _ bytes, _ =>
      rw [Value.check, Value.datum, Datum.IsSound]
      split <;> simp_all
  | .text raw, _ =>
      rw [Value.check, Value.datum, Datum.IsSound, isSome_toOption, map_eq_ok]
      simp
  | .array _ items, 0 | .object _ members, 0 => simp [Value.check, Value.datum, Datum.IsSound]
  | .array _ items, depth + 1 => exact checkItems_eq_ok items depth
  | .object _ members, depth + 1 => exact checkMembers_eq_ok members depth

theorem checkItems_eq_ok (items : List Value) (depth : Nat) :
    Value.checkItems depth items = .ok () ↔ Datum.AreSound depth (Value.data items) := by
  match items with
  | [] => simp [Value.checkItems, Value.data, Datum.AreSound]
  | item :: items =>
      rw [Value.checkItems, Value.data, Datum.AreSound, then_eq_ok,
        check_eq_ok item depth, checkItems_eq_ok items depth]

theorem checkMembers_eq_ok (members : List (RawText × Value)) (depth : Nat) :
    Value.checkMembers depth members = .ok () ↔
      Datum.AreSoundMembers depth (Value.memberData members) := by
  match members with
  | [] => simp [Value.checkMembers, Value.memberData, Datum.AreSoundMembers]
  | (key, value) :: members =>
      rw [Value.checkMembers, Value.memberData, Datum.AreSoundMembers, isSome_toOption, bind_eq_ok,
        ← check_eq_ok value depth, ← checkMembers_eq_ok members depth]
      simp only [then_eq_ok, exists_and_right]

end

theorem Datum.areSound_iff {depth : Nat} {items : List Datum} :
    Datum.AreSound depth items ↔ ∀ item ∈ items, item.IsSound depth := by
  induction items with
  | nil => simp [AreSound]
  | cons item items ih => simp [AreSound, ih]

theorem Datum.areSoundMembers_iff {depth : Nat} {members : List (Option String × Datum)} :
    Datum.AreSoundMembers depth members ↔
      ∀ member ∈ members, member.1.isSome = true ∧ member.2.IsSound depth := by
  induction members with
  | nil => simp [AreSoundMembers]
  | cons member members ih => simp [AreSoundMembers, ih, and_assoc]

/-! ### Records -/

/-- What members hold under a name, in their order. -/
def valuesNamed (name : String) (members : List (Option String × Datum)) : List Datum :=
  (members.filter (·.1 = some name)).map (·.2)

/--
Data that hold fields under some names. An object holds each at most once, whatever else it holds under
names that are texts; an array holds the first of them, in their order, and nothing else.
-/
def Datum.IsRecord (names : List String) (fields : String → Option Datum) : Datum → Prop
  | .object members =>
      (∀ member ∈ members, member.1.isSome = true) ∧
        ∀ name ∈ names, valuesNamed name members = (fields name).toList
  | .array items =>
      items.length ≤ names.length ∧
        ∀ (index : Nat) (name : String), names[index]? = some name → fields name = items[index]?
  | _ => False

/-- Data are one record only. -/
theorem Datum.IsRecord.unique {names : List String} {fields others : String → Option Datum}
    {datum : Datum} (h : datum.IsRecord names fields) (h' : datum.IsRecord names others)
    (name : String) (hname : name ∈ names) : fields name = others name := by
  cases datum with
  | object members =>
      have hlists := (h.2 name hname).symm.trans (h'.2 name hname)
      simpa using congrArg List.head? hlists
  | array items =>
      obtain ⟨index, hindex⟩ := List.mem_iff_getElem?.1 hname
      rw [h.2 index name hindex, h'.2 index name hindex]
  | _ => exact h.elim

@[simp]
theorem valuesNamed_nil (name : String) : valuesNamed name [] = [] :=
  rfl

theorem valuesNamed_append (name : String) (members others : List (Option String × Datum)) :
    valuesNamed name (members ++ others) = valuesNamed name members ++ valuesNamed name others := by
  rw [valuesNamed, List.filter_append, List.map_append]
  rfl

theorem valuesNamed_cons (name : String) (member : Option String × Datum)
    (members : List (Option String × Datum)) : valuesNamed name (member :: members) =
      (if member.1 = some name then [member.2] else []) ++ valuesNamed name members := by
  unfold valuesNamed
  split <;> simp_all

/-- The data of fields that were found. -/
def fieldData (found : List (String × Value)) : List (Option String × Datum) :=
  found.map fun field => (some field.1, field.2.datum)

theorem fieldData_append (found others : List (String × Value)) :
    fieldData (found ++ others) = fieldData found ++ fieldData others :=
  List.map_append

theorem lookup_fieldData (name : String) (found : List (String × Value)) :
    (found.lookup name).map Value.datum = (valuesNamed name (fieldData found)).head? := by
  induction found with
  | nil => rfl
  | cons field found ih =>
      obtain ⟨key, value⟩ := field
      rw [fieldData, List.map_cons, valuesNamed_cons, List.lookup_cons, ← fieldData]
      by_cases hkey : key = name
      · simp [hkey]
      · have hother : (name == key) = false := by simpa using Ne.symm hkey
        simp [hkey, hother, ih]

theorem any_eq_false_iff (name : String) (found : List (String × Value)) :
    found.any (·.1 = name) = false ↔ valuesNamed name (fieldData found) = [] := by
  rw [valuesNamed, fieldData, List.map_eq_nil_iff, List.filter_eq_nil_iff, List.any_eq_false]
  simp only [List.forall_mem_map, decide_eq_true_eq, Option.some.injEq]

theorem head?_eq_iff {α : Type} {xs : List α} {value : Option α} (h : xs.length ≤ 1) :
    xs.head? = value ↔ xs = value.toList := by
  match xs, value with
  | [], none => simp
  | [], some _ => simp
  | [_], none => simp
  | [_], some _ => simp
  | _ :: _ :: _, _ => simp at h

theorem append_cons_ne_toList {α : Type} {front rest : List α} {value : α} (h : front ≠ [])
    (only : Option α) : front ++ value :: rest ≠ only.toList := by
  intro heq
  have hlength := congrArg List.length heq
  have hpos := List.length_pos_iff.2 h
  have honce : only.toList.length ≤ 1 := by cases only <;> simp
  rw [List.length_append, List.length_cons] at hlength
  omega

/-- A field that was not found before is found once. -/
theorem length_valuesNamed_concat {names : List String} {found : List (String × Value)}
    {known : String} (hknown : valuesNamed known (fieldData found) = [])
    (honce : ∀ name ∈ names, (valuesNamed name (fieldData found)).length ≤ 1) (value : Value) :
    ∀ name ∈ names, (valuesNamed name (fieldData (found ++ [(known, value)]))).length ≤ 1 := by
  intro name hname
  rw [fieldData_append, valuesNamed_append]
  by_cases heq : known = name
  · subst heq
    rw [hknown]
    simp [fieldData, valuesNamed_cons]
  · simpa [fieldData, valuesNamed_cons, heq] using honce name hname

namespace RecordKind

variable (kind : RecordKind) {fields : String → Option Datum}

/-- **What is found of a record's fields is what members hold under their names**, if that is one value
each. -/
theorem exists_named_iff (acc : List (String × Value)) (members : List (RawText × Value))
    (hacc : ∀ name ∈ kind.fields, (valuesNamed name (fieldData acc)).length ≤ 1) :
    (∃ found, kind.named acc members = .ok found ∧
        ∀ name ∈ kind.fields, (found.lookup name).map Value.datum = fields name) ↔
      (∀ member ∈ Value.memberData members, member.1.isSome = true) ∧
        ∀ name ∈ kind.fields, valuesNamed name (fieldData acc) ++
          valuesNamed name (Value.memberData members) = (fields name).toList := by
  -- what was found before counts together with what is still to be read
  induction members generalizing acc with
  | nil =>
      simp only [named, Value.memberData, Except.ok.injEq, exists_eq_left', List.not_mem_nil,
        false_implies, implies_true, true_and, valuesNamed_nil, List.append_nil]
      refine forall₂_congr fun name hname => ?_
      rw [lookup_fieldData, head?_eq_iff (hacc name hname)]
  | cons member members ih =>
      obtain ⟨key, value⟩ := member
      rw [named, Value.memberData, List.forall_mem_cons]
      split
      · next fault hfault =>
          rw [hfault]
          simp [Except.toOption]
      · next known hknown =>
          rw [toOption_eq_some.2 hknown]
          by_cases hfield : known ∈ kind.fields
          · rw [if_pos (List.contains_iff_mem.2 hfield)]
            cases hany : acc.any (·.1 = known) with
            | true =>
                rw [if_pos rfl]
                refine iff_of_false not_exists_error ?_
                rintro ⟨-, hfields⟩
                have hsome : valuesNamed known (fieldData acc) ≠ [] := by
                  rw [ne_eq, ← any_eq_false_iff, hany]
                  exact Bool.noConfusion
                have hvalues := hfields known hfield
                rw [valuesNamed_cons, if_pos rfl] at hvalues
                exact append_cons_ne_toList hsome _ hvalues
            | false =>
                have hnone := (any_eq_false_iff known acc).1 hany
                rw [if_neg Bool.false_ne_true, ih _ (length_valuesNamed_concat hnone hacc value)]
                refine and_congr (by simp) (forall₂_congr fun name _ => ?_)
                rw [fieldData_append, valuesNamed_append, List.append_assoc, ← valuesNamed_append]
                rfl
          · rw [if_neg (by simpa using hfield), ih _ hacc]
            refine and_congr (by simp) (forall₂_congr fun name hname => ?_)
            have hne : known ≠ name := fun h => hfield (h ▸ hname)
            rw [valuesNamed_cons, if_neg (by simpa using hne), List.nil_append]

theorem lookup_zip {α : Type} {names : List String} (hnames : names.Nodup) (items : List α)
    {index : Nat} {name : String} (h : names[index]? = some name) :
    (names.zip items).lookup name = items[index]? := by
  induction names generalizing items index with
  | nil => cases h
  | cons first names ih =>
      obtain ⟨hfirst, hnames⟩ := List.nodup_cons.1 hnames
      cases items with
      | nil => rfl
      | cons item items =>
          rw [List.zip_cons_cons, List.lookup_cons]
          cases index with
          | zero =>
              obtain rfl : first = name := Option.some.inj h
              simp
          | succ index =>
              have hne : (name == first) = false := by
                rw [beq_eq_false_iff_ne]
                rintro rfl
                exact hfirst (List.mem_of_getElem? h)
              rw [hne]
              exact ih hnames items h

/-- The fields of an array are its items, in their order. -/
theorem lookup_zip_iff {names : List String} (hnames : names.Nodup) {items : List Value} :
    (∀ name ∈ names, ((names.zip items).lookup name).map Value.datum = fields name) ↔
      ∀ (index : Nat) (name : String), names[index]? = some name →
        fields name = (items.map Value.datum)[index]? := by
  constructor
  · intro h index name hname
    rw [← h name (List.mem_of_getElem? hname), lookup_zip hnames items hname, List.getElem?_map]
  · intro h name hname
    obtain ⟨index, hindex⟩ := List.mem_iff_getElem?.1 hname
    rw [h index name hindex, lookup_zip hnames items hindex, List.getElem?_map]

/-- **A value is read as a record if it stands for one**, and then its fields are what is found. -/
theorem exists_read_iff (hfields : kind.fields.Nodup) (value : Value) :
    (∃ record, kind.read value = .ok record ∧
        ∀ name ∈ kind.fields, (record.field? name).map Value.datum = fields name) ↔
      value.datum.IsRecord kind.fields fields := by
  match value with
  | .null _ | .bool _ _ | .number _ _ | .text _ =>
      exact iff_of_false not_exists_error id
  | .object extent members =>
      rw [Value.datum, Datum.IsRecord, read]
      have hnamed := @exists_named_iff kind fields [] members (by simp [fieldData])
      simp only [fieldData, List.map_nil, valuesNamed_nil, List.nil_append] at hnamed
      rw [← hnamed]
      constructor
      · rintro ⟨record, hread, hrecord⟩
        obtain ⟨found, hfound, rfl⟩ := map_eq_ok.1 hread
        exact ⟨found, hfound, hrecord⟩
      · rintro ⟨found, hfound, hlookup⟩
        exact ⟨_, map_eq_ok.2 ⟨found, hfound, rfl⟩, hlookup⟩
  | .array extent items =>
      rw [Value.datum, Datum.IsRecord, read, Value.data_eq_map, List.length_map,
        ← lookup_zip_iff hfields]
      cases hrest : items.drop kind.fields.length with
      | nil =>
          dsimp only
          simp [List.drop_eq_nil_iff.1 hrest, Record.field?]
      | cons item rest =>
          refine iff_of_false not_exists_error ?_
          rintro ⟨hlength, -⟩
          rw [List.drop_eq_nil_iff.2 hlength] at hrest
          cases hrest

end RecordKind

theorem Record.field_eq_ok {record : Record} {name : String} {value : Value} :
    record.field name = .ok value ↔ record.field? name = some value := by
  rw [Record.field]
  cases record.field? name <;> simp

end ComponentTags.Json
