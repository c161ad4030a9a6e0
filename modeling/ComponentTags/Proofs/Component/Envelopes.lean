import ComponentTags.Cache.Document
import ComponentTags.Proofs.Json.Ranges
import ComponentTags.Proofs.Json.Records

/-!
Envelopes. A body that is read is a component exactly if it is an envelope around its code, and of the
dependencies that it names those are kept that are described, with a warning for every other one.
-/

namespace ComponentTags

namespace Json

/-! ### What a body stands for -/

/-- The dependency of a namespace and a version, if these are texts. -/
def dependencyOf? : Option Datum → Option Datum → Option Dependency
  | some (.text (some space)), some (.text (some version)) => some { space, version }
  | _, _ => none

/--
The dependency that data describe: in an object the last values under both names count, an array holds
just the two.
-/
def Datum.descriptor? : Datum → Option Dependency
  | .object members =>
      dependencyOf? (valuesNamed "namespace" members).getLast?
        (valuesNamed "version" members).getLast?
  | .array [space, version] => dependencyOf? (some space) (some version)
  | _ => none

/-- The items that dependencies are read from: whatever is no array has none. -/
def listed : Option Datum → List Datum
  | some (.array items) => items
  | _ => []

/-- A warning for each item that describes no dependency. -/
def skipWarnings (items : List Datum) : List Warning :=
  (items.filter (·.descriptor?.isNone)).map fun _ => .dependencySkipped

/-- Data that serve some code: an envelope around a record in which the code is a text. -/
def Datum.IsEnvelope (runtime : String) (deps : Option Datum) (datum : Datum) : Prop :=
  ∃ data : Datum, datum.IsRecord ["data"] (fun _ => some data) ∧
    data.IsRecord ["runtime", "deps"] fun name =>
      if name = "runtime" then some (.text (some runtime)) else deps

theorem Datum.IsEnvelope.unique {runtime other : String} {deps others : Option Datum} {datum : Datum}
    (h : datum.IsEnvelope runtime deps) (h' : datum.IsEnvelope other others) :
    runtime = other ∧ deps = others := by
  obtain ⟨data, henvelope, hdata⟩ := h
  obtain ⟨data', henvelope', hdata'⟩ := h'
  obtain rfl : data = data' :=
    Option.some.inj (IsRecord.unique henvelope henvelope' "data" (by decide))
  have hruntime := IsRecord.unique hdata hdata' "runtime" (by decide)
  have hdeps := IsRecord.unique hdata hdata' "deps" (by decide)
  simpa using And.intro hruntime hdeps

theorem Datum.isEnvelope_object (runtime : String) (deps : Datum) :
    (Datum.object [(some "data", .object [(some "runtime", .text (some runtime)),
      (some "deps", deps)])]).IsEnvelope runtime (some deps) := by
  refine ⟨.object [(some "runtime", .text (some runtime)), (some "deps", deps)], ⟨?_, ?_⟩, ?_, ?_⟩
  · simp
  · simp [valuesNamed_cons]
  · simp
  · simp [valuesNamed_cons]

/-! ### Dependencies -/

variable {value : Value} {members : List (RawText × Value)}

theorem asText_eq_ok {text : String} :
    value.asText = .ok text ↔ value.datum = .text (some text) := by
  cases value with
  | text raw => rw [Value.asText, Value.datum, Datum.text.injEq, toOption_eq_some]
  | _ => constructor <;> intro h <;> cases h

theorem dependencyOf?_none (space : Option Datum) : dependencyOf? space none = none := by
  unfold dependencyOf?
  split
  · next h => cases h
  · rfl

/-- What is read of two values is the dependency of what they stand for. -/
theorem dependencyOf?_datum (space version : Value) :
    (do return { space := ← space.asText.toOption, version := ← version.asText.toOption }) =
      dependencyOf? (some space.datum) (some version.datum) := by
  cases space with
  | text space =>
      rw [Value.asText, Value.datum]
      cases version with
      | text version =>
          rw [Value.asText, Value.datum]
          cases space.decode.toOption <;> cases version.decode.toOption <;> rfl
      | _ => cases space.decode.toOption <;> rfl
  | _ => rfl

theorem asMembers_eq (hnames : ∀ member ∈ Value.memberData members, member.1.isSome = true)
    (extent : Span) : ∃ found, Value.asMembers (.object extent members) = .ok found ∧
      fieldData found = Value.memberData members := by
  unfold Value.asMembers
  induction members with
  | nil => exact ⟨[], rfl, rfl⟩
  | cons member members ih =>
      obtain ⟨key, value⟩ := member
      rw [Value.memberData, List.forall_mem_cons] at hnames
      obtain ⟨found, hfound, hdata⟩ := ih hnames.2
      obtain ⟨name, hname⟩ := isSome_toOption.1 hnames.1
      refine ⟨(name, value) :: found, ?_, ?_⟩
      · simp only [List.mapM_cons, hfound, hname]
        rfl
      · rw [fieldData, List.map_cons, ← fieldData, hdata, Value.memberData,
          toOption_eq_some.2 hname]

theorem lastValue?_fieldData (name : String) (found : List (String × Value)) :
    (lastValue? name found).map Value.datum = (valuesNamed name (fieldData found)).getLast? := by
  rw [lastValue?, lookup_fieldData, fieldData, List.map_reverse, valuesNamed, List.filter_reverse,
    List.map_reverse, List.head?_reverse]
  rfl

end Json

open Json

/-- **A dependency is found where one is described.** -/
theorem Dependency.ofValue?_eq {value : Value} {depth : Nat} (h : value.datum.IsSound depth) :
    Dependency.ofValue? value = value.datum.descriptor? := by
  match value with
  | .null _ | .bool _ _ | .number _ _ | .text _ => rfl
  | .array _ [] | .array _ [_] | .array _ (_ :: _ :: _ :: _) => rfl
  | .array _ [space, version] => exact dependencyOf?_datum space version
  | .object extent members =>
      have hnames : ∀ member ∈ Value.memberData members, member.1.isSome = true := by
        cases depth with
        | zero => exact h.elim
        | succ depth => exact fun member hmember => (Datum.areSoundMembers_iff.1 h member hmember).1
      obtain ⟨found, hfound, hdata⟩ := asMembers_eq hnames extent
      have hread : Dependency.ofValue? (.object extent members) = (do
          let space ← lastValue? "namespace" found
          let version ← lastValue? "version" found
          return { space := ← space.asText.toOption, version := ← version.asText.toOption }) := by
        rw [Dependency.ofValue?, hfound]
        rfl
      rw [hread, Value.datum, Datum.descriptor?, ← hdata, ← lastValue?_fieldData,
        ← lastValue?_fieldData]
      cases lastValue? "namespace" found with
      | none => rfl
      | some space =>
          cases lastValue? "version" found with
          | none => exact (dependencyOf?_none _).symm
          | some version => exact dependencyOf?_datum space version

/-- Of the items those are listed that describe dependencies, in their order. -/
theorem Dependency.listOfValue_eq {value : Value} {depth : Nat} (h : value.datum.IsSound depth) :
    Dependency.listOfValue value =
      ((listed (some value.datum)).filterMap Datum.descriptor?,
        skipWarnings (listed (some value.datum))) := by
  match value with
  | .null _ | .bool _ _ | .number _ _ | .text _ | .object _ _ => rfl
  | .array extent items =>
      have hitems : items.map Dependency.ofValue? =
          (Value.data items).map Datum.descriptor? := by
        rw [Value.data_eq_map, List.map_map]
        refine List.map_congr_left fun item hitem => ?_
        cases depth with
        | zero => exact h.elim
        | succ depth =>
            have hsound := Datum.areSound_iff.1 h item.datum
              (by rw [Value.data_eq_map]; exact List.mem_map_of_mem hitem)
            exact ofValue?_eq hsound
      rw [Dependency.listOfValue, hitems, Value.datum, listed]
      simp [skipWarnings, List.filterMap_map, List.filter_map, Function.comp_def]

namespace Payload

/-- What an envelope serves. -/
def served (runtime : String) (deps : Option Datum) : Payload × List Warning :=
  ({ runtime, deps := (listed deps).filterMap Datum.descriptor? },
    skipWarnings (listed deps))

theorem deps_eq_ok {record : Record} {runtime : String} {result : Payload × List Warning} :
    (match record.field? "deps" with
      | none => return ({ runtime, deps := [] }, [])
      | some value => do
          value.check dependencyDepth
          let (deps, warnings) := Dependency.listOfValue value
          return ({ runtime, deps }, warnings)) = Except.ok result ↔
      (∀ datum ∈ (record.field? "deps").map Value.datum, datum.IsSound dependencyDepth) ∧
        result = served runtime ((record.field? "deps").map Value.datum) := by
  cases record.field? "deps" with
  | none =>
      simp only [Option.map_none, Option.not_mem_none, false_implies, implies_true, true_and]
      exact ⟨fun h => (Except.ok.inj h).symm, fun h => congrArg Except.ok h.symm⟩
  | some value =>
      simp only [Option.map_some, Option.mem_some_iff, forall_eq']
      refine then_eq_ok.trans (and_congr_right_iff.2 fun hcheck => ?_) |>.trans
        (and_congr_left' (check_eq_ok value dependencyDepth))
      rw [Dependency.listOfValue_eq ((check_eq_ok value dependencyDepth).1 hcheck)]
      exact ⟨fun h => (Except.ok.inj h).symm, fun h => congrArg Except.ok h.symm⟩

/-- **A value is read as a component exactly if it stands for an envelope.** -/
theorem ofValue_eq_ok {value : Value} {result : Payload × List Warning} :
    ofValue value = .ok result ↔ ∃ runtime deps, value.datum.IsEnvelope runtime deps ∧
      (∀ datum ∈ deps, datum.IsSound dependencyDepth) ∧ result = served runtime deps := by
  constructor
  · intro h
    obtain ⟨envelope, henvelope, h⟩ := bind_eq_ok.1 h
    obtain ⟨inner, hinner, h⟩ := bind_eq_ok.1 h
    obtain ⟨data, hdata, h⟩ := bind_eq_ok.1 h
    obtain ⟨code, hcode, h⟩ := bind_eq_ok.1 h
    obtain ⟨runtime, hruntime, h⟩ := bind_eq_ok.1 h
    obtain ⟨hsound, rfl⟩ := deps_eq_ok.1 h
    refine ⟨runtime, _, ⟨inner.datum, ?_, ?_⟩, hsound, rfl⟩
    · refine (envelopeKind.exists_read_iff (by decide) value).1 ⟨envelope, henvelope, ?_⟩
      intro name hname
      obtain rfl : name = "data" := List.mem_singleton.1 hname
      rw [Record.field_eq_ok.1 hinner, Option.map_some]
    · refine (envelopeDataKind.exists_read_iff (by decide) inner).1 ⟨data, hdata, ?_⟩
      intro name hname
      simp only [envelopeDataKind, List.mem_cons, List.not_mem_nil, or_false] at hname
      rcases hname with rfl | rfl
      · rw [Record.field_eq_ok.1 hcode, Option.map_some, if_pos rfl, asText_eq_ok.1 hruntime]
      · rw [if_neg (by decide)]
  · rintro ⟨runtime, deps, ⟨data, henvelope, hdata⟩, hsound, rfl⟩
    obtain ⟨envelope, hread, hfields⟩ :=
      (envelopeKind.exists_read_iff (by decide) value).2 henvelope
    obtain ⟨inner, hinner, rfl⟩ := Option.map_eq_some_iff.1 (hfields "data" (by decide))
    obtain ⟨record, hrecord, hrecords⟩ :=
      (envelopeDataKind.exists_read_iff (by decide) inner).2 hdata
    have hcode := hrecords "runtime" (by decide)
    have hdeps := hrecords "deps" (by decide)
    rw [if_pos rfl] at hcode
    rw [if_neg (by decide)] at hdeps
    obtain ⟨code, hcode, hruntime⟩ := Option.map_eq_some_iff.1 hcode
    refine bind_eq_ok.2 ⟨envelope, hread, bind_eq_ok.2 ⟨inner, Record.field_eq_ok.2 hinner,
      bind_eq_ok.2 ⟨record, hrecord, bind_eq_ok.2 ⟨code, Record.field_eq_ok.2 hcode,
        bind_eq_ok.2 ⟨runtime, asText_eq_ok.2 hruntime, deps_eq_ok.2 ?_⟩⟩⟩⟩⟩
    rw [hdeps]
    exact ⟨hsound, rfl⟩

variable {body : List UInt8} {result : Payload × List Warning}

theorem ofBody_eq_ok {value : Value} (hread : Json.read body = .ok value) :
    ofBody body = .ok result ↔ ofValue value = .ok result := by
  have hbind : (Json.read body >>= ofValue) = ofValue value := by
    rw [hread]
    rfl
  rw [ofBody, hbind]
  cases ofValue value <;> simp

theorem exists_error_of_ne (h : ∀ result, ofBody body ≠ .ok result) :
    ∃ message, ofBody body = .error (.decode message) := by
  rw [ofBody] at h ⊢
  split
  · next result hresult => exact absurd (by rw [hresult]) (h result)
  · next fault => exact ⟨_, rfl⟩

/-! ### Encodings -/

/-- An envelope around a component. -/
def tree (payload : Payload) : Tree :=
  .object [("data", .object [("runtime", .text payload.runtime),
    ("deps", .array (payload.deps.map CacheDocument.dependencyTree))])]

theorem descriptor?_dependencyTree (dep : Dependency) :
    (CacheDocument.dependencyTree dep).datum.descriptor? = some dep :=
  rfl

theorem isEnvelope_tree (payload : Payload) : payload.tree.datum.IsEnvelope payload.runtime
    (some (.array ((payload.deps.map CacheDocument.dependencyTree).map Tree.datum))) := by
  rw [← Tree.data_eq_map]
  exact Datum.isEnvelope_object _ _

theorem isSound_tree (payload : Payload) : (Datum.array
    ((payload.deps.map CacheDocument.dependencyTree).map Tree.datum)).IsSound dependencyDepth := by
  refine Datum.areSound_iff.2 fun item hitem => ?_
  rw [List.map_map] at hitem
  obtain ⟨dep, -, rfl⟩ := List.mem_map.1 hitem
  exact ⟨rfl, rfl, rfl, rfl, trivial⟩

theorem served_tree (payload : Payload) : served payload.runtime
    (some (.array ((payload.deps.map CacheDocument.dependencyTree).map Tree.datum))) =
      (payload, []) := by
  simp [served, listed, skipWarnings, List.filterMap_map, Function.comp_def,
    descriptor?_dependencyTree, List.filter_map]

/-- **The encoding of a component is read as it.** -/
theorem ofValue_tree {value : Value} {payload : Payload} (h : value.datum = payload.tree.datum) :
    ofValue value = .ok (payload, []) := by
  refine ofValue_eq_ok.2 ⟨payload.runtime, _, ?_, ?_, (served_tree payload).symm⟩
  · rw [h]
    exact isEnvelope_tree payload
  · rintro _ ⟨⟩
    exact isSound_tree payload

/-! ### Whole bodies -/

section

variable {document : Document}

theorem ofBody_of_isEnvelope {runtime : String} {deps : Option Datum}
    (h : document.datum.IsEnvelope runtime deps)
    (hsound : ∀ datum ∈ deps, datum.IsSound dependencyDepth) :
    ofBody document.bytes = .ok (served runtime deps) := by
  obtain ⟨value, hread, hdatum⟩ := read_document document
  rw [← hdatum] at h
  exact (ofBody_eq_ok hread).2 (ofValue_eq_ok.2 ⟨runtime, deps, h, hsound, rfl⟩)

theorem ofBody_of_not_isEnvelope (h : ¬∃ runtime deps, document.datum.IsEnvelope runtime deps ∧
    ∀ datum ∈ deps, datum.IsSound dependencyDepth) :
    ∃ message, ofBody document.bytes = .error (.decode message) := by
  obtain ⟨value, hread, hdatum⟩ := read_document document
  refine exists_error_of_ne fun result hresult => h ?_
  obtain ⟨runtime, deps, henvelope, hsound, -⟩ :=
    ofValue_eq_ok.1 ((ofBody_eq_ok hread).1 hresult)
  exact ⟨runtime, deps, hdatum ▸ henvelope, hsound⟩

theorem ofBody_of_datum {payload : Payload} (h : document.datum = payload.tree.datum) :
    ofBody document.bytes = .ok (payload, []) := by
  obtain ⟨value, hread, hdatum⟩ := read_document document
  exact (ofBody_eq_ok hread).2 (ofValue_tree (hdatum.trans h))

theorem ofBody_render (payload : Payload) :
    ofBody (Utf8.encode payload.tree.render.toList) = .ok (payload, []) := by
  obtain ⟨value, hread, hspells⟩ := read_render payload.tree
  exact (ofBody_eq_ok hread).2 (ofValue_tree hspells.datum_eq)

end

/--
**A body is decoded leniently in its dependencies and exactly otherwise.** A document that stands for
an envelope gives its code and the dependencies that it describes, one that does not is refused; the
encoding of a component, printed or spelled otherwise, gives the component. What the dependencies hold
must be sound, and numbers are so up to the last steps of double precision.
-/
theorem decodes_leniently (document : Document) :
    (∀ runtime deps, document.datum.IsEnvelope runtime deps →
      (∀ datum ∈ deps, datum.IsSound dependencyDepth) →
        ofBody document.bytes = .ok (served runtime deps)) ∧
      ((¬∃ runtime deps, document.datum.IsEnvelope runtime deps ∧
        ∀ datum ∈ deps, datum.IsSound dependencyDepth) →
          ∃ message, ofBody document.bytes = .error (.decode message)) ∧
      (∀ payload : Payload, ofBody (Utf8.encode payload.tree.render.toList) = .ok (payload, []) ∧
        (document.datum = payload.tree.datum → ofBody document.bytes = .ok (payload, []))) ∧
      ∀ numeral : Numeral, numeral.magnitude ≤ 2 ^ 1024 - 2 ^ 973 →
        isOutOfRange (Utf8.encode numeral.chars) = false :=
  ⟨fun _ _ => ofBody_of_isEnvelope, ofBody_of_not_isEnvelope,
    fun payload => ⟨ofBody_render payload, ofBody_of_datum⟩, Numeral.isOutOfRange_eq_false⟩

/-! ### A number that is refused -/

/-- A number below the largest one of double precision that is computed to lie beyond it. -/
def lastNumeral : Numeral where
  isNegative := false
  whole := ⟨"17976931348623157081".toList, by decide, List.all_eq_true.1 rfl⟩
  fraction := none
  exponent := some
    { mark := 'e', sign := [], digits := ⟨"289".toList, by decide, List.all_eq_true.1 rfl⟩
      isMark := .inl rfl, isSign := .inl rfl }
  isUnpadded := by decide

def lastDocument : Document where
  before := .none
  value :=
    .object (.part .none .none (plainPieces ['d', 'a', 't', 'a'] (by simp)) .none .none
      (.object (.part .none .none (plainPieces ['r', 'u', 'n', 't', 'i', 'm', 'e'] (by simp)) .none .none
        (.text (plainPieces ['r'] (by simp)))
        (.part .none .none (plainPieces ['d', 'e', 'p', 's'] (by simp)) .none .none
          (.array (.part .none .none (.number lastNumeral) (.close .none)))
          (.close .none))))
      (.close .none))
  after := .none

/-- **Not all that double precision holds is in range**: one number of this kind spoils a body. -/
theorem refuses_number_in_range :
    String.ofList lastDocument.chars =
        "\x7b\"data\":\x7b\"runtime\":\"r\",\"deps\":[17976931348623157081e289]\x7d\x7d" ∧
      lastDocument.datum.IsEnvelope "r"
        (some (.array [.number (Utf8.encode lastNumeral.chars)])) ∧
      lastNumeral.magnitude ≤ (2 ^ 53 - 1) * 2 ^ 971 ∧
      ∃ message, ofBody lastDocument.bytes = .error (.decode message) := by
  have henvelope : lastDocument.datum.IsEnvelope "r"
      (some (.array [.number (Utf8.encode lastNumeral.chars)])) := by
    have hdatum : lastDocument.datum = .object [(some "data", .object
        [(some "runtime", .text (some "r")),
          (some "deps", .array [.number (Utf8.encode lastNumeral.chars)])])] := rfl
    rw [hdatum]
    exact Datum.isEnvelope_object _ _
  refine ⟨by decide, henvelope, ?_, ?_⟩
  · have hbound : 17976931348623157081 * 10 ^ 289 ≤ 9007199254740991 * 2 ^ 971 := by decide +kernel
    have hcast : (17976931348623157081 * 10 ^ 289 : ℚ) ≤ 9007199254740991 * 2 ^ 971 := by
      exact_mod_cast hbound
    calc lastNumeral.magnitude = 17976931348623157081 * 10 ^ 289 := rfl
      _ ≤ 9007199254740991 * 2 ^ 971 := hcast
      _ = (2 ^ 53 - 1) * 2 ^ 971 := by norm_num
  · apply ofBody_of_not_isEnvelope
    rintro ⟨runtime, deps, h, hsound⟩
    obtain ⟨rfl, rfl⟩ := henvelope.unique h
    have hrange : isOutOfRange (Utf8.encode lastNumeral.chars) = true := by decide +kernel
    have hnumber : isOutOfRange (Utf8.encode lastNumeral.chars) = false := (hsound _ rfl).1
    rw [hrange] at hnumber
    cases hnumber

end Payload

end ComponentTags
