import Mathlib.Tactic.IntervalCases
import Mathlib.Tactic.SplitIfs
import ComponentTags.Fetch.Endpoint
import ComponentTags.Proofs.Path.PlainNames
import ComponentTags.Proofs.Text.Encodings

/-!
Forms in query strings. What is written for a text is read as that text, and holds none of the marks
that part the pairs of a form. So a pair put at the end of a query stands behind the pairs that were
there, and an address asks for one component only.
-/

namespace ComponentTags.Url

/-! ### One byte -/

/-- A character that parts nothing in an address, and is not one of the marks of encoding. -/
def IsQuietChar (ch : Char) : Prop :=
  ch ≠ '&' ∧ ch ≠ '=' ∧ ch ≠ '#' ∧ ch ≠ '+' ∧ ch ≠ '%'

theorem hexValue?_capitalHexDigit {n : Nat} (hn : n < 16) :
    hexValue? (capitalHexDigit n) = some n := by
  interval_cases n <;> decide

theorem isQuietChar_capitalHexDigit {n : Nat} (hn : n < 16) : IsQuietChar (capitalHexDigit n) := by
  unfold IsQuietChar
  interval_cases n <;> decide

theorem isQuietChar_of_isFormByte {byte : UInt8} (hbyte : isFormByte byte = true) :
    (Char.ofNat byte.toNat).toNat = byte.toNat ∧ byte.toNat < 0x80 ∧
      IsQuietChar (Char.ofNat byte.toNat) := by
  simp only [isFormByte, Bool.or_eq_true, Bool.and_eq_true, decide_eq_true_eq, beq_iff_eq] at hbyte
  have hlt : byte.toNat < 0x80 := by omega
  have hchar : (Char.ofNat byte.toNat).toNat = byte.toNat := by
    rw [Char.ofNat, dif_pos (Or.inl (by omega))]
    rfl
  have hne (ch : Char) (hch : byte.toNat ≠ ch.toNat) : Char.ofNat byte.toNat ≠ ch := by
    rintro rfl
    exact hch hchar.symm
  refine ⟨hchar, hlt, hne '&' ?_, hne '=' ?_, hne '#' ?_, hne '+' ?_, hne '%' ?_⟩ <;>
    simp only [Char.reduceToNat] <;> omega

/-- What a byte is written as is told from every mark that parts something in a query. -/
theorem ne_of_mem_formByte {byte : UInt8} {ch : Char} (hch : ch ∈ formByte byte) :
    ch ≠ '&' ∧ ch ≠ '=' ∧ ch ≠ '#' := by
  unfold formByte at hch
  split_ifs at hch with hblank hform
  · rw [List.mem_singleton.1 hch]
    decide
  · obtain ⟨hand, hequals, hhash, -⟩ := (isQuietChar_of_isFormByte hform).2.2
    rw [List.mem_singleton.1 hch]
    exact ⟨hand, hequals, hhash⟩
  · have hbyte : byte.toNat < 256 := byte.toNat_lt
    have hdigit (n : Nat) (hn : n < 16) :
        capitalHexDigit n ≠ '&' ∧ capitalHexDigit n ≠ '=' ∧ capitalHexDigit n ≠ '#' :=
      ⟨(isQuietChar_capitalHexDigit hn).1, (isQuietChar_capitalHexDigit hn).2.1,
        (isQuietChar_capitalHexDigit hn).2.2.1⟩
    simp only [percentByte, List.mem_cons, List.not_mem_nil, or_false] at hch
    rcases hch with rfl | rfl | rfl
    · decide
    · exact hdigit _ (by omega)
    · exact hdigit _ (by omega)

/-- The blank that a `+` stands for. -/
def ofPlus (ch : Char) : Char :=
  if ch = '+' then ' ' else ch

theorem ofPlus_of_ne {ch : Char} (hch : ch ≠ '+') : ofPlus ch = ch :=
  if_neg hch

theorem percentDecode_cons_of_ne {ch : Char} (hch : ch ≠ '%') (rest : List Char) :
    percentDecode (ch :: rest) = String.utf8EncodeChar ch ++ percentDecode rest := by
  rw [percentDecode]
  rintro high low rest' rfl
  exact absurd rfl hch

theorem percentDecode_percentByte (byte : UInt8) (rest : List Char) :
    percentDecode (percentByte byte ++ rest) = byte :: percentDecode rest := by
  have hbyte : byte.toNat < 256 := byte.toNat_lt
  have hvalue : byte.toNat / 16 * 16 + byte.toNat % 16 = byte.toNat := by omega
  change percentDecode ('%' :: capitalHexDigit (byte.toNat / 16) ::
    capitalHexDigit (byte.toNat % 16) :: rest) = _
  rw [percentDecode, hexValue?_capitalHexDigit (by omega), hexValue?_capitalHexDigit (by omega)]
  simp only [hvalue, UInt8.ofNat_toNat]

/-- **One byte.** It is read as it was written, and what follows it is read on its own. -/
theorem percentDecode_formByte (byte : UInt8) (rest : List Char) :
    percentDecode ((formByte byte).map ofPlus ++ rest) = byte :: percentDecode rest := by
  unfold formByte
  split_ifs with hblank hform
  · subst hblank
    exact percentDecode_cons_of_ne (by decide) rest
  · obtain ⟨hchar, hlt, -, -, -, hplus, hpercent⟩ := isQuietChar_of_isFormByte hform
    have hascii : (Char.ofNat byte.toNat).toNat < 0x80 := by omega
    have hone := (Utf8.utf8EncodeChar_of_lt hascii).1
    rw [hchar, UInt8.ofNat_toNat] at hone
    rw [List.map_singleton, ofPlus_of_ne hplus, List.singleton_append,
      percentDecode_cons_of_ne hpercent, hone, List.singleton_append]
  · have hbyte : byte.toNat < 256 := byte.toNat_lt
    have hdigit (n : Nat) (hn : n < 16) : ofPlus (capitalHexDigit n) = capitalHexDigit n :=
      ofPlus_of_ne (isQuietChar_capitalHexDigit hn).2.2.2.1
    have hsame : (percentByte byte).map ofPlus = percentByte byte := by
      rw [percentByte, List.map_cons, List.map_cons, List.map_singleton, hdigit _ (by omega),
        hdigit _ (by omega), ofPlus_of_ne (by decide)]
    rw [hsame, percentDecode_percentByte]

/-! ### Texts -/

theorem percentDecode_flatMap (bytes : List UInt8) :
    percentDecode ((bytes.flatMap formByte).map ofPlus) = bytes := by
  induction bytes with
  | nil => rfl
  | cons byte bytes ih =>
      rw [List.flatMap_cons, List.map_append, percentDecode_formByte, ih]

/-- **One text.** Of any characters, it is read as it was written. -/
theorem formDecode_formEncode (text : List Char) : formDecode (formEncode text) = text := by
  have hbytes : percentDecode ((formEncode text).map ofPlus) = Utf8.encode text :=
    percentDecode_flatMap (Utf8.encode text)
  change Utf8.decodeLossy (percentDecode ((formEncode text).map ofPlus)) = text
  rw [hbytes, Utf8.decodeLossy, Utf8.readChars_encode, List.map_map]
  exact List.map_id text

example : formEncode "1 +%é&".toList = "1+%2B%25%C3%A9%26".toList := by decide +kernel

theorem ne_of_mem_formEncode {text : List Char} {ch : Char} (hch : ch ∈ formEncode text) :
    ch ≠ '&' ∧ ch ≠ '=' ∧ ch ≠ '#' := by
  obtain ⟨byte, -, hbyte⟩ := List.mem_flatMap.1 hch
  exact ne_of_mem_formByte hbyte

/-- Only the mark between a name and its value is in a pair and not in what it is written of. -/
theorem ne_of_mem_formPair {name value : List Char} {ch : Char} (hch : ch ∈ formPair name value) :
    ch ≠ '&' ∧ ch ≠ '#' := by
  rcases List.mem_append.1 hch with hname | hvalue
  · exact ⟨(ne_of_mem_formEncode hname).1, (ne_of_mem_formEncode hname).2.2⟩
  · rcases List.mem_cons.1 hvalue with rfl | hvalue
    · decide
    · exact ⟨(ne_of_mem_formEncode hvalue).1, (ne_of_mem_formEncode hvalue).2.2⟩

/-! ### Queries -/

theorem formPairs_append (front back : List Char) :
    formPairs (front ++ '&' :: back) = formPairs front ++ formPairs back := by
  rw [formPairs, splitChars_append, List.filter_append, List.map_append]
  rfl

theorem formPairs_formPair (name value : List Char) :
    formPairs (formPair name value) = [(name, value)] := by
  have hsplit : splitChars '&' (formPair name value) = [formPair name value] :=
    splitChars_of_notMem fun hand => (ne_of_mem_formPair hand).1 rfl
  have hname : ∀ ch ∈ formEncode name, (ch != '=') = true := fun ch hch =>
    bne_iff_ne.2 (ne_of_mem_formEncode hch).2.1
  have hfront : (formPair name value).takeWhile (· != '=') = formEncode name := by
    rw [formPair, List.takeWhile_append_of_pos hname]
    simp
  have hback : (formPair name value).dropWhile (· != '=') = '=' :: formEncode value := by
    rw [formPair, List.dropWhile_append_of_pos hname]
    simp
  have hpair : (formPair name value).isEmpty = false := by
    simp [formPair]
  rw [formPairs, hsplit]
  simp only [List.filter_cons, hpair, Bool.not_false, if_true, List.filter_nil, List.map_cons,
    List.map_nil, hfront, hback, List.drop_succ_cons, List.drop_zero, formDecode_formEncode]

/-- **A pair at the end of a query stands behind the pairs that were there.** -/
theorem formPairs_appendPair (query name value : List Char) :
    formPairs (appendPair query name value) = formPairs query ++ [(name, value)] := by
  unfold appendPair
  by_cases hquery : query = []
  · subst hquery
    exact formPairs_formPair name value
  · rw [if_neg (by simpa using hquery), List.append_assoc, List.singleton_append, formPairs_append,
      formPairs_formPair]

/-- A pair is put behind the query as it is written, and no mark of a fragment comes with it. -/
theorem exists_appendPair_eq (query name value : List Char) :
    ∃ added, appendPair query name value = query ++ added ∧ '#' ∉ added := by
  have hpair : '#' ∉ formPair name value := fun hhash => (ne_of_mem_formPair hhash).2 rfl
  unfold appendPair
  by_cases hquery : query = []
  · exact ⟨formPair name value, by simp [hquery], hpair⟩
  · refine ⟨'&' :: formPair name value, by simp [hquery], ?_⟩
    rw [List.mem_cons, not_or]
    exact ⟨by decide, hpair⟩

/-! ### Addresses -/

/-- The pairs of the query of an address, in order. -/
def pairs (url : Url) : List (List Char × List Char) :=
  formPairs (url.query.getD "").toList

theorem pairs_withPair (url : Url) (name value : String) :
    (url.withPair name value).pairs = url.pairs ++ [(name.toList, value.toList)] := by
  change formPairs (String.ofList _).toList = _
  rw [String.toList_ofList, formPairs_appendPair]
  rfl

theorem exists_query_withPair (url : Url) (name value : String) :
    ∃ added, ((url.withPair name value).query.getD "").toList = (url.query.getD "").toList ++ added ∧
      '#' ∉ added := by
  obtain ⟨added, hadded, hhash⟩ :=
    exists_appendPair_eq (url.query.getD "").toList name.toList value.toList
  refine ⟨added, ?_, hhash⟩
  change (String.ofList _).toList = _
  rw [String.toList_ofList, hadded]

/-- Addresses that differ in their queries only have one query if what is sent of them is one text. -/
theorem query_eq_of_target_eq {url : Url} {first second : String}
    (htarget : { url with query := some first }.target =
      { url with query := some second }.target) : first = second := by
  have hchars := congrArg String.toList htarget
  simp only [target, Option.elim, String.toList_append] at hchars
  have hquery := List.append_cancel_left (List.append_cancel_left hchars)
  exact String.toList_injective hquery

theorem query_eq_of_text_eq {url : Url} {first second : String}
    (htext : { url with query := some first }.text = { url with query := some second }.text) :
    first = second := by
  have hchars := congrArg String.toList htext
  simp only [text, Option.elim, String.toList_append] at hchars
  have hquery := List.append_cancel_left
    (List.append_cancel_left (List.append_cancel_right hchars))
  exact String.toList_injective hquery

end Url

theorem FetchRequest.pairs_url (request : FetchRequest) :
    request.url.pairs = request.api.pairs ++
      [("namespace".toList, request.reference.space.toList),
        ("version".toList, request.reference.version.toList)] := by
  rw [FetchRequest.url, Url.pairs_withPair, Url.pairs_withPair, List.append_assoc]
  rfl

theorem FetchRequest.exists_query_url (request : FetchRequest) :
    ∃ added, (request.url.query.getD "").toList =
      (request.api.query.getD "").toList ++ added ∧ '#' ∉ added := by
  obtain ⟨space, hspace, hnone⟩ :=
    request.api.exists_query_withPair "namespace" request.reference.space
  obtain ⟨version, hversion, hnone'⟩ :=
    (request.api.withPair "namespace" request.reference.space).exists_query_withPair "version"
      request.reference.version
  refine ⟨space ++ version, ?_, ?_⟩
  · rw [FetchRequest.url, hversion, hspace, List.append_assoc]
  · rw [List.mem_append, not_or]
    exact ⟨hnone, hnone'⟩

theorem FetchRequest.exists_url_eq (request : FetchRequest) :
    ∃ query, request.url = { request.api with query := some query } :=
  ⟨_, rfl⟩

/-- **A request names its component.** The query of its address holds the pairs that the query of the
endpoint holds, in order, and behind them the namespace and the version as they are, of whatever
characters. The query of the endpoint stays as it is written, nothing behind it begins a fragment,
and nothing but the query differs from the endpoint. So requests to one endpoint that are sent alike,
or whose addresses have one text, ask for the same namespace and the same version. -/
theorem request_names_component (request : FetchRequest) :
    request.url.pairs = request.api.pairs ++
        [("namespace".toList, request.reference.space.toList),
          ("version".toList, request.reference.version.toList)] ∧
      (∃ added, (request.url.query.getD "").toList =
        (request.api.query.getD "").toList ++ added ∧ '#' ∉ added) ∧
      { request.url with query := request.api.query } = request.api ∧
      ∀ other : FetchRequest, other.api = request.api →
        (other.url.target = request.url.target ∨ other.url.text = request.url.text) →
        other.reference.space = request.reference.space ∧
          other.reference.version = request.reference.version := by
  obtain ⟨query, hurl⟩ := request.exists_url_eq
  refine ⟨request.pairs_url, request.exists_query_url, by rw [hurl], ?_⟩
  intro other hapi hsame
  obtain ⟨query', hurl'⟩ := other.exists_url_eq
  have hquery : query' = query := by
    rw [hurl, hurl', hapi] at hsame
    rcases hsame with htarget | htext
    · exact Url.query_eq_of_target_eq htarget
    · exact Url.query_eq_of_text_eq htext
  have hpairs : other.url.pairs = request.url.pairs := by
    rw [hurl, hurl', hapi, hquery]
  rw [other.pairs_url, request.pairs_url, hapi] at hpairs
  have hlast := List.append_cancel_left hpairs
  simp only [List.cons.injEq, Prod.mk.injEq, true_and, and_true] at hlast
  exact ⟨String.toList_injective hlast.1, String.toList_injective hlast.2⟩

end ComponentTags
