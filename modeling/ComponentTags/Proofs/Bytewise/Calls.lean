import ComponentTags.Proofs.Bytewise.Rewriting

/-!
Calls of the readers. Each of them ends, whatever the source is: it comes back further on than where it
was made, or with a character cut if the source ends inside the expression of an attribute and beyond
ASCII. Reading a whole source comes back at its end.
-/

namespace ComponentTags

/-! ### Readings go on -/

/-- A task that takes something from any text that is left. -/
def Task.takesAny : {α : Type} → Task α → Bool
  | _, .code _ _ _ => true
  | _, .children _ => true
  | _, _ => false

/-- A task that only the end of the text ends. -/
def Task.takesAll : {α : Type} → Task α → Bool
  | _, .code inBraces _ _ => !inBraces
  | _, _ => false

section Readings

variable {α : Type} {task : Task α} {reading : Reading α} {source rest : List Char} {c d : Cursor}
  {ch : Char}

theorem Reads.remaining_lt (h : Reads task c reading) (htask : task.takesAny = true)
    (hrest : c.rest = ch :: rest) : reading.next.remaining < c.remaining := by
  have hsize := Cursor.remaining_of_rest hrest
  have hadvance := Cursor.remaining_advance c
  cases h with
  | codeEnd hend | childrenEnd hend => simp [hend] at hrest
  | codeTemplate _ hfirst hsecond | codeElement _ _ hfirst hsecond | childrenHole _ hfirst hsecond
  | childrenElement _ _ hfirst hsecond =>
      have hlater := hsecond.remaining_le
      have hlate := hfirst.remaining_le
      rw [Reading.next_andThen]
      omega
  | codeOpen _ hcode | codeClose _ _ hcode | codeLess _ _ hcode =>
      have hlater := hcode.remaining_le
      omega
  | codeLeave =>
      rw [Reading.next_found]
      omega
  | @codePlain _ _ _ _ first others _ _ _ hcode =>
      have hlater := hcode.remaining_le
      have hpos := Lexical.plainLength_pos (List.cons_ne_nil first others)
      rw [Cursor.remaining_drop] at hlater
      omega
  | childrenClose hclose =>
      have hlater := remaining_closingTag_le c
      have htwo := Cursor.remaining_of_rest hclose
      rw [Reading.next_map]
      rw [List.length_cons] at htwo
      omega
  | childrenLess _ _ _ hchildren | childrenPlain _ _ hchildren =>
      have hlater := hchildren.remaining_le
      omega
  | _ => cases htask

/-- Code that is in no braces is read to the end of the text. -/
theorem Reads.rest_eq_nil (h : Reads task c reading) (htask : task.takesAll = true) :
    reading.next.rest = [] := by
  induction h with
  | codeEnd hend => exact hend
  | codeOpen _ _ ih | codeClose _ _ _ ih | codeLess _ _ _ ih | codePlain _ _ _ ih => exact ih htask
  | codeTemplate _ _ _ _ ih | codeElement _ _ _ _ _ ih => exact ih htask
  | _ => cases htask

theorem Cursor.IsIn.offset_le_of_remaining (hc : c.IsIn source) (hd : d.IsIn source)
    (hle : d.remaining ≤ c.remaining) : c.offset ≤ d.offset := by
  obtain ⟨-, hbefore⟩ := hc.textTo_append hd hle
  rw [hc.offset, hd.offset, hbefore, utf8Length_append]
  exact Nat.le_add_left _ _

theorem Cursor.IsIn.offset_lt_of_remaining (hc : c.IsIn source) (hd : d.IsIn source)
    (hlt : d.remaining < c.remaining) : c.offset < d.offset := by
  have hle := hc.offset_le_of_remaining hd (Nat.le_of_lt hlt)
  have hne : c.offset ≠ d.offset := by
    intro heq
    have hc' := hc.size_eq
    have hd' := hd.size_eq
    obtain ⟨hrest, -⟩ := hc.textTo_append hd (Nat.le_of_lt hlt)
    rw [hrest, utf8Length_append] at hc'
    have hnone : c.textTo d = [] := utf8Length_eq_zero (by omega)
    rw [hnone, List.nil_append] at hrest
    rw [Cursor.remaining, Cursor.remaining, hrest] at hlt
    omega
  omega

/-- **Severed readings.** One is severed exactly if it ends inside an expression and beyond ASCII. -/
theorem Task.severed_read_iff (task : Task α) (hin : c.IsIn source) :
    (task.read c).severed = true ↔ EndsInside task c ∧ EndsBeyondAscii source := by
  constructor
  · exact (task.reads c).endsInside hin
  · rintro ⟨⟨β, last, d, hcomes, hend⟩, hbeyond⟩
    exact hcomes.severs rfl hin hbeyond hend

end Readings

namespace Bytewise

/-- One attribute at its name, with what comes back from reading it. -/
def attributeAt (source : List Char) (style : TagSyntax) (depth : Nat) (parser : Parser) :
    Checked (Attribute × Parser) := do
  let nameStop := skipWhile Lexical.isAttributeNameChar source parser.pos
  let name ← slice source parser.pos nameStop
  let (value, after) ← attributeValue source style depth { parser with pos := nameStop }
  pure ({ name := String.ofList name, value, span := ⟨parser.pos, after.pos⟩ }, after)

/-- A reader that is called, with what it is told. -/
inductive Call where
  | code (inBraces : Bool) (depth : Nat)
  | template (depth : Nat)
  | element (depth : Nat)
  | children (parent depth : Nat)
  | openingTag (style : TagSyntax) (depth : Nat)
  | attr (style : TagSyntax) (depth : Nat)

namespace Call

/-- What comes back from a call that is made at a place. -/
def run (source : List Char) (parser : Parser) : Call → Checked Parser
  | code inBraces depth => Bytewise.code source inBraces 0 depth parser
  | template depth =>
      Bytewise.template source depth { parser with pos := bump source parser.pos }
  | element depth =>
      Bytewise.element source depth parser.pos { parser with pos := bump source parser.pos }
  | children parent depth => Bytewise.children source parent depth parser
  | openingTag style depth => do
      let (_, after) ← Bytewise.openingTag source style depth parser.pos
        { parser with pos := bump source parser.pos }
      pure after
  | attr style depth => do
      let (_, after) ← attributeAt source style depth parser
      pure after

/-- Whether a call is made at what triggers it: the byte that begins what it reads, or for code and
children, which begin anywhere, any byte. -/
def IsTriggered (source : List Char) (pos : Nat) : Call → Prop
  | code .. | children .. => peek source pos ≠ none
  | template _ => peek source pos = some '\x60'
  | element _ | openingTag .. => peek source pos = some '<'
  | attr .. => (peek source pos).any Lexical.isAttributeNameChar = true

/-- Where readers make a call: at what triggers it, but for code and children, which may be at the end
of the source. The element that children belong to is still open. -/
def IsMade (source : List Char) (parser : Parser) : Call → Prop
  | code .. => True
  | children parent _ => ∃ node, parser.nodes[parent]? = some node ∧ node.close = none
  | call => call.IsTriggered source parser.pos

/-- Reading on from a call comes to the end of the source inside the expression of an attribute. -/
def EndsInside (c : Cursor) : Call → Prop
  | code inBraces depth => ComponentTags.EndsInside (.code inBraces 0 depth) c
  | template depth => ComponentTags.EndsInside (.template depth) c.advance
  | element depth => ComponentTags.EndsInside (.element depth c.offset) c.advance
  | children _ depth => ComponentTags.EndsInside (.children depth) c
  | openingTag style depth => ComponentTags.EndsInside (.openingTag style depth c.offset) c.advance
  | attr style depth =>
      ComponentTags.EndsInside (.attributeValue style depth)
        (c.skipWhile Lexical.isAttributeNameChar)

end Call

/-- A computation that ends: in one case a character is cut, and in every other the result is good. -/
structure GivesUnless {α : Type} (computation : Checked α) (case : Prop) (good : α → Prop) :
    Prop where
  cuts : case → computation = throw .insideCharacter
  gives : ¬case → ∃ result, computation = pure result ∧ good result

section Calls

variable {source rest : List Char} {c d : Cursor} {ch x : Char} {α β : Type} {nodes : List Element}
  {task : Task α} {call : Call}

theorem GivesUnless.of_outcome {reading : Reading α} {computation : Checked β} {value : β}
    {case : Prop} {good : β → Prop} (hrun : computation = outcome reading value)
    (hcase : reading.severed = true ↔ case) (hgood : good value) :
    GivesUnless computation case good where
  cuts h := by
    rw [hrun, outcome, if_pos (hcase.2 h)]
  gives h := by
    rw [hrun, outcome, if_neg (mt hcase.1 h)]
    exact ⟨value, rfl, hgood⟩

/-- A byte of ASCII is a character, wherever it stands: reading is between characters there. -/
theorem exists_isIn_of_peek {pos : Nat} (hx : Ascii.isAscii x = true) (h : peek source pos = some x) :
    ∃ c : Cursor, c.IsIn source ∧ c.offset = pos ∧ c.rest.head? = some x := by
  -- along the source, with the characters that are passed already
  suffices hsplit : ∀ front rest : List Char, source = front.reverse ++ rest →
      utf8Length front ≤ pos → ∃ c : Cursor, c.IsIn source ∧ c.offset = pos ∧ c.rest.head? = some x by
    exact hsplit [] source rfl (Nat.zero_le _)
  intro front rest hsource hle
  induction rest generalizing front with
  | nil =>
      have hbeyond : (signs source)[pos]? = none := by
        rw [List.getElem?_eq_none_iff, length_signs, hsource, List.append_nil, utf8Length_reverse]
        exact hle
      rw [peek, hbeyond] at h
      cases h
  | cons ch rest ih =>
      by_cases hpast : utf8Length (ch :: front) ≤ pos
      · exact ih (ch :: front) (by rw [hsource]; simp) hpast
      · have hin : (⟨front, ch :: rest, utf8Length front⟩ : Cursor).IsIn source := ⟨hsource, rfl⟩
        have hmem : x ∈ signs [ch] := by
          have hinside : pos - utf8Length front < (signs [ch]).length := by
            rw [length_signs, utf8Length, utf8Length]
            rw [utf8Length] at hpast
            omega
          rw [peek, hsource, signs_append, signs_cons, List.getElem?_append_right
            (by rwa [length_signs, utf8Length_reverse]), length_signs, utf8Length_reverse,
            List.getElem?_append_left hinside] at h
          exact List.mem_of_getElem? h
        obtain rfl : x = ch := (alike_iff_of_ascii hx).1 (alike_of_mem_signs hmem).symm |>.symm
        have hsize := utf8Size_of_ascii hx
        rw [utf8Length, hsize] at hpast
        exact ⟨_, hin, by dsimp only; omega, rfl⟩

/-- What a call comes to by characters: a task, from a place on that is further on, unless the task
takes something itself. -/
structure IsReading (source : List Char) (c : Cursor) (nodes : List Element) (call : Call)
    (task : Task α) (d : Cursor) : Prop where
  isIn : d.IsIn source
  further : c.offset < d.offset ∨ d = c ∧ task.takesAny = true
  run : ∃ nodes', call.run source ⟨c.offset, nodes⟩ =
    outcome (task.read d) ⟨(task.read d).next.offset, nodes'⟩

theorem rest_ne_nil_of_peek (hin : c.IsIn source) (h : peek source c.offset ≠ none) : c.rest ≠ [] :=
  fun hend => h (peek_end hin hend)

theorem Call.peek_ne_none {pos : Nat} (h : call.IsTriggered source pos) : peek source pos ≠ none := by
  cases call with
  | code | children => exact h
  | template | element | openingTag => exact fun hnone => Option.some_ne_none _ (h.symm.trans hnone)
  | attr =>
      intro hnone
      rw [IsTriggered, hnone] at h
      cases h

/-- A call comes back from what it reads, further on. -/
theorem IsReading.gives (h : IsReading source c nodes call task d) (hin : c.IsIn source) :
    GivesUnless (call.run source ⟨c.offset, nodes⟩)
      (ComponentTags.EndsInside task d ∧ EndsBeyondAscii source) fun after =>
        c.offset ≤ after.pos ∧ after.pos ≤ utf8Length source ∧
          (call.IsTriggered source c.offset → c.offset < after.pos) := by
  obtain ⟨hin', hfurther, nodes', hrun⟩ := h
  have hnext := (task.reads d).isIn hin'
  have hlater := hin'.offset_le_of_remaining hnext (Task.remaining_read_le task d)
  refine .of_outcome hrun (task.severed_read_iff hin') ⟨?_, hnext.offset_le, fun htriggered => ?_⟩
  · rcases hfurther with hlt | ⟨rfl, -⟩
    · exact Nat.le_trans (Nat.le_of_lt hlt) hlater
    · exact hlater
  · rcases hfurther with hlt | ⟨rfl, htask⟩
    · exact Nat.lt_of_lt_of_le hlt hlater
    · obtain ⟨ch, rest, hrest⟩ :=
        List.exists_cons_of_ne_nil (rest_ne_nil_of_peek hin (Call.peek_ne_none htriggered))
      exact hin'.offset_lt_of_remaining hnext ((task.reads d).remaining_lt htask hrest)

/-- Past the character that a call is made at. -/
theorem bump_of_peek (hin : c.IsIn source) (hx : Ascii.isAscii x = true)
    (hpeek : peek source c.offset = some x) :
    bump source c.offset = c.advance.offset ∧ c.offset < c.advance.offset := by
  rw [peek_offset hin] at hpeek
  obtain ⟨rest, hrest⟩ := List.head?_eq_some_iff.1 ((lead_head?_eq_some_iff hx).1 hpeek)
  refine ⟨bump_of_ascii hin hrest hx, ?_⟩
  have hsize := Cursor.remaining_of_rest hrest
  have hadvance := Cursor.remaining_advance c
  exact hin.offset_lt_of_remaining hin.advance (by omega)

/-- The value that a reading gives beside the place where it is over is of no account. -/
theorem outcome_snd {reading : Reading α} (first : β) (after : Parser) :
    (do
      let (_, parser) ← outcome reading (first, after)
      pure parser) = outcome reading after :=
  outcome_bind_pure rfl rfl

theorem isReading_template (hin : c.IsIn source) (depth : Nat)
    (htriggered : peek source c.offset = some '\x60') :
    IsReading source c nodes (.template depth) (.template depth) c.advance := by
  obtain ⟨hbump, hlt⟩ := bump_of_peek hin rfl htriggered
  refine ⟨hin.advance, .inl hlt, nodes ++ ((Task.template depth).read c.advance).elements, ?_⟩
  rw [Call.run, hbump]
  exact agrees ((Task.template depth).reads c.advance) hin.advance nodes

theorem isReading_element (hin : c.IsIn source) (depth : Nat)
    (htriggered : peek source c.offset = some '<') :
    IsReading source c nodes (.element depth) (.element depth c.offset) c.advance := by
  obtain ⟨hbump, hlt⟩ := bump_of_peek hin rfl htriggered
  have hreads := (Task.element depth c.offset).reads c.advance
  refine ⟨hin.advance, .inl hlt, nodes ++ ((Task.element depth c.offset).read c.advance).elements, ?_⟩
  rw [Call.run, hbump]
  exact agrees hreads hin.advance nodes

theorem isReading_openingTag (hin : c.IsIn source) (style : TagSyntax) (depth : Nat)
    (htriggered : peek source c.offset = some '<') :
    IsReading source c nodes (.openingTag style depth) (.openingTag style depth c.offset)
      c.advance := by
  obtain ⟨hbump, hlt⟩ := bump_of_peek hin rfl htriggered
  have hreads := (agrees ((Task.openingTag style depth c.offset).reads c.advance) hin.advance).2 nodes
  have hrun := congrArg (· >>= fun result => pure result.2) hreads
  rw [← hbump] at hrun
  exact ⟨hin.advance, .inl hlt, _, hrun.trans (outcome_snd _ _)⟩

theorem isReading_children (hin : c.IsIn source) {parent : Nat} (depth : Nat) {node : Element}
    (hnode : nodes[parent]? = some node) (hopen : node.close = none) :
    IsReading source c nodes (.children parent depth) (.children depth) c := by
  obtain ⟨hlt, hget⟩ := List.getElem?_eq_some_iff.1 hnode
  have hnodes : nodes = nodes.take parent ++ node :: nodes.drop (parent + 1) := by
    rw [← hget, List.getElem_cons_drop, List.take_append_drop]
  have hlength : (nodes.take parent).length = parent := List.length_take_of_le (Nat.le_of_lt hlt)
  have hreads := agrees ((Task.children depth).reads c) hin (nodes.take parent) node
    (nodes.drop (parent + 1)) hopen
  rw [← hnodes, hlength] at hreads
  exact ⟨hin, .inr ⟨rfl, rfl⟩, _, hreads⟩

theorem isReading_attr (hin : c.IsIn source) (style : TagSyntax) (depth : Nat)
    (htriggered : (peek source c.offset).any Lexical.isAttributeNameChar = true) :
    IsReading source c nodes (.attr style depth) (.attributeValue style depth)
      (c.skipWhile Lexical.isAttributeNameChar) := by
  have hafter := hin.skipWhile Lexical.isAttributeNameChar
  rw [peek_offset hin, isUniform_isAttributeNameChar.any_lead] at htriggered
  obtain ⟨ch, hhead, hnamed⟩ := (Option.any_eq_true _ _).1 htriggered
  obtain ⟨rest, hrest⟩ := List.head?_eq_some_iff.1 hhead
  have hlt : (c.skipWhile Lexical.isAttributeNameChar).remaining < c.remaining := by
    have hsize := Cursor.remaining_of_rest hrest
    rw [Cursor.skipWhile, Cursor.remaining_drop, hrest, List.takeWhile_cons_of_pos hnamed,
      List.length_cons]
    omega
  have hreads := agrees ((Task.attributeValue style depth).reads _) hafter nodes
  refine ⟨hafter, .inl (hin.offset_lt_of_remaining hafter hlt), nodes ++
    ((Task.attributeValue style depth).read
      (c.skipWhile Lexical.isAttributeNameChar)).elements, ?_⟩
  rw [Call.run, attributeAt]
  dsimp only
  rw [skipWhile_offset isUniform_isAttributeNameChar hin, slice_takeWhile hin, pure_bind, hreads,
    bind_assoc]
  exact outcome_bind_pure rfl rfl

/-- **A call ends.** It comes back further on, or the source ends inside an expression that it reads. -/
theorem Call.gives (call : Call) (hin : c.IsIn source) (hmade : call.IsMade source ⟨c.offset, nodes⟩) :
    GivesUnless (call.run source ⟨c.offset, nodes⟩)
      (call.EndsInside c ∧ EndsBeyondAscii source) fun after =>
        c.offset ≤ after.pos ∧ after.pos ≤ utf8Length source ∧
          (call.IsTriggered source c.offset → c.offset < after.pos) := by
  cases call with
  | code inBraces depth =>
      have hreads := agrees ((Task.code inBraces 0 depth).reads c) hin nodes
      have hreading : IsReading source c nodes (.code inBraces depth) (.code inBraces 0 depth) c :=
        ⟨hin, .inr ⟨rfl, rfl⟩, _, hreads⟩
      exact hreading.gives hin
  | template depth => exact (isReading_template hin depth hmade).gives hin
  | element depth => exact (isReading_element hin depth hmade).gives hin
  | children parent depth =>
      obtain ⟨node, hnode, hopen⟩ := hmade
      exact (isReading_children hin depth hnode hopen).gives hin
  | openingTag style depth => exact (isReading_openingTag hin style depth hmade).gives hin
  | attr style depth => exact (isReading_attr hin style depth hmade).gives hin

/-- Code that is read from the start of a source is read to its end. -/
theorem code_consumes (source : List Char) :
    GivesUnless (code source false 0 0 ⟨0, []⟩) (IsSevered source) fun after =>
      after.pos = utf8Length source := by
  have hstart := Cursor.isIn_start source
  have hreads := (Task.code false 0 0).reads (.start source)
  refine .of_outcome (agrees hreads hstart []) ((Task.code false 0 0).severed_read_iff hstart) ?_
  have hsize := (hreads.isIn hstart).size_eq
  rw [hreads.rest_eq_nil rfl, utf8Length, Nat.add_zero] at hsize
  exact hsize.symm

/-- Markup is read to its end. -/
theorem markup_consumes (source : List Char) :
    ∃ nodes, markup source [] ⟨0, []⟩ = pure ⟨utf8Length source, nodes⟩ :=
  ⟨_, markup_offset (Cursor.isIn_start source) ⟨#[], []⟩ ⟨nofun, nofun⟩⟩

/--
**The readers end and go on.** Wherever in a source a reader is called, it comes back no earlier than
it was called, and later if it was called at what triggers it, unless the source ends inside an
expression of an attribute that it reads and beyond ASCII, where a character is cut. A trigger of ASCII
is between characters wherever it stands, so that the places of the calls are those of cursors. Reading
the whole source comes back at its end, in code with that one exception and in markup always.
-/
theorem readers_consume (source : List Char) :
    (∀ (x : Char) (pos : Nat), Ascii.isAscii x = true → peek source pos = some x →
      ∃ c : Cursor, c.IsIn source ∧ c.offset = pos) ∧
      (∀ (call : Call) (c : Cursor) (nodes : List Element), c.IsIn source →
        call.IsMade source ⟨c.offset, nodes⟩ →
        GivesUnless (call.run source ⟨c.offset, nodes⟩)
          (call.EndsInside c ∧ EndsBeyondAscii source) fun after =>
            c.offset ≤ after.pos ∧ after.pos ≤ utf8Length source ∧
              (call.IsTriggered source c.offset → c.offset < after.pos)) ∧
      GivesUnless (code source false 0 0 ⟨0, []⟩) (IsSevered source)
        (fun after => after.pos = utf8Length source) ∧
      ∃ nodes, markup source [] ⟨0, []⟩ = pure ⟨utf8Length source, nodes⟩ := by
  refine ⟨fun x pos hx hpeek => ?_, fun call c nodes => call.gives, code_consumes source,
    markup_consumes source⟩
  obtain ⟨c, hin, hoffset, -⟩ := exists_isIn_of_peek hx hpeek
  exact ⟨c, hin, hoffset⟩

/-- Of an attribute without a value: the cursor goes past the blank behind it, and back. -/
theorem readers_consume_before_blank :
    let source := "<A b />".toList
    let call := Call.attr .code 0
    let c := (Cursor.start source).drop 3
    c.IsIn source ∧ call.IsMade source ⟨c.offset, []⟩ ∧
      ∃ after, call.run source ⟨c.offset, []⟩ = pure after ∧ c.offset < after.pos := by
  intro source call c
  have hin : c.IsIn source := (Cursor.isIn_start source).drop 3
  have hmade : call.IsMade source ⟨c.offset, []⟩ := by
    change (peek source 3).any Lexical.isAttributeNameChar = true
    decide +kernel
  have hascii : ¬EndsBeyondAscii source := by
    rintro ⟨ch, hlast, hbeyond⟩
    obtain rfl : '>' = ch := Option.some.inj hlast
    cases hbeyond
  obtain ⟨-, hcalls, -⟩ := readers_consume source
  obtain ⟨after, hrun, -, -, hfurther⟩ :=
    (hcalls call c [] hin hmade).gives fun hends => hascii hends.2
  exact ⟨hin, hmade, after, hrun, hfurther hmade⟩

/-- Code that ends inside an expression, with a character of two bytes: reading it does not come back. -/
theorem code_stops_in_expression :
    let source := "<A b=\x7bé".toList
    code source false 0 0 ⟨0, []⟩ = throw .insideCharacter ∧
      ∀ after, code source false 0 0 ⟨0, []⟩ ≠ pure after := by
  intro source
  have hsevered : IsSevered source := by
    rw [IsSevered, ← severed_iff]
    decide +kernel
  have hcuts := (code_consumes source).cuts hsevered
  refine ⟨hcuts, fun after hgives => ?_⟩
  have hfault := hcuts.symm.trans hgives
  cases hfault

end Calls

end Bytewise

end ComponentTags
