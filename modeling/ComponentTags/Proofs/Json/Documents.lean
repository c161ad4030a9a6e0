import ComponentTags.Json.Printing
import ComponentTags.Proofs.Json.Texts

/-!
Documents. A tree that is printed is read as a value that stands for it, and what comes after it is left
as it is.
-/

namespace ComponentTags

namespace Json

mutual

/-- A value stands for a tree. -/
inductive Spells : Value → Tree → Prop where
  | bool (extent : Span) (value : Bool) : Spells (.bool extent value) (.bool value)
  | text {raw : RawText} {text : String} (h : raw.decode = .ok text) :
      Spells (.text raw) (.text text)
  | array (extent : Span) {items : List Value} {trees : List Tree} (h : SpellItems items trees) :
      Spells (.array extent items) (.array trees)
  | object (extent : Span) {members : List (RawText × Value)} {trees : List (String × Tree)}
      (h : SpellMembers members trees) : Spells (.object extent members) (.object trees)

inductive SpellItems : List Value → List Tree → Prop where
  | nil : SpellItems [] []
  | cons {item : Value} {items : List Value} {tree : Tree} {trees : List Tree}
      (hitem : Spells item tree) (hitems : SpellItems items trees) :
      SpellItems (item :: items) (tree :: trees)

inductive SpellMembers : List (RawText × Value) → List (String × Tree) → Prop where
  | nil : SpellMembers [] []
  | cons {key : RawText} {value : Value} {members : List (RawText × Value)} {name : String}
      {tree : Tree} {trees : List (String × Tree)} (hkey : key.decode = .ok name)
      (hvalue : Spells value tree) (hmembers : SpellMembers members trees) :
      SpellMembers ((key, value) :: members) ((name, tree) :: trees)

end

/-! ### Blanks -/

/-- Bytes that a reader skips between the parts of a document. -/
def AreBlank (bytes : List UInt8) : Prop :=
  ∀ byte ∈ bytes, isBlank byte = true

theorem areBlank_nil : AreBlank [] :=
  List.forall_mem_nil _

theorem areBlank_newLine (depth : Nat) : AreBlank (Utf8.encode (newLine depth)) := by
  intro byte hbyte
  obtain ⟨ch, hch, hmem⟩ := List.mem_flatMap.1 hbyte
  rcases List.mem_cons.1 hch with rfl | hspace
  · rw [List.mem_singleton.1 hmem]
    decide
  · obtain rfl := List.eq_of_mem_replicate hspace
    rw [List.mem_singleton.1 hmem]
    decide

variable {p q : Place} {blanks bytes rest : List UInt8} {byte : UInt8} {series : Series}

theorem next?_eq (h : p.rest = byte :: rest) : p.next? = some (sign byte) := by
  rw [Place.next?, h]
  rfl

theorem rest_skipBlanks (h : p.rest = blanks ++ byte :: rest) (hblanks : AreBlank blanks)
    (hbyte : isBlank byte = false) : p.skipBlanks.rest = byte :: rest := by
  have htaken : p.rest.takeWhile isBlank = blanks := by
    rw [h, List.takeWhile_append_of_pos hblanks, List.takeWhile_cons_of_neg (by simp [hbyte]),
      List.append_nil]
  rw [Place.skipBlanks, Place.skipWhile, Place.drop, htaken, h, List.drop_left]

/-! ### Series -/

theorem step_over {first : Bool} (h : p.rest = blanks ++ byte :: rest) (hblanks : AreBlank blanks)
    (hbyte : isBlank byte = false) (hclose : sign byte = series.close) :
    ∃ q, series.step first p = .ok (.over q) ∧ q.rest = rest := by
  have hskipped := rest_skipBlanks h hblanks hbyte
  refine ⟨p.skipBlanks.drop 1, ?_, ?_⟩
  · rw [Series.step, next?_eq hskipped]
    dsimp only
    rw [if_pos hclose]
  · rw [Place.drop, hskipped]
    rfl

theorem step_first (h : p.rest = blanks ++ byte :: rest) (hblanks : AreBlank blanks)
    (hbyte : isBlank byte = false) (hopen : sign byte ≠ series.close) :
    ∃ q, series.step true p = .ok (.part q) ∧ q.rest = byte :: rest := by
  have hskipped := rest_skipBlanks h hblanks hbyte
  refine ⟨p.skipBlanks, ?_, hskipped⟩
  rw [Series.step, next?_eq hskipped]
  dsimp only
  rw [if_neg hopen, if_pos rfl]

theorem step_next {before : List UInt8}
    (h : p.rest = before ++ ','.toUInt8 :: (blanks ++ byte :: rest)) (hbefore : AreBlank before)
    (hblanks : AreBlank blanks) (hbyte : isBlank byte = false) (hopen : sign byte ≠ series.close)
    (hcomma : series.close ≠ ',') :
    ∃ q, series.step false p = .ok (.part q) ∧ q.rest = byte :: rest := by
  have hskipped : p.skipBlanks.rest = ','.toUInt8 :: (blanks ++ byte :: rest) :=
    rest_skipBlanks h hbefore (by decide)
  have hdropped : (p.skipBlanks.drop 1).rest = blanks ++ byte :: rest := by
    rw [Place.drop, hskipped]
    rfl
  have hnext := rest_skipBlanks hdropped hblanks hbyte
  refine ⟨(p.skipBlanks.drop 1).skipBlanks, ?_, hnext⟩
  rw [Series.step, next?_eq hskipped]
  dsimp only
  rw [if_neg (fun hclose => hcomma hclose.symm), if_neg Bool.false_ne_true, if_pos (by decide),
    hnext, next?_eq hnext]
  simp [hopen]

theorem readItems_close {first : Bool} (h : p.rest = blanks ++ ']'.toUInt8 :: rest)
    (hblanks : AreBlank blanks) : Yields (readItems p first) [] rest := by
  obtain ⟨q, hstep, hq⟩ : ∃ q, Series.items.step first p = .ok (.over q) ∧ q.rest = rest :=
    step_over h hblanks (by decide) rfl
  rw [readItems]
  split
  · next fault hfault => rw [hstep] at hfault; cases hfault
  · next after hover =>
      rw [hstep] at hover
      cases hover
      exact ⟨q, _, rfl, hq⟩
  · next part hpart => rw [hstep] at hpart; cases hpart

/-- What is read of a series goes on as its first part and the rest do. -/
theorem readItems_cons {first : Bool} {item : Value} {holds : List Value → Prop}
    (hstep : Series.items.step first p = .ok (.part q)) (hitem : Yields (readValue q) item bytes)
    (hitems : ∀ {place : Place}, place.rest = bytes →
      ∃ items, Yields (readItems place false) items rest ∧ holds items) :
    ∃ items, Yields (readItems p first) (item :: items) rest ∧ holds items := by
  obtain ⟨middle, hmiddle, hread, hbytes⟩ := hitem
  obtain ⟨items, ⟨last, hlast, hothers, hrest⟩, hholds⟩ := hitems hbytes
  refine ⟨items, ?_, hholds⟩
  rw [readItems]
  split
  · next fault hfault => rw [hstep] at hfault; cases hfault
  · next after hover => rw [hstep] at hover; cases hover
  · next part hpart =>
      rw [hstep] at hpart
      cases hpart
      rw [hread]
      dsimp only
      rw [hothers]
      exact ⟨last, _, rfl, hrest⟩

theorem readItems_part {first : Bool} {tree : Tree} {trees : List Tree}
    (hstep : Series.items.step first p = .ok (.part q))
    (hitem : ∃ item, Yields (readValue q) item bytes ∧ Spells item tree)
    (hitems : ∀ {place : Place}, place.rest = bytes →
      ∃ items, Yields (readItems place false) items rest ∧ SpellItems items trees) :
    ∃ items, Yields (readItems p first) items rest ∧ SpellItems items (tree :: trees) := by
  obtain ⟨item, hread, hspells⟩ := hitem
  obtain ⟨items, hreads, hspell⟩ := readItems_cons hstep hread hitems
  exact ⟨item :: items, hreads, .cons hspells hspell⟩

theorem readMembers_close {first : Bool} (h : p.rest = blanks ++ '\x7d'.toUInt8 :: rest)
    (hblanks : AreBlank blanks) : Yields (readMembers p first) [] rest := by
  obtain ⟨q, hstep, hq⟩ : ∃ q, Series.members.step first p = .ok (.over q) ∧ q.rest = rest :=
    step_over h hblanks (by decide) rfl
  rw [readMembers]
  split
  · next fault hfault => rw [hstep] at hfault; cases hfault
  · next after hover =>
      rw [hstep] at hover
      cases hover
      exact ⟨q, _, rfl, hq⟩
  · next part hpart => rw [hstep] at hpart; cases hpart

theorem readMembers_cons {first : Bool} {member : RawText × Value}
    {holds : List (RawText × Value) → Prop}
    (hstep : Series.members.step first p = .ok (.part q))
    (hmember : Yields (readMember q) member bytes)
    (hmembers : ∀ {place : Place}, place.rest = bytes →
      ∃ members, Yields (readMembers place false) members rest ∧ holds members) :
    ∃ members, Yields (readMembers p first) (member :: members) rest ∧ holds members := by
  obtain ⟨middle, hmiddle, hread, hbytes⟩ := hmember
  obtain ⟨members, ⟨last, hlast, hothers, hrest⟩, hholds⟩ := hmembers hbytes
  refine ⟨members, ?_, hholds⟩
  rw [readMembers]
  split
  · next fault hfault => rw [hstep] at hfault; cases hfault
  · next after hover => rw [hstep] at hover; cases hover
  · next part hpart =>
      rw [hstep] at hpart
      cases hpart
      rw [hread]
      dsimp only
      rw [hothers]
      exact ⟨last, _, rfl, hrest⟩

theorem readMembers_part {first : Bool} {name : String} {tree : Tree}
    {trees : List (String × Tree)} (hstep : Series.members.step first p = .ok (.part q))
    (hmember : ∃ key value, Yields (readMember q) (key, value) bytes ∧ key.decode = .ok name ∧
      Spells value tree)
    (hmembers : ∀ {place : Place}, place.rest = bytes →
      ∃ members, Yields (readMembers place false) members rest ∧ SpellMembers members trees) :
    ∃ members, Yields (readMembers p first) members rest ∧
      SpellMembers members ((name, tree) :: trees) := by
  obtain ⟨key, value, hread, hdecode, hspells⟩ := hmember
  obtain ⟨members, hreads, hspell⟩ := readMembers_cons hstep hread hmembers
  exact ⟨(key, value) :: members, hreads, .cons hdecode hspells hspell⟩

/-! ### Values -/

theorem readValue_text {raw : RawText} (hnext : p.skipBlanks.next? = some '"')
    (htext : Yields (readText p.skipBlanks) raw rest) : Yields (readValue p) (.text raw) rest := by
  obtain ⟨last, hlast, hread, hrest⟩ := htext
  rw [readValue]
  split
  · next hnone => rw [hnext] at hnone; cases hnone
  · next ch hch =>
      rw [hnext] at hch
      cases hch
      rw [if_pos rfl, hread]
      exact ⟨last, _, rfl, hrest⟩

theorem readValue_array {items : List Value} (hnext : p.skipBlanks.next? = some '[')
    (hitems : Yields (readItems (p.skipBlanks.drop 1) true) items rest) :
    ∃ extent, Yields (readValue p) (.array extent items) rest := by
  obtain ⟨last, hlast, hread, hrest⟩ := hitems
  refine ⟨p.skipBlanks.upTo last, ?_⟩
  rw [readValue]
  split
  · next hnone => rw [hnext] at hnone; cases hnone
  · next ch hch =>
      rw [hnext] at hch
      cases hch
      rw [if_neg (by decide), if_pos rfl, hread]
      exact ⟨last, _, rfl, hrest⟩

theorem readValue_object {members : List (RawText × Value)}
    (hnext : p.skipBlanks.next? = some '\x7b')
    (hmembers : Yields (readMembers (p.skipBlanks.drop 1) true) members rest) :
    ∃ extent, Yields (readValue p) (.object extent members) rest := by
  obtain ⟨last, hlast, hread, hrest⟩ := hmembers
  refine ⟨p.skipBlanks.upTo last, ?_⟩
  rw [readValue]
  split
  · next hnone => rw [hnext] at hnone; cases hnone
  · next ch hch =>
      rw [hnext] at hch
      cases hch
      rw [if_neg (by decide), if_neg (by decide), if_pos rfl, hread]
      exact ⟨last, _, rfl, hrest⟩

/-- A word is read if all its letters stand one after another. -/
theorem readWord_encode {word : List Char} (hascii : word.all (·.toNat < 0x80) = true)
    (hp : p.rest = Utf8.encode word ++ rest) : ∃ q, readWord word p = .ok q ∧ q.rest = rest := by
  induction word generalizing p with
  | nil => exact ⟨p, rfl, hp⟩
  | cons ch word ih =>
      rw [List.all_cons, Bool.and_eq_true, decide_eq_true_iff] at hascii
      obtain ⟨hch, hword⟩ := hascii
      obtain ⟨hencoded, hsign⟩ := Utf8.utf8EncodeChar_of_lt hch
      rw [Utf8.encode_cons, hencoded] at hp
      have hdropped : (p.drop 1).rest = Utf8.encode word ++ rest := by
        rw [Place.drop, hp]
        rfl
      obtain ⟨q, hread, hrest⟩ := ih hword hdropped
      refine ⟨q, ?_, hrest⟩
      rw [readWord, next?_eq hp]
      dsimp only
      rw [sign, if_pos hsign, hread]

theorem readWordValue_encode {word : String} {value : Span → Value}
    (hascii : (word.toList.drop 1).all (·.toNat < 0x80) = true)
    (hp : p.rest = byte :: (Utf8.encode (word.toList.drop 1) ++ rest)) (hleft : 0 < p.left) :
    ∃ extent, Yields (readWordValue word value p hleft) (value extent) rest := by
  have hdropped : (p.drop 1).rest = Utf8.encode (word.toList.drop 1) ++ rest := by
    rw [Place.drop, hp]
    rfl
  obtain ⟨q, hread, hrest⟩ := readWord_encode hascii hdropped
  refine ⟨p.upTo q, ?_⟩
  rw [readWordValue]
  split
  · next fault hfault => rw [hread] at hfault; cases hfault
  · next last hlast =>
      rw [hread] at hlast
      cases hlast
      exact ⟨q, _, rfl, hrest⟩

/-- The words that are values. -/
def wordValues : List (String × (Span → Value)) :=
  [("null", .null), ("true", (.bool · true)), ("false", (.bool · false))]

theorem mem_wordValues (value : Bool) : (toString value, (.bool · value)) ∈ wordValues := by
  cases value with
  | false => exact .tail _ (.tail _ (.head _))
  | true => exact .tail _ (.head _)

/-- **A word is read as the value that it is.** -/
theorem readValue_word {word : String} {value : Span → Value} (hword : (word, value) ∈ wordValues)
    (hp : p.skipBlanks.rest = Utf8.encode word.toList ++ rest) :
    ∃ extent, Yields (readValue p) (value extent) rest := by
  simp only [wordValues, List.mem_cons, Prod.mk.injEq, List.not_mem_nil, or_false] at hword
  obtain ⟨byte, hencoded, hascii⟩ : ∃ byte,
      Utf8.encode word.toList = byte :: Utf8.encode (word.toList.drop 1) ∧
        (word.toList.drop 1).all (·.toNat < 0x80) = true := by
    rcases hword with ⟨rfl, -⟩ | ⟨rfl, -⟩ | ⟨rfl, -⟩ <;> exact ⟨_, rfl, rfl⟩
  rw [hencoded, List.cons_append] at hp
  have hleft : 0 < p.skipBlanks.left := by
    rw [Place.left, hp]
    exact Nat.zero_lt_succ _
  obtain ⟨extent, last, hlast, hread, hrest⟩ :
      ∃ extent, Yields (readWordValue word value p.skipBlanks hleft) (value extent) rest :=
    readWordValue_encode hascii hp hleft
  refine ⟨extent, last, Nat.lt_of_lt_of_le hlast p.left_skipBlanks_le, ?_, hrest⟩
  rw [readValue]
  split
  · next hnone => rw [next?_eq hp] at hnone; cases hnone
  · next ch hch =>
      obtain rfl : sign byte = ch := Option.some.inj ((next?_eq hp).symm.trans hch)
      rcases hword with ⟨rfl, rfl⟩ | ⟨rfl, rfl⟩ | ⟨rfl, rfl⟩
      all_goals obtain rfl := (List.cons.inj hencoded).1
      · rw [if_neg (by decide), if_neg (by decide), if_neg (by decide), if_pos (by decide), hread]
        rfl
      · rw [if_neg (by decide), if_neg (by decide), if_neg (by decide), if_neg (by decide),
          if_pos (by decide), hread]
        rfl
      · rw [if_neg (by decide), if_neg (by decide), if_neg (by decide), if_neg (by decide),
          if_neg (by decide), if_pos (by decide), hread]
        rfl

/-! ### Trees -/

/-- How a printed value begins. -/
theorem exists_encode_chars (tree : Tree) (depth : Nat) :
    ∃ byte bytes, Utf8.encode (tree.chars depth) = byte :: bytes ∧
      ['t', 'f', '"', '[', '\x7b'].contains (sign byte) = true := by
  cases tree with
  | bool value => cases value <;> exact ⟨_, _, rfl, by decide⟩
  | text value => exact ⟨_, _, rfl, by decide⟩
  | array items => cases items <;> exact ⟨_, _, rfl, by decide⟩
  | object members => cases members <;> exact ⟨_, _, rfl, by decide⟩

theorem opens_chars {tree : Tree} {depth : Nat} {first : UInt8}
    (h : Utf8.encode (tree.chars depth) = first :: bytes) :
    isBlank first = false ∧ sign first ≠ ']' ∧ sign first ≠ '\x7d' := by
  obtain ⟨byte, others, hencoded, hopens⟩ := exists_encode_chars tree depth
  obtain rfl : byte = first := by
    rw [hencoded] at h
    exact (List.cons.inj h).1
  rw [isBlank]
  generalize sign byte = ch at hopens ⊢
  simp only [List.contains_cons, List.contains_nil, Bool.or_false, Bool.or_eq_true,
    beq_iff_eq] at hopens
  rcases hopens with rfl | rfl | rfl | rfl | rfl <;> decide

theorem rest_skipBlanks_chars {tree : Tree} {depth : Nat}
    (h : p.rest = blanks ++ (Utf8.encode (tree.chars depth) ++ rest)) (hblanks : AreBlank blanks) :
    p.skipBlanks.rest = Utf8.encode (tree.chars depth) ++ rest := by
  obtain ⟨byte, bytes, hencoded, -⟩ := exists_encode_chars tree depth
  rw [hencoded] at h ⊢
  exact rest_skipBlanks h hblanks (opens_chars hencoded).1

/-- A member is read as its key, the colon and its value are. -/
theorem readMember_of_parts {key : RawText} {holds : Value → Prop} (hquote : p.next? = some '"')
    (hkey : Yields (readText p) key (blanks ++ ':'.toUInt8 :: bytes)) (hblanks : AreBlank blanks)
    (hvalue : ∀ {place : Place}, place.rest = bytes →
      ∃ value, Yields (readValue place) value rest ∧ holds value) :
    ∃ value, Yields (readMember p) (key, value) rest ∧ holds value := by
  obtain ⟨middle, hmiddle, hread, hafter⟩ := hkey
  have hcolon : middle.skipBlanks.rest = ':'.toUInt8 :: bytes :=
    rest_skipBlanks hafter hblanks (by decide)
  have hdropped : (middle.skipBlanks.drop 1).rest = bytes := by
    rw [Place.drop, hcolon]
    rfl
  obtain ⟨value, ⟨last, hlast, hreadValue, hrest⟩, hholds⟩ := hvalue hdropped
  refine ⟨value, ⟨last, ?_⟩, hholds⟩
  have hsign : middle.skipBlanks.next? = some ':' := next?_eq hcolon
  rw [readMember, if_pos hquote, hread]
  dsimp only
  rw [if_neg (by simp [hcolon]), if_pos hsign, hreadValue]
  exact ⟨_, rfl, hrest⟩

theorem readMember_encode {name : String} {tree : Tree}
    {depth : Nat} (hp : p.rest = Utf8.encode (keyChars name) ++
      (Utf8.encode (tree.chars depth) ++ rest))
    (hvalue : ∀ {place : Place}, place.skipBlanks.rest = Utf8.encode (tree.chars depth) ++ rest →
      ∃ value, Yields (readValue place) value rest ∧ Spells value tree) :
    ∃ key value, Yields (readMember p) (key, value) rest ∧ key.decode = .ok name ∧
      Spells value tree := by
  rw [keyChars, Utf8.encode_append, List.append_assoc] at hp
  obtain ⟨key, hkey, hdecode⟩ := readText_encode hp
  have hquote : p.next? = some '"' := by
    rw [Place.next?, hp]
    rfl
  have hcolon : Yields (readText p) key ([] ++ ':'.toUInt8 ::
      ([' '.toUInt8] ++ (Utf8.encode (tree.chars depth) ++ rest))) := hkey
  have hspace : AreBlank [' '.toUInt8] := List.forall_mem_singleton.2 rfl
  obtain ⟨value, hread, hspells⟩ := readMember_of_parts hquote hcolon areBlank_nil
    fun hplace => hvalue (rest_skipBlanks_chars hplace hspace)
  exact ⟨key, value, hread, hdecode, hspells⟩

/-- What stands before a part of a series. -/
def comma (first : Bool) : List UInt8 :=
  if first then [] else [','.toUInt8]

theorem step_item {tree : Tree} {depth : Nat} {first : Bool}
    (h : p.rest = comma first ++ (blanks ++ (Utf8.encode (tree.chars depth) ++ rest)))
    (hblanks : AreBlank blanks) :
    ∃ q, Series.items.step first p = .ok (.part q) ∧
      q.skipBlanks.rest = Utf8.encode (tree.chars depth) ++ rest := by
  obtain ⟨byte, bytes, hencoded, -⟩ := exists_encode_chars tree depth
  obtain ⟨hbyte, hopen, -⟩ := opens_chars hencoded
  have hpart : ∃ q, Series.items.step first p = .ok (.part q) ∧
      q.rest = byte :: (bytes ++ rest) := by
    rw [hencoded] at h
    cases first with
    | true => exact step_first h hblanks hbyte hopen
    | false =>
        exact step_next (show p.rest = [] ++ _ from h) areBlank_nil hblanks hbyte hopen (by decide)
  obtain ⟨q, hstep, hq⟩ := hpart
  refine ⟨q, hstep, ?_⟩
  rw [hencoded]
  exact rest_skipBlanks (show q.rest = [] ++ _ from hq) areBlank_nil hbyte

theorem step_member {name : String} {first : Bool}
    (h : p.rest = comma first ++ (blanks ++ (Utf8.encode (keyChars name) ++ rest)))
    (hblanks : AreBlank blanks) :
    ∃ q, Series.members.step first p = .ok (.part q) ∧
      q.rest = Utf8.encode (keyChars name) ++ rest := by
  cases first with
  | true => exact step_first h hblanks (by decide) (by decide)
  | false =>
      exact step_next (show p.rest = [] ++ _ from h) areBlank_nil hblanks (by decide)
        (by decide) (by decide)

mutual

/-- **A tree that is printed is read as a value that stands for it.** -/
theorem readValue_chars (tree : Tree) (depth : Nat) {p : Place} {rest : List UInt8}
    (hp : p.skipBlanks.rest = Utf8.encode (tree.chars depth) ++ rest) :
    ∃ value, Yields (readValue p) value rest ∧ Spells value tree := by
  match tree with
  | .bool value =>
      rw [Tree.chars] at hp
      obtain ⟨extent, hread⟩ := readValue_word (mem_wordValues value) hp
      exact ⟨_, hread, .bool extent value⟩
  | .text value =>
      rw [Tree.chars] at hp
      obtain ⟨raw, hread, hdecode⟩ := readText_encode hp
      have hnext : p.skipBlanks.next? = some '"' := by
        rw [Place.next?, hp]
        rfl
      exact ⟨_, readValue_text hnext hread, .text hdecode⟩
  | .array [] =>
      rw [Tree.chars] at hp
      have hdropped : (p.skipBlanks.drop 1).rest = [] ++ ']'.toUInt8 :: rest := by
        rw [Place.drop, hp]
        rfl
      obtain ⟨extent, hread⟩ := readValue_array (next?_eq hp) (readItems_close hdropped areBlank_nil)
      exact ⟨_, hread, .array extent .nil⟩
  | .array (item :: items) =>
      rw [Tree.chars] at hp
      have hdropped : (p.skipBlanks.drop 1).rest = comma true ++
          (Utf8.encode (newLine (depth + 1)) ++ (Utf8.encode (item.chars (depth + 1)) ++
            (Utf8.encode (itemChars (depth + 1) items) ++
              (Utf8.encode (newLine depth) ++ ']'.toUInt8 :: rest)))) := by
        rw [Place.drop, hp]
        simp [Utf8.encode_cons, comma]
        rfl
      obtain ⟨q, hstep, hq⟩ := step_item hdropped (areBlank_newLine _)
      obtain ⟨values, hvalues, hspells⟩ := readItems_part hstep
        (readValue_chars item (depth + 1) hq)
        (readItems_chars items (depth + 1) (areBlank_newLine depth))
      have hnext : p.skipBlanks.next? = some '[' := by
        rw [Place.next?, hp]
        rfl
      obtain ⟨extent, hread⟩ := readValue_array hnext hvalues
      exact ⟨_, hread, .array extent hspells⟩
  | .object [] =>
      rw [Tree.chars] at hp
      have hdropped : (p.skipBlanks.drop 1).rest = [] ++ '\x7d'.toUInt8 :: rest := by
        rw [Place.drop, hp]
        rfl
      obtain ⟨extent, hread⟩ := readValue_object (next?_eq hp) (readMembers_close hdropped areBlank_nil)
      exact ⟨_, hread, .object extent .nil⟩
  | .object ((name, value) :: members) =>
      rw [Tree.chars] at hp
      have hdropped : (p.skipBlanks.drop 1).rest = comma true ++
          (Utf8.encode (newLine (depth + 1)) ++ (Utf8.encode (keyChars name) ++
            (Utf8.encode (value.chars (depth + 1)) ++
              (Utf8.encode (memberChars (depth + 1) members) ++
                (Utf8.encode (newLine depth) ++ '\x7d'.toUInt8 :: rest))))) := by
        rw [Place.drop, hp]
        simp [Utf8.encode_cons, comma]
        rfl
      obtain ⟨q, hstep, hq⟩ := step_member hdropped (areBlank_newLine _)
      obtain ⟨found, hfound, hspells⟩ := readMembers_part hstep
        (readMember_encode hq (readValue_chars value (depth + 1)))
        (readMembers_chars members (depth + 1) (areBlank_newLine depth))
      have hnext : p.skipBlanks.next? = some '\x7b' := by
        rw [Place.next?, hp]
        rfl
      obtain ⟨extent, hread⟩ := readValue_object hnext hfound
      exact ⟨_, hread, .object extent hspells⟩

theorem readItems_chars (items : List Tree) (depth : Nat) {p : Place} {blanks rest : List UInt8}
    (hblanks : AreBlank blanks)
    (hp : p.rest = Utf8.encode (itemChars depth items) ++ (blanks ++ ']'.toUInt8 :: rest)) :
    ∃ values, Yields (readItems p false) values rest ∧ SpellItems values items := by
  match items with
  | [] =>
      rw [itemChars] at hp
      exact ⟨[], readItems_close hp hblanks, .nil⟩
  | item :: items =>
      rw [itemChars] at hp
      have hcomma : p.rest = comma false ++ (Utf8.encode (newLine depth) ++
          (Utf8.encode (item.chars depth) ++ (Utf8.encode (itemChars depth items) ++
            (blanks ++ ']'.toUInt8 :: rest)))) := by
        rw [hp]
        simp [Utf8.encode_cons, comma]
        rfl
      obtain ⟨q, hstep, hq⟩ := step_item hcomma (areBlank_newLine depth)
      exact readItems_part hstep (readValue_chars item depth hq)
        (readItems_chars items depth hblanks)

theorem readMembers_chars (members : List (String × Tree)) (depth : Nat) {p : Place}
    {blanks rest : List UInt8} (hblanks : AreBlank blanks)
    (hp : p.rest = Utf8.encode (memberChars depth members) ++ (blanks ++ '\x7d'.toUInt8 :: rest)) :
    ∃ found, Yields (readMembers p false) found rest ∧ SpellMembers found members := by
  match members with
  | [] =>
      rw [memberChars] at hp
      exact ⟨[], readMembers_close hp hblanks, .nil⟩
  | (name, value) :: members =>
      rw [memberChars] at hp
      have hcomma : p.rest = comma false ++ (Utf8.encode (newLine depth) ++
          (Utf8.encode (keyChars name) ++ (Utf8.encode (value.chars depth) ++
            (Utf8.encode (memberChars depth members) ++ (blanks ++ '\x7d'.toUInt8 :: rest))))) := by
        rw [hp]
        simp [Utf8.encode_cons, comma]
        rfl
      obtain ⟨q, hstep, hq⟩ := step_member hcomma (areBlank_newLine depth)
      exact readMembers_part hstep
        (readMember_encode hq (readValue_chars value depth))
        (readMembers_chars members depth hblanks)

end

/-- **A document that is printed is read as one that stands for what was printed.** -/
theorem read_render (tree : Tree) :
    ∃ value, read (Utf8.encode tree.render.toList) = .ok value ∧ Spells value tree := by
  let p : Place := ⟨Utf8.encode tree.render.toList, 0⟩
  have hp : p.rest = [] ++ (Utf8.encode (tree.chars 0) ++ []) := by
    simp [p, Tree.render]
  obtain ⟨value, ⟨q, hq, hread, hrest⟩, hspells⟩ :=
    readValue_chars tree 0 (rest_skipBlanks_chars hp areBlank_nil)
  refine ⟨value, ?_, hspells⟩
  rw [read, hread]
  simp [Place.skipBlanks, Place.skipWhile, Place.drop, hrest]

end Json

end ComponentTags
