import TinyScript.Json.Record
import TinyScript.Proofs.Json.Pretty

/-!
# What readers make of written values

`Decodes reader j outcome` says what a reader makes of the value `j` as `Json.pretty` writes it: the
same outcome at every place of a document, and what stands behind the value is left over.  There is a
rule for each kind of reader, so that nothing needs to be known of texts where readers are put
together.

* `decodes_text`, `decodes_int32`, `decodes_double`   values that contain no others
* `Decodes.tagged`                                    a value with a tag
* `Fills.record`                                      a record, by its members one after the other
* `Gathers.list`                                      a list, by its elements one after the other
* `Decodes.ofDocument`                                a whole document
-/

namespace TinyScript.Json

/-- The value `j` is read as `outcome`.  Blanks may stand in front of its text, because some readers
are called in front of them and others behind them. -/
def Decodes {α : Type} (reader : Reader α) (j : Json) (outcome : Except Fault α) : Prop :=
  ∀ depth rest cs, Delimited rest → skipBlanks cs = pretty depth rest j →
    reader cs = outcome.map fun a => (a, rest)

variable {α β σ τ : Type} {reader : Reader α} {j : Json} {outcome : Except Fault α}

theorem Decodes.map (h : Decodes reader j outcome) (f : α → β) :
    Decodes (Reader.map f reader) j (outcome.map f) := by
  intro depth rest cs hr hcs
  rw [Reader.map, h depth rest cs hr hcs]
  cases outcome <;> rfl

/-- A whole document is read as the value in it, and blanks may follow. -/
theorem Decodes.ofDocument (h : Decodes reader j outcome) {blanks : List Char}
    (hb : ∀ c ∈ blanks, isBlank c = true) :
    ofDocument reader (String.ofList (pretty 0 blanks j)) = outcome := by
  have hdelimited : Delimited blanks := by
    intro c hc
    have hblank := hb c (List.mem_of_mem_head? hc)
    simp only [isBlank, Bool.or_eq_true, beq_iff_eq] at hblank
    rcases hblank with ((rfl | rfl) | rfl) | rfl <;> rfl
  have hempty : skipBlanks blanks = [] := by
    rw [← List.append_nil blanks, skipBlanks_append hb]
    rfl
  rw [Json.ofDocument, String.toList_ofList,
    h 0 blanks _ hdelimited (skipBlanks_pretty 0 blanks j)]
  cases outcome with
  | error fault => rfl
  | ok a =>
    show (if (skipBlanks blanks).isEmpty then Except.ok a else Except.error _) = Except.ok a
    rw [hempty]
    rfl

/-! ### Values that contain no others -/

theorem decodes_text (s : String) : Decodes Reader.text (.text s) (.ok s) := by
  intro depth rest cs hr hcs
  have hquoted : skipBlanks cs = '"' :: (s.toList.flatMap escaped ++ '"' :: rest) := by
    rw [hcs, pretty, quoted, List.append_assoc]
    rfl
  rw [Reader.text, hquoted]
  exact textBody_quoted s rest

/-- a number is read as what it is converted to -/
theorem numeric_append (expected : String) (convert : Number → Except Fault α) {text : List Char}
    (ht : Numeral text) {rest cs : List Char} (hcs : skipBlanks cs = text ++ rest) :
    Reader.numeric expected convert cs =
      number (text ++ rest) >>= fun read => (convert read.1).map fun a => (a, read.2) := by
  obtain ⟨c, tail, rfl, hc⟩ := ht.exists_cons
  rw [Reader.numeric, hcs, List.cons_append]
  dsimp only
  rw [if_pos hc]
  cases number (c :: (tail ++ rest)) with
  | error fault => rfl
  | ok read =>
    show (convert read.1 >>= fun a => pure (a, read.2)) = (convert read.1).map fun a => (a, read.2)
    cases convert read.1 <;> rfl

theorem decodes_int32 (n : Int32) : Decodes Reader.int32 (.int n.toInt) (.ok n) := by
  intro depth rest cs hr hcs
  have hlo : -2147483648 ≤ n.toInt := n.le_toInt
  have hhi : n.toInt < 2147483648 := n.toInt_lt
  rw [Reader.int32, numeric_append "i32" _ (numeral_integerDigits n.toInt) hcs,
    number_integerDigits (by omega) (by omega) hr]
  show (if -2147483648 ≤ n.toInt ∧ n.toInt < 2147483648 then Except.ok (Int32.ofInt n.toInt)
    else Except.error (Fault.invalidValue n.toInt "i32")).map _ = _
  rw [if_pos ⟨hlo, hhi⟩, Int32.ofInt_toInt]

/-- What becomes of a double that is written and read back. -/
def reloaded (x : Float) : Except Fault Float :=
  ofDocument Reader.double (String.ofList (float? x))

/-- the double that a number stands for -/
def Number.toDouble : Number → Except Fault Float
  | .whole n => .ok (Float.ofInt n)
  | .real x => .ok x

theorem decodes_double (x : Float) : Decodes Reader.double (.float x) (reloaded x) := by
  -- what is read is the same in front of every rest, so the document of the double alone shows it
  have halone : ∃ outcome, Decodes Reader.double (.float x) outcome := by
    rcases float?_cases x with hx | hx
    · obtain ⟨outcome, ho⟩ := number_alone hx
      refine ⟨outcome >>= Number.toDouble, fun depth rest cs hr hcs => ?_⟩
      rw [Reader.double, numeric_append "f64" _ hx hcs, ho rest hr]
      cases outcome with
      | error fault => rfl
      | ok n => cases n <;> rfl
    · refine ⟨.error (.invalidType .null "f64"), fun depth rest cs hr hcs => ?_⟩
      rw [pretty, hx] at hcs
      rw [Reader.double, Reader.numeric, hcs]
      rfl
  obtain ⟨outcome, ho⟩ := halone
  have hall := ho.ofDocument (List.forall_mem_nil _)
  rw [pretty, List.append_nil] at hall
  rw [reloaded, hall]
  exact ho

/-- an object is not `null`, so a value that may be missing is there -/
theorem Decodes.optional {members : List (String × Json)}
    (h : Decodes reader (.object members) outcome) :
    Decodes (Reader.optional reader) (.object members) (outcome.map some) := by
  intro depth rest cs hr hcs
  have hsome := (h.map some) depth rest (pretty depth rest (.object members)) hr
    (skipBlanks_pretty _ _ _)
  rw [← hsome, Reader.optional, hcs]
  cases members <;> rfl

/-! ### Where no bracket may be opened -/

theorem decodes_noTagged (tags : Tags τ) (members : List (String × Json)) :
    Decodes (Reader.noTagged tags : Reader α) (.object members) (.error .tooDeep) := by
  intro depth rest cs hr hcs
  rw [Reader.noTagged, hcs]
  cases members <;> rfl

theorem decodes_noRecord (title : String) (members : List (String × Json)) :
    Decodes (Reader.noRecord title : Reader α) (.object members) (.error .tooDeep) := by
  intro depth rest cs hr hcs
  rw [Reader.noRecord, hcs]
  cases members <;> rfl

theorem decodes_noList (js : List Json) :
    Decodes (Reader.noList : Reader α) (.array js) (.error .tooDeep) := by
  intro depth rest cs hr hcs
  rw [Reader.noList, hcs]
  cases js <;> rfl

/-! ### Names of members -/

theorem skipBlanks_quoted (s : String) (rest : List Char) :
    skipBlanks (quoted s ++ rest) = '"' :: (s.toList.flatMap escaped ++ '"' :: rest) := by
  rw [quoted, List.append_assoc]
  rfl

theorem nextName_first (depth : Nat) (name : String) (rest : List Char) :
    nextName true (newline depth ++ quoted name ++ rest) = .ok (some name, rest) := by
  unfold nextName
  rw [List.append_assoc, skipBlanks_newline, skipBlanks_quoted]
  show Reader.map some textBody _ = _
  rw [Reader.map, textBody_quoted]
  rfl

theorem nextName_next (depth : Nat) (name : String) (rest : List Char) :
    nextName false (',' :: newline depth ++ quoted name ++ rest) = .ok (some name, rest) := by
  have hcomma : skipBlanks (',' :: newline depth ++ quoted name ++ rest) =
      ',' :: (newline depth ++ (quoted name ++ rest)) := by
    rw [List.append_assoc]
    rfl
  have hname : skipBlanks (newline depth ++ (quoted name ++ rest)) =
      '"' :: (name.toList.flatMap escaped ++ '"' :: rest) := by
    rw [skipBlanks_newline, skipBlanks_quoted]
  unfold nextName
  simp only [hcomma, hname]
  show Reader.map some textBody _ = _
  rw [Reader.map, textBody_quoted]
  rfl

theorem nextName_end (depth : Nat) (rest : List Char) :
    nextName false (newline depth ++ '\x7d' :: rest) = .ok (none, rest) := by
  unfold nextName
  rw [skipBlanks_newline]
  rfl

/-! ### Values with a tag -/

theorem Decodes.tagged {tags : Tags τ} {content : τ → Reader α} {name : String} {tag : τ}
    (hfind : tags.find name = .ok tag) (h : Decodes (content tag) j outcome) :
    Decodes (Reader.tagged tags content) (.object [(name, j)]) outcome := by
  intro depth rest cs hr hcs
  have hvalue := h (depth + 1) (newline depth ++ '\x7d' :: rest)
    (' ' :: pretty (depth + 1) (newline depth ++ '\x7d' :: rest) j)
    (delimited_newline depth _) (skipBlanks_pretty _ _ j)
  rw [Reader.tagged, hcs]
  show (nextName true (newline (depth + 1) ++ quoted name ++ ':' :: ' ' :: _) >>= _) = _
  rw [nextName_first]
  show (tags.find name >>= _) = _
  rw [hfind]
  show (content tag (' ' :: pretty (depth + 1) (newline depth ++ '\x7d' :: rest) j) >>= _) = _
  rw [hvalue]
  cases outcome with
  | error fault => rfl
  | ok a =>
    show (endTagged (newline depth ++ '\x7d' :: rest) >>= _) = _
    unfold endTagged
    rw [skipBlanks_newline]
    rfl

/-! ### Records -/

/-- What the members in the rest of an object make of the parts that are read. -/
def Fills (fields : List (Field σ)) (parts : σ) (ms : List (String × Json))
    (outcome : Except Fault σ) : Prop :=
  ∀ fuel depth rest, ms.length < fuel →
    members fields fuel false parts (membersText depth rest ms) =
      outcome.map fun parts => (parts, rest)

theorem members_congr (fields : List (Field σ)) (fuel : Nat) (parts : σ) {first first' : Bool}
    {cs cs' : List Char} (h : nextName first cs = nextName first' cs') :
    members fields fuel first parts cs = members fields fuel first' parts cs' := by
  cases fuel with
  | zero => rfl
  | succ fuel => rw [members, members, h]

namespace Fills

variable {fields : List (Field σ)} {parts : σ} {ms : List (String × Json)}

theorem nil : Fills fields parts [] (.ok parts) := by
  intro fuel depth rest hfuel
  obtain ⟨fuel, rfl⟩ := Nat.exists_eq_succ_of_ne_zero (Nat.ne_of_gt hfuel)
  show members fields (fuel + 1) false parts (newline depth ++ '\x7d' :: rest) = _
  rw [members, nextName_end]
  rfl

/-- The first member is read into its part, which is still free, and the other members follow. -/
theorem cons {name : String} {last : Bool} {get : σ → Option α} {set : σ → α → σ}
    (hfind : (fields.find? fun field => field.name == name) = some (.at name last get set reader))
    (hfree : get parts = none) (h : Decodes reader j outcome) {next : α → Except Fault σ}
    (hnext : ∀ a, Fills fields (set parts a) ms (next a)) :
    Fills fields parts ((name, j) :: ms) (outcome >>= next) := by
  intro fuel depth rest hfuel
  obtain ⟨fuel, rfl⟩ := Nat.exists_eq_succ_of_ne_zero (Nat.ne_of_gt (Nat.zero_lt_of_lt hfuel))
  have hvalue := (h.map (set parts)) (depth + 1) (membersText depth rest ms)
    (' ' :: pretty (depth + 1) (membersText depth rest ms) j)
    (delimited_membersText depth rest ms) (skipBlanks_pretty _ _ j)
  show members fields (fuel + 1) false parts (',' :: newline (depth + 1) ++ quoted name ++
    ':' :: ' ' :: pretty (depth + 1) (membersText depth rest ms) j) = _
  rw [members, nextName_next]
  dsimp only [bind, Except.bind]
  rw [hfind]
  show (if (get parts).isSome then _ else Reader.map (set parts) reader
    (' ' :: pretty (depth + 1) (membersText depth rest ms) j) >>= _) = _
  rw [hfree, hvalue]
  cases outcome with
  | error fault => rfl
  | ok a => exact hnext a fuel depth rest (Nat.lt_of_succ_lt_succ hfuel)

/-- behind the opening bracket stands the same text without its comma -/
theorem opened {member : String × Json} {outcome : Except Fault σ}
    (h : Fills fields parts (member :: ms) outcome)
    (depth : Nat) (rest : List Char) :
    members fields ((membersText depth rest (member :: ms)).tail.length + 1) true parts
        (membersText depth rest (member :: ms)).tail =
      outcome.map fun parts => (parts, rest) := by
  have hname : nextName true (membersText depth rest (member :: ms)).tail =
      nextName false (membersText depth rest (member :: ms)) :=
    (nextName_first (depth + 1) member.1 _).trans (nextName_next (depth + 1) member.1 _).symm
  rw [members_congr fields _ parts hname]
  refine h _ depth rest ?_
  have hlength := length_le_prettyMembers (depth + 1) (newline depth ++ '\x7d' :: rest)
    (member :: ms)
  simp only [membersText, List.length_tail, List.length_append, List.length_cons] at *
  omega

/-- A record is read as the value of its parts when all members are read. -/
theorem record {record : Record σ α} {member : String × Json} {outcome : Except Fault σ}
    (h : Fills record.fields record.empty (member :: ms) outcome) :
    Decodes (Reader.record record) (.object (member :: ms)) (outcome >>= record.build) := by
  intro depth rest cs hr hcs
  rw [Reader.record, hcs]
  show (members record.fields ((membersText depth rest (member :: ms)).tail.length + 1) true
    record.empty (membersText depth rest (member :: ms)).tail >>= record.finish) = _
  rw [h.opened depth rest]
  cases outcome <;> rfl

end Fills

/-! ### Lists -/

/-- What the elements in the rest of a list are read as. -/
def Gathers (element : Reader α) (js : List Json) (outcome : Except Fault (List α)) : Prop :=
  ∀ fuel depth rest, js.length < fuel →
    elements element fuel false (elementsText depth rest js) =
      outcome.map fun as => (as, rest)

theorem elements_congr (element : Reader α) (fuel : Nat) {first first' : Bool} {cs cs' : List Char}
    (h : nextElement first cs = nextElement first' cs') :
    elements element fuel first cs = elements element fuel first' cs' := by
  cases fuel with
  | zero => rfl
  | succ fuel => rw [elements, elements, h]

theorem nextElement_first (depth : Nat) (rest : List Char) (j : Json) :
    nextElement true (newline depth ++ pretty depth rest j) = .ok (true, pretty depth rest j) := by
  obtain ⟨c, cs, hcons, hblank, hclosing⟩ := pretty_head depth rest j
  unfold nextElement
  rw [skipBlanks_newline, hcons, skipBlanks_of_not_blank hblank]
  split
  · next h => cases h
  · next h => exact absurd (List.cons.inj h).1 hclosing
  · rfl
  · contradiction
  · contradiction

theorem nextElement_next (depth : Nat) (rest : List Char) (j : Json) :
    nextElement false (',' :: newline depth ++ pretty depth rest j) =
      .ok (true, pretty depth rest j) := by
  obtain ⟨c, cs, hcons, hblank, hclosing⟩ := pretty_head depth rest j
  have hcomma : skipBlanks (',' :: newline depth ++ pretty depth rest j) =
      ',' :: (newline depth ++ pretty depth rest j) := rfl
  have hnext : skipBlanks (newline depth ++ pretty depth rest j) = c :: cs := by
    rw [skipBlanks_newline, hcons, skipBlanks_of_not_blank hblank]
  unfold nextElement
  simp only [hcomma, hnext]
  split
  · next h => cases h
  · next h => exact absurd (List.cons.inj h).1 hclosing
  · rw [hcons]

theorem nextElement_end (depth : Nat) (rest : List Char) :
    nextElement false (newline depth ++ ']' :: rest) = .ok (false, ']' :: rest) := by
  unfold nextElement
  rw [skipBlanks_newline]
  rfl

namespace Gathers

variable {element : Reader α} {js : List Json}

theorem nil : Gathers element [] (.ok []) := by
  intro fuel depth rest hfuel
  obtain ⟨fuel, rfl⟩ := Nat.exists_eq_succ_of_ne_zero (Nat.ne_of_gt hfuel)
  show elements element (fuel + 1) false (newline depth ++ ']' :: rest) = _
  rw [elements, nextElement_end]
  rfl

theorem cons (h : Decodes element j outcome) {others : Except Fault (List α)}
    (hrest : Gathers element js others) :
    Gathers element (j :: js) (outcome >>= fun a => others.map (a :: ·)) := by
  intro fuel depth rest hfuel
  obtain ⟨fuel, rfl⟩ := Nat.exists_eq_succ_of_ne_zero (Nat.ne_of_gt (Nat.zero_lt_of_lt hfuel))
  have hvalue := h (depth + 1) (elementsText depth rest js)
    (pretty (depth + 1) (elementsText depth rest js) j) (delimited_elementsText depth rest js)
    (skipBlanks_pretty _ _ j)
  have hothers := hrest fuel depth rest (Nat.lt_of_succ_lt_succ hfuel)
  show elements element (fuel + 1) false
    (',' :: newline (depth + 1) ++ pretty (depth + 1) (elementsText depth rest js) j) = _
  rw [elements, nextElement_next]
  show (element (pretty (depth + 1) (elementsText depth rest js) j) >>= _) = _
  rw [hvalue]
  cases outcome with
  | error fault => rfl
  | ok a =>
    show (elements element fuel false (elementsText depth rest js) >>= _) = _
    rw [hothers]
    cases others <;> rfl

theorem list {outcome : Except Fault (List α)} (h : Gathers element js outcome) :
    Decodes (Reader.list element) (.array js) outcome := by
  intro depth rest cs hr hcs
  rw [Reader.list, hcs]
  cases js with
  | nil =>
    have hend : nextElement true (']' :: rest) = nextElement false (elementsText depth rest []) :=
      (nextElement_end depth rest).symm
    show elements element ((']' :: rest).length + 1) true (']' :: rest) = _
    rw [elements_congr element _ hend]
    exact h _ depth rest (Nat.succ_pos _)
  | cons j js =>
    show elements element ((elementsText depth rest (j :: js)).tail.length + 1) true
      (elementsText depth rest (j :: js)).tail = _
    have hfirst : nextElement true (elementsText depth rest (j :: js)).tail =
        nextElement false (elementsText depth rest (j :: js)) :=
      (nextElement_first (depth + 1) _ j).trans (nextElement_next (depth + 1) _ j).symm
    rw [elements_congr element _ hfirst]
    refine h _ depth rest ?_
    have hlength := length_le_prettyElements (depth + 1) (newline depth ++ ']' :: rest) (j :: js)
    simp only [elementsText, List.length_tail, List.length_append, List.length_cons] at *
    omega

end Gathers

end TinyScript.Json
