import TinyScript.Sink

/-!
# Texts that consist of lines

* `Text.pieces`            what stands between the newlines of a text
* `Text.pieces_joined`     lines that are written one after the other are cut where they have newlines of
                           their own, and where they end
* `Text.defined?`          the label that a line defines
* `Sink.writeLines_of_unbounded`   a stream keeps the lines that are written to it
-/

namespace TinyScript

namespace Text

/-! ### Pieces -/

/-- The texts between the newlines, with the one in front of the first and the one behind the last. -/
def pieces (text : String) : List String := (text.toList.splitOn '\n').map String.ofList

/-- lines one after the other, each with a newline behind it -/
def joined (lines : List String) : String := String.join (lines.map (· ++ "\n"))

theorem joined_cons (line : String) (lines : List String) :
    joined (line :: lines) = line ++ "\n" ++ joined lines := by
  rw [joined, List.map_cons, String.join_cons]
  rfl

theorem pieces_newline (before behind : String) :
    pieces (before ++ "\n" ++ behind) = pieces before ++ pieces behind := by
  have htext : (before ++ "\n" ++ behind).toList = before.toList ++ '\n' :: behind.toList := by
    rw [String.toList_append, String.toList_append, List.append_assoc]
    rfl
  rw [pieces, htext, List.splitOn_append_cons_self, List.map_append]
  rfl

theorem pieces_of_not_mem {text : String} (h : '\n' ∉ text.toList) : pieces text = [text] := by
  rw [pieces, List.splitOn_eq_singleton h, List.map_singleton, String.ofList_toList]

theorem pieces_joined (lines : List String) :
    pieces (joined lines) = lines.flatMap pieces ++ [""] := by
  induction lines with
  | nil => rfl
  | cons line lines ih => rw [joined_cons, pieces_newline, ih, List.flatMap_cons, List.append_assoc]

theorem newline_not_mem_splitOn {piece cs : List Char} (h : piece ∈ cs.splitOn '\n') :
    '\n' ∉ piece := by
  induction cs generalizing piece with
  | nil =>
    rw [List.splitOn_nil, List.mem_singleton] at h
    rw [h]
    exact List.not_mem_nil
  | cons c cs ih =>
    obtain ⟨first, rest, hsplit⟩ := List.exists_cons_of_ne_nil (List.splitOn_ne_nil '\n' cs)
    rw [List.splitOn_cons_eq_if_modifyHead, hsplit] at h
    rw [hsplit] at ih
    split at h
    · rcases List.mem_cons.mp h with rfl | h
      · exact List.not_mem_nil
      · exact ih h
    · next hc =>
      rcases List.mem_cons.mp h with rfl | h
      · intro hmem
        rcases List.mem_cons.mp hmem with rfl | hmem
        · exact hc (beq_self_eq_true _)
        · exact ih List.mem_cons_self hmem
      · exact ih (List.mem_cons_of_mem _ h)

/-- The pieces are the lines if no line has a newline of its own, and only then. -/
theorem pieces_joined_iff {lines : List String} :
    pieces (joined lines) = lines ++ [""] ↔ ∀ line ∈ lines, '\n' ∉ line.toList := by
  constructor
  · intro h line hl
    have hmem : line ∈ pieces (joined lines) := h ▸ List.mem_append_left _ hl
    obtain ⟨piece, hpiece, rfl⟩ := List.mem_map.mp hmem
    rw [String.toList_ofList]
    exact newline_not_mem_splitOn hpiece
  · intro h
    rw [pieces_joined]
    induction lines with
    | nil => rfl
    | cons line lines ih =>
      obtain ⟨hline, hlines⟩ := List.forall_mem_cons.mp h
      rw [List.flatMap_cons, pieces_of_not_mem hline]
      exact congrArg (line :: ·) (ih hlines)

/-! ### Definitions -/

/-- A colon at the end of a line makes it the definition of the label in front. -/
def defined? (line : String) : Option String :=
  match line.toList.getLast? with
  | some ':' => some (String.ofList line.toList.dropLast)
  | _ => none

theorem defined?_colon (label : String) : defined? (label ++ ":") = some label := by
  have hl : (label ++ ":").toList = label.toList ++ [':'] := String.toList_append
  unfold defined?
  rw [hl, List.getLast?_concat, List.dropLast_concat]
  exact congrArg some String.ofList_toList

theorem defined?_eq_none {line : String} (h : line.toList.getLast? ≠ some ':') :
    defined? line = none := by
  unfold defined?
  split
  · next hc => exact absurd hc h
  · rfl

end Text

theorem Sink.writeLines_of_unbounded {sink : Sink} (h : sink.capacity = none)
    (lines : List String) :
    sink.writeLines lines =
      ({ sink with written := sink.written ++ (Text.joined lines).toUTF8 }, true) := by
  induction lines generalizing sink with
  | nil =>
    show (sink, true) = ({ sink with written := sink.written ++ ByteArray.empty }, true)
    rw [ByteArray.append_empty]
  | cons line lines ih =>
    have hbytes : (Text.joined (line :: lines)).toUTF8 =
        (line ++ "\n").toUTF8 ++ (Text.joined lines).toUTF8 := by
      rw [Text.joined_cons]
      exact String.toByteArray_append
    rw [writeLines, write_of_unbounded h, hbytes, ← ByteArray.append_assoc]
    exact ih h

end TinyScript
