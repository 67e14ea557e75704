import CppCode.AtomicFile.Registers
import CppCode.Bytes.Text

/-!
# CppCode.AtomicFile.FirstLine

`getFileFirstNotEmptyLine()` and `detail::Trim()`
(`utils/filesystem_wrapper/filesystem_wrapper.cpp`): the first line of a file in which
anything but white space stands, without the white space around it.

`Trim()` is `std::regex_replace` with the pattern `^\s+|\s+$` and an empty replacement. The
anchors are those of the whole string; after a match, `^` does not match again.
-/

namespace CppCode.AtomicFile

open Bytes Posix

/-- What `\s` matches: space, and the control characters from tab to carriage return. -/
def isspace (b : UInt8) : Bool := b = 32 || (9 ≤ b && b ≤ 13)

/-- The line feed. -/
def newline : UInt8 := 10

/-- A match of `^\s+|\s+$` at this position: the first alternative takes all the white space at
the start of the string, the second one white space that extends to its end. -/
def trimMatch (atStart : Bool) (rest : List UInt8) : Nat :=
  let run := rest.takeWhile isspace
  if atStart then run.length
  else if run.length = rest.length then run.length
  else 0

/-- `detail::Trim`. -/
def trim (str : List UInt8) : List UInt8 := deleteFrom trimMatch true 0 str

/-- The loop of `getFileFirstNotEmptyLine()` over the lines of the stream. -/
def firstNotEmptyLine (content : List UInt8) : Option (List UInt8) :=
  match _h : getline newline content with
  | none => none
  | some (line, rest) =>
      let trimmedLine := trim line
      if trimmedLine ≠ [] then some trimmedLine else firstNotEmptyLine rest
termination_by content.length
decreasing_by exact length_of_getline _h

def getFileFirstNotEmptyLine (fs : FileSystem Path) (path : Path) :
    Except String (List UInt8) :=
  match readFileContent fs path with
  | .error text => .error text
  | .ok content =>
      match firstNotEmptyLine content with
      | some line => .ok line
      | none => .error ("No not empty line found in file: " ++ path.string)

/-! ### `Trim()` -/

/-- White space at the end of a string that begins with something else. -/
theorem deleteFrom_trimMatch (str : List UInt8) :
    deleteFrom trimMatch false 0 str = str.rdropWhile isspace := by
  induction str with
  | nil => rfl
  | cons b rest ih =>
      rw [rdropWhile_cons, deleteFrom]
      by_cases hall : (b :: rest).all isspace = true
      · have hrun : (b :: rest).takeWhile isspace = b :: rest := by
          rw [List.takeWhile_eq_self_iff]
          simpa using hall
        have hmatch : trimMatch false (b :: rest) = rest.length + 1 := by
          simp [trimMatch, hrun]
        rw [hmatch, if_pos hall]
        show deleteFrom trimMatch false rest.length rest = []
        rw [deleteFrom_skip, List.drop_length, deleteFrom]
      · have hmatch : trimMatch false (b :: rest) = 0 := by
          have hlength : ((b :: rest).takeWhile isspace).length ≠ (b :: rest).length := by
            intro hlength
            have hsplit := List.takeWhile_append_dropWhile (p := isspace) (l := b :: rest)
            have hnil : (b :: rest).dropWhile isspace = [] := by
              have := congrArg List.length hsplit
              rw [List.length_append, hlength] at this
              exact List.eq_nil_of_length_eq_zero (by omega)
            rw [List.dropWhile_eq_nil_iff] at hnil
            exact hall (by simpa using hnil)
          simp only [trimMatch, Bool.false_eq_true, if_false, hlength]
        rw [hmatch, if_neg hall]
        exact congrArg (b :: ·) ih

/-- `Trim()` removes the white space at both ends. -/
theorem trim_eq_strip (str : List UInt8) : trim str = strip isspace str := by
  rw [strip, ← deleteFrom_trimMatch]
  cases str with
  | nil => rfl
  | cons b rest =>
      rw [trim, deleteFrom]
      by_cases hb : isspace b = true
      · have hmatch : trimMatch true (b :: rest) = (rest.takeWhile isspace).length + 1 := by
          simp [trimMatch, hb]
        have hdrop : rest.drop (rest.takeWhile isspace).length = rest.dropWhile isspace := by
          have hleft : (rest.takeWhile isspace ++ rest.dropWhile isspace).drop
              (rest.takeWhile isspace).length = rest.dropWhile isspace := List.drop_left
          rwa [List.takeWhile_append_dropWhile] at hleft
        rw [hmatch, List.dropWhile_cons_of_pos hb, ← hdrop, ← deleteFrom_skip]
      · have hmatch : ∀ atStart, trimMatch atStart (b :: rest) = 0 := by
          intro atStart
          cases atStart <;> simp [trimMatch, hb]
        rw [List.dropWhile_cons_of_neg hb, deleteFrom, hmatch, hmatch]

theorem trim_ne_nil_iff (str : List UInt8) : trim str ≠ [] ↔ ∃ b ∈ str, isspace b = false := by
  rw [trim_eq_strip, strip_ne_nil_iff]

/-! ### The lines -/

/-- Something other than white space stands in the line. -/
def meaningful (line : List UInt8) : Bool := line.any fun b => !isspace b

theorem meaningful_iff (line : List UInt8) : meaningful line = true ↔ trim line ≠ [] := by
  simp [meaningful, trim_ne_nil_iff]

/-- The loop returns the first meaningful line between line feeds, trimmed. -/
theorem firstNotEmptyLine_eq (content : List UInt8) :
    firstNotEmptyLine content = ((content.splitOn newline).find? meaningful).map trim := by
  induction content using firstNotEmptyLine.induct with
  | case1 content h =>
      -- the stream is at its end: there is one line left, an empty one
      have hnil : content = [] := by
        cases content with
        | nil => rfl
        | cons b rest => cases h
      rw [hnil, firstNotEmptyLine]
      rfl
  | case2 content line rest h trimmedLine hne =>
      have hline : meaningful line = true := (meaningful_iff line).mpr hne
      rw [firstNotEmptyLine, h]
      rcases splitOn_of_getline h with hsplit | ⟨hsplit, -⟩
      · rw [hsplit, List.find?_cons_of_pos hline]
        exact if_pos hne
      · rw [hsplit, List.find?_cons_of_pos hline]
        exact if_pos hne
  | case3 content line rest h trimmedLine hnil ih =>
      have hline : meaningful line ≠ true := fun hm => hnil ((meaningful_iff line).mp hm)
      rw [firstNotEmptyLine, h]
      show (if trim line ≠ [] then some (trim line) else firstNotEmptyLine rest) = _
      rw [if_neg hnil, ih]
      rcases splitOn_of_getline h with hsplit | ⟨hsplit, hrest⟩
      · rw [hsplit, List.find?_cons_of_neg hline]
      · rw [hsplit, List.find?_cons_of_neg hline, hrest]
        rfl

/-- **The first meaningful line, trimmed.** -/
theorem getFileFirstNotEmptyLine_spec (fs : FileSystem Path) (path : Path) (content : List UInt8)
    (h : fs.read path = some content) :
    (∀ line, (content.splitOn newline).find? meaningful = some line →
      ∃ before result after, getFileFirstNotEmptyLine fs path = .ok result ∧
        line = before ++ result ++ after ∧ (∀ b ∈ before, isspace b = true) ∧
        (∀ b ∈ after, isspace b = true) ∧ result ≠ [] ∧
        (∀ b ∈ result.head?, isspace b = false) ∧ ∀ b ∈ result.getLast?, isspace b = false) ∧
      ((content.splitOn newline).find? meaningful = none →
        getFileFirstNotEmptyLine fs path =
          .error ("No not empty line found in file: " ++ path.string)) := by
  rw [getFileFirstNotEmptyLine, readFileContent_of_read h]
  dsimp only
  rw [firstNotEmptyLine_eq]
  constructor
  · intro line hline
    have hmeaningful := (meaningful_iff line).mp (List.find?_some hline)
    obtain ⟨before, after, hsplit, hbefore, hafter, hhead, hlast⟩ := strip_spec isspace line
    rw [← trim_eq_strip] at hsplit hhead hlast
    rw [hline]
    exact ⟨before, trim line, after, rfl, hsplit, hbefore, hafter, hmeaningful, hhead, hlast⟩
  · intro hnone
    rw [hnone]
    rfl

/-- Two blank lines, the second one with white space, and then `" a b "` with CRLF endings. -/
def crlfContent : List UInt8 := [13, 10, 32, 9, 13, 10, 32, 97, 32, 98, 32, 13, 10, 99]

theorem getFileFirstNotEmptyLine_crlfContent :
    ∃ before result after,
      getFileFirstNotEmptyLine (oneFile [conf] crlfContent) conf = .ok result ∧
        [32, 97, 32, 98, 32, 13] = before ++ result ++ after ∧ result ≠ [] := by
  have hspec := getFileFirstNotEmptyLine_spec (oneFile [conf] crlfContent) conf crlfContent rfl
  obtain ⟨before, result, after, hok, hline, -, -, hne, -⟩ :=
    hspec.1 [32, 97, 32, 98, 32, 13] (by decide)
  exact ⟨before, result, after, hok, hline, hne⟩

end CppCode.AtomicFile
