import ShardQuery.Text.CaseTable

/-!
# Letter Case

Lower and upper case of texts by the full Unicode mappings, in which a character may become
several. The only rule that looks around is the one for the Greek capital sigma: at the end
of a word it becomes the final form of the small letter.
-/

namespace ShardQuery

/-- The characters of a run and where they are mapped. -/
def CaseRun.map? (run : CaseRun) (code : Nat) : Option Nat :=
  if run.first ≤ code ∧ code ≤ run.last ∧ (code - run.first) % run.step = 0 then
    some (code + run.offset).toNat
  else none

/-- A character mapped by a table, itself if it is not listed. -/
def mapCase (runs : List CaseRun) (sequences : List (Nat × List Nat)) (c : Char) : List Char :=
  match sequences.find? (·.1 == c.toNat) with
  | some (_, codes) => codes.map Char.ofNat
  | none =>
    match runs.findSome? (CaseRun.map? · c.toNat) with
    | some code => [Char.ofNat code]
    | none => [c]

/-- Whether a table of ranges holds a character. -/
def inRanges (ranges : List (Nat × Nat)) (c : Char) : Bool :=
  ranges.any fun (first, last) => decide (first ≤ c.toNat ∧ c.toNat ≤ last)

/-- Whether the first character that is not passed over has case. -/
def startsCased (text : List Char) : Bool :=
  match text.dropWhile (inRanges CaseTable.ignorable) with
  | [] => false
  | c :: _ => inRanges CaseTable.cased c

/-- The lower case of the rest of a text, given the reverse of what stands before it. A
capital sigma behind a letter and not before one ends a word. -/
def lowerFrom (before : List Char) : List Char → List Char
  | [] => []
  | c :: rest =>
    let mapped :=
      if c = 'Σ' then
        if startsCased before && !startsCased rest then ['ς'] else ['σ']
      else mapCase CaseTable.lowerRuns CaseTable.lowerSequences c
    mapped ++ lowerFrom (c :: before) rest

/-- The lower case of a text, under which functions are registered and looked up. -/
def lowerCase (s : String) : String :=
  String.ofList (lowerFrom [] s.toList)

/-- The upper case of a text, character by character, as none of its rules looks around. -/
def upperCase (s : String) : String :=
  String.ofList (s.toList.flatMap (mapCase CaseTable.upperRuns CaseTable.upperSequences))

end ShardQuery
