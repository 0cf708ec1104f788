/-! Dotted names: their segments, their first and last part, and joining with a separator. -/
namespace PackageModularity

def joinWith (sep : String) : List String → String
  | [] => ""
  | [a] => a
  | a :: b :: r => a ++ sep ++ joinWith sep (b :: r)

theorem toList_joinWith (sep name : String) (names : List String) :
    (joinWith sep (name :: names)).toList =
      name.toList ++ names.flatMap fun next => sep.toList ++ next.toList := by
  induction names generalizing name with
  | nil => exact (List.append_nil _).symm
  | cons next names ih =>
    rw [joinWith, String.toList_append, String.toList_append, ih, List.flatMap_cons]
    simp only [List.append_assoc]

def splitOnChar (sep : Char) : List Char → List (List Char)
  | [] => [[]]
  | c :: r =>
    if c = sep then [] :: splitOnChar sep r
    else match splitOnChar sep r with
      | [] => [[c]]
      | p :: ps => (c :: p) :: ps

theorem splitOnChar_ne_nil (sep : Char) (cs : List Char) : splitOnChar sep cs ≠ [] := by
  cases cs with
  | nil => simp [splitOnChar]
  | cons c r =>
    by_cases h : c = sep
    · simp [splitOnChar, h]
    · simp only [splitOnChar, h, if_false]; split <;> simp

namespace Name

def segments (name : String) : List String := (splitOnChar '.' name.toList).map String.ofList

def simple (name : String) : String := (segments name).getLastD ""

def qualifier (name : String) : String := joinWith "." (segments name).dropLast

def splitFirst? (name : String) : Option (String × String) :=
  match segments name with
  | head :: s :: r => some (head, joinWith "." (s :: r))
  | _ => none

/-- A name inside a package or type, which may be unnamed. -/
def inside (outer name : String) : String := outer ++ "." ++ name

end Name

end PackageModularity
