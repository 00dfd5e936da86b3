/-!
Lines of a text.
-/

namespace EntityQuery.Text

/-- The pieces of a text between its newlines. -/
def pieces : List Char → List (List Char)
  | [] => [[]]
  | c :: cs =>
    if c = '\n' then [] :: pieces cs
    else
      match pieces cs with
      | [] => [[c]]
      | line :: lines => (c :: line) :: lines

/-- The lines of a text, without the newlines that end them. A newline at the very end begins no
further line. -/
def lines (s : String) : List String :=
  let all := pieces s.toList
  (match all.getLast? with
    | some [] => all.dropLast
    | _ => all).map String.ofList

end EntityQuery.Text
