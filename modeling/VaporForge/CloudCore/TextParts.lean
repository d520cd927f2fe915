import VaporForge.CloudCore.Text

/-!
# Parts of a text

The functions of the standard library that cut a text: off its front, at a character, and
off its end.
-/

namespace VaporForge.CloudCore

/-- `str::strip_prefix`. -/
def stripFront (front s : String) : Option String :=
  if front.toList.isPrefixOf s.toList then some (String.ofList (s.toList.drop front.length))
  else none

/-- `str::split_once`. -/
def splitOnce (s : String) (c : Char) : Option (String × String) :=
  match s.toList.dropWhile (· ≠ c) with
  | [] => none
  | _ :: rest => some (String.ofList (s.toList.takeWhile (· ≠ c)), String.ofList rest)

/-- `str::trim_end_matches` for a set of characters. -/
def trimEndChars (s : String) (chars : List Char) : String :=
  String.ofList (s.toList.reverse.dropWhile (chars.contains ·)).reverse

end VaporForge.CloudCore
