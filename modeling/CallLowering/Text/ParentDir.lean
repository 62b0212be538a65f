/-!
# The directory of a path

A path is a row of segments between slashes. Empty segments and single dots name nothing,
except a dot at the very start. The directory of a path is the text before its last named
segment, without the slashes and dots that then end it.
-/

namespace CallLowering

namespace ParentDir

/-- The segments between the slashes of a text. -/
def segments : List Char → List (List Char)
  | [] => [[]]
  | c :: cs =>
    if c = '/' then [] :: segments cs
    else
      match segments cs with
      | [] => [[c]]
      | segment :: rest => (c :: segment) :: rest

/-- Whether a segment names nothing. -/
def isVoid (segment : List Char) : Bool := segment == [] || segment == ['.']

/-- The segments without those at the end that name nothing. -/
def dropVoid (parts : List (List Char)) : List (List Char) :=
  (parts.reverse.dropWhile isVoid).reverse

/-- Joins segments with slashes. -/
def join (parts : List (List Char)) : List Char := ['/'].intercalate parts

/-- Splits a path into the root slash or leading dot that stands before all segments, and the
rest. -/
def splitStart : List Char → List Char × List Char
  | '/' :: rest => (['/'], rest)
  | ['.'] => (['.'], [])
  | '.' :: '/' :: rest => (['.'], '/' :: rest)
  | path => ([], path)

/-- The directory that a path names its last segment in; the current one if it names none. -/
def ofPath (path : String) : String :=
  let (start, rest) := splitStart path.toList
  match dropVoid (segments rest) with
  | [] => "."
  | named =>
    let dir := start ++ join (dropVoid named.dropLast)
    if dir.isEmpty then "." else String.ofList dir

end ParentDir

end CallLowering
