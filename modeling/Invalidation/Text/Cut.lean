/-! Cutting a text in two at the first place where a separator stands. -/

namespace Invalidation.Text

/-- Cuts a row of characters before and after the first place where the separator stands. -/
def cutList? (separator : List Char) : List Char → Option (List Char × List Char)
  | [] => none
  | c :: rest =>
      if separator.isPrefixOf (c :: rest) then some ([], (c :: rest).drop separator.length)
      else (cutList? separator rest).map fun (front, back) => (c :: front, back)

/-- Cuts a text before and after the first place where the separator stands, if it does. -/
def cut? (separator text : String)
    : Option (String × String) :=
  (cutList? separator.toList text.toList).map fun (front, back) =>
    (String.ofList front, String.ofList back)

end Invalidation.Text
