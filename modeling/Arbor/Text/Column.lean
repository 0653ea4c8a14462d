/-!
# Columns

Cells of a plain text table, padded on the right.
-/

namespace Arbor.Text

/-- `s` padded with spaces to `width` code points; a longer text is kept whole. -/
def column (width : Nat) (s : String) : String :=
  s ++ String.ofList (List.replicate (width - s.length) ' ')

end Arbor.Text
