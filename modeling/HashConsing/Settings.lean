import HashConsing.Text.Numeral
import HashConsing.Text.Words

/-!
# Settings

Settings govern what is reported about a labeling and how its results are laid
out. They have no influence on which ids are handed out.
-/

namespace HashConsing

/-- The least width a summary may have. -/
def leastSummaryWidth : Nat := 10

/-- **The settings of a canonicalizer.** A summary has room for its dots, and
indentation shows nothing but blank space. -/
structure Settings where
  /-- Every id that is handed out is reported to the sink. -/
  logAllocations : Bool := true
  /-- The greatest number of characters in the summary of a node or list. -/
  summaryWidth : Nat := 80
  /-- The unit of indentation of renderings. -/
  indent : String := "   "
  wide : leastSummaryWidth ≤ summaryWidth := by decide
  blank : Text.isBlankText indent.toList = true := by decide

/-- **Checks settings.** The width is looked at first. -/
def Settings.create (logAllocations : Bool) (summaryWidth : Int) (indent : String) :
    Except Failure Settings :=
  if hw : leastSummaryWidth ≤ summaryWidth.toNat then
    if hb : Text.isBlankText indent.toList then
      .ok { logAllocations, summaryWidth := summaryWidth.toNat, indent, wide := hw, blank := hb }
    else .error (.indentNotBlank indent)
  else match Text.writeInteger summaryWidth with
  | .ok shown => .error (.summaryTooNarrow shown)
  | .error failure => .error failure

end HashConsing
