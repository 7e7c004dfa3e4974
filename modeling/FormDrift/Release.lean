/-
  The name and the version of the program, as its output gives them.
-/

namespace FormDrift

/-- The name of the program. -/
def programName : String := "paramlint"

/-- The version of the program. -/
def toolVersion : String := "0.1.0"

end FormDrift
