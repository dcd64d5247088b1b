/-!
# Indentation

Nested texts put their entries on lines of their own, two blanks further in than what they belong to.
-/

namespace SceneGraph.Text

/-- The blanks in front of a line at some depth. -/
def indent (depth : Nat) : String := String.ofList (List.replicate (2 * depth) ' ')

/-- The end of a line and the blanks in front of the next one. -/
def newline (depth : Nat) : String := "\n" ++ indent depth

end SceneGraph.Text
