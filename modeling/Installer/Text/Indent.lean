/-!
# Indentation

A new line goes in by two spaces a level, in JSON and in XML alike.
-/

set_option autoImplicit false

namespace Installer.Text

/-- A new line, indented by `level` levels. -/
def newLine (level : Nat) : List Char := '\n' :: List.replicate (2 * level) ' '

end Installer.Text
