import GoOutline.Json.Value
import GoOutline.Outline.Row

/-!
# Rendering

* `renderText`: rows as indented lines.
* `Row.json`, `renderJson`: rows as a JSON array.
-/

namespace GoOutline

open GoOutline.Json (Value)

/-- A row as a line. Roots have the indent one and begin at the margin. -/
def Row.line (r : Row) : String :=
  String.ofList (List.replicate (2 * (r.indent - 1)) ' ') ++ r.text ++ "\n"

/-- Rows as lines. -/
def renderText (rows : List Row) : String := String.join (rows.map Row.line)

/-- A row as a JSON value. -/
def Row.json (r : Row) : Value :=
  .object [("text", .string r.text), ("indent", .number r.indent),
    ("collapsed", .bool r.isCollapsed), ("value", .number r.value)]

/-- Rows as a JSON array. -/
def renderJson (rows : List Row) : String := (Value.array (rows.map Row.json)).pretty

/-- Rows in one form or the other. -/
def render (rows : List Row) (asJson : Bool) : String :=
  if asJson then renderJson rows else renderText rows

end GoOutline
