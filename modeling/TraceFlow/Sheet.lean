/-
TraceFlow.Sheet — a function in any of the forms.
-/
import TraceFlow.Format
import TraceFlow.Sheet.Document
import TraceFlow.Sheet.Dot
import TraceFlow.Sheet.Plain
import TraceFlow.Sheet.Table

namespace TraceFlow

def FunctionMap.sheet (m : FunctionMap) (form : Format) (function : String) (entry : BlockId) :
    String :=
  match form with
  | .text => Sheet.Plain.render m function entry
  | .dot => Sheet.Dot.render m function entry
  | .json => Sheet.Document.render m function entry
  | .csv => Sheet.Table.render m function entry

/-- The function with a name, inner or not, in a form. -/
def FunctionMap.sheet? (m : FunctionMap) (form : Format) (function : String) : Option String :=
  (m.entry? function).map (m.sheet form function)

end TraceFlow
