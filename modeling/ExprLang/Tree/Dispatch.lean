import ExprLang.Fault
import ExprLang.Tree.Basic

/-!
Dispatch: which of some named handlers a tree goes to. Only the exact name of its sort counts.
-/

namespace ExprLang

def Node.dispatch (handlers : List String) (node : Node) : Except Fault String :=
  if node.label ∈ handlers then .ok node.label else .error (.noHandler node.label)

end ExprLang
