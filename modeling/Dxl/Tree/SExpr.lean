import Dxl.Text.Quoted
import Dxl.Tree.Basic

/-! Trees as nested expressions in parentheses. -/

namespace Dxl.Tree

/-- A leaf is its kind and its quoted text, a node its kind and its children in parentheses. -/
def sexpr (tree : Tree) (isHidden : Char → Bool := isControl) : String :=
  tree.fold (fun kind text => kind.dumpName ++ quote text isHidden)
    (fun kind parts => "(" ++ kind.dumpName ++ String.join (parts.map (" " ++ ·)) ++ ")")

end Dxl.Tree
