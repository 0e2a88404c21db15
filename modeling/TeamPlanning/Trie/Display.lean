import TeamPlanning.Trie.Basic

/-! # Drawing a tree of histories

One line for the root and one for every other entry, indented under the entry that it extends, in
the order of letters. The text is exponential in the depth of a full tree. -/

set_option autoImplicit false

namespace TeamPlanning.Trie

variable {α : Type}

/-- The index, if assigned, and the value of an entry; nothing for a fork. -/
def label (text : α → String) (vertex : Vertex α) : String :=
  "#" ++ ((vertex.index?.map toString).getD "") ++ " " ++ ((vertex.value?.map text).getD "")

/-- The lines below an entry, each behind a margin. The first number bounds the depth. -/
def linesBelow (trie : Trie α) (text : α → String) : Nat → Nat → String → List String
  | 0, _, _ => []
  | depth + 1, v, margin =>
      let letters := trie.successors v
      letters.zipIdx.flatMap fun ((letter, child), position) =>
        let last := position + 1 = letters.length
        let line := margin ++ (if last then "└" else "├") ++ "──" ++ letter.text ++ " → " ++
          ((trie.node? child).map (label text ·.vertex)).getD "" ++ "\n"
        line :: linesBelow trie text depth child (margin ++ if last then "    " else "│   ")

def display (trie : Trie α) (text : α → String) : String :=
  let first := "ROOT   " ++ ((trie.node? root).map (label text ·.vertex)).getD "" ++ "\n"
  String.join (first :: trie.linesBelow text trie.slots.size root "")

end TeamPlanning.Trie
