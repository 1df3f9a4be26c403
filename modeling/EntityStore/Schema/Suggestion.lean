import EntityStore.Schema.Kind

/-! The kind whose name is nearest to a mistyped one. A name that differs in ASCII letter case only
is nearest. Of the others, those that hold the characters of the typed name in order are scored by
an alignment: matches at the start, after a small letter and in a row count more, gaps less. -/
namespace EntityStore.Suggestion

/-- A score below all that count. -/
def lowest : Int := -32768

/-- The best alignments of a part of the pattern with a part of the name: those that end in a match,
those that end in a gap, and the bonus of a match that goes on. -/
structure Cell where
  matched : Int
  gap : Int
  bonus : Int

def Cell.blank : Cell := ⟨lowest, lowest, 0⟩

instance : Inhabited Cell := ⟨Cell.blank⟩

/-- A pattern with an ASCII capital is matched with regard to case. -/
def caseMatters (pattern : List Char) : Bool := pattern.any Char.isUpper

/-- Whether a character of a name stands for one of the pattern. -/
def agrees (strict : Bool) (c p : Char) : Bool := c == p || (!strict && c.toLower == p.toLower)

/-- The places of the leftmost match of the pattern in a name that starts at place `i`. -/
def places? (strict : Bool) (i : Nat) : List Char → List Char → Option (List Nat)
  | _, [] => some []
  | [], _ :: _ => none
  | c :: name, p :: pattern =>
    if agrees strict c p then (places? strict (i + 1) name pattern).map (i :: ·)
    else places? strict (i + 1) name (p :: pattern)

/-- The bonus of a match at a place by what stands around it. -/
def placeBonus (name : Array Char) (j : Nat) : Int :=
  if j = 0 then 16
  else if (name.getD (j - 1) ' ').isLower && (name.getD j ' ').isUpper then 6
  else 0

/-- Two rows of cells, one after the other. -/
structure Board where
  columns : Nat
  cells : Array Cell

namespace Board

def get (b : Board) (row column : Nat) : Cell := b.cells.getD (row * b.columns + column) .blank

def set (b : Board) (row column : Nat) (c : Cell) : Board :=
  { b with cells := b.cells.setIfInBounds (row * b.columns + column) c }

/-- A board on the cells of an earlier one, cut or filled up with blank cells. -/
def reuse (columns : Nat) (cells : Array Cell) : Board :=
  ⟨columns, (cells ++ Array.replicate (2 * columns) Cell.blank).extract 0 (2 * columns)⟩

/-- The board before the first character of the pattern, whose leftmost match is at `first`. -/
def opening (b : Board) (first : Nat) : Board :=
  (List.range b.columns).foldl (fun b j => b.set 0 j ⟨lowest, -1, 0⟩) (b.set 1 first .blank)

/-- Aligns character `p` of the pattern, number `i`, with the character of the name at `j`. -/
def align (strict : Bool) (name : Array Char) (i : Nat) (p : Char) (b : Board) (j : Nat) : Board :=
  let row := (i + 1) % 2
  let last := b.get row j
  let previous := b.get (i % 2) j
  let current := b.get row (j + 1)
  let c := name.getD j ' '
  if agrees strict c p then
    let worth : Int := if !strict && c != p then 14 else 16
    let place := placeBonus name j
    let bonus := max (max last.bonus place) 4
    let b := b.set row j { last with bonus }
    b.set row (j + 1)
      ⟨max (previous.matched + bonus) (previous.gap + place) + worth,
        max (last.matched - 4) (last.gap - 1), current.bonus⟩
  else b.set row (j + 1) ⟨lowest, max (last.matched - 4) (last.gap - 1), 0⟩

end Board

/-- Scores a name for a pattern on the cells of an earlier board. A name without the characters of
the pattern in order has no score. -/
def score? (cells : Array Cell) (name pattern : List Char) : Option Int × Array Cell :=
  if pattern.isEmpty then (some 0, cells)
  else
    let strict := caseMatters pattern
    match places? strict 0 name pattern with
    | none => (none, cells)
    | some firsts =>
      let chars := name.toArray
      let length := chars.size
      let board := (Board.reuse (length + 1) cells).opening (firsts.headD 0)
      let board := (pattern.zip firsts).zipIdx.foldl (fun b ((p, first), i) =>
        (List.range' first (length - first)).foldl (Board.align strict chars i p) b) board
      let last := firsts.getLastD 0
      let ends := (List.range' last (length + 1 - last)).map fun j =>
        (board.get (pattern.length % 2) j).matched
      (some (ends.foldl max lowest), board.cells)

/-- The state of a search: the cells in use, and the best kind so far with its score. -/
structure Search where
  cells : Array Cell
  best : Option (Int × Kind)

/-- Scores one more kind; of two equal scores the later counts. -/
def Search.visit (pattern : List Char) (s : Search) (k : Kind) : Search :=
  let (score, cells) := score? s.cells k.name.toList pattern
  match score, s.best with
  | none, best => ⟨cells, best⟩
  | some n, none => ⟨cells, some (n, k)⟩
  | some n, some (m, j) => ⟨cells, some (if m ≤ n then (n, k) else (m, j))⟩

/-- The kind that a mistyped name most likely means. -/
def nearest? (name : String) : Option Kind :=
  match Kind.all.find? fun k => Text.sameFolded k.name name with
  | some k => some k
  | none => ((Kind.all.foldl (Search.visit name.toList) ⟨#[], none⟩).best).map (·.2)

end EntityStore.Suggestion
