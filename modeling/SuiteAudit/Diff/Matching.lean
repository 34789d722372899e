import SuiteAudit.Text.Basic

/-! # Common stretches of two texts

Two lists of lines are matched by their longest common stretch, then by the longest ones to the left
and to the right of it, and so on.  Lines that are very frequent in a long new text start no
stretch, though a stretch may grow over them.
-/

namespace SuiteAudit.Diff

/-- Equal lines: `size` of them from `old` in one list and from `new` in the other. -/
structure Common where
  old : Nat
  new : Nat
  size : Nat
  deriving DecidableEq, Repr

/-- The lines from `oldLo` to before `oldHi`, against those from `newLo` to before `newHi`. -/
structure Window where
  oldLo : Nat
  oldHi : Nat
  newLo : Nat
  newHi : Nat

/-- The number of lines from which frequent lines are left out. -/
def popularFrom : Nat := 200

/-- Whether a line that occurs `count` times among `size` lines starts no stretch. -/
def isPopular (size count : Nat) : Bool := popularFrom ≤ size && size / 100 + 1 < count

/-- The places of a line in a list, none when it is too frequent. -/
def placesOf (new : List Text) (line : Text) : List Nat :=
  let places := (new.zipIdx.filter fun p => p.1 = line).map (·.2)
  if isPopular new.length places.length then [] else places

/-- The best stretch so far and, by place in the new list, the lengths of those that end at the
line looked at last. -/
structure Search where
  best : Common
  runs : List (Nat × Nat)

namespace Search

/-- The length of the stretch that ends right before a place. -/
def runBefore (runs : List (Nat × Nat)) : Nat → Nat
  | 0 => 0
  | place + 1 => (runs.lookup place).getD 0

/-- Takes in that the old line `i` occurs at a place of the new list. -/
def meet (runs : List (Nat × Nat)) (i : Nat) (s : Search) (place : Nat) : Search :=
  let k := runBefore runs place + 1
  ⟨if s.best.size < k then ⟨i + 1 - k, place + 1 - k, k⟩ else s.best, (place, k) :: s.runs⟩

/-- Takes in the old line `i`, which occurs at some places of the new list. -/
def step (w : Window) (s : Search) (p : List Nat × Nat) : Search :=
  (p.1.filter fun place => w.newLo ≤ place && place < w.newHi).foldl (meet s.runs p.2) ⟨s.best, []⟩

end Search

/-- Two lists of lines, with the places of each old line in the new list. -/
structure Sides where
  old : Array Text
  new : Array Text
  places : List (List Nat × Nat)

def Sides.ofLists (old new : List Text) : Sides where
  old := old.toArray
  new := new.toArray
  places := (old.map (placesOf new)).zipIdx

namespace Sides

/-- Whether two lines are there and the same. -/
def same (s : Sides) (i j : Nat) : Bool :=
  match s.old[i]?, s.new[j]? with
  | some a, some b => a = b
  | _, _ => false

/-- Makes a stretch longer to the left, by `limit` lines at most. -/
def growLeft (s : Sides) (w : Window) : Nat → Common → Common
  | 0, c => c
  | limit + 1, c =>
    if w.oldLo < c.old ∧ w.newLo < c.new ∧ s.same (c.old - 1) (c.new - 1) then
      growLeft s w limit ⟨c.old - 1, c.new - 1, c.size + 1⟩
    else c

/-- Makes a stretch longer to the right, by `limit` lines at most. -/
def growRight (s : Sides) (w : Window) : Nat → Common → Common
  | 0, c => c
  | limit + 1, c =>
    if c.old + c.size < w.oldHi ∧ c.new + c.size < w.newHi ∧
        s.same (c.old + c.size) (c.new + c.size) then
      growRight s w limit ⟨c.old, c.new, c.size + 1⟩
    else c

/-- The longest common stretch in a window, the first of several. -/
def longest (s : Sides) (w : Window) : Common :=
  let found := ((s.places.drop w.oldLo).take (w.oldHi - w.oldLo)).foldl (Search.step w)
    ⟨⟨w.oldLo, w.newLo, 0⟩, []⟩
  s.growRight w w.oldHi (s.growLeft w w.oldHi found.best)

/-- The common stretches in a window from left to right; `limit` bounds how often it is divided. -/
def commonIn (s : Sides) : Nat → Window → List Common
  | 0, _ => []
  | limit + 1, w =>
    let c := s.longest w
    if c.size = 0 then []
    else commonIn s limit ⟨w.oldLo, c.old, w.newLo, c.new⟩ ++ [c] ++
      commonIn s limit ⟨c.old + c.size, w.oldHi, c.new + c.size, w.newHi⟩

end Sides

/-- Joins a stretch to the one after it when they touch. -/
def joinCommon (c : Common) : List Common → List Common
  | [] => [c]
  | d :: rest =>
    if c.old + c.size = d.old ∧ c.new + c.size = d.new then
      ⟨c.old, c.new, c.size + d.size⟩ :: rest
    else c :: d :: rest

/-- The common stretches of two lists of lines, none touching the next. -/
def commonStretches (old new : List Text) : List Common :=
  ((Sides.ofLists old new).commonIn (old.length + 1) ⟨0, old.length, 0, new.length⟩).foldr
    joinCommon []

end SuiteAudit.Diff
