/-!
# Access rights

What may be done with a field from outside: read its changes along a route (`get`), set it (`set`),
and whether a change is put before the node's behaviour first (`explicit`). A field without any of
them can still be given a value while its document is read.
-/

namespace SceneGraph

/-- The access rights of a field. -/
structure Access where
  get : Bool := false
  set : Bool := false
  explicit : Bool := false
  deriving DecidableEq, Repr

namespace Access

def none : Access := {}
def getOnly : Access := { get := true }
def setOnly : Access := { set := true }
def getSet : Access := { get := true, set := true }
def setExplicit : Access := { set := true, explicit := true }
def all : Access := { get := true, set := true, explicit := true }

/-- Every right of `b` is one of `a`. -/
def contains (a b : Access) : Bool := (a.get || !b.get) && (a.set || !b.set) && (a.explicit || !b.explicit)

/-- The rights of either. -/
def union (a b : Access) : Access := ⟨a.get || b.get, a.set || b.set, a.explicit || b.explicit⟩

/-- The rights as a number, one bit each. -/
def bits (a : Access) : Nat := a.get.toNat + 2 * a.set.toNat + 4 * a.explicit.toNat

/-- The rights in messages. -/
def text (a : Access) : String :=
  let words := (if a.get then ["GET"] else []) ++ (if a.set then ["SET"] else []) ++
    (if a.explicit then ["EXPLICIT_NOTIFICATION"] else [])
  if words.isEmpty then "NONE" else "|".intercalate words

/-- The rights as diagnostics show them. -/
def debugText (a : Access) : String := s!"Access({a.text})"

theorem contains_iff {a b : Access} :
    a.contains b = true ↔
      (b.get = true → a.get = true) ∧ (b.set = true → a.set = true) ∧
        (b.explicit = true → a.explicit = true) := by
  obtain ⟨ag, as, ae⟩ := a
  obtain ⟨bg, bs, be⟩ := b
  revert ag as ae bg bs be
  decide

end Access

end SceneGraph
