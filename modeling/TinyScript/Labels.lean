import TinyScript.Decimal.Integer

/-!
# Labels

Names for places in an assembly listing.  A label is a stem and a number, and all numbers come from
one counter, so a number never occurs twice, whatever the stems are.
-/

namespace TinyScript

structure Labels where
  allocated : Nat := 0
deriving DecidableEq

namespace Labels

def label (stem : String) (n : Nat) : String := stem ++ Decimal.integer n

/-- a label that was not taken, and the labels with it -/
def fresh (labels : Labels) (stem : String) : String × Labels :=
  (label stem labels.allocated, ⟨labels.allocated + 1⟩)

/-- the labels for some stems, one after the other, each with what is taken after it -/
def freshAll : Labels → List String → List (String × Labels)
  | _, [] => []
  | labels, stem :: stems => labels.fresh stem :: (labels.fresh stem).2.freshAll stems

end Labels

end TinyScript
