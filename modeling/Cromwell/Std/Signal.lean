/-!
# Edges of a two-level signal

A signal is low or high. What is reported of a step is the edge it takes: a rise,
a fall, or nothing. Whatever the order of the steps, the edges reported alternate,
and the level at the start says which one comes first.
-/

namespace Cromwell.Std

/-- What is reported of one step between two levels. -/
inductive Edge : Bool → Int → Bool → Prop where
  | steady (level : Bool) : Edge level 0 level
  | rise : Edge false 1 true
  | fall : Edge true (-1) false

/-- Edges that alternate, from a given one on. -/
def Alternates : Int → List Int → Prop
  | _, [] => True
  | edge, first :: rest => first = edge ∧ Alternates (-edge) rest

/-- The reports of a signal between two levels. -/
inductive Signal : Bool → List Int → Bool → Prop where
  | nil (level : Bool) : Signal level [] level
  | cons {level middle last : Bool} {report : Int} {reports : List Int}
      (edge : Edge level report middle) (rest : Signal middle reports last) :
      Signal level (report :: reports) last

/-- The edge that comes next. -/
def nextEdge (level : Bool) : Int := if level then -1 else 1

/-- The edges of a signal alternate. -/
theorem Signal.alternates {level last : Bool} {reports : List Int}
    (signal : Signal level reports last) :
    Alternates (nextEdge level) (reports.filter (· ≠ 0)) := by
  induction signal with
  | nil level => trivial
  | cons edge rest ih =>
      cases edge with
      | steady level => simpa using ih
      | rise => simpa [nextEdge, Alternates] using ih
      | fall => simpa [nextEdge, Alternates] using ih

end Cromwell.Std
