import Lox.Diagnostic
import Lox.Fragment

set_option autoImplicit false

namespace Lox

structure Placed where
  fragment : Fragment
  line : Nat

namespace Placed

def lastLine (placed : Placed) : Nat := placed.line + placed.fragment.breaks

-- A token stands on the line where it ends; a fault is told of the line where it starts.
def token? (placed : Placed) : Option Token :=
  match placed.fragment.content with
  | .token kind => some ⟨kind, String.ofList placed.fragment.text, placed.lastLine⟩
  | _ => none

def diagnostic? (placed : Placed) : Option Diagnostic :=
  match placed.fragment.content with
  | .fault cause => some (.scan placed.line cause.message)
  | _ => none

def fromLine : Nat → List Fragment → List Placed
  | _, [] => []
  | line, fragment :: rest => ⟨fragment, line⟩ :: fromLine (line + fragment.breaks) rest

def endLine (placed : List Placed) : Nat := (placed.getLast?.map lastLine).getD 1

end Placed

structure Scan where
  tokens : List Token
  errors : List Diagnostic

def scan (source : String) : Scan :=
  let placed := Placed.fromLine 1 (Fragment.ofSource source.toList)
  { tokens := placed.filterMap Placed.token? ++ [.atEnd (Placed.endLine placed)]
    errors := placed.filterMap Placed.diagnostic? }

theorem from_line_reaches (line : Nat) (fragments : List Fragment) :
    ((Placed.fromLine line fragments).getLast?.map Placed.lastLine).getD line =
      line + (fragments.flatMap Fragment.text).count '\n' := by
  induction fragments generalizing line with
  | nil => rfl
  | cons fragment rest ih =>
    have next : ((Placed.fromLine line (fragment :: rest)).getLast?.map Placed.lastLine).getD line =
        ((Placed.fromLine (line + fragment.breaks) rest).getLast?.map Placed.lastLine).getD
          (line + fragment.breaks) := by
      rw [Placed.fromLine, List.getLast?_cons]
      cases (Placed.fromLine (line + fragment.breaks) rest).getLast? <;> rfl
    rw [next, ih, List.flatMap_cons, List.count_append, ← Nat.add_assoc]
    rfl

theorem end_line_source (source : List Char) :
    Placed.endLine (Placed.fromLine 1 (Fragment.ofSource source)) = 1 + source.count '\n' := by
  rw [Placed.endLine, from_line_reaches, Fragment.of_source_texts]

theorem scan_lines (source : String) :
    scan source =
      ⟨(Placed.fromLine 1 (Fragment.ofSource source.toList)).filterMap Placed.token? ++
          [.atEnd (1 + source.toList.count '\n')],
        (Placed.fromLine 1 (Fragment.ofSource source.toList)).filterMap Placed.diagnostic?⟩ := by
  rw [scan, end_line_source]

end Lox
