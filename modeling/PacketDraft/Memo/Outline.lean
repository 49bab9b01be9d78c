import PacketDraft.Document.Element
import PacketDraft.Fault

/-!
# The outline of a memo

Headings give sections one after the other, each with a depth. A section of depth `d` lies in the
latest one of depth `d - 1` before it.
-/

namespace PacketDraft.Memo

open Document

/-- A section and the depth of its heading. -/
abbrev Headed := Int × Element

/-- Where the section is found in which the `i`-th one of a sequence lies. -/
def parentIndex? (depths : List Int) (i : Nat) : Option Nat := do
  let depth ← depths[i]?
  (List.range i).reverse.find? fun j => depths[j]? == some (depth - 1)

/-- The places of the sections that lie directly in the `i`-th one. -/
def childIndices (depths : List Int) (i : Nat) : List Nat :=
  (List.range depths.length).filter fun j =>
    (match depths[j]? with | some d => 1 < d | none => false) && parentIndex? depths j == some i

/-- A section with further ones at the end of its list of sections, if it has such a list. -/
def addSections (parent : Element) (inner : List Element) : Element :=
  match parent.part? "sections" with
  | some (.many present) => parent.setPart "sections" (.many (present ++ inner))
  | _ => parent

/-- The `i`-th section with all that lies in it, down to a number of levels. -/
def nest (sections : List Headed) : Nat → Nat → Option Element
  | 0, _ => none
  | levels + 1, i => do
    let (_, own) ← sections[i]?
    return addSections own
      ((childIndices (sections.map (·.1)) i).filterMap (nest sections levels))

/-- The sections of depth 1 with all that lies in them. There has to be one, and every deeper section
has to lie in another. -/
def outline (sections : List Headed) : Except Fault (List Element) :=
  let depths := sections.map (·.1)
  let places := List.range depths.length
  let isTop i := depths[i]? == some 1
  let isDeep i := match depths[i]? with | some d => decide (1 < d) | none => false
  if places.any (fun i => isDeep i && (parentIndex? depths i).isNone) then .error .notFound
  else if !places.any isTop then .error .notFound
  else .ok ((places.filter isTop).filterMap (nest sections (sections.length + 1)))

end PacketDraft.Memo
