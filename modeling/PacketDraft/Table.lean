/-!
# Tables

A table is a list of keys with values. Each key stands in it once, where it was first put; putting a
value under a key that is there replaces the value.
-/

namespace PacketDraft.Table

/-- The table with a value under a key. -/
def put {α : Type} (key : String) (value : α) : List (String × α) → List (String × α)
  | [] => [(key, value)]
  | (k, v) :: rest => if k = key then (k, value) :: rest else (k, v) :: put key value rest

end PacketDraft.Table
