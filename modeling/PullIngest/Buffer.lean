/-!
# Buffers

A sequence of bytes that grows at its end. The bytes are kept newest first and their number is
kept with them, so that adding to a buffer costs no more than what is added.
-/

namespace PullIngest

/-- A growing sequence of bytes. -/
structure Buffer where
  newestFirst : List UInt8 := []
  size : Nat := 0
  size_eq : size = newestFirst.length := by rfl

namespace Buffer

/-- The buffer without bytes. -/
def empty : Buffer := {}

/-- The bytes, oldest first. -/
def toList (b : Buffer) : List UInt8 := b.newestFirst.reverse

/-- Add bytes at the end. -/
def append (b : Buffer) (data : List UInt8) : Buffer where
  newestFirst := data.reverseAux b.newestFirst
  size := b.size + data.length
  size_eq := by simp [List.reverseAux_eq, b.size_eq, Nat.add_comm]

@[simp] theorem toList_empty : empty.toList = [] := rfl

@[simp] theorem toList_append (b : Buffer) (data : List UInt8) :
    (b.append data).toList = b.toList ++ data := by
  simp [toList, append, List.reverseAux_eq]

@[simp] theorem length_toList (b : Buffer) : b.toList.length = b.size := by
  simp [toList, b.size_eq]

end Buffer

end PullIngest
