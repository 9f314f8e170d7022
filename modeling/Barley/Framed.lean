/-
Records in a file.  The header of a record has a fixed size and tells how long
its data is, so a reader finds the next record without knowing the data.
-/
import Mathlib.Data.List.Basic

namespace Barley

namespace Framed

/-- A header with as much data as it tells. -/
structure Record {B : Type} (size : Nat) (dataLen : List B → Nat) where
  header : List B
  data : List B
  length_header : header.length = size
  length_data : data.length = dataLen header

variable {B : Type} {size : Nat} {dataLen : List B → Nat}

def Record.bytes (record : Record size dataLen) : List B :=
  record.header ++ record.data

/-- The records behind each other. -/
def bytes (records : List (Record size dataLen)) : List B :=
  records.flatMap Record.bytes

theorem bytes_cons (record : Record size dataLen)
    (records : List (Record size dataLen)) :
    bytes (record :: records) = record.bytes ++ bytes records := rfl

theorem bytes_append (records more : List (Record size dataLen)) :
    bytes (records ++ more) = bytes records ++ bytes more :=
  List.flatMap_append

section Reading

variable (record : Record size dataLen) (rest : List B)

theorem Record.take_bytes :
    (record.bytes ++ rest).take size = record.header := by
  rw [bytes, List.append_assoc]
  exact List.take_left' record.length_header

/-- The reader is at the next record. -/
theorem Record.drop_bytes :
    (record.bytes ++ rest).drop (size + dataLen record.header) = rest := by
  have hlength : record.bytes.length = size + dataLen record.header := by
    rw [bytes, List.length_append, record.length_header, record.length_data]
  exact List.drop_left' hlength

theorem Record.size_le : size ≤ (record.bytes ++ rest).length := by
  rw [bytes, List.length_append, List.length_append, record.length_header]
  omega

end Reading

end Framed

end Barley
