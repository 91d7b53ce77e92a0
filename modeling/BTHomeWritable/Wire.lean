import BTHomeWritable.Lib.LittleEndian

/-!
# BTHome objects on the wire

What both implementations mean by an object: its id, then its value bytes in
BTHome's own encoding, the length byte of a variable-length object among them.
-/

namespace BTHomeWritable

/-- An object id and its value bytes. -/
structure Obj where
  id : UInt8
  value : Bytes
  deriving DecidableEq, Inhabited

/-- Objects one after the other. -/
def encode (objects : List Obj) : Bytes := objects.flatMap fun o => o.id :: o.value

end BTHomeWritable
