import ServiceDirectory.Bytes

/-! # Key ranges

A range reaches from a key up to and not including an end. The empty end stands for the key alone,
and the end that is a single zero byte for no bound at all. `prefixEnd` is the end of the range of
all keys with a given beginning.
-/

namespace ServiceDirectory

def unbounded : Bytes := [0]

/-- The bytes without those at the end that cannot be raised, the last one raised by one. The
argument is in reverse. -/
def raiseLast : List UInt8 → List UInt8
  | [] => []
  | b :: r => if b < 255 then (b + 1) :: r else raiseLast r

/-- The last byte that can be raised is, and what follows it is dropped. -/
def prefixEnd (p : Bytes) : Bytes :=
  match (raiseLast p.reverse).reverse with
  | [] => unbounded
  | e => e

structure KeyRange where
  start : Bytes
  stop : Bytes
  deriving DecidableEq, Inhabited

namespace KeyRange

def withPrefix (p : Bytes) : KeyRange := ⟨p, prefixEnd p⟩

def contains (r : KeyRange) (key : Bytes) : Bool :=
  if r.stop.isEmpty then key == r.start
  else (compare r.start key).isLE && (r.stop == unbounded || compare key r.stop == .lt)

end KeyRange

end ServiceDirectory
