import FramedChannel.Package.Decoder

/-!
# Packages of a fixed size

Every package has the same, positive, number of bytes.
-/

namespace FramedChannel

/-- The decoder of packages of `size` bytes. -/
structure FixedSize where
  size : Nat
  deriving DecidableEq, Repr

namespace FixedSize

/-- The decoder for a package size, which must be positive. -/
def of (size : Nat) : Except Breach FixedSize :=
  if size = 0 then .error .emptyPackage else .ok { size }

instance : PackageDecoder FixedSize Bytes where
  attempt d bytes :=
    if bytes.length < d.size then .needMore d else .complete d d.size (bytes.take d.size)
  next? _ := none
  reset d := d
  discards _ := false
  withLimit d _ := d

end FixedSize

end FramedChannel
