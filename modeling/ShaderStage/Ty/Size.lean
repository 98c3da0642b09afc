import ShaderStage.Ty.Basic

/-! # Natural sizes

The number of bytes a type takes as a member of a structure. There is no padding, and sizes are
words: they wrap. -/

namespace ShaderStage

set_option maxRecDepth 2000 in
mutual

/-- The size of a type, or the part of it that has none. -/
def Ty.naturalSize : Ty → Except Ty UInt32
  | .bool => .ok 4
  | .int type => .ok (type.width.toUInt32 / 8)
  | .char => .ok 1
  | .enum _ underlying => .ok (underlying.width.toUInt32 / 8)
  | .float width => .ok (width.toUInt32 / 8)
  | .vector count => .ok (4 * count.toUInt32)
  | .matrix4 => .ok 64
  | .array elem length => elem.naturalSize.map (· * length)
  | .struct _ members => members.naturalSize
  | t => .error t

/-- The size of members laid out one after the other. -/
def Members.naturalSize : Members → Except Ty UInt32
  | .nil => .ok 0
  | .cons _ type rest =>
    match type.naturalSize with
    | .error t => .error t
    | .ok size => rest.naturalSize.map (size + ·)

end

end ShaderStage
