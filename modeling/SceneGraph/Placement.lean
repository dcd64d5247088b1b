import SceneGraph.Node.Basic

/-!
# Placement

A transform places its children: it scales them and turns them about a center, and then moves them.
`Node.matrix` is the matrix that takes points of a child to points of the parent.
-/

namespace SceneGraph

namespace Vector4

def scale (v : Vector4) (s : Float32) : Vector4 := ⟨v.x * s, v.y * s, v.z * s, v.w * s⟩

def add (v w : Vector4) : Vector4 := ⟨v.x + w.x, v.y + w.y, v.z + w.z, v.w + w.w⟩

end Vector4

namespace Matrix4

/-- The image of a vector. -/
def apply (m : Matrix4) (v : Vector4) : Vector4 :=
  (((m.c0.scale v.x).add (m.c1.scale v.y)).add (m.c2.scale v.z)).add (m.c3.scale v.w)

/-- First `b`, then `a`. -/
def mul (a b : Matrix4) : Matrix4 := ⟨a.apply b.c0, a.apply b.c1, a.apply b.c2, a.apply b.c3⟩

/-- The matrix that moves every point by a vector. -/
def shift (v : Vector3) : Matrix4 := { identity with c3 := ⟨v.x, v.y, v.z, 1⟩ }

/-- The matrix that stretches every axis by a factor. -/
def scaling (v : Vector3) : Matrix4 := ⟨⟨v.x, 0, 0, 0⟩, ⟨0, v.y, 0, 0⟩, ⟨0, 0, v.z, 0⟩, ⟨0, 0, 0, 1⟩⟩

/-- The turn that a unit quaternion stands for. -/
def ofQuaternion (q : Vector4) : Matrix4 :=
  let x2 := q.x + q.x
  let y2 := q.y + q.y
  let z2 := q.z + q.z
  let xx := q.x * x2
  let xy := q.x * y2
  let xz := q.x * z2
  let yy := q.y * y2
  let yz := q.y * z2
  let zz := q.z * z2
  let wx := q.w * x2
  let wy := q.w * y2
  let wz := q.w * z2
  ⟨⟨1 - (yy + zz), xy + wz, xz - wy, 0⟩, ⟨xy - wz, 1 - (xx + zz), yz + wx, 0⟩,
    ⟨xz + wy, yz - wx, 1 - (xx + yy), 0⟩, ⟨0, 0, 0, 1⟩⟩

end Matrix4

/-- The matrix of a transform. -/
def Node.matrix (n : Node) : Except NodeError Matrix4 := do
  let offset : Vector3 ← n.value .vector3 "translation"
  let rotation : Rotation ← n.value .rotation "rotation"
  let scale : Vector3 ← n.value .vector3 "scale"
  let center : Vector3 ← n.value .vector3 "center"
  return (((Matrix4.shift (offset.add center)).mul
    (.ofQuaternion rotation.toQuaternion)).mul (.scaling scale)).mul (.shift center.neg)

end SceneGraph
