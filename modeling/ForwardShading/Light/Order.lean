import ForwardShading.Light.Basic

/-!
# Lights of a layer

The lights of a layer by kind. Local lights stand in the order of their importance, so that the
first ones are the ones to keep when there is not room for all.
-/

namespace ForwardShading

namespace Light

/-- Whether `a` is more important than `b`: it has the higher priority, or the same and is nearer. A
distance that is not a number is as near as any. -/
def outranks (camera : Vec3) (a b : Light) : Bool :=
  b.priority < a.priority ||
    a.priority == b.priority &&
      (a.position.distanceSquared camera).lt (b.position.distanceSquared camera)

/-- Puts a light in front of the less important ones at the end of a list, which is given from its
end. -/
def settle (camera : Vec3) (l : Light) : List Light → List Light
  | [] => [l]
  | m :: ms => if l.outranks camera m then m :: settle camera l ms else l :: m :: ms

/-- Sorts lights by importance. Lights of the same importance keep their order. -/
def byImportance (camera : Vec3) (ls : List Light) : List Light :=
  (ls.foldl (fun sorted l => l.settle camera sorted) []).reverse

end Light

/-- The lights of a layer, split by kind. -/
structure SortedLights where
  directional : List Light
  omni : List Light
  spot : List Light
  deriving DecidableEq, Repr

/-- What programs depend on in a light. -/
structure LightFingerprint where
  kind : LightKind
  shape : LightShape
  mask : UInt32
  castsShadows : Bool
  hasCookie : Bool
  cascades : Option UInt32
  deriving DecidableEq, Repr

/-- What programs depend on in one light. -/
def Light.fingerprint (l : Light) : LightFingerprint where
  kind := l.kind
  shape := l.shape
  mask := l.mask
  castsShadows := l.castsShadows
  hasCookie := l.cookie.isSome
  cascades := (l.shadow.bind (·.cascades)).map (·.count)

namespace SortedLights

/-- Splits lights by kind and sorts the local ones. -/
def ofLights (camera : Vec3) (ls : List Light) : SortedLights where
  directional := ls.filter (·.kind = .directional)
  omni := Light.byImportance camera (ls.filter (·.kind = .omni))
  spot := Light.byImportance camera (ls.filter (·.kind = .spot))

/-- Whether there are no lights of any kind. -/
def isEmpty (s : SortedLights) : Bool :=
  s.directional.isEmpty && s.omni.isEmpty && s.spot.isEmpty

/-- The local lights, in the order in which they are written. -/
def locals (s : SortedLights) : List Light :=
  s.omni ++ s.spot

/-- The local lights that have a shadow map. -/
def localShadowCasters (s : SortedLights) : List Light :=
  s.locals.filter (·.castsShadows)

/-- What programs depend on in the lights. With clustered lighting that is the directional ones. -/
def fingerprint (s : SortedLights) (clustered : Bool) : List LightFingerprint :=
  (s.directional ++ if clustered then [] else s.locals).map (·.fingerprint)

end SortedLights

end ForwardShading
