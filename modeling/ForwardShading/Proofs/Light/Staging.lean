import ForwardShading.Proofs.Light.Dispatch

/-!
# Staged slots

A slot is a record that is written in place, with the groups that were written and its textures beside
it.  Once it is reset, what a light writes to it is the slot of that light, whatever was in it before
(`StagedSlot.writeDirectional_start`, `StagedSlot.writeOmni_start`, `StagedSlot.writeSpot_start`), and
it sets the uniforms of that slot (`StagedSlot.uniforms_staged`).  A light is written exactly where its
slot is there (`Staging.stage?_eq`).  With these, dispatches over staged slots do what a dispatcher does
(`Dispatcher.directional?_staging`, `Dispatcher.locals?_staging`).
-/

namespace ForwardShading

/-- A slot as lights are written to it: a record that is changed in place, the groups that were
written to it, and its textures. -/
structure StagedSlot where
  record : PackedSlot
  written : SlotField → Bool
  shadowMap : Option TextureHandle
  cookie : Option TextureHandle

namespace StagedSlot

/-- A slot that nothing was written to. -/
def blank : StagedSlot :=
  ⟨.zero, fun _ => false, none, none⟩

/-- Clears what a light has left in a slot. -/
def reset (s : StagedSlot) : StagedSlot :=
  { s with record := .zero, written := fun _ => false, shadowMap := none, cookie := none }

/-- Resets a slot for a light of the given color. -/
def start (s : StagedSlot) (color : Vec3) : StagedSlot :=
  { s.reset with record.color := color.extend 1 }

/-- The groups that are written once some more are. -/
def mark (s : StagedSlot) (fs : List SlotField) (f : SlotField) : Bool :=
  fs.contains f || s.written f

/-! ## Writers -/

/-- Writes the shadow of a directional light, with its own cascades or with one for all. -/
def writeCascades (s : StagedSlot) (shadow : Shadow) : StagedSlot :=
  let cascades := shadow.cascades.getD { palette := Vector.replicate 4 shadow.transform }
  let s :=
    { s with
      shadowMap := some shadow.map
      record.shadowMatrix := shadow.transform
      record.shadowPalette := cascades.palette
      record.cascadeDistances := cascades.distances
      record.shadow :=
        ⟨shadow.intensity, 0, Scalar.ofWord cascades.count, 1 - cascades.blend⟩
      record.softShadowParams := shadow.soft
      record.cameraParams := ⟨0, shadow.far, shadow.near, 1⟩
      record.shadowParams := ⟨shadow.resolution, shadow.normalBias, shadow.bias, 0⟩
      written := s.mark [.shadow, .shadowMatrix, .cascades] }
  if Scalar.lt 0 shadow.targetWidth then
    { s with
      record.shadow.y := shadow.penumbraSize / shadow.targetWidth * shadow.compensation
      written := s.mark [.searchArea] }
  else
    s

/-- Writes a directional light over a slot. -/
def writeDirectional (s : StagedSlot) (l : Light) (shadow : Option Shadow) (camera : Camera) :
    StagedSlot :=
  let direction := l.direction
  let s := { s with record.direction := direction.extend 0, written := s.mark [.direction] }
  let s :=
    if l.isArea then
      let far := camera.far
      let (halfWidth, halfHeight) := l.halfExtents
      { s with
        record.position := (camera.position - direction * far).extend 1
        record.halfWidth := (halfWidth * far).extend 0
        record.halfHeight := (halfHeight * far).extend 0
        written := s.mark [.position, .area] }
    else
      s
  match shadow with
  | some shadow => s.writeCascades shadow
  | none => s

/-- Writes what omni and spot lights have in common. -/
def writeCommon (s : StagedSlot) (l : Light) (shadow : Option Shadow) : StagedSlot :=
  let s :=
    { s with
      record.attenuation.x := l.range
      record.position := l.position.extend 1
      written := s.mark [.radius, .position] }
  let s :=
    if l.isArea then
      let (halfWidth, halfHeight) := l.halfExtents
      { s with
        record.halfWidth := halfWidth.extend 0
        record.halfHeight := halfHeight.extend 0
        written := s.mark [.area] }
    else
      s
  match shadow with
  | some shadow =>
    let inverseRange := if Scalar.lt 0 l.range then 1 / l.range else 0
    let s :=
      { s with
        shadowMap := some shadow.map
        record.shadowParams := ⟨shadow.resolution, shadow.normalBias, shadow.bias, inverseRange⟩
        record.shadow.x := shadow.intensity
        record.cameraParams := ⟨0, shadow.far, shadow.near, 0⟩
        written := s.mark [.shadow] }
    if Scalar.lt 0 shadow.targetWidth then
      { s with
        record.shadow.y := shadow.penumbraSize / shadow.targetWidth
        written := s.mark [.searchArea] }
    else
      s
  | none => s

/-- Writes an omni light over a slot. -/
def writeOmni (s : StagedSlot) (l : Light) (shadow : Option Shadow) (cookie : Option Cookie) :
    StagedSlot :=
  let s := s.writeCommon l shadow
  match cookie with
  | some cookie =>
    { s with
      cookie := some cookie.texture
      record.shadowMatrix := l.transform
      record.cookie.x := cookie.intensity
      written := s.mark [.cookie, .shadowMatrix] }
  | none => s

/-- Writes the cone of a spot light and the direction in which it points. -/
def writeCone (s : StagedSlot) (l : Light) : StagedSlot :=
  { s with
    record.attenuation.y := l.innerConeAngle.toRadians.cos
    record.attenuation.z := l.outerConeAngle.toRadians.cos
    record.direction := l.direction.extend 0
    written := s.mark [.cone, .direction] }

/-- Writes the shadow matrix of a spot light, and scales the search area that is there. -/
def writeSpotShadow (s : StagedSlot) (shadow : Shadow) : StagedSlot :=
  let s :=
    { s with record.shadowMatrix := shadow.transform, written := s.mark [.shadowMatrix] }
  if s.written .searchArea then
    { s with record.shadow.y := s.record.shadow.y * (1 / (shadow.fov.toRadians / 2).tan) }
  else
    s

/-- Writes the cookie of a spot light over a slot.  Its matrix is that of the shadow where there is
one. -/
def writeSpotCookie (s : StagedSlot) (l : Light) (shadow : Option Shadow) (cookie : Cookie) :
    StagedSlot :=
  let s :=
    if shadow.isNone then
      { s with record.shadowMatrix := l.spotCookieMatrix, written := s.mark [.shadowMatrix] }
    else
      s
  let s :=
    { s with
      cookie := some cookie.texture
      record.cookie.x := cookie.intensity
      written := s.mark [.cookie] }
  match cookie.transform with
  | some transform =>
    { s with
      record.cookieTransform := transform
      record.cookie.y := cookie.offset.x
      record.cookie.z := cookie.offset.y
      written := s.mark [.cookieTransform] }
  | none => s

/-- Writes a spot light over a slot. -/
def writeSpot (s : StagedSlot) (l : Light) (shadow : Option Shadow) (cookie : Option Cookie) :
    StagedSlot :=
  let s := (s.writeCommon l shadow).writeCone l
  let s :=
    match shadow with
    | some shadow => s.writeSpotShadow shadow
    | none => s
  match cookie with
  | some cookie => s.writeSpotCookie l shadow cookie
  | none => s

/-- Writes an omni or a spot light.  Of a directional light there is only the color. -/
def writeLocal (s : StagedSlot) (l : Light) (shadow : Option Shadow) (cookie : Option Cookie) :
    StagedSlot :=
  match l.kind with
  | .omni => s.writeOmni l shadow cookie
  | .spot => s.writeSpot l shadow cookie
  | .directional => s

/-! ## Uniforms of what was written -/

/-- The uniforms of a group.  A group with a texture sets it where there is one. -/
def groupUniforms (s : StagedSlot) : SlotField → List (LightUniform × UniformValue)
  | .direction => [(.direction, .vec3 s.record.direction.truncate)]
  | .position => [(.position, .vec3 s.record.position.truncate)]
  | .area =>
    [(.halfWidth, .vec3 s.record.halfWidth.truncate),
      (.halfHeight, .vec3 s.record.halfHeight.truncate)]
  | .radius => [(.radius, .float s.record.attenuation.x)]
  | .cone =>
    [(.innerConeAngle, .float s.record.attenuation.y),
      (.outerConeAngle, .float s.record.attenuation.z)]
  | .shadow =>
    (s.shadowMap.map fun t => (.shadowMap, .texture t)).toList ++
      [(.shadowParams, .vec4 s.record.shadowParams), (.shadowIntensity, .float s.record.shadow.x),
        (.cameraParams, .vec4 s.record.cameraParams)]
  | .searchArea => [(.shadowSearchArea, .float s.record.shadow.y)]
  | .shadowMatrix => [(.shadowMatrix, .mat4 s.record.shadowMatrix)]
  | .cascades =>
    [(.shadowMatrixPalette, .mat4s s.record.shadowPalette.toList),
      (.shadowCascadeDistances, .floats s.record.cascadeDistances.toList),
      (.shadowCascadeCount, .float s.record.shadow.z),
      (.shadowCascadeBlend, .float s.record.shadow.w),
      (.softShadowParams, .vec4 s.record.softShadowParams)]
  | .cookie =>
    (s.cookie.map fun t => (.cookie, .texture t)).toList ++
      [(.cookieIntensity, .float s.record.cookie.x)]
  | .cookieTransform =>
    [(.cookieMatrix, .vec4 s.record.cookieTransform),
      (.cookieOffset, .vec2 ⟨s.record.cookie.y, s.record.cookie.z⟩)]

/-- The uniforms that a slot sets: its color, and those of each group that was written. -/
def uniforms (s : StagedSlot) : List (LightUniform × UniformValue) :=
  (.color, .vec3 s.record.color.truncate) ::
    SlotField.all.flatMap fun f => if s.written f then s.groupUniforms f else []

/-- Sets the uniforms of a slot. -/
def commands (s : StagedSlot) (names : LightUniform → String) : List Command :=
  s.uniforms.map fun (u, value) => .uniform (names u) value

end StagedSlot

/-- A slot as it is staged. -/
def Slot.staged (s : Slot) : StagedSlot :=
  ⟨s.packed, fun f => f.isIn s, s.shadow.map (·.map), s.cookie.map (·.texture)⟩

namespace StagedSlot

variable (s : StagedSlot) (l : Light) (camera : Camera)

/-- Only the groups that were written are not data, and they are compared one by one. -/
theorem eq_of_written {s t : StagedSlot} (h : { s with written := t.written } = t)
    (hw : ∀ f, s.written f = t.written f) : s = t := by
  rw [← h, ← funext hw]

/-- A light that writes nothing leaves its color. -/
theorem start_eq_staged (color : Vec3) : s.start color = ({ color } : Slot).staged :=
  eq_of_written rfl fun f => by cases f <;> rfl

theorem writeDirectional_start (shadows : Bool) :
    (s.start l.color).writeDirectional l (l.shadow.filter fun _ => shadows) camera =
      (Slot.directional shadows camera l).staged := by
  unfold writeDirectional Slot.directional
  generalize l.shadow.filter (fun _ => shadows) = shadow
  cases l.isArea <;> cases shadow with
  | none => exact eq_of_written rfl fun f => by cases f <;> rfl
  | some shadow =>
    unfold writeCascades
    simp only [Option.bind_some]
    cases Scalar.lt 0 shadow.targetWidth <;> exact eq_of_written rfl fun f => by cases f <;> rfl

theorem writeCommon_start (shadow : Option Shadow) :
    (s.start l.color).writeCommon l shadow = (Slot.ofLocal l shadow).staged := by
  unfold writeCommon Slot.ofLocal
  cases l.isArea <;> cases shadow with
  | none => exact eq_of_written rfl fun f => by cases f <;> rfl
  | some shadow =>
    simp only [Option.bind_some]
    cases Scalar.lt 0 shadow.targetWidth <;> exact eq_of_written rfl fun f => by cases f <;> rfl

theorem writeOmni_start (shadows cookies : Bool) :
    (s.start l.color).writeOmni l (l.shadow.filter fun _ => shadows)
        (l.cookie.filter fun _ => cookies) =
      (Slot.omni shadows cookies l).staged := by
  unfold writeOmni Slot.omni
  rw [writeCommon_start]
  cases l.cookie.filter fun _ => cookies with
  | none => rfl
  | some cookie => exact eq_of_written rfl fun f => by cases f <;> rfl

theorem writeCone_staged (s : Slot) :
    s.staged.writeCone l =
      Slot.staged
        { s with
          direction := some l.direction
          cone := some (l.innerConeAngle.toRadians.cos, l.outerConeAngle.toRadians.cos) } :=
  eq_of_written rfl fun f => by cases f <;> rfl

theorem writeSpotShadow_staged (s : Slot) (shadow : Shadow) :
    s.staged.writeSpotShadow shadow =
      Slot.staged
        { s with
          shadowMatrix := some shadow.transform
          searchArea := s.searchArea.map (· * (1 / (shadow.fov.toRadians / 2).tan)) } := by
  obtain ⟨_, _, _, _, _, _, _, searchArea, _, _, _, _⟩ := s
  cases searchArea <;> exact eq_of_written rfl fun f => by cases f <;> rfl

theorem writeSpotCookie_staged (s : Slot) (shadow : Option Shadow) (cookie : Cookie) :
    s.staged.writeSpotCookie l shadow cookie =
      Slot.staged
        { s with
          shadowMatrix := if shadow.isNone then some l.spotCookieMatrix else s.shadowMatrix
          cookie := some ⟨cookie.texture, cookie.intensity⟩
          cookieTransform := (cookie.transform.map (·, cookie.offset)).or s.cookieTransform } := by
  obtain ⟨_, _, transform, _⟩ := cookie
  cases shadow <;> cases transform <;>
    exact eq_of_written rfl fun f => by cases f <;> rfl

theorem writeSpot_start (shadows cookies : Bool) :
    (s.start l.color).writeSpot l (l.shadow.filter fun _ => shadows)
        (l.cookie.filter fun _ => cookies) =
      (Slot.spot shadows cookies l).staged := by
  unfold writeSpot Slot.spot
  rw [writeCommon_start, writeCone_staged]
  -- Nothing in front of the cookie writes its transform, so it is none or that of the cookie.
  have htransform : ∀ shadow, (Slot.ofLocal l shadow).cookieTransform = none := fun _ => rfl
  cases l.shadow.filter fun _ => shadows <;> cases l.cookie.filter fun _ => cookies <;>
    simp only [writeSpotShadow_staged, writeSpotCookie_staged, htransform, Option.or_none] <;> rfl

/-- The flags of a staged slot set the uniforms of the groups that the slot has. -/
theorem uniforms_staged (s : Slot) : s.staged.uniforms = s.uniforms := by
  obtain ⟨color, direction, position, area, radius, cone, shadow, searchArea, shadowMatrix, cascades,
    cookie, cookieTransform⟩ := s
  simp only [uniforms, Slot.uniforms, SlotField.all, List.flatMap_cons, List.flatMap_nil,
    List.append_nil, List.append_assoc, List.singleton_append]
  congr 12
  · cases direction <;> rfl
  · cases position <;> rfl
  · cases area <;> rfl
  · cases radius <;> rfl
  · cases cone <;> rfl
  · cases shadow <;> rfl
  · cases searchArea <;> rfl
  · cases shadowMatrix <;> rfl
  · cases cascades <;> rfl
  · cases cookie <;> rfl
  · cases cookieTransform <;> rfl

end StagedSlot

/-! ## Dispatch over staged slots -/

/-- Slots that are written in place, with the names of their uniforms. -/
structure Staging where
  maxSlots : Nat
  shadows : Bool
  cookies : Bool
  slots : Vector StagedSlot maxSlots
  names : NameTable

/-- What a dispatch over staged slots did. -/
structure Staged where
  staging : Staging
  count : Nat
  commands : List Command

namespace Staging

/-- Writes a light of the given color to a slot, and uploads what is then in it.  There is no result
where the slot or its names are missing. -/
def stage? (s : Staging) (number : Nat) (color : Vec3) (write : StagedSlot → StagedSlot) :
    Option (Staging × List Command) := do
  let names := s.names.growTo number
  let slot ← s.slots[number]?
  let slots := s.slots.setIfInBounds number (write (slot.start color))
  let slot ← slots[number]?
  let row ← names.row? number
  some ({ s with slots, names }, slot.commands row)

/-- A slot is written and uploaded exactly where it is there. -/
theorem stage?_eq (s : Staging) (number : Nat) (color : Vec3) (write : StagedSlot → StagedSlot) :
    s.stage? number color write =
      if h : number < s.maxSlots then
        let slot := write (s.slots[number].start color)
        some
          ({ s with
              slots := s.slots.setIfInBounds number slot
              names := s.names.growTo number }, slot.commands (LightUniform.name number))
      else
        none := by
  unfold stage?
  split_ifs with h
  · simp only [Vector.getElem?_eq_getElem h, Vector.getElem_setIfInBounds_self h,
      s.names.row?_growTo number, Option.bind_eq_bind, Option.bind_some]
  · rw [Vector.getElem?_eq_none (Nat.not_lt.1 h)]
    rfl

/-- Writes lights to the slots from `number` on, each to the next one, as long as there are slots. -/
def stageAll? (write : Light → StagedSlot → StagedSlot) (s : Staging) (number : Nat) :
    List Light → Option Staged
  | [] => some ⟨s, number, []⟩
  | l :: ls =>
    if s.maxSlots ≤ number then
      stageAll? write s number ls
    else do
      let (s, commands) ← s.stage? number l.color (write l)
      let rest ← stageAll? write s (number + 1) ls
      some { rest with commands := commands ++ rest.commands }

/-- Writes the directional lights that affect a mask in place. -/
def directional? (s : Staging) (ls : List Light) (mask : UInt32) (camera : Camera) :
    Option Staged :=
  stageAll? (fun l slot => slot.writeDirectional l (l.shadow.filter fun _ => s.shadows) camera) s 0
    (ls.filter (·.affects mask))

/-- Writes the local lights that affect a mask in place. -/
def locals? (s : Staging) (ls : SortedLights) (mask : UInt32) (start : Nat) : Option Staged :=
  stageAll? (fun l slot => slot.writeLocal l (l.shadow.filter fun _ => s.shadows)
    (l.cookie.filter fun _ => s.cookies)) s start (ls.locals.filter (·.affects mask))

end Staging

/-- A dispatcher with its slots as they are staged. -/
def Dispatcher.staging (d : Dispatcher) : Staging where
  maxSlots := d.maxSlots
  shadows := d.shadows
  cookies := d.cookies
  slots := d.slots.map fun s => (s.map Slot.staged).getD .blank
  names := d.names

/-- What a dispatch did, with its slots as they are in place. -/
def Dispatched.staged (r : Dispatched) : Staged :=
  ⟨r.dispatcher.staging, r.count, r.commands⟩

namespace Dispatcher

variable {d : Dispatcher} {number : Nat}

/-- What was in a slot before is gone once a light is written to it. -/
theorem writeSlot_beginSlot (h : number < d.maxSlots) (light : Slot) :
    (d.beginSlot number light.color).writeSlot number light =
      { d with
        slots := d.slots.setIfInBounds number (some light)
        names := d.names.growTo number } := by
  rw [writeSlot, slot?_beginSlot h, Option.map_some, Slot.writeGroups_cleared]
  simp only [beginSlot, Vector.setIfInBounds_setIfInBounds]

/-- Writing a light in place, over whatever is there, leaves the slot of the light. -/
theorem stage?_staging (h : number < d.maxSlots) {light : Slot} {write : StagedSlot → StagedSlot}
    (hwrite : ∀ s : StagedSlot, write (s.start light.color) = light.staged) :
    d.staging.stage? number light.color write =
      some (((d.beginSlot number light.color).writeSlot number light).staging,
        ((d.beginSlot number light.color).writeSlot number light).upload number) := by
  have hcommands : light.staged.commands (LightUniform.name number) =
      light.commands (LightUniform.name number) := by
    rw [StagedSlot.commands, StagedSlot.uniforms_staged, Slot.commands]
  have hstaged : number < d.staging.maxSlots := h
  rw [Staging.stage?_eq, dif_pos hstaged, upload_writeSlot h, writeSlot_beginSlot h]
  simp only [hwrite, hcommands, staging, Vector.map_setIfInBounds]
  rfl

/-- Lights that are written in place one after the other are dispatched, where each of them is written
as the slot that is made of it. -/
theorem stageAll?_staging {write : Light → StagedSlot → StagedSlot} {slot : Light → Slot}
    {ls : List Light} (hcolor : ∀ l, (slot l).color = l.color)
    (hwrite : ∀ l ∈ ls, ∀ s : StagedSlot, write l (s.start l.color) = (slot l).staged)
    (d : Dispatcher) (start : Nat) :
    Staging.stageAll? write d.staging start ls = some (d.dispatch start (ls.map slot)).staged := by
  induction ls generalizing d start with
  | nil => rfl
  | cons l ls ih =>
    obtain ⟨hl, hls⟩ := List.forall_mem_cons.1 hwrite
    rw [Staging.stageAll?, List.map_cons, dispatch]
    by_cases h : start < d.maxSlots
    · have hwrite : ∀ s : StagedSlot, write l (s.start (slot l).color) = (slot l).staged :=
        fun s => by rw [hcolor, hl s]
      have hfull : ¬ d.staging.maxSlots ≤ start := Nat.not_le.2 h
      rw [if_neg hfull, if_pos h, ← hcolor l, stage?_staging h hwrite, Option.bind_eq_bind,
        Option.bind_some]
      simp only [ih hls, Option.bind_eq_bind, Option.bind_some]
      rfl
    · have hfull : d.staging.maxSlots ≤ start := Nat.not_lt.1 h
      rw [if_pos hfull, if_neg h]
      exact ih hls d start

theorem directional?_staging (d : Dispatcher) (ls : List Light) (mask : UInt32) (camera : Camera) :
    d.staging.directional? ls mask camera = some (d.dispatchDirectional ls mask camera).staged :=
  stageAll?_staging (fun _ => rfl) (fun l _ s => s.writeDirectional_start l camera d.shadows) d 0

/-- Local lights are written as their kind has it, a directional one among them by its color alone. -/
theorem locals?_staging (d : Dispatcher) (ls : SortedLights) (mask : UInt32) (camera : Camera)
    (start : Nat) :
    d.staging.locals? ls mask start = some (d.dispatchLocal ls mask camera start).staged := by
  refine stageAll?_staging (fun l => ?_) (fun l _ s => ?_) d start
  · unfold Slot.ofLight
    cases l.kind <;> rfl
  · cases hkind : l.kind with
    | directional =>
      simp only [StagedSlot.writeLocal, Slot.ofLight, hkind]
      exact s.start_eq_staged l.color
    | omni =>
      simp only [StagedSlot.writeLocal, Slot.ofLight, hkind]
      exact s.writeOmni_start l d.shadows d.cookies
    | spot =>
      simp only [StagedSlot.writeLocal, Slot.ofLight, hkind]
      exact s.writeSpot_start l d.shadows d.cookies

end Dispatcher

end ForwardShading
